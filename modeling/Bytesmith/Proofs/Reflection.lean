import Mathlib.Data.List.Find
import Bytesmith.Proofs.Dispatch
import Bytesmith.Proofs.Hierarchy

namespace Bytesmith.Build

open Code Outcome Relation

namespace Draft

def BuiltOn (d : Draft) (a b : Nat) : Prop :=
  ∃ t, d.types[a]? = some t ∧ b ∈ t.interfaces ++ t.base.toList

variable {d : Draft} {m : Module}

theorem reflTransGen_of_mem_lineageFrom {steps a b : Nat} (h : b ∈ d.lineageFrom steps a) :
    ReflTransGen d.BuiltOn a b := by
  induction steps generalizing a with
  | zero => cases h
  | succ steps ih =>
    rw [lineageFrom] at h
    cases ht : d.types[a]? with
    | none => simp [ht] at h
    | some t =>
      simp only [ht] at h
      obtain rfl | h := List.mem_cons.mp h
      · exact .refl
      · obtain ⟨x, hx, h⟩ := List.mem_flatMap.mp h
        exact .head ⟨t, ht, hx⟩ (ih h)

namespace Listed

theorem lt_of_builtOn (hl : d.Listed) {a b : Nat} (h : d.BuiltOn a b) : b < a := by
  obtain ⟨t, ht, hb⟩ := h
  exact (hl a t ht).bases b hb

theorem le_of_reflTransGen (hl : d.Listed) {a b : Nat} (h : ReflTransGen d.BuiltOn a b) :
    b ≤ a := by
  induction h with
  | refl => exact Nat.le_refl a
  | tail _ hstep ih => exact Nat.le_trans (Nat.le_of_lt (hl.lt_of_builtOn hstep)) ih

theorem mem_lineageFrom (hl : d.Listed) {steps a b : Nat} (h : ReflTransGen d.BuiltOn a b)
    (ha : a < d.types.size) (hsteps : a < steps) : b ∈ d.lineageFrom steps a := by
  induction h using ReflTransGen.head_induction_on generalizing steps with
  | refl =>
    obtain ⟨n, rfl⟩ : ∃ n, steps = n + 1 := ⟨steps - 1, by omega⟩
    rw [lineageFrom, Array.getElem?_eq_getElem ha]
    exact .head _
  | @head a x hstep _ ih =>
    have hlt := hl.lt_of_builtOn hstep
    obtain ⟨n, rfl⟩ : ∃ n, steps = n + 1 := ⟨steps - 1, by omega⟩
    obtain ⟨t, ht, hx⟩ := hstep
    rw [lineageFrom, ht]
    exact .tail _ (List.mem_flatMap.mpr ⟨x, hx, ih (Nat.lt_trans hlt ha) (by omega)⟩)

theorem isSubtype_iff (hl : d.Listed) {a b : Nat} (ha : a < d.types.size) :
    d.isSubtype a b = true ↔ ReflTransGen d.BuiltOn a b := by
  rw [isSubtype, List.contains_iff_mem]
  exact ⟨reflTransGen_of_mem_lineageFrom, fun h => hl.mem_lineageFrom h ha ha⟩

theorem isPartialOrder (hl : d.Listed) :
    IsPartialOrder (Fin d.types.size) fun a b => d.isSubtype a b = true where
  refl a := (hl.isSubtype_iff a.isLt).mpr .refl
  trans a b c hab hbc := by
    rw [hl.isSubtype_iff a.isLt] at hab ⊢
    rw [hl.isSubtype_iff b.isLt] at hbc
    exact hab.trans hbc
  antisymm a b hab hba := by
    rw [hl.isSubtype_iff a.isLt] at hab
    rw [hl.isSubtype_iff b.isLt] at hba
    exact Fin.ext (Nat.le_antisymm (hl.le_of_reflTransGen hba) (hl.le_of_reflTransGen hab))

end Listed

def entry? (d : Draft) (id : Nat) : Option PropertyEntry :=
  d.properties[id]?.map fun e =>
    ⟨e.name, e.getter.map (·.toUInt32), e.setter.map (·.toUInt32)⟩

theorem property?_toClass (name : String) (t : TypeDef) :
    (d.toClass t).property? name = (d.declaredProperty? name t).bind d.entry? := by
  rw [ClassEntry.property?, toClass, declaredProperty?, List.find?_filterMap]
  refine congrArg (Option.bind · _) (congrArg (List.find? · _) (funext fun p => ?_))
  cases d.properties[p]? <;> rfl

theorem exists_of_declaredProperty? {name : String} {t : TypeDef} {id : Nat}
    (h : d.declaredProperty? name t = some id) : ∃ e, d.properties[id]? = some e := by
  have hnamed := List.find?_some h
  obtain ⟨e, he, -⟩ := (Option.any_eq_true ..).mp hnamed
  exact ⟨e, he⟩

namespace Tabulates

theorem builtOn_of_class (h : d.Tabulates m) (hl : d.Listed) {a b : UInt32} (hab : m.BuiltOn a b) :
    d.BuiltOn a.toNat b.toNat := by
  obtain ⟨c, hc, hb⟩ := hab
  obtain ⟨t, ht, rfl⟩ := h.type_of_class? hc
  have hlist : (d.toClass t).interfaces ++ (d.toClass t).parent.toList =
      (t.interfaces ++ t.base.toList).map (·.toUInt32) := by
    rw [List.map_append, toClass]
    cases t.base <;> rfl
  rw [hlist] at hb
  obtain ⟨x, hx, rfl⟩ := List.mem_map.mp hb
  have hlt : x < 2 ^ 32 := Nat.lt_trans ((hl _ t ht).bases x hx) a.toNat_lt
  have hword : x.toUInt32.toNat = x := Nat.mod_eq_of_lt hlt
  exact ⟨t, ht, hword.symm ▸ hx⟩

theorem class_of_builtOn (h : d.Tabulates m) {a : UInt32} {b : Nat} (hab : d.BuiltOn a.toNat b) :
    m.BuiltOn a b.toUInt32 := by
  obtain ⟨t, ht, hb⟩ := hab
  refine ⟨d.toClass t, ?_, ?_⟩
  · have hclass := h.class?_of_lt a.toNat_lt ht
    rwa [show a.toNat.toUInt32 = a by simp] at hclass
  · obtain hb | hb := List.mem_append.mp hb
    · exact List.mem_append_left _ (List.mem_map_of_mem hb)
    · refine List.mem_append_right _ (Option.mem_toList.mpr ?_)
      rw [toClass, Option.mem_toList.mp hb, Option.map_some]

theorem reflTransGen_iff (h : d.Tabulates m) (hl : d.Listed) {a b : UInt32} :
    ReflTransGen m.BuiltOn a b ↔ ReflTransGen d.BuiltOn a.toNat b.toNat := by
  constructor
  · exact fun hab => hab.lift UInt32.toNat fun _ _ => h.builtOn_of_class hl
  · intro hab
    -- what is met on the way comes before `a`, so its handle is a word as well
    have hway (n : Nat) (hn : ReflTransGen d.BuiltOn a.toNat n) :
        ReflTransGen m.BuiltOn a n.toUInt32 := by
      induction hn with
      | refl => rw [show a.toNat.toUInt32 = a by simp]
      | @tail x y hx hstep ih =>
        have hlt : x < 2 ^ 32 := Nat.lt_of_le_of_lt (hl.le_of_reflTransGen hx) a.toNat_lt
        have hword : x.toUInt32.toNat = x := Nat.mod_eq_of_lt hlt
        exact ih.tail (h.class_of_builtOn (hword.symm ▸ hstep))
    simpa using hway b.toNat hab

theorem isSubtype_eq_isAssignable (h : d.Tabulates m) (hl : d.Listed) {a b : UInt32}
    (ha : a.toNat < d.types.size) : d.isSubtype a.toNat b.toNat = m.isAssignable a b := by
  rw [Bool.eq_iff_iff, hl.isSubtype_iff ha, m.isAssignable_iff, h.reflTransGen_iff hl]

theorem findSome?_chain (h : d.Tabulates m) (hl : d.Listed) {β : Type}
    {f : ClassEntry → Option β} {g : TypeDef → Option β}
    (hfg : ∀ (i : Nat) (t : TypeDef), d.types[i]? = some t → f (d.toClass t) = g t) (a : UInt32) :
    (m.chain a).findSome? f = (d.bases a.toNat).findSome? fun i => d.types[i]?.bind g := by
  have hsome : some a = (some a.toNat).map (·.toUInt32) := by simp
  rw [Module.chain, hsome, h.count, bases]
  refine h.findSome?_chainFrom hl (fun i t ht => ?_) _ _ fun i hi => ?_
  · rw [ht, Option.bind_some]
    exact hfg i t ht
  · cases hi
    exact a.toNat_lt

theorem mem_chain (h : d.Tabulates m) (hl : d.Listed) {a : UInt32} {i : Nat} {t : TypeDef}
    (hi : i ∈ d.bases a.toNat) (ht : d.types[i]? = some t) : d.toClass t ∈ m.chain a := by
  let f (c : ClassEntry) : Option Unit := if c = d.toClass t then some () else none
  have hchain := h.findSome?_chain hl (f := f) (g := fun t => f (d.toClass t)) (fun _ _ _ => rfl) a
  have hsome : ((m.chain a).findSome? f).isSome = true := by
    rw [hchain, List.findSome?_isSome_iff]
    exact ⟨i, hi, by simp [ht, f]⟩
  obtain ⟨c, hc, hf⟩ := List.findSome?_isSome_iff.mp hsome
  by_cases heq : c = d.toClass t
  · exact heq ▸ hc
  · simp [f, heq] at hf

theorem findField?_eq (h : d.Tabulates m) (hl : d.Listed) (hfields : m.fields.length ≤ 2 ^ 32)
    (a : UInt32) (name : String) :
    m.findField? a name = (d.findField? a.toNat name).map (·.toUInt32) := by
  have hfg (i : Nat) (t : TypeDef) (ht : d.types[i]? = some t) :
      m.declaredField? (d.toClass t) name = (d.declaredField? name t).map (·.toUInt32) := by
    rw [Module.declaredField?, declaredField?, toClass, List.find?_map]
    refine congrArg (Option.map _) (List.find?_congr fun f hf => ?_)
    obtain ⟨e, he, -⟩ := (hl i t ht).fields f hf
    rw [Function.comp_apply, (h.field? hfields he).2, he]
    rfl
  rw [Module.findField?, h.findSome?_chain hl hfg, findField?, List.map_findSome?]
  refine congrArg (List.findSome? · _) (funext fun i => ?_)
  rw [Function.comp_apply, Option.map_bind]
  rfl

theorem findProperty?_eq (h : d.Tabulates m) (hl : d.Listed) (a : UInt32) (name : String) :
    m.findProperty? a name = (d.findProperty? a.toNat name).bind d.entry? := by
  rw [Module.findProperty?, h.findSome?_chain hl fun _ t _ => property?_toClass name t,
    findProperty?]
  induction d.bases a.toNat with
  | nil => rfl
  | cons i is ih =>
    rw [List.findSome?_cons, List.findSome?_cons, ih]
    cases ht : d.types[i]? with
    | none => rfl
    | some t =>
      rw [Option.bind_some, Option.bind_some]
      cases hp : d.declaredProperty? name t with
      | none => rfl
      | some p =>
        -- a property that is found has an entry, so the search does not go on
        obtain ⟨e, he⟩ := exists_of_declaredProperty? hp
        simp only [Option.bind_some, entry?, he, Option.map_some]

end Tabulates

/-- The module answers as the draft does: what is a subtype of what, an order among the types that
goes by what they are built on, and which fields and properties a type has. -/
structure ReflectedBy (d : Draft) (m : Module) : Prop where
  reaches : ∀ a b, a < d.types.size → (d.isSubtype a b = true ↔ ReflTransGen d.BuiltOn a b)
  order : IsPartialOrder (Fin d.types.size) fun a b => d.isSubtype a b = true
  assignable : ∀ a b : UInt32, a.toNat < d.types.size →
    d.isSubtype a.toNat b.toNat = m.isAssignable a b
  fields : ∀ (a : UInt32) (name : String),
    m.findField? a name = (d.findField? a.toNat name).map (·.toUInt32)
  properties : ∀ (a : UInt32) (name : String),
    d.findProperty? a.toNat name = none ∧ m.findProperty? a name = none ∨
      ∃ id e entry, d.findProperty? a.toNat name = some id ∧ d.properties[id]? = some e ∧
        m.findProperty? a name = some entry ∧ entry.getter = e.getter.map (·.toUInt32) ∧
          entry.setter = e.setter.map (·.toUInt32)

theorem Tabulates.reflectedBy (h : d.Tabulates m) (hl : d.Listed)
    (hfields : m.fields.length ≤ 2 ^ 32) : d.ReflectedBy m where
  reaches a b ha := hl.isSubtype_iff ha
  order := hl.isPartialOrder
  assignable a b ha := h.isSubtype_eq_isAssignable hl ha
  fields := h.findField?_eq hl hfields
  properties a name := by
    have hfind := h.findProperty?_eq hl a name
    cases hp : d.findProperty? a.toNat name with
    | none =>
      rw [hp] at hfind
      exact .inl ⟨rfl, hfind⟩
    | some id =>
      obtain ⟨e, he, -⟩ := hl.findProperty? hp
      rw [hp, Option.bind_some, entry?, he] at hfind
      exact .inr ⟨id, e, _, rfl, he, hfind, rfl, rfl⟩

end Draft

variable {p p' : Project} {issued : List (Nat × Variable)} {m : Module}

/-- Whatever a module has been through, once it is created it is asked about its types and answers
about its classes alike, as long as field numbers fit their words. -/
theorem Session.reflected_of_create (h : Session Anything p issued)
    (hcreate : ProjectM.create p = .ok m p') (hfields : m.fields.length ≤ 2 ^ 32) :
    p'.draft.ReflectedBy m := by
  have hfrozen := h.frozen_of_create hcreate
  have h' := h.created hcreate
  obtain ⟨issued', hc, -⟩ := h'.course
  exact (h'.tabulates hfrozen.created).reflectedBy hc.listed hfields

/-- A square is drawable as a shape, as something printable and by itself, and has a side in place
of that of the shape. -/
def diamond : List Operation := [
  .defineType "Drawable" { isInterface := true } none [],
  .defineMethod 0 "draw" {} .void [],
  .defineType "Printable" { isInterface := true } none [0],
  .defineMethod 1 "print" {} .void [],
  .defineType "Shape" {} none [0],
  .defineField 2 "side" .int {},
  .defineField 2 "corners" .int {},
  .defineAutoProperty 2 "Name" .string,
  .defineType "Square" {} (some 2) [1, 0],
  .defineField 3 "side" .double {}]

theorem Session.reflected_of_create_diamond : ∃ p issued m p',
    carryOut? Anything diamond ⟨.empty "Shapes" {}, .empty⟩ [] = some (p, issued) ∧
      ProjectM.create p = .ok m p' ∧ m.fields.length ≤ 2 ^ 32 ∧
      (m.isAssignable 3 0 = true ∧ m.isAssignable 2 1 = false ∧
        m.findField? 3 "side" = some 3 ∧ m.findField? 3 "corners" = some 1 ∧
        m.findProperty? 3 "Name" = some ⟨"Name", some 2, some 3⟩) ∧
      p'.draft.ReflectedBy m := by
  have hrun : (carryOut? Anything diamond ⟨.empty "Shapes" {}, .empty⟩ []).any
      (fun r => r.1.creates fun m _ => decide (m.fields.length ≤ 2 ^ 32 ∧
        m.isAssignable 3 0 = true ∧ m.isAssignable 2 1 = false ∧
        m.findField? 3 "side" = some 3 ∧ m.findField? 3 "corners" = some 1 ∧
        m.findProperty? 3 "Name" = some ⟨"Name", some 2, some 3⟩)) = true := by
    decide +kernel
  obtain ⟨⟨p, issued⟩, hp, hcreates⟩ := (Option.any_eq_true ..).mp hrun
  obtain ⟨m, p', hcreate, hchecked⟩ := Project.exists_of_creates hcreates
  obtain ⟨hfields, hanswers⟩ := of_decide_eq_true hchecked
  have h : Session Anything p issued := (Session.start _ _ _).of_carryOut? hp
  exact ⟨p, issued, m, p', hp, hcreate, hfields, hanswers, h.reflected_of_create hcreate hfields⟩

end Bytesmith.Build
