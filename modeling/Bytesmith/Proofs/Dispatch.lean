import Bytesmith.Proofs.Safety

namespace Bytesmith.Build

open Code Bytesmith.Outcome Machine

/-- The methods of a type and of its bases, nearest first. Those of one type are in the order in
which they were declared. -/
def Draft.methodsOf (d : Draft) (type : Nat) : List Nat :=
  (d.bases type).flatMap fun i => (d.types[i]?.map (·.methods)).getD []

def Draft.implementation? (d : Draft) (type : Nat) (accepts : MethodDef → Bool) : Option Nat :=
  (d.methodsOf type).find? fun k => d.methods[k]?.any fun e =>
    !e.attrs.isStatic && !e.attrs.isAbstract && accepts e

def MethodDef.isCalled (name : String) (arity : Nat) (e : MethodDef) : Bool :=
  e.name == name && e.params.length == arity

theorem MethodDef.arity_of_toFunction {t : MethodDef} {f : Function} (h : t.toFunction = .ok f) :
    f.name = t.name ∧ f.isStatic = t.attrs.isStatic ∧ f.arity = t.params.length := by
  have hstatic : f.isStatic = t.attrs.isStatic := by
    obtain ⟨body, -, rfl⟩ := toFunction_eq_ok h
    exact t.bits_flags.1
  refine ⟨?_, hstatic, ?_⟩
  · obtain ⟨body, -, rfl⟩ := toFunction_eq_ok h
    rfl
  · rw [Function.arity, hstatic]
    obtain ⟨body, -, rfl⟩ := toFunction_eq_ok h
    dsimp only [paramCount, slotCount]
    split <;> rfl

namespace Draft

variable {d : Draft} {m : Module}

theorem implementation?_eq_some {type r : Nat} {accepts : MethodDef → Bool}
    (h : d.implementation? type accepts = some r) :
    r ∈ d.methodsOf type ∧ ∃ e, d.methods[r]? = some e ∧ e.attrs.isStatic = false ∧
      e.attrs.isAbstract = false ∧ accepts e = true := by
  have hsome := List.find?_some h
  obtain ⟨e, he, haccepts⟩ := (Option.any_eq_true ..).mp hsome
  simp only [Bool.and_eq_true, Bool.not_eq_true'] at haccepts
  exact ⟨List.mem_of_find?_eq_some h, e, he, haccepts.1.1, haccepts.1.2, haccepts.2⟩

theorem Listed.isSubtype_implementation (hl : d.Listed) {type r : Nat}
    {accepts : MethodDef → Bool} (h : d.implementation? type accepts = some r) :
    ∃ e, d.methods[r]? = some e ∧ d.isSubtype type e.owner = true ∧ e.attrs.isStatic = false := by
  obtain ⟨hr, e, he, hstatic, -⟩ := implementation?_eq_some h
  obtain ⟨i, hi, hr⟩ := List.mem_flatMap.mp hr
  cases ht : d.types[i]? with
  | none => simp [ht] at hr
  | some t =>
    rw [ht] at hr
    obtain ⟨e', he', howner, -⟩ := (hl i t ht).methods r hr
    cases he.symm.trans he'
    exact ⟨e, he, howner ▸ isSubtype_of_mem_bases hi, hstatic⟩

theorem Yields.function? (h : d.Yields m) (hcount : m.functions.length ≤ 2 ^ 32) {i : Nat}
    {t : MethodDef} (ht : d.methods[i]? = some t) :
    ∃ f, m.function? i.toUInt32 = some f ∧ t.toFunction = .ok f := by
  obtain ⟨hlength, hall⟩ := h.function
  have hi : i.toUInt32.toNat = i :=
    Nat.mod_eq_of_lt (Nat.lt_of_lt_of_le (Array.getElem?_eq_some_iff.mp ht).1 (hlength ▸ hcount))
  obtain ⟨f, hf, hfunction⟩ := hall i t ht
  exact ⟨f, by rw [Module.function?, hi, hf], hfunction⟩

theorem Tabulates.findSome?_chainFrom (h : d.Tabulates m) (hl : d.Listed) {β : Type}
    {f : ClassEntry → Option β} {g : Nat → Option β}
    (hfg : ∀ (i : Nat) (t : TypeDef), d.types[i]? = some t → f (d.toClass t) = g i) (steps : Nat)
    (type? : Option Nat) (hsmall : ∀ i, type? = some i → i < 2 ^ 32) :
    (m.chainFrom steps (type?.map (·.toUInt32))).findSome? f =
      (d.basesFrom steps type?).findSome? g := by
  induction steps generalizing type? with
  | zero => rfl
  | succ steps ih =>
    cases type? with
    | none => rfl
    | some i =>
      rw [Option.map_some, Module.chainFrom, basesFrom]
      cases ht : d.types[i]? with
      | none =>
        have hi : i.toUInt32.toNat = i := Nat.mod_eq_of_lt (hsmall i rfl)
        have hnone : m.class? i.toUInt32 = none := by
          rw [Module.class?, hi, List.getElem?_eq_none_iff, h.count]
          exact Array.getElem?_eq_none_iff.mp ht
        rw [hnone]
        rfl
      | some t =>
        have hbase (b : Nat) (hb : t.base = some b) : b < 2 ^ 32 := by
          have hlt := (hl i t ht).bases b (List.mem_append_right _ (Option.mem_toList.mpr hb))
          exact Nat.lt_trans hlt (hsmall i rfl)
        rw [h.class?_of_lt (hsmall i rfl) ht]
        dsimp only
        rw [List.findSome?_cons, List.findSome?_cons, hfg i t ht, toClass, ih t.base hbase]

theorem Tabulates.implementation?_eq (h : d.Tabulates m) (hl : d.Listed) (hy : d.Yields m)
    (hcount : m.functions.length ≤ 2 ^ 32) (id : UInt32) (name : String) (arity : Nat) :
    m.implementation? id name arity =
      (d.implementation? id.toNat (MethodDef.isCalled name arity)).map (·.toUInt32) := by
  have hmethods (i : Nat) (t : TypeDef) (ht : d.types[i]? = some t) :
      ((d.toClass t).methods.find? fun entry => entry.name == name &&
        (m.function? entry.function).any fun f =>
          !f.isStatic && !f.isAbstract && f.arity == arity).map (·.function) =
      (((d.types[i]?.map (·.methods)).getD []).find? fun k => d.methods[k]?.any fun e =>
        !e.attrs.isStatic && !e.attrs.isAbstract && e.isCalled name arity).map (·.toUInt32) := by
    rw [ht, Option.map_some, Option.getD_some, toClass]
    dsimp only
    rw [List.find?_filterMap]
    have hsame : (fun k : Nat => (d.methods[k]?.map fun e =>
        (⟨e.name, k.toUInt32⟩ : MethodEntry)).any fun entry => entry.name == name &&
          (m.function? entry.function).any fun f =>
            !f.isStatic && !f.isAbstract && f.arity == arity) =
        fun k => d.methods[k]?.any fun e =>
          !e.attrs.isStatic && !e.attrs.isAbstract && e.isCalled name arity := by
      funext k
      cases he : d.methods[k]? with
      | none => rfl
      | some e =>
        obtain ⟨f, hf, hfunction⟩ := hy.function? hcount he
        obtain ⟨-, hstatic, harity⟩ := MethodDef.arity_of_toFunction hfunction
        simp only [Option.map_some, Option.any_some, hf, hstatic, harity,
          (MethodDef.flags_of_toFunction hfunction).1, MethodDef.isCalled]
        cases e.name == name <;> simp
    rw [hsame]
    cases hk : t.methods.find? fun k => d.methods[k]?.any fun e =>
        !e.attrs.isStatic && !e.attrs.isAbstract && e.isCalled name arity with
    | none => rfl
    | some k =>
      have hsome := List.find?_some hk
      obtain ⟨e, he, -⟩ := (Option.any_eq_true ..).mp hsome
      rw [Option.bind_some, he]
      rfl
  have hid : some id = (some id.toNat).map (·.toUInt32) := by simp
  rw [Module.implementation?, Module.chain, hid, h.count,
    h.findSome?_chainFrom hl hmethods _ _ fun i hi => ?_, Draft.implementation?, methodsOf,
    List.find?_flatMap, List.map_findSome?]
  · rfl
  · cases hi
    exact id.toNat_lt

end Draft

end Bytesmith.Build
