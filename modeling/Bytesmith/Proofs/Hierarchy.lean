import Mathlib.Data.Fintype.EquivFin
import Mathlib.Data.List.TakeWhile
import Mathlib.Order.Filter.AtTopBot.Basic
import Mathlib.Order.Filter.Finite
import Mathlib.Order.WellFounded
import Bytesmith.Proofs.FailStop
import Bytesmith.Proofs.Loading
import Bytesmith.Proofs.Tables

namespace Bytesmith

open Relation

def MeetsCycle {α : Type} (r : α → α → Prop) (a : α) : Prop :=
  ∃ b, ReflTransGen r a b ∧ TransGen r b b

section

variable {α : Type} {r : α → α → Prop} {a : α}

theorem not_meetsCycle_of_acc (h : Acc (Function.swap r) a) : ¬ MeetsCycle r a := by
  rintro ⟨b, hreach, hcycle⟩
  have hb : Acc (Function.swap r) b := by
    clear hcycle
    induction hreach with
    | refl => exact h
    | tail _ hstep ih => exact ih.inv hstep
  exact not_acc_iff_exists_descending_chain.mpr
    ⟨fun _ => b, rfl, fun _ => transGen_swap.mpr hcycle⟩ hb.transGen

theorem acc_of_not_meetsCycle [Finite α] (h : ¬ MeetsCycle r a) : Acc (Function.swap r) a := by
  -- among what is reached from `a`, whatever is further along the links is smaller
  let further : α → α → Prop := fun y x => ReflTransGen r a x ∧ TransGen r x y
  have htrans : IsTrans α further :=
    ⟨fun _ _ _ hzy hyx => ⟨hyx.1, hyx.2.trans hzy.2⟩⟩
  have hirrefl : Std.Irrefl further := ⟨fun x hx => h ⟨x, hx⟩⟩
  have hacc : ∀ x, ReflTransGen r a x → Acc (Function.swap r) x := by
    intro x
    induction x using (Finite.wellFounded_of_trans_of_irrefl further).induction with
    | _ x ih =>
      intro hx
      exact .intro x fun y hy => ih y ⟨hx, .single hy⟩ (hx.tail hy)
  exact hacc a .refl

theorem not_meetsCycle_of_forall (h : ∀ b, r a b → ¬ MeetsCycle r b) : ¬ MeetsCycle r a := by
  rintro ⟨b, hreach, hcycle⟩
  obtain rfl | ⟨x, hstep, hrest⟩ := hreach.cases_head
  · obtain ⟨x, hstep, hrest⟩ := TransGen.head'_iff.mp hcycle
    exact h x hstep ⟨_, hrest, hcycle⟩
  · exact h x hstep ⟨b, hrest, hcycle⟩

theorem exists_endless_iff [Finite α] :
    (∃ way : Nat → α, way 0 = a ∧ ∀ n, r (way n) (way (n + 1))) ↔ MeetsCycle r a := by
  constructor
  · intro hway
    by_contra hcycle
    exact not_acc_iff_exists_descending_chain.mpr hway (acc_of_not_meetsCycle hcycle)
  · intro hcycle
    exact not_acc_iff_exists_descending_chain.mp fun hacc => not_meetsCycle_of_acc hacc hcycle

end

end Bytesmith

namespace Bytesmith.Code.Module

open Relation Filter Build Outcome

def HasParent (m : Module) (a b : UInt32) : Prop := ∃ c, m.class? a = some c ∧ c.parent = some b

def BuiltOn (m : Module) (a b : UInt32) : Prop :=
  ∃ c, m.class? a = some c ∧ b ∈ c.interfaces ++ c.parent.toList

/-- A loop along parents leaves classes behind until one gives something, or the way ends. It has
no result while it has not ended; if it has none after any number of rounds, it does not end. -/
def scan {β : Type} (m : Module) (f : ClassEntry → Option β) :
    Nat → Option UInt32 → Option (List ClassEntry × Option β)
  | 0, _ => none
  | _ + 1, none => some ([], none)
  | rounds + 1, some id =>
    match m.class? id with
    | none => some ([], none)
    | some c =>
      match f c with
      | some found => some ([], some found)
      | none => (m.scan f rounds c.parent).map fun r => (c :: r.1, r.2)

/-- The search for a class among those that another is built on: at each class through its
interfaces and then its parent, each to its end. It has no answer if more than `depth` calls are
under way at a time. -/
def search (m : Module) (target : UInt32) : Nat → UInt32 → Option Bool
  | 0, _ => none
  | depth + 1, id =>
    if id = target then some true
    else
      match m.class? id with
      | none => some false
      | some c => (c.interfaces ++ c.parent.toList).anyM (m.search target depth)

/-- The classes on the way along parents, down to the end of the way: a class at which to stop, one
without a parent, or an index outside the table. -/
inductive Walk (m : Module) (stop : ClassEntry → Bool) : Option UInt32 → List UInt32 → Prop
  | root : Walk m stop none []
  | outside {id : UInt32} (h : m.class? id = none) : Walk m stop (some id) []
  | found {id : UInt32} {c : ClassEntry} (h : m.class? id = some c) (hstop : stop c = true) :
      Walk m stop (some id) [id]
  | step {id : UInt32} {c : ClassEntry} {ids : List UInt32} (h : m.class? id = some c)
      (hstop : stop c = false) (hrest : Walk m stop c.parent ids) : Walk m stop (some id) (id :: ids)

/-- The second is the parent of the first, at which a walk does not stop. -/
def Passes (m : Module) (stop : ClassEntry → Bool) (a b : UInt32) : Prop :=
  ∃ c, m.class? a = some c ∧ stop c = false ∧ c.parent = some b

variable {β : Type} {m : Module} {f : ClassEntry → Option β} {stop : ClassEntry → Bool}
  {a b id target : UInt32} {start : Option UInt32} {ids ids' : List UInt32} {n : Nat} {answer : Bool}

theorem HasParent.builtOn (h : m.HasParent a b) : m.BuiltOn a b := by
  obtain ⟨c, hc, hparent⟩ := h
  exact ⟨c, hc, List.mem_append_right _ (by rw [hparent]; exact List.mem_singleton_self b)⟩

theorem transGen_builtOn (h : TransGen m.HasParent a b) : TransGen m.BuiltOn a b :=
  h.lift id fun _ _ => HasParent.builtOn

theorem passes_false (m : Module) : m.Passes (fun _ => false) = m.HasParent := by
  funext a b
  simp only [Passes, HasParent, true_and]

theorem Passes.hasParent (h : m.Passes stop a b) : m.HasParent a b := by
  obtain ⟨c, hc, -, hparent⟩ := h
  exact ⟨c, hc, hparent⟩

theorem length_le_of_nodup (hnodup : ids.Nodup)
    (hlt : ∀ a ∈ ids, a.toNat < m.classes.length) : ids.length ≤ m.classes.length := by
  have hnodup : (ids.map UInt32.toNat).Nodup := hnodup.map fun _ _ => UInt32.toNat_inj.mp
  have hsub : ids.map UInt32.toNat ⊆ List.range m.classes.length := by
    intro n hn
    obtain ⟨a, ha, rfl⟩ := List.mem_map.mp hn
    exact List.mem_range.mpr (hlt a ha)
  have hlength := (hnodup.subperm hsub).length_le
  rwa [List.length_map, List.length_range] at hlength

namespace Walk

theorem eq (h : m.Walk stop start ids) (h' : m.Walk stop start ids') : ids = ids' := by
  induction h generalizing ids' with
  | root =>
    cases h'
    rfl
  | outside hnone => cases h' <;> simp_all
  | found hsome hstop => cases h' <;> simp_all
  | step hsome hstop _ ih =>
    cases h' with
    | outside hnone => simp_all
    | found hsome' hstop' => simp_all
    | step hsome' _ hrest' =>
      rw [hsome] at hsome'
      cases hsome'
      rw [ih hrest']

theorem exists_suffix (h : m.Walk stop start ids) (ha : a ∈ ids) :
    ∃ rest, m.Walk stop (some a) (a :: rest) ∧ a :: rest <:+ ids := by
  induction h with
  | root | outside => cases ha
  | found hsome hstop =>
    obtain rfl := List.mem_singleton.mp ha
    exact ⟨[], .found hsome hstop, List.suffix_refl _⟩
  | @step id c ids hsome hstop hrest ih =>
    obtain rfl | ha := List.mem_cons.mp ha
    · exact ⟨ids, .step hsome hstop hrest, List.suffix_refl _⟩
    · obtain ⟨rest, hwalk, hsuffix⟩ := ih ha
      exact ⟨rest, hwalk, hsuffix.trans (List.suffix_cons ..)⟩

theorem nodup (h : m.Walk stop start ids) : ids.Nodup := by
  induction h with
  | root | outside => exact List.nodup_nil
  | found => exact List.nodup_singleton _
  | @step id c ids hsome hstop hrest ih =>
    refine List.nodup_cons.mpr ⟨fun hmem => ?_, ih⟩
    -- a class that is met again has the same walk before it as after it
    obtain ⟨rest, hwalk, hsuffix⟩ := hrest.exists_suffix hmem
    have hsame := hwalk.eq (.step hsome hstop hrest)
    have hlength := hsuffix.length_le
    rw [hsame, List.length_cons] at hlength
    omega

theorem lt_length (h : m.Walk stop start ids) : ∀ a ∈ ids, a.toNat < m.classes.length := by
  induction h with
  | root | outside => exact fun _ ha => absurd ha List.not_mem_nil
  | found hsome =>
    intro a ha
    obtain rfl := List.mem_singleton.mp ha
    exact (List.getElem?_eq_some_iff.mp hsome).1
  | step hsome _ _ ih =>
    intro a ha
    obtain rfl | ha := List.mem_cons.mp ha
    · exact (List.getElem?_eq_some_iff.mp hsome).1
    · exact ih a ha

theorem length_le (h : m.Walk stop start ids) : ids.length ≤ m.classes.length :=
  length_le_of_nodup h.nodup h.lt_length

theorem exists_scan (h : m.Walk (fun c => (f c).isSome) start ids) :
    ∃ n r, m.scan f n start = some r := by
  induction h with
  | root => exact ⟨1, _, rfl⟩
  | outside hnone => exact ⟨1, ([], none), by simp only [scan, hnone]⟩
  | found hsome hstop =>
    obtain ⟨found, hfound⟩ := Option.isSome_iff_exists.mp hstop
    exact ⟨1, ([], found), by simp only [scan, hsome, hfound]⟩
  | @step _ c _ hsome hstop _ ih =>
    obtain ⟨n, r, hr⟩ := ih
    rw [Option.isSome_eq_false_iff, Option.isNone_iff_eq_none] at hstop
    exact ⟨n + 1, (c :: r.1, r.2), by simp only [scan, hsome, hstop, hr, Option.map_some]⟩

theorem eq_of_scan (h : m.Walk (fun c => (f c).isSome) start ids) {steps : Nat}
    {r : List ClassEntry × Option β} (hsteps : ids.length ≤ steps) (hr : m.scan f n start = some r) :
    r = ((m.chainFrom steps start).takeWhile fun c => (f c).isNone,
      (m.chainFrom steps start).findSome? f) := by
  obtain - | n := n
  · cases hr
  induction h generalizing n steps r with
  | root => cases steps <;> simp_all [scan, chainFrom]
  | outside hnone => cases steps <;> simp_all [scan, chainFrom]
  | found hsome hstop =>
    obtain ⟨steps, rfl⟩ := Nat.exists_eq_add_of_le' hsteps
    obtain ⟨found, hfound⟩ := Option.isSome_iff_exists.mp hstop
    simp_all [scan, chainFrom]
  | step hsome hstop _ ih =>
    obtain ⟨steps, rfl⟩ := Nat.exists_eq_add_of_le' (Nat.le_trans (Nat.le_add_left 1 _) hsteps)
    rw [Option.isSome_eq_false_iff, Option.isNone_iff_eq_none] at hstop
    simp only [scan, hsome, hstop] at hr
    obtain ⟨rest, hrest, rfl⟩ := Option.map_eq_some_iff.mp hr
    obtain - | n := n
    · cases hrest
    rw [ih (Nat.le_of_succ_le_succ hsteps) n hrest]
    simp [chainFrom, hsome, hstop]

theorem acc (h : m.Walk stop start ids) :
    ∀ id, start = some id → Acc (Function.swap (m.Passes stop)) id := by
  induction h with
  | root =>
    intro id hid
    cases hid
  | outside hnone =>
    rintro _ ⟨⟩
    refine .intro _ fun b hb => ?_
    obtain ⟨c, hc, -⟩ := hb
    rw [hnone] at hc
    cases hc
  | found hsome hstop =>
    rintro _ ⟨⟩
    refine .intro _ fun b hb => ?_
    obtain ⟨c, hc, hgo, -⟩ := hb
    rw [hsome] at hc
    cases hc
    rw [hstop] at hgo
    cases hgo
  | step hsome _ _ ih =>
    rintro _ ⟨⟩
    refine .intro _ fun b hb => ?_
    obtain ⟨c, hc, -, hparent⟩ := hb
    rw [hsome] at hc
    cases hc
    exact ih b hparent

end Walk

theorem exists_walk_of_acc (h : Acc (Function.swap (m.Passes stop)) id) :
    ∃ ids, m.Walk stop (some id) ids := by
  induction h with
  | intro id _ ih =>
    cases hc : m.class? id with
    | none => exact ⟨[], .outside hc⟩
    | some c =>
      cases hstop : stop c with
      | true => exact ⟨[id], .found hc hstop⟩
      | false =>
        cases hparent : c.parent with
        | none => exact ⟨[id], .step hc hstop (hparent ▸ .root)⟩
        | some b =>
          obtain ⟨ids, hwalk⟩ := ih b ⟨c, hc, hstop, hparent⟩
          exact ⟨id :: ids, .step hc hstop (hparent ▸ hwalk)⟩

theorem finite_index : Finite UInt32 := .of_injective UInt32.toFin fun _ _ => UInt32.toFin_inj.mp

theorem exists_walk_iff (m : Module) (stop : ClassEntry → Bool) (id : UInt32) :
    (∃ ids, m.Walk stop (some id) ids) ↔ ¬ MeetsCycle (m.Passes stop) id := by
  have := finite_index
  constructor
  · rintro ⟨ids, hwalk⟩
    exact not_meetsCycle_of_acc (hwalk.acc id rfl)
  · exact fun hcycle => exists_walk_of_acc (acc_of_not_meetsCycle hcycle)

theorem exists_walk_of_scan {r : List ClassEntry × Option β} (h : m.scan f n start = some r) :
    ∃ ids, m.Walk (fun c => (f c).isSome) start ids := by
  induction n generalizing start r with
  | zero => cases h
  | succ n ih =>
    cases start with
    | none => exact ⟨[], .root⟩
    | some id =>
      cases hc : m.class? id with
      | none => exact ⟨[], .outside hc⟩
      | some c =>
        cases hf : f c with
        | some found => exact ⟨[id], .found hc (by rw [hf]; rfl)⟩
        | none =>
          simp only [scan, hc, hf] at h
          obtain ⟨rest, hrest, -⟩ := Option.map_eq_some_iff.mp h
          obtain ⟨ids, hwalk⟩ := ih hrest
          exact ⟨id :: ids, .step hc (by rw [hf]; rfl) hwalk⟩

theorem exists_scan_iff (m : Module) (f : ClassEntry → Option β) (id : UInt32)
    (r : List ClassEntry × Option β) : (∃ n, m.scan f n (some id) = some r) ↔
      ¬ MeetsCycle (m.Passes fun c => (f c).isSome) id ∧
        r = ((m.chain id).takeWhile fun c => (f c).isNone, (m.chain id).findSome? f) := by
  rw [← exists_walk_iff]
  constructor
  · rintro ⟨n, h⟩
    obtain ⟨ids, hwalk⟩ := exists_walk_of_scan h
    exact ⟨⟨ids, hwalk⟩, hwalk.eq_of_scan hwalk.length_le h⟩
  · rintro ⟨⟨ids, hwalk⟩, hr⟩
    obtain ⟨n, r', h⟩ := hwalk.exists_scan
    have hr' := hwalk.eq_of_scan hwalk.length_le h
    exact ⟨n, h.trans (congrArg some (hr'.trans hr.symm))⟩

theorem exists_collect_iff (m : Module) (id : UInt32) (cs : List ClassEntry) :
    (∃ n, m.scan (fun _ => (none : Option Empty)) n (some id) = some (cs, none)) ↔
      ¬ MeetsCycle m.HasParent id ∧ m.chain id = cs := by
  have htake : (m.chain id).takeWhile (fun _ => true) = m.chain id :=
    List.takeWhile_eq_self_iff.mpr fun _ _ => rfl
  have hfind : (m.chain id).findSome? (fun _ => (none : Option Empty)) = none :=
    List.findSome?_eq_none_iff.mpr fun _ _ => rfl
  rw [exists_scan_iff, ← passes_false]
  simp [htake, hfind, eq_comm]

/-- The classes that are left behind on a way along parents and interfaces. -/
inductive Path (m : Module) (target : UInt32) : UInt32 → List UInt32 → Prop
  | here : Path m target target []
  | link {a b : UInt32} {ids : List UInt32} (h : m.BuiltOn a b) (hrest : Path m target b ids) :
      Path m target a (a :: ids)

namespace Path

theorem exists_suffix (h : m.Path target a ids) (hb : b ∈ ids) :
    ∃ rest, m.Path target b (b :: rest) ∧ b :: rest <:+ ids := by
  induction h with
  | here => cases hb
  | @link a c ids hlink hrest ih =>
    obtain rfl | hb := List.mem_cons.mp hb
    · exact ⟨ids, .link hlink hrest, List.suffix_refl _⟩
    · obtain ⟨rest, hpath, hsuffix⟩ := ih hb
      exact ⟨rest, hpath, hsuffix.trans (List.suffix_cons ..)⟩

theorem exists_nodup (h : ReflTransGen m.BuiltOn a target) :
    ∃ ids, m.Path target a ids ∧ ids.Nodup := by
  induction h using ReflTransGen.head_induction_on with
  | refl => exact ⟨[], .here, List.nodup_nil⟩
  | @head a b hlink _ ih =>
    obtain ⟨ids, hpath, hnodup⟩ := ih
    by_cases ha : a ∈ ids
    · -- the way returns to where it started, so the first part of it can be left out
      obtain ⟨rest, hpath', hsuffix⟩ := hpath.exists_suffix ha
      exact ⟨a :: rest, hpath', hnodup.sublist hsuffix.sublist⟩
    · exact ⟨a :: ids, .link hlink hpath, List.nodup_cons.mpr ⟨ha, hnodup⟩⟩

theorem lt_length (h : m.Path target a ids) : ∀ b ∈ ids, b.toNat < m.classes.length := by
  induction h with
  | here => exact fun _ hb => absurd hb List.not_mem_nil
  | link hlink _ ih =>
    obtain ⟨c, hc, -⟩ := hlink
    intro b hb
    obtain rfl | hb := List.mem_cons.mp hb
    · exact (List.getElem?_eq_some_iff.mp hc).1
    · exact ih b hb

theorem reaches (h : m.Path target a ids) : m.reaches target ids.length a = true := by
  induction h with
  | here => exact beq_self_eq_true target
  | link hlink _ ih =>
    obtain ⟨c, hc, hb⟩ := hlink
    rw [List.length_cons, Module.reaches, hc, Bool.or_eq_true]
    exact .inr (List.any_eq_true.mpr ⟨_, hb, ih⟩)

end Path

theorem reflTransGen_of_reaches (h : m.reaches target n a = true) :
    ReflTransGen m.BuiltOn a target := by
  induction n generalizing a with
  | zero =>
    rw [reaches, beq_iff_eq] at h
    rw [h]
  | succ n ih =>
    rw [reaches, Bool.or_eq_true, beq_iff_eq] at h
    obtain rfl | h := h
    · exact .refl
    · cases hc : m.class? a with
      | none => simp [hc] at h
      | some c =>
        simp only [hc, List.any_eq_true] at h
        obtain ⟨b, hb, h⟩ := h
        exact .head ⟨c, hc, hb⟩ (ih h)

theorem isAssignable_iff (m : Module) (a target : UInt32) :
    m.isAssignable a target = true ↔ ReflTransGen m.BuiltOn a target := by
  constructor
  · exact reflTransGen_of_reaches
  · intro h
    obtain ⟨ids, hpath, hnodup⟩ := Path.exists_nodup h
    exact reaches_mono (length_le_of_nodup hnodup hpath.lt_length) hpath.reaches

section

variable {α : Type} {f : α → Option Bool} {l : List α}

theorem anyM_eq_some_false : l.anyM f = some false ↔ ∀ a ∈ l, f a = some false := by
  induction l with
  | nil => simp [List.anyM]
  | cons a l ih =>
    cases ha : f a with
    | none => simp [List.anyM, ha]
    | some b => cases b <;> simp [List.anyM, ha, ih]

theorem anyM_eq_some_true : l.anyM f = some true ↔ ∃ before b after, l = before ++ b :: after ∧
    (∀ a ∈ before, f a = some false) ∧ f b = some true := by
  induction l with
  | nil => simp [List.anyM]
  | cons a l ih =>
    constructor
    · intro h
      rw [List.anyM] at h
      obtain ⟨found, ha, h⟩ := Option.bind_eq_some_iff.mp h
      cases found with
      | true => exact ⟨[], a, l, rfl, fun _ hx => absurd hx List.not_mem_nil, ha⟩
      | false =>
        obtain ⟨before, b, after, rfl, hbefore, hb⟩ := ih.mp h
        exact ⟨a :: before, b, after, rfl, List.forall_mem_cons.mpr ⟨ha, hbefore⟩, hb⟩
    · rintro ⟨before, b, after, heq, hbefore, hb⟩
      cases before with
      | nil =>
        cases heq
        simp [List.anyM, hb]
      | cons x before =>
        obtain ⟨rfl, rfl⟩ := List.cons.inj heq
        obtain ⟨ha, hbefore⟩ := List.forall_mem_cons.mp hbefore
        rw [List.anyM, ha]
        exact ih.mpr ⟨before, b, after, rfl, hbefore, hb⟩

theorem exists_anyM_eq_some (h : ∀ a ∈ l, ∃ found, f a = some found) :
    ∃ found, l.anyM f = some found := by
  induction l with
  | nil => exact ⟨false, rfl⟩
  | cons a l ih =>
    obtain ⟨⟨found, ha⟩, hrest⟩ := List.forall_mem_cons.mp h
    obtain ⟨found', hl⟩ := ih hrest
    cases found with
    | true => exact ⟨true, by simp [List.anyM, ha]⟩
    | false => exact ⟨found', by simp [List.anyM, ha, hl]⟩

theorem eventually_forall_mem {P : Nat → α → Prop} (h : ∀ a ∈ l, ∀ᶠ n in atTop, P n a) :
    ∀ᶠ n in atTop, ∀ a ∈ l, P n a :=
  (eventually_all_finite l.finite_toSet).mpr h

end

/-- The second is the parent or an interface of the first, and what is searched before it is
searched to its end in vain. -/
def ComesTo (m : Module) (target a b : UInt32) : Prop :=
  ∃ c before after, m.class? a = some c ∧ c.interfaces ++ c.parent.toList = before ++ b :: after ∧
    ∀ x ∈ before, ¬ MeetsCycle m.BuiltOn x ∧ ¬ ReflTransGen m.BuiltOn x target

theorem not_reaches_of_forall (hne : a ≠ target)
    (h : ∀ b, m.BuiltOn a b → ¬ MeetsCycle m.BuiltOn b ∧ ¬ ReflTransGen m.BuiltOn b target) :
    ¬ MeetsCycle m.BuiltOn a ∧ ¬ ReflTransGen m.BuiltOn a target := by
  refine ⟨not_meetsCycle_of_forall fun b hb => (h b hb).1, fun hreach => ?_⟩
  obtain rfl | ⟨b, hb, hrest⟩ := hreach.cases_head
  · exact hne rfl
  · exact (h b hb).2 hrest

/-- What an answer of the search says. -/
structure Verdict (m : Module) (target a : UInt32) (answer : Bool) : Prop where
  found : answer = true → ReflTransGen (m.ComesTo target) a target
  missed : answer = false → ¬ MeetsCycle m.BuiltOn a ∧ ¬ ReflTransGen m.BuiltOn a target

theorem verdict_of_search (h : m.search target n id = some answer) :
    m.Verdict target id answer := by
  induction n generalizing id answer with
  | zero => cases h
  | succ n ih =>
    rw [search] at h
    by_cases hne : id = target
    · rw [if_pos hne] at h
      cases h
      exact ⟨fun _ => hne ▸ .refl, fun hfalse => by cases hfalse⟩
    rw [if_neg hne] at h
    cases hc : m.class? id with
    | none =>
      simp only [hc] at h
      cases h
      refine ⟨fun htrue => (by cases htrue), fun _ => not_reaches_of_forall hne ?_⟩
      rintro b ⟨c, hc', -⟩
      rw [hc] at hc'
      cases hc'
    | some c =>
      simp only [hc] at h
      cases answer with
      | true =>
        obtain ⟨before, b, after, hlinks, hbefore, hb⟩ := anyM_eq_some_true.mp h
        refine ⟨fun _ => .head ⟨c, before, after, hc, hlinks, fun x hx => ?_⟩ ((ih hb).found rfl),
          fun hfalse => by cases hfalse⟩
        exact (ih (hbefore x hx)).missed rfl
      | false =>
        refine ⟨fun htrue => (by cases htrue), fun _ => not_reaches_of_forall hne ?_⟩
        rintro b ⟨c', hc', hb⟩
        rw [hc] at hc'
        cases hc'
        exact (ih (anyM_eq_some_false.mp h b hb)).missed rfl

theorem search_class {c : ClassEntry} (hc : m.class? a = some c) (hne : a ≠ target) (n : Nat) :
    m.search target (n + 1) a = (c.interfaces ++ c.parent.toList).anyM (m.search target n) := by
  rw [search, if_neg hne, hc]

theorem eventually_of_succ {P : Nat → Prop} (h : ∀ᶠ n in atTop, P (n + 1)) : ∀ᶠ n in atTop, P n := by
  rwa [← map_add_atTop_eq_nat 1, eventually_map]

theorem eventually_search_false (hcycle : ¬ MeetsCycle m.BuiltOn id)
    (hreach : ¬ ReflTransGen m.BuiltOn id target) :
    ∀ᶠ n in atTop, m.search target n id = some false := by
  have := finite_index
  induction acc_of_not_meetsCycle hcycle with
  | intro a _ ih =>
    have hne : a ≠ target := by
      rintro rfl
      exact hreach .refl
    refine eventually_of_succ ?_
    cases hc : m.class? a with
    | none => exact .of_forall fun n => by rw [search, if_neg hne, hc]
    | some c =>
      have hlinks : ∀ b ∈ c.interfaces ++ c.parent.toList,
          ∀ᶠ n in atTop, m.search target n b = some false := by
        intro b hb
        have hlink : m.BuiltOn a b := ⟨c, hc, hb⟩
        refine ih b hlink (fun hmeets => ?_) fun hrest => hreach (.head hlink hrest)
        obtain ⟨x, hx, hround⟩ := hmeets
        exact hcycle ⟨x, .head hlink hx, hround⟩
      filter_upwards [eventually_forall_mem hlinks] with n hn
      rw [search_class hc hne, anyM_eq_some_false]
      exact hn

theorem eventually_search_true (h : ReflTransGen (m.ComesTo target) id target) :
    ∀ᶠ n in atTop, m.search target n id = some true := by
  induction h using ReflTransGen.head_induction_on with
  | refl => exact eventually_of_succ (.of_forall fun _ => if_pos rfl)
  | @head a b hlink _ ih =>
    refine eventually_of_succ ?_
    by_cases hne : a = target
    · exact .of_forall fun _ => if_pos hne
    obtain ⟨c, before, after, hc, hlinks, hbefore⟩ := hlink
    have hmissed := eventually_forall_mem fun x hx =>
      eventually_search_false (hbefore x hx).1 (hbefore x hx).2
    filter_upwards [ih, hmissed] with n hb hmissed
    rw [search_class hc hne, anyM_eq_some_true]
    exact ⟨before, b, after, hlinks, hmissed, hb⟩

theorem exists_search_false_iff (m : Module) (id target : UInt32) :
    (∃ n, m.search target n id = some false) ↔
      ¬ MeetsCycle m.BuiltOn id ∧ ¬ ReflTransGen m.BuiltOn id target :=
  ⟨fun ⟨_, h⟩ => (verdict_of_search h).missed rfl, fun h => (eventually_search_false h.1 h.2).exists⟩

theorem exists_search_true_iff (m : Module) (id target : UInt32) :
    (∃ n, m.search target n id = some true) ↔ ReflTransGen (m.ComesTo target) id target :=
  ⟨fun ⟨_, h⟩ => (verdict_of_search h).found rfl, fun h => (eventually_search_true h).exists⟩

theorem ComesTo.builtOn (h : m.ComesTo target a b) : m.BuiltOn a b := by
  obtain ⟨c, before, after, hc, hlinks, -⟩ := h
  exact ⟨c, hc, by rw [hlinks]; exact List.mem_append_cons_self⟩

theorem isAssignable_of_search (h : m.search target n id = some answer) :
    m.isAssignable id target = answer := by
  cases answer with
  | true =>
    rw [isAssignable_iff]
    exact ((verdict_of_search h).found rfl).lift (fun x => x) fun _ _ => ComesTo.builtOn
  | false =>
    rw [Bool.eq_false_iff, ne_eq, isAssignable_iff]
    exact ((verdict_of_search h).missed rfl).2

theorem exists_search_of_not_meetsCycle (h : ¬ MeetsCycle m.BuiltOn id) (target : UInt32) :
    ∃ n, m.search target n id = some (m.isAssignable id target) := by
  have := finite_index
  have hanswer : ∀ᶠ n in atTop, ∃ answer, m.search target n id = some answer := by
    induction acc_of_not_meetsCycle h with
    | intro a hacc ih =>
      refine eventually_of_succ ?_
      by_cases hne : a = target
      · exact .of_forall fun _ => ⟨true, if_pos hne⟩
      cases hc : m.class? a with
      | none => exact .of_forall fun _ => ⟨false, by rw [search, if_neg hne, hc]⟩
      | some c =>
        have hlinks : ∀ b ∈ c.interfaces ++ c.parent.toList,
            ∀ᶠ n in atTop, ∃ answer, m.search target n b = some answer := by
          intro b hb
          have hlink : m.BuiltOn a b := ⟨c, hc, hb⟩
          exact ih b hlink (not_meetsCycle_of_acc (hacc b hlink))
        filter_upwards [eventually_forall_mem hlinks] with n hn
        rw [search_class hc hne]
        exact exists_anyM_eq_some hn
  obtain ⟨n, answer, hanswer⟩ := hanswer.exists
  exact ⟨n, hanswer.trans (congrArg some (isAssignable_of_search hanswer).symm)⟩

theorem Descends.not_transGen (h : m.Descends) (a : UInt32) : ¬ TransGen m.BuiltOn a a := by
  have hlt {a b : UInt32} (hab : TransGen m.BuiltOn a b) : b.toNat < a.toNat := by
    induction hab with
    | single hstep =>
      obtain ⟨c, hc, hb⟩ := hstep
      exact h a c hc _ hb
    | tail _ hstep ih =>
      obtain ⟨c, hc, hb⟩ := hstep
      exact Nat.lt_trans (h _ c hc _ hb) ih
  exact fun hcycle => Nat.lt_irrefl _ (hlt hcycle)

/-- Where the walks from a class end, and that what they then give is what the lookups give, which
follow no more links than there are classes. -/
structure WalksEnd (m : Module) : Prop where
  walk : ∀ id, (∃ ids, m.Walk (fun _ => false) (some id) ids ∧ ids.length ≤ m.classes.length) ↔
    ¬ MeetsCycle m.HasParent id
  collect : ∀ id cs, (∃ n, m.scan (fun _ => (none : Option Empty)) n (some id) = some (cs, none)) ↔
    ¬ MeetsCycle m.HasParent id ∧ m.chain id = cs
  scan : ∀ {β : Type} (f : ClassEntry → Option β) id r, (∃ n, m.scan f n (some id) = some r) ↔
    ¬ MeetsCycle (m.Passes fun c => (f c).isSome) id ∧
      r = ((m.chain id).takeWhile fun c => (f c).isNone, (m.chain id).findSome? f)
  missed : ∀ id target, (∃ n, m.search target n id = some false) ↔
    ¬ MeetsCycle m.BuiltOn id ∧ ¬ ReflTransGen m.BuiltOn id target
  found : ∀ id target,
    (∃ n, m.search target n id = some true) ↔ ReflTransGen (m.ComesTo target) id target
  assignable : ∀ id target n answer,
    m.search target n id = some answer → m.isAssignable id target = answer
  endless : ∀ id, (∃ way : Nat → UInt32, way 0 = id ∧ ∀ n, m.BuiltOn (way n) (way (n + 1))) ↔
    MeetsCycle m.BuiltOn id

/-- No class is built on itself, so every walk ends. -/
structure Grounded (m : Module) : Prop where
  acyclic : ∀ id, ¬ TransGen m.BuiltOn id id
  collect : ∀ id, ∃ n, m.scan (fun _ => (none : Option Empty)) n (some id) = some (m.chain id, none)
  scan : ∀ {β : Type} (f : ClassEntry → Option β) id, ∃ n cs,
    m.scan f n (some id) = some (cs, (m.chain id).findSome? f)
  search : ∀ id target, ∃ n, m.search target n id = some (m.isAssignable id target)

theorem walksEnd (m : Module) : m.WalksEnd where
  walk id := by
    rw [← passes_false, ← exists_walk_iff]
    constructor
    · rintro ⟨ids, hwalk, -⟩
      exact ⟨ids, hwalk⟩
    · rintro ⟨ids, hwalk⟩
      exact ⟨ids, hwalk, hwalk.length_le⟩
  collect := m.exists_collect_iff
  scan := m.exists_scan_iff
  missed := m.exists_search_false_iff
  found := m.exists_search_true_iff
  assignable _ _ _ _ := isAssignable_of_search
  endless id := by
    have := finite_index
    exact exists_endless_iff

theorem grounded (h : ∀ id, ¬ TransGen m.BuiltOn id id) : m.Grounded where
  acyclic := h
  collect id := by
    refine (m.exists_collect_iff ..).mpr ⟨?_, rfl⟩
    rintro ⟨b, -, hcycle⟩
    exact h b (transGen_builtOn hcycle)
  scan f id := by
    have hends : ¬ MeetsCycle (m.Passes fun c => (f c).isSome) id := by
      rintro ⟨b, -, hcycle⟩
      exact h b (hcycle.lift (fun x => x) fun _ _ hpass => hpass.hasParent.builtOn)
    obtain ⟨n, hn⟩ := (m.exists_scan_iff ..).mpr ⟨hends, rfl⟩
    exact ⟨n, _, hn⟩
  search id target := by
    refine exists_search_of_not_meetsCycle ?_ target
    rintro ⟨b, -, hcycle⟩
    exact h b hcycle

/-- In a module that was loaded, the walk from a class along parents ends within as many steps as
there are classes, just where it comes to no class that is its own ancestor, and lookups along
parents go with it. The search along parents and interfaces ends in vain where no class that is
built on itself is reached, and with success where whatever is searched before its target is
searched in vain. In the classes of a module that was created all of them end. -/
theorem hierarchy_of_decode {data : Array UInt8} {m : Module} (_ : decode data = .ok m) :
    m.WalksEnd ∧
      ∀ p p' issued created, Session Anything p issued → ProjectM.create p = .ok created p' →
        m.classes = created.classes → m.Grounded := by
  refine ⟨m.walksEnd, fun p p' issued created h hcreate heq => grounded ?_⟩
  have hfrozen := h.frozen_of_create hcreate
  have h' := h.created hcreate
  obtain ⟨issued', hc, -⟩ := h'.course
  have hdescends := (h'.tabulates hfrozen.created).descends hc.listed
  refine Descends.not_transGen fun id c hclass b hb => hdescends id c ?_ b hb
  rwa [class?, ← heq]

def ofClasses (classes : List ClassEntry) : Module := { specimen with classes }

theorem exists_decode_ofClasses (classes : List ClassEntry) (hcount : classes.length < 2 ^ 32)
    (heach : ∀ c ∈ classes, c.Encodable) :
    ∃ m, decode (ofClasses classes).encode.toArray = .ok m ∧ m.classes = classes :=
  ⟨_, decode_written _ { specimen_encodable with classes := hcount, eachClass := heach }, rfl⟩

def squares : List Operation := [
  .defineType "Shape" {} none [],
  .defineField 0 "name" .string {},
  .defineType "Square" {} (some 0) [],
  .defineField 1 "side" .int {}]

def shapesAndSquares : List ClassEntry := [
  ⟨"Shape", none, [], false, false, [0], [], [], []⟩,
  ⟨"Square", some 0, [], false, false, [1], [], [], []⟩]

/-- Squares are shapes, neither is built on itself, and all walks end. -/
theorem hierarchy_of_squares : ∃ m p p' issued created,
    decode (ofClasses shapesAndSquares).encode.toArray = .ok m ∧
      carryOut? Anything squares ⟨.empty "Shapes" {}, .empty⟩ [] = some (p, issued) ∧
      ProjectM.create p = .ok created p' ∧ m.classes = created.classes ∧ m.WalksEnd ∧ m.Grounded ∧
      m.search 0 2 1 = some true ∧ m.search 1 1 0 = some false := by
  obtain ⟨m, hdecode, hclasses⟩ := exists_decode_ofClasses shapesAndSquares (by decide) (by decide)
  have hrun : (carryOut? Anything squares ⟨.empty "Shapes" {}, .empty⟩ []).any
      (fun r => r.1.creates fun m _ => m.classes == shapesAndSquares) = true := by
    decide +kernel
  obtain ⟨⟨p, issued⟩, hp, hcreates⟩ := (Option.any_eq_true ..).mp hrun
  have hsession : Session Anything p issued := (Session.start _ _ _).of_carryOut? hp
  obtain ⟨created, p', hcreate, hcreated⟩ := Project.exists_of_creates hcreates
  have heq : m.classes = created.classes := hclasses.trans (beq_iff_eq.mp hcreated).symm
  obtain ⟨hends, hgrounded⟩ := hierarchy_of_decode hdecode
  have hgrounded := hgrounded p p' issued created hsession hcreate heq
  have hshape : m.class? 0 = some ⟨"Shape", none, [], false, false, [0], [], [], []⟩ := by
    rw [class?, hclasses]
    rfl
  have hsquare : m.class? 1 = some ⟨"Square", some 0, [], false, false, [1], [], [], []⟩ := by
    rw [class?, hclasses]
    rfl
  refine ⟨m, p, p', issued, created, hdecode, hp, hcreate, heq, hends, hgrounded, ?_, ?_⟩
  · rw [search_class hsquare (by decide)]
    rfl
  · rw [search_class hshape (by decide)]
    rfl

def ring : List ClassEntry := [
  ⟨"Shape", some 1, [0], false, false, [], [], [], []⟩,
  ⟨"Square", some 0, [], false, false, [], [], [], []⟩]

/-- Classes are loaded of which each is its own ancestor, so that no lookup of a method ends, nor
does any search for another class, not even for the parent. -/
theorem endless_ring : ∃ m, decode (ofClasses ring).encode.toArray = .ok m ∧
    TransGen m.HasParent 0 0 ∧ m.HasParent 0 1 ∧ TransGen m.BuiltOn 0 0 ∧
      (¬ ∃ ids, m.Walk (fun _ => false) (some 0) ids) ∧
      (∀ name n, m.scan (·.method? name) n (some 0) = none) ∧
      ∀ target n, target ≠ 0 → m.search target n 0 = none := by
  obtain ⟨m, hdecode, hclasses⟩ := exists_decode_ofClasses ring (by decide) (by decide)
  have hshape : m.class? 0 = some ⟨"Shape", some 1, [0], false, false, [], [], [], []⟩ := by
    rw [class?, hclasses]
    rfl
  have hsquare : m.class? 1 = some ⟨"Square", some 0, [], false, false, [], [], [], []⟩ := by
    rw [class?, hclasses]
    rfl
  have hpasses (name : String) : TransGen (m.Passes fun c => (c.method? name).isSome) 0 0 :=
    .head ⟨_, hshape, rfl, rfl⟩ (.single ⟨_, hsquare, rfl, rfl⟩)
  have hcycle : TransGen m.HasParent 0 0 := (hpasses "").lift id fun _ _ => Passes.hasParent
  refine ⟨m, hdecode, hcycle, ⟨_, hshape, rfl⟩, transGen_builtOn hcycle, ?_, fun name n => ?_,
    fun target n hne => ?_⟩
  · rw [exists_walk_iff, not_not, passes_false]
    exact ⟨0, .refl, hcycle⟩
  · refine Option.eq_none_iff_forall_ne_some.mpr fun r hr => ?_
    exact ((m.exists_scan_iff ..).mp ⟨n, hr⟩).1 ⟨0, .refl, hpasses name⟩
  · induction n with
    | zero => rfl
    | succ n ih =>
      -- the first link that is searched is the class itself
      rw [search_class hshape hne.symm, List.cons_append, List.anyM, ih]
      rfl

end Bytesmith.Code.Module
