import Bytesmith.Proofs.Heights
import Bytesmith.Proofs.TypedDrafts

namespace Bytesmith.Build

open Code Outcome Machine

def Grading.heights (scope : Scope) : Grading Nat where
  step i h h' := i.Lifts scope h h'
  empty := 0
  caught _ := 1
  jump _ := ⟨trivial, Nat.le_refl 0, rfl⟩

structure Covers (R : Rules) (slots : List StaticType) (scope : Scope) : Prop where
  locals : slots.length ≤ scope.locals
  strings : R.strings ≤ scope.strings
  classes : R.classes ≤ scope.classes
  returns : ∀ id sig, R.signature id = some sig → scope.returns id = some (!sig.returns.isVoid)

variable {R : Rules} {slots : List StaticType} {returns : StaticType} {scope : Scope}

theorem Covers.lifts (h : Covers R slots scope) {i : Instr Label} {σ σ' : List StaticType}
    (hi : Types R slots returns i σ σ') : i.Lifts scope σ.length σ'.length := by
  have hslot {slot : UInt16} {ty : StaticType} (hs : slots[slot.toNat]? = some ty) :
      slot.toNat < scope.locals :=
    Nat.lt_of_lt_of_le (List.getElem?_eq_some_iff.mp hs).1 h.locals
  have hkind (kind : ValueKind) : (ValueKind.ofByte? kind.toByte).isSome := by cases kind <;> rfl
  cases hi with
  | constStr hindex σ => exact ⟨Nat.lt_of_lt_of_le hindex h.strings, Nat.zero_le _, rfl⟩
  | loadLocal hs σ => exact ⟨hslot hs, Nat.zero_le _, rfl⟩
  | storeLocal hs haccepts σ => exact ⟨hslot hs, Nat.le_add_left .., rfl⟩
  | new hid name σ =>
    have hclass := Nat.lt_of_lt_of_le hid h.classes
    exact ⟨Nat.lt_of_le_of_lt (Nat.mod_le ..) hclass, Nat.zero_le _, rfl⟩
  | box | unbox => exact ⟨hkind _, Nat.le_add_left .., rfl⟩
  | @call mode id argc sig takes hsig hcount haccepts σ =>
    have hreturns := h.returns id sig hsig
    have hpops : (Instr.call mode id argc : Instr Label).pops = takes.length := hcount.symm
    have hgives : (Instr.call mode id argc : Instr Label).gives scope =
        (leaves takes sig.returns mode).length := by
      by_cases hmode : mode = .constructor
      · subst hmode
        rw [leaves, List.length_take, hcount]
        exact (Nat.min_eq_left (Nat.le_add_left ..)).symm
      · rw [Instr.gives_call hmode hreturns, leaves_eq hmode]
        cases sig.returns.isVoid <;> rfl
    refine ⟨Option.isSome_of_eq_some hreturns, ?_, ?_⟩
    · rw [hpops, List.length_append, List.length_reverse]
      exact Nat.le_add_right ..
    · rw [hpops, hgives, List.length_append, List.length_append, List.length_reverse]
      omega
  | _ => exact ⟨trivial, Nat.le_add_left .., rfl⟩

theorem Covers.graded (h : Covers R slots scope) {t : MethodDef} {e : Emitter}
    {level : Nat → List StaticType} (hg : t.Graded (Grading.types R slots returns) e level) :
    t.Graded (Grading.heights scope) e fun p => (level p).length := by
  have hrest {p : Nat} (hp : e.Rests (Grading.types R slots returns) level p) :
      e.Rests (Grading.heights scope) (fun p => (level p).length) p :=
    hp.imp_right (Or.imp_left (congrArg _))
  refine ⟨⟨congrArg _ hg.code.start, fun p i hi => ?_, fun l p hp => ?_, fun k hk => ?_⟩,
    fun c hc => (hg.commands c hc).imp hrest hrest⟩
  · obtain ⟨σ, hstep, hnext, htarget⟩ := hg.code.instr p i hi
    exact ⟨σ.length, h.lifts hstep, fun hop => congrArg _ (hnext hop),
      fun ht => congrArg _ (htarget ht)⟩
  · obtain ⟨hle, hempty⟩ := hg.code.marks l p hp
    exact ⟨hle, congrArg _ hempty⟩
  · obtain ⟨start, hlt, hstart, hcaught⟩ := hg.code.handlers k hk
    exact ⟨start, hlt, hstart, congrArg _ hcaught⟩

def Draft.counted (d : Draft) (m : Module) : Rules where
  strings := m.constants.strings.length
  classes := m.classes.length
  HasField _ _ := True
  signature id := d.methods[id.toNat]?.map fun t => ⟨d.takes t, t.returnType⟩
  Accepts _ _ := True
  refl _ := trivial
  null _ := trivial
  member _ _ := trivial
  reference _ _ := trivial
  caught _ _ _ := trivial

theorem admits_counted (d : Draft) (m : Module) : Admits (d.counted m) Own := by
  rintro issued i v (⟨value, rfl⟩ | hmem)
  · refine .inl ⟨value, rfl, ?_⟩
    cases value <;> exact trivial
  · exact .inr hmem

end Bytesmith.Build
