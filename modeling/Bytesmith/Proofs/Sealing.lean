import Bytesmith.Proofs.Consistency

namespace Bytesmith.Build

open Code Outcome

namespace Operation

/-- The operation defines something or writes to a body, instead of asking for what is there or for
what is to be finished. -/
def adds : Operation → Bool
  | .look _ _ | .finalize _ | .createType _ => false
  | _ => true

theorem defines_or_body {op : Operation} (h : op.adds = true) :
    op.defines = true ∨ ∃ m, op.body? = some m := by
  cases op with
  | look | finalize | createType => cases h
  | edit m | bump m | callNamed m => exact .inr ⟨m, rfl⟩
  | _ => exact .inl rfl

end Operation

namespace Draft.Frozen

variable {d : Draft} {m : Module}

theorem body_error (h : d.Frozen m) {op : Operation} {i : Nat} (hbody : op.body? = some i) :
    ∃ e, op.perform d = .error e d := by
  have hfinal := h.perform op
  cases hperform : op.perform d with
  | ok given d' =>
    obtain ⟨t, ht, hopen⟩ := op.ensureOpen_of_ok hbody hperform
    exact absurd hopen ((h.rests i).not_open ht)
  | error e d' =>
    rw [hperform] at hfinal
    exact ⟨e, congrArg _ hfinal⟩

theorem error_of_adds (h : d.Frozen m) {op : Operation} (hop : op.adds = true) :
    ∃ e, op.perform d = .error e d := by
  obtain hdefines | ⟨i, hbody⟩ := op.defines_or_body hop
  · exact h.define_error hdefines
  · exact h.body_error hbody

end Draft.Frozen

theorem BuildM.createType_of_created {d : Draft} {i : Nat} {t : TypeDef} {c : ClassEntry}
    (ht : d.types[i]? = some t) (hc : t.created = some c) : createType i d = .ok c d := by
  rw [createType, get_bind, createTypeBelow,
    bind_of_ok (reading_eq_ok.mpr ⟨type_eq_ok.mpr ht, rfl⟩)]
  simp only [hc]
  rfl

variable {p p' p'' : Project} {issued : List (Nat × Variable)} {m : Module}

theorem Session.createType_of_class (h : Session Anything p issued)
    (hm : p.draft.created = some m) {i : Nat} {c : ClassEntry} (hc : m.classes[i]? = some c) :
    BuildM.createType i p.draft = .ok c p.draft := by
  have htables := h.tabulates hm
  have hlt := (List.getElem?_eq_some_iff.mp hc).1
  rw [htables.count] at hlt
  have ht := Array.getElem?_eq_getElem hlt
  obtain ⟨c', hcreated⟩ := Option.isSome_iff_exists.mp ((h.frozen hm).types i _ ht)
  obtain ⟨issued', hcourse, -⟩ := h.course
  have hclass := htables.classes i _ ht
  rw [← hcourse.classed i _ c' ht hcreated, hc] at hclass
  cases hclass
  exact BuildM.createType_of_created ht hcreated

theorem Draft.Frozen.onward (h : p.draft.Frozen m) (ho : Onward p p') : p' = p := by
  induction ho with
  | refl => rfl
  | perform _ op ih => rw [ih, h.perform op]
  | create _ ih => rw [ih, ProjectM.create_of_created h.created, final]

/-- Once a module was created, whatever is done from then on leaves all of it as it is: what would
add to it is refused, the module is given again, and so is each of its classes. -/
theorem Session.sealed_of_create (h : Session Anything p issued)
    (hcreate : ProjectM.create p = .ok m p') (ho : Onward p' p'') :
    p'' = p' ∧ (∀ op : Operation, op.adds = true → ∃ e, op.perform p''.draft = .error e p''.draft) ∧
      ProjectM.create p'' = .ok m p'' ∧
      ∀ i c, m.classes[i]? = some c → BuildM.createType i p''.draft = .ok c p''.draft := by
  have hfrozen := h.frozen_of_create hcreate
  have heq := hfrozen.onward ho
  rw [heq]
  exact ⟨rfl, fun op => hfrozen.error_of_adds, ProjectM.create_of_created hfrozen.created,
    fun i c => (h.created hcreate).createType_of_class hfrozen.created⟩

/-- A counter that counts up, and the directions that it can count in. -/
def counting : List Request := [
  .perform (.defineEnum "Direction"),
  .perform (.defineEnumMember 0 "up" 1),
  .perform (.defineType "Counter" {} none []),
  .perform (.defineField 0 "count" .int {}),
  .perform (.defineDefaultConstructor 0 {}),
  .perform (.defineMethod 0 "advance" {} .int []),
  .perform (.edit 1 (.assign (.own ⟨"count", .int, .field 0 true⟩) (.constant (.i32 1)))),
  .perform (.edit 1 (.ret (.own ⟨"count", .int, .field 0 true⟩)))]

/-- All of it is asked for once more, after the counter was created. -/
theorem Session.sealed_of_create_counting :
    ∃ p log issued m p', Request.makeAll counting (⟨.empty "Counters" {}, .empty⟩, []) = (p, log) ∧
      Session Anything p issued ∧ ProjectM.create p = .ok m p' ∧
      log.all (·.2) = true ∧ m.classes.length = 1 ∧ m.functions.length = 2 ∧
      (Request.makeAll counting (p', [])).1 = p' ∧
      (∀ op : Operation, op.adds = true → ∃ e, op.perform p'.draft = .error e p'.draft) ∧
      ProjectM.create p' = .ok m p' ∧
      ∀ i c, m.classes[i]? = some c → BuildM.createType i p'.draft = .ok c p'.draft := by
  obtain ⟨p, log, m, p', hrun, hcreate, hcheck⟩ := Request.exists_of_creates
    (fun log m => decide (log.all (·.2) = true ∧ m.classes.length = 1 ∧ m.functions.length = 2))
    counting ⟨.empty "Counters" {}, .empty⟩ (by decide +kernel)
  obtain ⟨hgranted, hclasses, hfunctions⟩ := of_decide_eq_true hcheck
  obtain ⟨issued, h⟩ := Session.of_makeAll counting "Counters" {}
  rw [hrun] at h
  obtain ⟨hsame, hrest⟩ := h.sealed_of_create hcreate (Request.onward_makeAll .refl counting [])
  rw [hsame] at hrest
  exact ⟨p, log, issued, m, p', hrun, h, hcreate, hgranted, hclasses, hfunctions, hsame, hrest⟩

end Bytesmith.Build
