import Bytesmith.Proofs.Definitions
import Bytesmith.Proofs.FailStop

namespace Bytesmith.Build

open Code Outcome

namespace Draft

variable {d : Draft}

theorem retains_modifyType (type : Nat) {f : TypeDef → TypeDef}
    (hf : ∀ t, (f t).heading = t.heading) : d.Retains (d.modifyType type f) :=
  ⟨fun _ t ht => exists_modify (TypeDef.heading · = t.heading) rfl (hf t) ht, fun _ _ hf => hf,
    fun _ p hp => ⟨p, hp, rfl⟩, fun _ t ht => ⟨t, ht, rfl⟩⟩

theorem retains_pushType (t : TypeDef) : d.Retains { d with types := d.types.push t } :=
  ⟨fun _ t ht => ⟨t, getElem?_push_of_some ht, rfl⟩, fun _ _ hf => hf, fun _ p hp => ⟨p, hp, rfl⟩,
    fun _ t ht => ⟨t, ht, rfl⟩⟩

theorem retains_pushField (f : FieldDef) : d.Retains { d with fields := d.fields.push f } :=
  ⟨fun _ t ht => ⟨t, ht, rfl⟩, fun _ _ hf => getElem?_push_of_some hf, fun _ p hp => ⟨p, hp, rfl⟩,
    fun _ t ht => ⟨t, ht, rfl⟩⟩

theorem retains_pushProperty (p : PropertyDef) :
    d.Retains { d with properties := d.properties.push p } :=
  ⟨fun _ t ht => ⟨t, ht, rfl⟩, fun _ _ hf => hf, fun _ p hp => ⟨p, getElem?_push_of_some hp, rfl⟩,
    fun _ t ht => ⟨t, ht, rfl⟩⟩

theorem retains_pushMethod (t : MethodDef) : d.Retains { d with methods := d.methods.push t } :=
  ⟨fun _ t ht => ⟨t, ht, rfl⟩, fun _ _ hf => hf, fun _ p hp => ⟨p, hp, rfl⟩,
    fun _ t ht => ⟨t, getElem?_push_of_some ht, rfl⟩⟩

end Draft

namespace BuildM

open Draft

theorem absorbs_retains : Absorbs Retains where
  same _ _ h := h.retains
  backing _ id field := (Declares.backing id field).retains
  defineType _ _ _ _ := leads_checked fun _ _ => retains_pushType _
  defineEnum _ := leads_checked fun _ _ => (Declares.enums _).retains
  defineEnumMember _ _ _ :=
    leads_checked fun _ _ => related_check fun _ _ => (Declares.enums _).retains
  defineField type _ _ _ := leads_checked fun _ _ =>
    (retains_pushField _).trans (retains_modifyType type fun _ => rfl)
  defineMethod type _ _ _ _ := leads_checked fun _ _ =>
    (retains_pushMethod _).trans (retains_modifyType type fun _ => rfl)
  defineConstructor type _ _ := leads_checked fun _ _ =>
    (retains_pushMethod _).trans (retains_modifyType type fun _ => rfl)
  defineProperty type _ _ _ _ := leads_checked fun _ _ =>
    (retains_pushProperty _).trans (retains_modifyType type fun _ => rfl)
  setEntryPoint m := leads_checked fun _ _ => (Declares.entryPoint m).retains

end BuildM

theorem Operation.retains_perform (op : Operation) : Leads Draft.Retains op.perform :=
  BuildM.absorbs_retains.perform op

theorem Onward.retains {p p' : Project} (h : Onward p p') : p.draft.Retains p'.draft := by
  induction h with
  | refl => exact Std.Refl.refl p.draft
  | perform _ op ih => exact ih.trans (op.retains_perform _)
  | @create p' _ ih => exact ih.trans (ProjectM.sameDefinitions_create p').retains

end Bytesmith.Build
