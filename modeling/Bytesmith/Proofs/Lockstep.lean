import Mathlib.Data.List.Forall2
import Bytesmith.Proofs.Instructions
import Bytesmith.Proofs.Naming

namespace Bytesmith.Outcome

variable {ε σ α β γ δ : Type} {R : α → β → Prop} {T : γ → δ → Prop} {S : σ → σ → Prop}

/-- Both computations succeeded, with related values, or both failed. The states are related
either way. -/
inductive Matches (R : α → β → Prop) (S : σ → σ → Prop) :
    EStateM.Result ε σ α → EStateM.Result ε σ β → Prop
  | ok {a : α} {b : β} {s t : σ} (hr : R a b) (hs : S s t) : Matches R S (.ok a s) (.ok b t)
  | error {e e' : ε} {s t : σ} (hs : S s t) : Matches R S (.error e s) (.error e' t)

def Lockstep (R : α → β → Prop) (S : σ → σ → Prop) (x : EStateM ε σ α) (y : EStateM ε σ β) :
    Prop := ∀ s t, S s t → Matches R S (x s) (y t)

theorem Matches.final {r : EStateM.Result ε σ α} {r' : EStateM.Result ε σ β}
    (h : Matches R S r r') : S (final r) (final r') := by
  cases h with
  | ok _ hs | error hs => exact hs

theorem Matches.elim {r : EStateM.Result ε σ α} {r' : EStateM.Result ε σ β}
    (h : Matches R S r r') :
    (∃ a b s t, r = .ok a s ∧ r' = .ok b t ∧ R a b ∧ S s t) ∨
      ∃ e e' s t, r = .error e s ∧ r' = .error e' t ∧ S s t := by
  cases h with
  | ok hr hs => exact .inl ⟨_, _, _, _, rfl, rfl, hr, hs⟩
  | error hs => exact .inr ⟨_, _, _, _, rfl, rfl, hs⟩

theorem Matches.bind {x : EStateM ε σ α} {y : EStateM ε σ β} {f : α → EStateM ε σ γ}
    {g : β → EStateM ε σ δ} {s t : σ} (hx : Matches R S (x s) (y t))
    (hf : ∀ a b, R a b → Lockstep T S (f a) (g b)) : Matches T S ((x >>= f) s) ((y >>= g) t) := by
  obtain ⟨a, b, s', t', hs, ht, hr, hS⟩ | ⟨e, e', s', t', hs, ht, hS⟩ := hx.elim
  · rw [bind_of_ok hs, bind_of_ok ht]
    exact hf a b hr s' t' hS
  · rw [bind_of_error hs, bind_of_error ht]
    exact .error hS

theorem Matches.map {x : EStateM ε σ α} {y : EStateM ε σ β} {f : α → γ} {g : β → δ} {s t : σ}
    (hx : Matches R S (x s) (y t)) (h : ∀ a b, R a b → T (f a) (g b)) :
    Matches T S ((f <$> x) s) ((g <$> y) t) := by
  rw [map_eq_pure_bind, map_eq_pure_bind]
  exact hx.bind fun a b hr _ _ hs => .ok (h a b hr) hs

namespace Lockstep

theorem pure {a : α} {b : β} (h : R a b) :
    Lockstep R S (pure a : EStateM ε σ α) (pure b : EStateM ε σ β) := fun _ _ hs => .ok h hs

theorem bind {x : EStateM ε σ α} {y : EStateM ε σ β} {f : α → EStateM ε σ γ}
    {g : β → EStateM ε σ δ} (hx : Lockstep R S x y)
    (hf : ∀ a b, R a b → Lockstep T S (f a) (g b)) : Lockstep T S (x >>= f) (y >>= g) :=
  fun s t hs => (hx s t hs).bind hf

end Lockstep

end Bytesmith.Outcome

namespace Bytesmith.Code

theorem Pool.Extends.indexOf_eq {p q : Pool} (h : q.Extends p) {s : String} (hs : s ∈ p.strings) :
    q.indexOf s = p.indexOf s := by
  obtain ⟨i, hi⟩ := Option.isSome_iff_exists.mp (List.isSome_idxOf?.mpr hs)
  rw [indexOf_of_idxOf? hi, indexOf_of_idxOf? ( idxOf?_prefix h.isPrefix hi)]

namespace Instr

variable {τ υ : Type} {q₁ q₂ p₁ p₂ : Pool} {i j : Instr τ}

inductive Alike (q₁ q₂ : Pool) : Instr τ → Instr τ → Prop
  | same {i : Instr τ} (h : i.isString = false) : Alike q₁ q₂ i i
  | string {s : String} (h₁ : s ∈ q₁.strings) (h₂ : s ∈ q₂.strings) :
      Alike q₁ q₂ (.constStr (q₁.indexOf s)) (.constStr (q₂.indexOf s))

namespace Alike

theorem opcode_eq (h : Alike q₁ q₂ i j) : i.opcode = j.opcode := by
  cases h <;> rfl

theorem size_eq (h : Alike q₁ q₂ i j) : i.size = j.size := by
  rw [size, size, h.opcode_eq]

theorem mapTarget (h : Alike q₁ q₂ i j) (f : τ → υ) :
    Alike q₁ q₂ (i.mapTarget f) (j.mapTarget f) := by
  cases h with
  | same h =>
    refine .same ?_
    cases i with
    | constStr index => cases h
    | _ => rfl
  | string h₁ h₂ => exact .string h₁ h₂

theorem mono (h : Alike p₁ p₂ i j) (h₁ : q₁.Extends p₁) (h₂ : q₂.Extends p₂) : Alike q₁ q₂ i j := by
  cases h with
  | same h => exact .same h
  | string hs₁ hs₂ =>
    rw [← h₁.indexOf_eq hs₁, ← h₂.indexOf_eq hs₂]
    exact .string (h₁.isPrefix.subset hs₁) (h₂.isPrefix.subset hs₂)

end Alike

end Instr

end Bytesmith.Code

namespace Bytesmith.Build

open Code Outcome

theorem map_eq_of_forall₂ {α β : Type} {R : α → α → Prop} {f : α → β} {as bs : List α}
    (h : List.Forall₂ R as bs) (hf : ∀ a b, R a b → f a = f b) : as.map f = bs.map f := by
  induction h with
  | nil => rfl
  | cons hab _ ih => rw [List.map_cons, List.map_cons, hf _ _ hab, ih]

/-- The code was written in the same way, with the strings of two pools. -/
structure Emitter.Alike (q₁ q₂ : Pool) (e₁ e₂ : Emitter) : Prop where
  name : e₁.name = e₂.name
  paramCount : e₁.paramCount = e₂.paramCount
  code : List.Forall₂ (Instr.Alike q₁ q₂) e₁.code.toList e₂.code.toList
  locals : e₁.locals.toList.map canonicalName = e₂.locals.toList.map canonicalName
  nextLabel : e₁.nextLabel = e₂.nextLabel
  marks : e₁.marks = e₂.marks
  handlers : e₁.handlers = e₂.handlers
  regions : e₁.regions = e₂.regions
  isFinished : e₁.isFinished = e₂.isFinished

namespace Emitter.Alike

variable {q₁ q₂ p₁ p₂ : Pool} {e₁ e₂ : Emitter}

theorem start (name : String) (paramCount : Nat) :
    Alike q₁ q₂ (.start name paramCount) (.start name paramCount) :=
  ⟨rfl, rfl, .nil, rfl, rfl, rfl, rfl, rfl, rfl⟩

theorem mono (h : Alike p₁ p₂ e₁ e₂) (h₁ : q₁.Extends p₁) (h₂ : q₂.Extends p₂) :
    Alike q₁ q₂ e₁ e₂ :=
  { h with code := h.code.imp fun _ _ hi => hi.mono h₁ h₂ }

theorem totalSize_eq {as bs : List (Instr Label)} (h : List.Forall₂ (Instr.Alike q₁ q₂) as bs) :
    totalSize as = totalSize bs := by
  induction h with
  | nil => rfl
  | cons hi _ ih => rw [totalSize, totalSize, hi.size_eq, ih]

theorem offset_eq (h : Alike q₁ q₂ e₁ e₂) : e₁.offset = e₂.offset := by
  rw [e₁.offset_eq, e₂.offset_eq, totalSize_eq h.code]

theorem localCount_eq (h : Alike q₁ q₂ e₁ e₂) : e₁.localCount = e₂.localCount := by
  have hlength := congrArg List.length h.locals
  rw [List.length_map, List.length_map, Array.length_toList, Array.length_toList] at hlength
  rw [localCount, localCount, h.paramCount, hlength]

theorem position?_eq (h : Alike q₁ q₂ e₁ e₂) (l : Label) : e₁.position? l = e₂.position? l := by
  rw [position?, position?, h.marks]

theorem distance_eq (h : Alike q₁ q₂ e₁ e₂) : e₁.distance = e₂.distance := by
  funext next l
  rw [distance, distance, h.position?_eq]

theorem canFallThrough_eq (h : Alike q₁ q₂ e₁ e₂) : e₁.canFallThrough = e₂.canFallThrough := by
  have hopcodes := map_eq_of_forall₂ (f := Instr.opcode) h.code fun _ _ hi => hi.opcode_eq
  have hlast := congrArg List.getLast? hopcodes
  rw [List.getLast?_map, List.getLast?_map, Array.getLast?_toList, Array.getLast?_toList] at hlast
  rw [canFallThrough, canFallThrough, h.marks, h.offset_eq]
  cases h₂ : e₂.code.back? with
  | none =>
    rw [h₂, Option.map_none, Option.map_eq_none_iff] at hlast
    rw [hlast]
  | some j =>
    rw [h₂, Option.map_some, Option.map_eq_some_iff] at hlast
    obtain ⟨i, h₁, hi⟩ := hlast
    rw [h₁]
    dsimp only
    rw [hi]

theorem push (h : Alike q₁ q₂ e₁ e₂) {i j : Instr Label} (hi : Instr.Alike q₁ q₂ i j) :
    Alike q₁ q₂ (e₁.push i) (e₂.push j) := by
  refine { h with code := ?_ }
  rw [Emitter.push, Emitter.push, Array.toList_push, Array.toList_push]
  exact List.rel_append h.code (.cons hi .nil)

theorem append (h : Alike q₁ q₂ e₁ e₂) {code : List (Instr Label)}
    (hcode : ∀ i ∈ code, i.isString = false) : Alike q₁ q₂ (e₁.append code) (e₂.append code) := by
  induction code generalizing e₁ e₂ with
  | nil => exact h
  | cons i code ih =>
    exact ih (h.push (.same (hcode i (.head _))))
      fun j hj => hcode j (.tail i hj)

theorem mark (h : Alike q₁ q₂ e₁ e₂) (l : Label) : Alike q₁ q₂ (e₁.mark l) (e₂.mark l) := by
  refine { h with marks := ?_ }
  dsimp only [Emitter.mark]
  rw [h.offset_eq, h.marks]

theorem leave (h : Alike q₁ q₂ e₁ e₂) (l : Label) : Alike q₁ q₂ (e₁.leave l) (e₂.leave l) := by
  rw [Emitter.leave, Emitter.leave, h.canFallThrough_eq]
  split
  · exact h.push (.same rfl)
  · exact h

theorem openCatch (h : Alike q₁ q₂ e₁ e₂) (region : Region) (outer : List Region) (tag : TypeTag) :
    Alike q₁ q₂ (e₁.openCatch region outer tag) (e₂.openCatch region outer tag) := by
  have hleft := h.leave region.endLabel
  refine { hleft with handlers := ?_, regions := ?_ }
  · dsimp only [Emitter.openCatch]
    rw [hleft.handlers, hleft.offset_eq, h.offset_eq]
  · dsimp only [Emitter.openCatch]
    rw [h.offset_eq]

theorem closeRegion (h : Alike q₁ q₂ e₁ e₂) (region : Region) (outer : List Region) :
    Alike q₁ q₂ (e₁.closeRegion region outer) (e₂.closeRegion region outer) := by
  have hleft : Alike q₁ q₂ { e₁ with regions := outer } { e₂ with regions := outer } :=
    { h with regions := rfl }
  exact (hleft.leave region.endLabel).mark region.endLabel

theorem acts {a : Action} {e₁' e₂' : Emitter} (h : Alike q₁ q₂ e₁ e₂)
    (ha : ∀ i, a = .put i → i.isString = false) (h₁ : a.Acts q₁ e₁ e₁') (h₂ : a.Acts q₂ e₂ e₂') :
    Alike q₁ q₂ e₁' e₂' := by
  cases h₁ with
  | put i =>
    cases h₂
    exact h.push (.same (ha i rfl))
  | putString hs₁ =>
    cases h₂ with
    | putString hs₂ => exact h.push (.string hs₁ hs₂)
  | mark =>
    cases h₂
    exact h.mark _
  | leave =>
    cases h₂
    exact h.leave _
  | openRegion =>
    cases h₂
    refine { h with nextLabel := ?_, regions := ?_ }
    · dsimp only [Emitter.openRegion]
      rw [h.nextLabel]
    · dsimp only [Emitter.openRegion]
      rw [h.offset_eq, h.nextLabel, h.regions]
  | openCatch hr₁ =>
    cases h₂ with
    | openCatch hr₂ =>
      rw [h.regions, hr₂] at hr₁
      cases hr₁
      exact h.openCatch _ _ _
  | closeRegion hr₁ =>
    cases h₂ with
    | closeRegion hr₂ =>
      rw [h.regions, hr₂] at hr₁
      cases hr₁
      exact h.closeRegion _ _

theorem runs {actions : List Action} {e₁' e₂' : Emitter} (h : Alike q₁ q₂ e₁ e₂)
    (hactions : ∀ i, .put i ∈ actions → i.isString = false) (h₁ : Runs q₁ e₁ actions e₁')
    (h₂ : Runs q₂ e₂ actions e₂') : Alike q₁ q₂ e₁' e₂' := by
  induction h₁ generalizing e₂ with
  | nil e =>
    cases h₂
    exact h
  | cons hact₁ _ ih =>
    cases h₂ with
    | cons hact₂ hrest₂ =>
      refine ih (h.acts (fun i hi => hactions i ?_) hact₁ hact₂)
        (fun i hi => hactions i (.tail _ hi)) hrest₂
      rw [hi]
      exact .head _

end Emitter.Alike

theorem Command.isString_of_mem {c : Command} {i : Instr Label} (hi : .put i ∈ c.actions) :
    i.isString = false := by
  have hplain (i : Instr Label) (hi : i.isPlain = true) : i.isString = false :=
    (Instr.eq_none_of_isPlain hi).2.2.2
  refine puts_actions hplain (fun v _ => ?_) (fun v _ _ => ?_) (fun _ _ _ _ _ => rfl) i hi
  · exact Variable.puts_loads hplain (fun _ _ => rfl) fun _ _ _ _ _ _ => rfl
  · exact Variable.puts_saves (fun _ _ _ _ _ => rfl) (fun _ _ _ _ _ => ⟨rfl, rfl⟩)
      fun _ _ _ _ => rfl

end Bytesmith.Build
