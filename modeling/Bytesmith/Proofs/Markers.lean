import Bytesmith.Build.Draft

namespace Bytesmith.Build

inductive Mark
  | ifBegin
  | elseIf
  | elseBegin
  | endIf
  | whileBegin
  | endWhile
  | tryBegin
  | catchBegin
  | endTry
deriving DecidableEq, Repr

/-- What is balanced by itself, and what remains of a conditional or a guarded block behind one of
its bodies. -/
inductive Phrase
  | body
  | branches
  | clauses

inductive Word : Phrase → List Mark → Prop
  | nil : Word .body []
  | conditional {w branches rest : List Mark} (hw : Word .body w) (hb : Word .branches branches)
      (hr : Word .body rest) : Word .body (.ifBegin :: (w ++ branches ++ rest))
  | loop {w rest : List Mark} (hw : Word .body w) (hr : Word .body rest) :
      Word .body (.whileBegin :: (w ++ [.endWhile] ++ rest))
  | guarded {w first clauses rest : List Mark} (hw : Word .body w) (hf : Word .body first)
      (hc : Word .clauses clauses) (hr : Word .body rest) :
      Word .body (.tryBegin :: (w ++ (.catchBegin :: (first ++ clauses)) ++ rest))
  | endIf : Word .branches [.endIf]
  | elseBegin {w : List Mark} (hw : Word .body w) : Word .branches (.elseBegin :: (w ++ [.endIf]))
  | elseIf {w branches : List Mark} (hw : Word .body w) (hb : Word .branches branches) :
      Word .branches (.elseIf :: (w ++ branches))
  | endTry : Word .clauses [.endTry]
  | catchBegin {w clauses : List Mark} (hw : Word .body w) (hc : Word .clauses clauses) :
      Word .clauses (.catchBegin :: (w ++ clauses))

inductive Shape
  | branch
  | otherwise
  | loop
  | attempt
  | clause
deriving DecidableEq, Repr

namespace Mark

/-- The open blocks behind a marker, unless it does not fit the innermost one. -/
def step : Mark → List Shape → Option (List Shape)
  | .ifBegin, s => some (.branch :: s)
  | .elseIf, .branch :: s => some (.branch :: s)
  | .elseBegin, .branch :: s => some (.otherwise :: s)
  | .endIf, .branch :: s | .endIf, .otherwise :: s => some s
  | .whileBegin, s => some (.loop :: s)
  | .endWhile, .loop :: s => some s
  | .tryBegin, s => some (.attempt :: s)
  | .catchBegin, .attempt :: s | .catchBegin, .clause :: s => some (.clause :: s)
  | .endTry, .clause :: s => some s
  | _, _ => none

def steps (w : List Mark) (s : List Shape) : Option (List Shape) := w.foldlM (fun s k => k.step s) s

variable {w v : List Mark} {s : List Shape}

theorem steps_cons (k : Mark) (w : List Mark) (s : List Shape) :
    steps (k :: w) s = (k.step s).bind (steps w) := List.foldlM_cons

theorem steps_append (w v : List Mark) (s : List Shape) :
    steps (w ++ v) s = (steps w s).bind (steps v) := List.foldlM_append

theorem steps_append_of {s' : List Shape} (h : steps w s = some s') :
    steps (w ++ v) s = steps v s' := by
  rw [steps_append, h]
  rfl

end Mark

open Mark

def Phrase.ends : Phrase → List Shape
  | .body => []
  | .branches => [.branch]
  | .clauses => [.clause]

theorem Word.steps_eq {k : Phrase} {w : List Mark} (h : Word k w) (s : List Shape) :
    steps w (k.ends ++ s) = some s := by
  induction h generalizing s with
  | nil | endIf | endTry => rfl
  | conditional _ _ _ ihw ihb ihr =>
    have hblock := (steps_append_of (ihw (.branch :: s))).trans (ihb s)
    exact (steps_append_of hblock).trans (ihr s)
  | loop _ _ ihw ihr =>
    have hblock := (steps_append_of (v := [.endWhile]) (ihw (.loop :: s))).trans rfl
    exact (steps_append_of hblock).trans (ihr s)
  | @guarded _ first clauses _ _ _ _ _ ihw ihf ihc ihr =>
    have hclauses := (steps_append_of (ihf (.clause :: s))).trans (ihc s)
    have hblock := (steps_append_of (v := .catchBegin :: (first ++ clauses))
      (ihw (.attempt :: s))).trans hclauses
    exact (steps_append_of hblock).trans (ihr s)
  | elseBegin _ ihw => exact steps_append_of (ihw (.otherwise :: s))
  | elseIf _ _ ihw ihb => exact (steps_append_of (ihw (.branch :: s))).trans (ihb s)
  | catchBegin _ _ ihw ihc => exact (steps_append_of (ihw (.clause :: s))).trans (ihc s)

def Shape.Ends : Shape → List Mark → Prop
  | .branch, w => Word .branches w
  | .otherwise, w => w = [.endIf]
  | .loop, w => w = [.endWhile]
  | .attempt, w => ∃ first clauses, w = .catchBegin :: (first ++ clauses) ∧ Word .body first ∧
      Word .clauses clauses
  | .clause, w => Word .clauses w

def Closes : List Shape → List Mark → Prop
  | [], w => Word .body w
  | block :: outer, w => ∃ body rest after, w = body ++ rest ++ after ∧ Word .body body ∧
      block.Ends rest ∧ Closes outer after

namespace Closes

variable {s : List Shape} {block : Shape} {u w : List Mark}

theorem prepend (hu : ∀ rest, Word .body rest → Word .body (u ++ rest)) (h : Closes s w) :
    Closes s (u ++ w) := by
  cases s with
  | nil => exact hu w h
  | cons block outer =>
    obtain ⟨body, rest, after, rfl, hbody, hrest, hafter⟩ := h
    refine ⟨u ++ body, rest, after, ?_, hu body hbody, hrest, hafter⟩
    simp only [List.append_assoc]

theorem ends (block : Shape) (hu : block.Ends u) (h : Closes s w) : Closes (block :: s) (u ++ w) :=
  ⟨[], u, w, rfl, .nil, hu, h⟩

theorem of_step {k : Mark} {s' : List Shape} (hk : k.step s = some s') (h : Closes s' w) :
    Closes s (k :: w) := by
  unfold Mark.step at hk
  split at hk <;> cases hk
  · obtain ⟨body, rest, after, rfl, hbody, hrest, hafter⟩ := h
    exact hafter.prepend (u := .ifBegin :: (body ++ rest)) fun _ => .conditional hbody hrest
  · obtain ⟨body, rest, after, rfl, hbody, hrest, hafter⟩ := h
    exact hafter.ends .branch (.elseIf hbody hrest)
  · obtain ⟨body, _, after, rfl, hbody, rfl, hafter⟩ := h
    exact hafter.ends .branch (.elseBegin hbody)
  · exact h.ends .branch .endIf
  · exact h.ends .otherwise rfl
  · obtain ⟨body, _, after, rfl, hbody, rfl, hafter⟩ := h
    exact hafter.prepend (u := .whileBegin :: (body ++ [.endWhile])) fun _ => .loop hbody
  · exact h.ends .loop rfl
  · obtain ⟨body, _, after, rfl, hbody, ⟨first, clauses, rfl, hfirst, hclauses⟩, hafter⟩ := h
    exact hafter.prepend (u := .tryBegin :: (body ++ .catchBegin :: (first ++ clauses)))
      fun _ => .guarded hbody hfirst hclauses
  · obtain ⟨body, rest, after, rfl, hbody, hrest, hafter⟩ := h
    exact hafter.ends .attempt ⟨body, rest, rfl, hbody, hrest⟩
  · obtain ⟨body, rest, after, rfl, hbody, hrest, hafter⟩ := h
    exact hafter.ends .clause (.catchBegin hbody hrest)
  · exact h.ends .clause .endTry

end Closes

theorem closes_of_steps {w : List Mark} {s : List Shape} (h : steps w s = some []) : Closes s w := by
  induction w generalizing s with
  | nil =>
    cases h
    exact Word.nil
  | cons k w ih =>
    rw [steps_cons] at h
    obtain ⟨s', hk, hw⟩ := Option.bind_eq_some_iff.mp h
    exact (ih hw).of_step hk

theorem steps_eq_nil_iff {w : List Mark} : steps w [] = some [] ↔ Word .body w :=
  ⟨closes_of_steps, fun h => h.steps_eq []⟩

def Shape.ending : Shape → List Mark
  | .branch | .otherwise => [.endIf]
  | .loop => [.endWhile]
  | .attempt => [.catchBegin, .endTry]
  | .clause => [.endTry]

theorem steps_endings (s : List Shape) : steps (s.flatMap Shape.ending) s = some [] := by
  induction s with
  | nil => rfl
  | cons block outer ih =>
    rw [List.flatMap_cons, steps_append]
    cases block <;> exact ih

theorem isSome_steps_iff {w : List Mark} :
    (steps w []).isSome = true ↔ ∃ v, Word .body (w ++ v) := by
  constructor
  · intro h
    obtain ⟨s, hs⟩ := Option.isSome_iff_exists.mp h
    refine ⟨s.flatMap Shape.ending, steps_eq_nil_iff.mp ?_⟩
    rw [steps_append, hs]
    exact steps_endings s
  · rintro ⟨v, hv⟩
    have hsteps := steps_eq_nil_iff.mpr hv
    rw [steps_append] at hsteps
    obtain ⟨s, hs, -⟩ := Option.bind_eq_some_iff.mp hsteps
    rw [hs]
    rfl

end Bytesmith.Build
