import Bytesmith.Proofs.Twins

namespace Bytesmith.Build

open Code Outcome

theorem Session.twins {p : Project} {issued : List (Nat × Variable)}
    (h : Session Anything p issued) (m : Nat) : Draft.Twins m p.draft p.draft :=
  ⟨rfl, fun t ht => ⟨t, ht, (h.lives _ (.refl _) m t ht).alike⟩, h.lives, h.lives⟩

def Operation.answer (op : Operation) (d : Draft) : Option (List (Nat × Variable)) :=
  match op.perform d with
  | .ok given _ => some given
  | .error _ _ => none

theorem Operation.answer_eq {S : Draft → Draft → Prop} {op₁ op₂ : Operation} {d₁ d₂ : Draft}
    (h : Matches (fun given given' => outline given = outline given') S (op₁.perform d₁)
      (op₂.perform d₂)) : (op₁.answer d₁).map outline = (op₂.answer d₂).map outline := by
  obtain ⟨a, b, s, t, h₁, h₂, hab, -⟩ | ⟨e, e', s, t, h₁, h₂, -⟩ := h.elim
  · simp only [answer, h₁, h₂, Option.map_some, hab]
  · simp only [answer, h₁, h₂, Option.map_none]

namespace Draft

def after (d : Draft) : List Operation → Draft
  | [] => d
  | op :: ops => (final (op.perform d)).after ops

def answers (m : Nat) (d : Draft) : List Operation → List (Option (List (Nat × Variable)))
  | [] => []
  | op :: ops =>
    let rest := (final (op.perform d)).answers m ops
    if op.builder? = some m then op.answer d :: rest else rest

variable {m : Nat} {d d₁ d₂ : Draft} {op op₁ op₂ : Operation} {ops ops₁ ops₂ : List Operation}

theorem after_append (ops ops' : List Operation) :
    d.after (ops ++ ops') = (d.after ops).after ops' := by
  induction ops generalizing d with
  | nil => rfl
  | cons op ops ih => exact ih

theorem answers_of_eq (h : op.builder? = some m) :
    d.answers m (op :: ops) = op.answer d :: (final (op.perform d)).answers m ops := by
  rw [answers, if_pos h]

theorem answers_of_ne (h : op.builder? ≠ some m) :
    d.answers m (op :: ops) = (final (op.perform d)).answers m ops := by
  rw [answers, if_neg h]

theorem Twins.skip (h : Twins m d₁ d₂) (hother : ∀ op ∈ ops, op.builder? ≠ some m)
    (hbuilder : ∀ op ∈ ops, op.builder?.isSome = true) (rest : List Operation) :
    Twins m d₁ (d₂.after ops) ∧ d₂.answers m (ops ++ rest) = (d₂.after ops).answers m rest := by
  induction ops generalizing d₂ with
  | nil => exact ⟨h, rfl⟩
  | cons op ops ih =>
    obtain ⟨i, hi⟩ := Option.isSome_iff_exists.mp (hbuilder op (.head _))
    have hne := hother op (.head _)
    have him : m ≠ i := by
      rintro rfl
      exact hne hi
    rw [List.cons_append, answers_of_ne hne]
    exact ih (Operation.twins_right h him hi)
      (fun op' h' => hother op' (.tail op h'))
      fun op' h' => hbuilder op' (.tail op h')

theorem Twins.run (h : Twins m d₁ d₂) (hbuilder₁ : ∀ op ∈ ops₁, op.builder?.isSome = true)
    (hbuilder₂ : ∀ op ∈ ops₂, op.builder?.isSome = true)
    (hname : ∀ name ty, .edit m (.createLocal name ty) ∈ ops₁ → isTemporary name = false)
    (hsame : (ops₁.filter (·.builder? = some m)).map Operation.canonical =
      (ops₂.filter (·.builder? = some m)).map Operation.canonical) :
    Twins m (d₁.after ops₁) (d₂.after ops₂) ∧
      (d₁.answers m ops₁).map (·.map Operation.outline) =
        (d₂.answers m ops₂).map (·.map Operation.outline) := by
  induction ops₁ generalizing d₁ d₂ ops₂ with
  | nil =>
    rw [List.filter_nil, List.map_nil, eq_comm, List.map_eq_nil_iff,
      List.filter_eq_nil_iff] at hsame
    have hother : ∀ op ∈ ops₂, op.builder? ≠ some m := by simpa using hsame
    obtain ⟨htwins, hanswers⟩ := h.skip hother hbuilder₂ []
    rw [List.append_nil] at hanswers
    rw [hanswers]
    exact ⟨htwins, rfl⟩
  | cons op₁ ops₁ ih =>
    have hbuilder₁' : ∀ op ∈ ops₁, op.builder?.isSome = true :=
      fun op hop => hbuilder₁ op (.tail op₁ hop)
    have hname' : ∀ name ty, .edit m (.createLocal name ty) ∈ ops₁ → isTemporary name = false :=
      fun name ty hop => hname name ty (.tail op₁ hop)
    by_cases hm : op₁.builder? = some m
    · rw [List.filter_cons_of_pos (by simpa using hm), List.map_cons, eq_comm,
        List.map_eq_cons_iff] at hsame
      obtain ⟨op₂, rest, hfilter, hop, hrest⟩ := hsame
      obtain ⟨before, behind, rfl, hbefore, hm₂, rfl⟩ := List.filter_eq_cons_iff.mp hfilter
      have hother : ∀ op ∈ before, op.builder? ≠ some m := by simpa using hbefore
      have hbuilder (op : Operation) (hop : op ∈ before ∨ op ∈ behind) :
          op.builder?.isSome = true := by
        refine hbuilder₂ op (List.mem_append.mpr (hop.imp_right fun hop => ?_))
        exact .tail op₂ hop
      obtain ⟨hskip, hanswers⟩ := h.skip hother (fun op hop => hbuilder op (.inl hop))
        (op₂ :: behind)
      have hmatches := Operation.twins_perform hskip hm hop.symm fun name ty t₁ t₂ heq h₁ h₂ => by
        obtain ⟨t₂', h₂', ht⟩ := hskip.method t₁ h₁
        rw [h₂] at h₂'
        cases h₂'
        exact ht.declares_eq (hname name ty (heq ▸ (.head _)))
      obtain ⟨htwins, hrun⟩ := ih hmatches.final hbuilder₁'
        (fun op hop => hbuilder op (.inr hop)) hname' hrest.symm
      rw [hanswers, answers_of_eq hm, answers_of_eq (by simpa using hm₂), List.map_cons,
        List.map_cons, hrun, Operation.answer_eq hmatches, after_append]
      exact ⟨htwins, rfl⟩
    · rw [List.filter_cons_of_neg (by simpa using hm)] at hsame
      obtain ⟨i, hi⟩ := Option.isSome_iff_exists.mp (hbuilder₁ op₁ (.head _))
      have him : m ≠ i := by
        rintro rfl
        exact hm hi
      rw [answers_of_ne hm]
      exact ih (Operation.twins_left h him hi) hbuilder₁' hbuilder₂ hname' hsame

end Draft

end Bytesmith.Build

namespace Bytesmith.Code

/-- The instructions stand at the same place and are the same, but that strings are pushed by the
index that the same string has in either pool. -/
def Placed.SameIn (q₁ q₂ : Pool) (p₁ p₂ : Placed) : Prop :=
  p₁.offset = p₂.offset ∧ p₁.next = p₂.next ∧
    (p₁.instr = p₂.instr ∧ (∀ index, p₁.instr ≠ .constStr index) ∨
      ∃ index₁ index₂ s, p₁.instr = .constStr index₁ ∧ p₂.instr = .constStr index₂ ∧
        q₁.get? index₁ = some s ∧ q₂.get? index₂ = some s)

def SameCode (q₁ q₂ : Pool) (code₁ code₂ : Array UInt8) : Prop :=
  ∃ placed₁ placed₂, instructions code₁ = .ok placed₁ ∧ instructions code₂ = .ok placed₂ ∧
    List.Forall₂ (Placed.SameIn q₁ q₂) placed₁ placed₂

end Bytesmith.Code

namespace Bytesmith.Build

open Code Outcome

/-- The bodies have the same code, handlers and count of locals, and are finished or not alike. -/
structure MethodDef.SameBody (q₁ q₂ : Pool) (t₁ t₂ : MethodDef) : Prop where
  code : SameCode q₁ q₂ t₁.emitter.bytes.toArray t₂.emitter.bytes.toArray
  handlers : t₁.emitter.handlers = t₂.emitter.handlers
  localCount : t₁.emitter.localCount = t₂.emitter.localCount
  isOpen : t₁.state = .open ↔ t₂.state = .open
  finished : ∀ body₁, t₁.state = .finished body₁ → ∃ body₂, t₂.state = .finished body₂ ∧
    SameCode q₁ q₂ body₁.code body₂.code ∧ body₁.handlers = body₂.handlers ∧
    body₁.localCount = body₂.localCount

section Code

variable {q₁ q₂ : Pool} (h₁ : q₁.strings.length ≤ 2 ^ 32) (h₂ : q₂.strings.length ≤ 2 ^ 32)
include h₁ h₂

theorem Placed.sameIn {i j : Instr Int32} (h : Instr.Alike q₁ q₂ i j) (offset next : Nat) :
    Placed.SameIn q₁ q₂ ⟨offset, next, i⟩ ⟨offset, next, j⟩ := by
  refine ⟨rfl, rfl, ?_⟩
  cases h with
  | same h =>
    refine .inl ⟨rfl, ?_⟩
    rintro index rfl
    cases h
  | string hs₁ hs₂ =>
    exact .inr ⟨_, _, _, rfl, rfl, Pool.get?_indexOf hs₁ h₁, Pool.get?_indexOf hs₂ h₂⟩

theorem sameCode_assemble (distance : Nat → Label → Int32) {code₁ code₂ : List (Instr Label)}
    (h : List.Forall₂ (Instr.Alike q₁ q₂) code₁ code₂) :
    SameCode q₁ q₂ (Emitter.assemble distance 0 code₁).toArray
      (Emitter.assemble distance 0 code₂).toArray := by
  have hplaced (offset : Nat) : List.Forall₂ (Placed.SameIn q₁ q₂)
      (Emitter.placed distance offset code₁) (Emitter.placed distance offset code₂) := by
    induction h generalizing offset with
    | nil => exact .nil
    | cons hi _ ih =>
      rw [Emitter.placed, Emitter.placed, hi.size_eq]
      exact .cons (Placed.sameIn h₁ h₂ (hi.mapTarget _) _ _) (ih _)
  exact ⟨_, _, Emitter.instructions_assemble distance code₁,
    Emitter.instructions_assemble distance code₂, hplaced 0⟩

theorem MethodDef.Alike.sameBody {t₁ t₂ : MethodDef} (h : MethodDef.Alike q₁ q₂ t₁ t₂) :
    MethodDef.SameBody q₁ q₂ t₁ t₂ := by
  have hcode := h.emitter.code
  have hdistance := h.emitter.distance_eq
  constructor
  case code =>
    rw [Emitter.bytes, Emitter.bytes, h.emitter.isFinished, hdistance]
    exact sameCode_assemble h₁ h₂ _ hcode
  case handlers => exact h.emitter.handlers
  case localCount => exact h.emitter.localCount_eq
  case isOpen =>
    obtain ⟨hs₁, hs₂⟩ | ⟨hs₁, hs₂⟩ | ⟨hs₁, hs₂⟩ := h.state.elim <;> simp [hs₁, hs₂]
  case finished =>
    intro body₁ hbody₁
    obtain ⟨hs₁, hs₂⟩ | ⟨hs₁, hs₂⟩ | ⟨hs₁, hs₂⟩ := h.state.elim
    · rw [hs₁] at hbody₁
      cases hbody₁
    · rw [hs₁] at hbody₁
      cases hbody₁
    · rw [hs₁] at hbody₁
      cases hbody₁
      refine ⟨_, hs₂, ?_, h.emitter.handlers, h.emitter.localCount_eq⟩
      rw [Emitter.body, Emitter.body, hdistance]
      exact sameCode_assemble h₁ h₂ _ hcode

end Code

/-- The operations are those of two sequences, one on each of two methods, and each sequence is in
its order. Operands are the same up to the names that temporaries have in this interleaving. -/
structure Interleaves (a b : Nat) (left right ops : List Operation) : Prop where
  builder : ∀ op ∈ ops, op.builder? = some a ∨ op.builder? = some b
  left : (ops.filter (·.builder? = some a)).map Operation.canonical = left.map Operation.canonical
  right : (ops.filter (·.builder? = some b)).map Operation.canonical = right.map Operation.canonical

theorem Operation.eq_createLocal {op : Operation} {m : Nat} {name : String} {ty : StaticType}
    (h : op.canonical = .edit m (.createLocal name ty)) : op = .edit m (.createLocal name ty) := by
  cases op with
  | edit m' e =>
    obtain ⟨rfl, he⟩ := Operation.edit.inj h
    cases e with
    | createLocal => exact h
    | _ => cases he
  | _ => cases h

theorem Interleaves.mem_createLocal {a b m : Nat} {left right ops : List Operation} {name : String}
    {ty : StaticType} (h : Interleaves a b left right ops)
    (hop : .edit m (.createLocal name ty) ∈ ops) :
    .edit m (.createLocal name ty) ∈ left ++ right := by
  have hmem {xs : List Operation} {i : Nat} (hi : i = m)
      (hxs : (ops.filter (·.builder? = some i)).map Operation.canonical =
        xs.map Operation.canonical) : .edit m (.createLocal name ty) ∈ xs := by
    have hcanonical : .edit m (.createLocal name ty) ∈ xs.map Operation.canonical := by
      rw [← hxs]
      refine List.mem_map.mpr ⟨_, List.mem_filter.mpr ⟨hop, ?_⟩, rfl⟩
      rw [hi]
      exact decide_eq_true rfl
    obtain ⟨op', hop', heq⟩ := List.mem_map.mp hcanonical
    rw [← Operation.eq_createLocal heq]
    exact hop'
  rw [List.mem_append]
  obtain hm | hm := h.builder _ hop
  · exact .inl (hmem (Option.some.inj hm).symm h.left)
  · exact .inr (hmem (Option.some.inj hm).symm h.right)

/-- Two sequences of operations, on two methods of a module, can be interleaved in any way: each
operation gives the same, and each method gets the same code, up to the indices of strings and the
names of temporaries. -/
theorem Session.interleavings_agree {p : Project} {issued : List (Nat × Variable)}
    (h : Session Anything p issued) {a b : Nat} {left right ops₁ ops₂ : List Operation}
    (hnames : ∀ m name ty, .edit m (.createLocal name ty) ∈ left ++ right →
      isTemporary name = false)
    (h₁ : Interleaves a b left right ops₁) (h₂ : Interleaves a b left right ops₂) :
    ∀ m ∈ [a, b],
      (p.draft.answers m ops₁).map (·.map Operation.outline) =
        (p.draft.answers m ops₂).map (·.map Operation.outline) ∧
      ∀ t₁, (p.draft.after ops₁).methods[m]? = some t₁ →
        ∃ t₂, (p.draft.after ops₂).methods[m]? = some t₂ ∧
          ((p.draft.after ops₁).constants.strings.length ≤ 2 ^ 32 →
            (p.draft.after ops₂).constants.strings.length ≤ 2 ^ 32 →
            MethodDef.SameBody (p.draft.after ops₁).constants (p.draft.after ops₂).constants
              t₁ t₂) := by
  have hbuilder {ops : List Operation} (hops : Interleaves a b left right ops) :
      ∀ op ∈ ops, op.builder?.isSome = true := by
    intro op hop
    obtain hm | hm := hops.builder op hop <;> rw [hm] <;> rfl
  intro m hm
  have hsame : (ops₁.filter (·.builder? = some m)).map Operation.canonical =
      (ops₂.filter (·.builder? = some m)).map Operation.canonical := by
    simp only [List.mem_cons, List.not_mem_nil, or_false] at hm
    obtain rfl | rfl := hm
    · rw [h₁.left, h₂.left]
    · rw [h₁.right, h₂.right]
  obtain ⟨htwins, hanswers⟩ := (h.twins m).run (hbuilder h₁) (hbuilder h₂)
    (fun name ty hop => hnames m name ty (h₁.mem_createLocal hop)) hsame
  refine ⟨hanswers, fun t₁ ht₁ => ?_⟩
  obtain ⟨t₂, ht₂, ht⟩ := htwins.method t₁ ht₁
  exact ⟨t₂, ht₂, fun hsize₁ hsize₂ => ht.sameBody hsize₁ hsize₂⟩

def saluting : List Operation := [
  .defineType "Host" {} none [],
  .defineMethod 0 "welcome" { isStatic := true } .string [⟨"name", .string⟩],
  .defineMethod 0 "dismiss" { isStatic := true } .string [⟨"name", .string⟩]]

def salute (m : Nat) (text temporary : String) : List Operation := [
  .edit m (.arithmetic .add (.constant (.string text)) (.slot m 0 "name" .string)),
  .edit m (.ret (.slot m 1 temporary .string)),
  .finalize m]

def oneByOne : List Operation := salute 0 "Hello, " "__add1" ++ salute 1 "Bye, " "__add2"

def inTurn : List Operation :=
  (List.zipWith (fun second first => [second, first]) (salute 1 "Bye, " "__add1")
    (salute 0 "Hello, " "__add2")).flatten

theorem canonical_salute (m : Nat) (text : String) {temporary other : String}
    (h : isTemporary temporary = true) (h' : isTemporary other = true) :
    (salute m text temporary).map Operation.canonical =
      (salute m text other).map Operation.canonical := by
  simp only [salute, List.map_cons, Operation.canonical, Edit.canonical, Variable.canonical,
    canonicalName, h, h', if_true]

theorem Session.interleavings_agree_salute : ∃ p issued t₁ t₂,
    Builds Anything "Greetings" saluting p issued ∧
    (p.draft.after oneByOne).methods[0]? = some t₁ ∧
    (p.draft.after inTurn).methods[0]? = some t₂ ∧ t₁.body?.isSome = true ∧
    MethodDef.SameBody ⟨["Hello, ", "Bye, "]⟩ ⟨["Bye, ", "Hello, "]⟩ t₁ t₂ := by
  obtain ⟨p, issued, hp, hafter⟩ := Builds.exists_of_any Anything "Greetings" saluting (fun p _ =>
    (p.draft.after oneByOne).constants = ⟨["Hello, ", "Bye, "]⟩ ∧
      (p.draft.after inTurn).constants = ⟨["Bye, ", "Hello, "]⟩ ∧
      (p.draft.after oneByOne).methods[0]?.any (·.body?.isSome)) (by decide +kernel)
  obtain ⟨hpool₁, hpool₂, hbody⟩ := of_decide_eq_true hafter
  obtain ⟨t₁, ht₁, hfinished⟩ := (Option.any_eq_true ..).mp hbody
  have hnames (m : Nat) (name : String) (ty : StaticType)
      (hop : .edit m (.createLocal name ty) ∈
        salute 0 "Hello, " "__add1" ++ salute 1 "Bye, " "__add2") : isTemporary name = false := by
    simp [salute] at hop
  have h₁ : Interleaves 0 1 (salute 0 "Hello, " "__add1") (salute 1 "Bye, " "__add2") oneByOne :=
    ⟨by decide, rfl, rfl⟩
  have h₂ : Interleaves 0 1 (salute 0 "Hello, " "__add1") (salute 1 "Bye, " "__add2") inTurn := by
    refine ⟨by decide, canonical_salute _ _ ?_ ?_, canonical_salute _ _ ?_ ?_⟩ <;> decide +kernel
  obtain ⟨-, hmethod⟩ := hp.session.interleavings_agree hnames h₁ h₂ 0 (.head _)
  obtain ⟨t₂, ht₂, hsame⟩ := hmethod t₁ ht₁
  have hpools {q₁ q₂ : Pool} (hq₁ : (p.draft.after oneByOne).constants = q₁)
      (hq₂ : (p.draft.after inTurn).constants = q₂) (hsize₁ : q₁.strings.length ≤ 2 ^ 32)
      (hsize₂ : q₂.strings.length ≤ 2 ^ 32) : MethodDef.SameBody q₁ q₂ t₁ t₂ := by
    subst hq₁ hq₂
    exact hsame hsize₁ hsize₂
  exact ⟨p, issued, t₁, t₂, hp, ht₁, ht₂, hfinished, hpools hpool₁ hpool₂ (by decide) (by decide)⟩

end Bytesmith.Build
