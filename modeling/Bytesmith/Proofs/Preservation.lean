import Bytesmith.Proofs.Grades
import Bytesmith.Proofs.StackTypes

namespace Bytesmith.Machine

open Code
open Build (StaticType)

def callee? (m : Module) (k : Configuration) : Option UInt32 :=
  if k.frame.isAtEnd then none
  else match k.frame.effect m k.store with
    | .ok (.call id _ _ _) => some id
    | _ => none

/-- The functions that the frames run after a step, innermost first. A call adds one, and frames
that are left take theirs away. -/
def functionsAfter (m : Module) (limit : Nat) (k : Configuration) (ids : List UInt32) :
    List UInt32 :=
  let all := (callee? m k).toList ++ ids
  match step m limit k with
  | .running k' => all.drop (all.length - k'.depth)
  | _ => []

def functionsAt (m : Module) (limit : Nat) : Nat → Outcome → List UInt32 → List UInt32
  | fuel + 1, .running k, ids =>
    functionsAt m limit fuel (step m limit k) (functionsAfter m limit k ids)
  | _, _, ids => ids

def Outcome.store : Outcome → Store
  | .running k => k.store
  | .returned _ s | .uncaught _ s | .faulted _ s => s

def Resume.values : Resume → List Value
  | .leave object => [object]
  | _ => []

def Frame.values (f : Frame) : List Value := f.locals.toList ++ f.stack

def Outcome.values : Outcome → List Value
  | .running k => k.frame.values ++ k.callers.flatMap fun c => c.frame.values ++ c.resume.values
  | .returned v _ | .uncaught v _ => [v]
  | .faulted _ _ => []

theorem Frame.Typed.live {m : Module} {W : World} {slots σ : List StaticType} {x : Frame}
    (h : x.Typed m W slots σ) {v : Value} (hv : v ∈ x.values) {ref : Nat}
    (href : v.ref? = some ref) : W.live ref := by
  obtain hv | hv := List.mem_append.mp hv
  · obtain ⟨j, hj⟩ := List.getElem?_of_mem hv
    rw [Array.getElem?_toList] at hj
    have hlt : j < slots.length := h.count ▸ (Array.getElem?_eq_some_iff.mp hj).1
    exact (h.locals j _ v (List.getElem?_eq_getElem hlt) hj).live ref href
  · obtain ⟨j, hj, rfl⟩ := List.getElem_of_mem hv
    have hlt : j < σ.length := h.stack.length_eq ▸ hj
    exact (h.stack.get hlt hj).live ref href

end Bytesmith.Machine

namespace Bytesmith.Build

open Code Bytesmith.Outcome Machine

def Grading.types (R : Rules) (slots : List StaticType) (returns : StaticType) :
    Grading (List StaticType) where
  step i σ σ' := Types R slots returns i σ σ'
  empty := []
  caught tag := [caughtType tag]
  jump l := .jump l []

structure Typechecks (D : Declared) (slots : UInt32 → List StaticType) : Prop where
  sound : D.Sound
  bodies : ∀ id f sig, D.module.function? id = some f → f.isAbstract = false →
    D.signature id = some sig → sig.takes <+: slots id ∧ f.localCount = (slots id).length ∧
      ∃ (e : Emitter) (level : Nat → List StaticType),
        e.Grounds (Grading.types D.rules (slots id) sig.returns) f level

structure Occupies (D : Declared) (slots : List StaticType) (returns : StaticType) (id : UInt32)
    (σ : List StaticType) (x : Frame) : Prop where
  function : D.module.function? id = some x.function
  code : ∃ (e : Emitter) (level : Nat → List StaticType),
    e.Grounds (Grading.types D.rules slots returns) x.function level ∧ e.Stage level x.position σ

/-- The frames of callers and what they hold are typed. The innermost one waits for a value of the
type, and the outermost one returns one of the last type. -/
inductive Waits (D : Declared) (slots : UInt32 → List StaticType) (W : World) (last : StaticType) :
    StaticType → List Caller → List UInt32 → Prop
  | nil : Waits D slots W last last [] []
  | cons {c : Caller} {id : UInt32} {result returns : StaticType} {σ σ' : List StaticType}
      {callers : List Caller} {ids : List UInt32} (hcode : Occupies D (slots id) result id σ' c.frame)
      (hframe : c.frame.Typed D.module W (slots id) σ)
      (hresume : c.resume.Restores D.module W returns σ σ')
      (rest : Waits D slots W last result callers ids) :
      Waits D slots W last returns (c :: callers) (id :: ids)

inductive Proceeds (D : Declared) (slots : UInt32 → List StaticType) (W : World)
    (last : StaticType) : Configuration → List UInt32 → Prop
  | intro {x : Frame} {callers : List Caller} {id : UInt32} {ids : List UInt32}
      {returns : StaticType} {σ : List StaticType} (hcode : Occupies D (slots id) returns id σ x)
      (hframe : x.Typed D.module W (slots id) σ)
      (rest : Waits D slots W last returns callers ids) :
      Proceeds D slots W last ⟨W.store, x, callers⟩ (id :: ids)

def AtHand (D : Declared) (slots : UInt32 → List StaticType) (W : World) (last : StaticType)
    (ids : List UInt32) : Outcome → Prop
  | .running k => Proceeds D slots W last k ids
  | .returned v _ => Suits D.module W last v
  | .uncaught v _ => Suits D.module W .object v
  | .faulted _ _ => True

structure Reaches (D : Declared) (slots : UInt32 → List StaticType) (W : World)
    (last : StaticType) (o : Outcome) (ids : List UInt32) : Prop where
  store : o.store = W.store
  sound : W.Sound D.module D.fields
  atHand : AtHand D slots W last ids o

variable {D : Declared} {slots : UInt32 → List StaticType} {W W' : World}
  {last returns : StaticType} {callers : List Caller} {ids : List UInt32} {v : Value}

namespace Waits

theorem grow (h : Waits D slots W last returns callers ids) (hs : W.Sound D.module D.fields)
    (hg : W.Grows W') : Waits D slots W' last returns callers ids := by
  induction h with
  | nil => exact .nil
  | @cons c id result returns σ σ' callers ids hcode hframe hresume _ ih =>
    refine .cons hcode (hframe.grow hs hg) ?_ ih
    cases hr : c.resume with
    | leave object =>
      rw [hr] at hresume
      obtain ⟨ty, hσ, hobject⟩ := hresume
      exact ⟨ty, hσ, hobject.grow hs hg⟩
    | _ =>
      rw [hr] at hresume
      exact hresume

theorem length_eq (h : Waits D slots W last returns callers ids) : callers.length = ids.length := by
  induction h with
  | nil => rfl
  | cons _ _ _ _ ih => rw [List.length_cons, List.length_cons, ih]

theorem reaches_finishFrame (h : Waits D slots W last returns callers ids)
    (hs : W.Sound D.module D.fields) (hv : Suits D.module W returns v) :
    Reaches D slots W last (finishFrame W.store v callers) ids := by
  cases h with
  | nil => exact ⟨rfl, hs, hv⟩
  | @cons c id result _ σ σ' callers ids hcode hframe hresume rest =>
    obtain ⟨x, offset, resume⟩ := c
    refine ⟨rfl, hs, ?_⟩
    cases resume with
    | discard =>
      obtain rfl := hresume
      exact .intro hcode hframe rest
    | push =>
      obtain rfl := hresume
      exact .intro ⟨hcode.function, hcode.code⟩ (hframe.push hv) rest
    | leave object =>
      obtain ⟨ty, rfl, hobject⟩ := hresume
      exact .intro ⟨hcode.function, hcode.code⟩ (hframe.push hobject) rest

theorem reaches_unwind {x : Frame} {id : UInt32} {σ σ' : List StaticType} (offset : Nat)
    (h : Waits D slots W last returns callers ids) (hs : W.Sound D.module D.fields)
    (hv : Suits D.module W .object v) (hcode : Occupies D (slots id) returns id σ' x)
    (hframe : x.Typed D.module W (slots id) σ) :
    ∃ ids', ids' <:+ id :: ids ∧
      Reaches D slots W last (unwind D.module W.store v x offset callers) ids' := by
  have hhandled {x : Frame} {callers : List Caller} {id : UInt32} {ids : List UInt32}
      {returns : StaticType} {σ σ' : List StaticType} {offset : Nat} {k : Handler}
      (hcode : Occupies D (slots id) returns id σ' x)
      (hframe : x.Typed D.module W (slots id) σ)
      (hrest : Waits D slots W last returns callers ids)
      (hk : handlerFor? D.module W.store v x offset = some k) :
      Proceeds D slots W last ⟨W.store, x.handle k v, callers⟩ (id :: ids) := by
    obtain ⟨hfunction, e, level, hgrounds, -⟩ := hcode
    have hfound := List.find?_some hk
    rw [Bool.and_eq_true] at hfound
    have hcaught : Suits D.module W (caughtType k.catchType) v :=
      ⟨hv.conforms.of_isInstance (tag?_caughtType _) hfound.2, hv.live⟩
    exact .intro ⟨hfunction, e, level, hgrounds,
        hgrounds.stage_handler (List.mem_of_find?_eq_some hk)⟩
      ⟨hframe.count, hframe.locals, .cons hcaught .nil⟩ hrest
  induction h generalizing x id σ σ' offset with
  | nil =>
    refine ⟨_, List.suffix_refl _, ?_⟩
    unfold unwind
    split
    · rename_i k hk
      exact ⟨rfl, hs, hhandled hcode hframe .nil hk⟩
    · exact ⟨rfl, hs, hv⟩
  | @cons c id' result returns σ₁ σ₁' callers ids hcode' hframe' hresume rest ih =>
    unfold unwind
    split
    · rename_i k hk
      exact ⟨_, List.suffix_refl _, rfl, hs, hhandled hcode hframe
        (.cons hcode' hframe' hresume rest) hk⟩
    · obtain ⟨ids', hsuffix, hreaches⟩ := ih c.callOffset hcode' hframe'
      exact ⟨ids', hsuffix.trans (List.suffix_cons ..), hreaches⟩

end Waits

theorem Typechecks.reaches_enter (hT : Typechecks D slots) {limit : Nat} {id : UInt32}
    {sig : Signature} {args : List Value} (hs : W.Sound D.module D.fields)
    (hsig : D.signature id = some sig) (hargs : List.Forall₂ (Suits D.module W) sig.takes args)
    (hw : Waits D slots W last sig.returns callers ids) :
    Reaches D slots W last (enter D.module limit W.store callers id args) (id :: ids) := by
  unfold enter
  split
  · exact ⟨rfl, hs, trivial⟩
  · split
    · exact ⟨rfl, hs, trivial⟩
    · rename_i f hf
      split
      · exact ⟨rfl, hs, trivial⟩
      · rename_i habstract
        rw [function_eq_ok] at hf
        obtain ⟨htakes, hcount, e, level, hgrounds⟩ :=
          hT.bodies id f sig hf (Bool.eq_false_iff.mpr habstract) hsig
        refine ⟨rfl, hs, .intro ⟨hf, e, level, hgrounds, hgrounds.stage_start⟩ ?_ hw⟩
        exact Frame.typed_enter hargs htakes hcount

theorem Typechecks.reaches_step (hT : Typechecks D slots) (limit : Nat) {k : Configuration}
    (hs : W.Sound D.module D.fields) (hk : Proceeds D slots W last k ids) :
    ∃ W' ids', W.Grows W' ∧ ids' <:+ (callee? D.module k).toList ++ ids ∧
      Reaches D slots W' last (step D.module limit k) ids' := by
  obtain ⟨hcode, hframe, hrest⟩ := hk
  rename_i x callers id ids returns σ
  unfold step callee?
  dsimp only
  split
  · exact ⟨W, ids, .refl W, List.suffix_cons .., hrest.reaches_finishFrame hs (.null returns)⟩
  · cases heffect : x.effect D.module W.store with
    | error e => exact ⟨W, _, .refl W, List.suffix_refl _, rfl, hs, trivial⟩
    | ok effect =>
      obtain ⟨i, x₁, hfetch, hexec⟩ := Frame.effect_eq_ok.mp heffect
      obtain ⟨hfunction, e, level, hgrounds, hstage⟩ := hcode
      obtain ⟨i₀, σ', -, rfl, rfl, htypes, harrives⟩ := hgrounds.fetched rfl hstage hfetch
      have hfits := fits_exec hexec
      have htyped := typed_exec (f := { x with position := x.position + i₀.size }) hT.sound hs
        ⟨hframe.count, hframe.locals, hframe.stack⟩ (htypes.mapTarget _) hexec
      cases effect with
      | next x' s' =>
        obtain ⟨live, hgrows, hsound, hx'⟩ := htyped
        obtain ⟨hkeeps, hplace, -⟩ := hfits
        refine ⟨⟨s', live⟩, _, hgrows, List.suffix_refl _, rfl, hsound, ?_⟩
        exact .intro (W := ⟨s', live⟩) ⟨hkeeps.function ▸ hfunction, e, level,
          hkeeps.function ▸ hgrounds, harrives x' hplace⟩ hx' (hrest.grow hs hgrows)
      | call callee args caller resume =>
        obtain ⟨sig, σ₁, hsig, hargs, hcaller, hresume⟩ := htyped
        obtain ⟨-, mode, _, argc, target, hcall, -, hplace, hkeeps, -⟩ := hfits
        have hposition := congrArg Frame.position hplace
        have hthrough : (i₀.mapTarget (e.distance (x.position + i₀.size))).opcode.isTerminator =
            false := by
          rw [hcall]
          cases mode <;> rfl
        refine ⟨W, _, .refl W, List.suffix_refl _, hT.reaches_enter hs hsig hargs ?_⟩
        exact .cons ⟨hkeeps.function ▸ hfunction, e, level, hkeeps.function ▸ hgrounds,
          harrives caller (.inl ⟨hposition, hthrough⟩)⟩ hcaller hresume hrest
      | ret v => exact ⟨W, _, .refl W, List.suffix_cons .., hrest.reaches_finishFrame hs htyped⟩
      | raise v =>
        obtain ⟨ids', hsuffix, hreaches⟩ := hrest.reaches_unwind x.position hs htyped
          ⟨hfunction, e, level, hgrounds, hstage⟩ hframe
        exact ⟨W, ids', .refl W, hsuffix, hreaches⟩

theorem Typechecks.reaches_run (hT : Typechecks D slots) {limit : Nat} (n : Nat) {o : Outcome}
    (h : Reaches D slots W last o ids) :
    ∃ W', W.Grows W' ∧ Reaches D slots W' last (run D.module limit n o)
      (functionsAt D.module limit n o ids) := by
  induction n generalizing W o ids with
  | zero => exact ⟨W, .refl W, h⟩
  | succ n ih =>
    cases o with
    | running k =>
      obtain ⟨W', ids', hgrows, hsuffix, hreaches⟩ := hT.reaches_step limit h.sound h.atHand
      have hids : ∃ ids'', ids'' = functionsAfter D.module limit k ids ∧
          Reaches D slots W' last (step D.module limit k) ids'' := by
        refine ⟨_, rfl, ?_⟩
        rw [functionsAfter]
        cases hstep : step D.module limit k with
        | running k' =>
          rw [hstep] at hreaches
          have hlength : ids'.length = k'.depth := by
            cases hreaches.atHand with
            | intro _ _ rest =>
              rw [Configuration.depth, List.length_cons, rest.length_eq]
          dsimp only
          rw [← hlength, ← List.suffix_iff_eq_drop.mp hsuffix]
          exact hreaches
        | _ =>
          rw [hstep] at hreaches
          exact ⟨hreaches.store, hreaches.sound, hreaches.atHand⟩
      obtain ⟨_, rfl, hreaches⟩ := hids
      obtain ⟨W'', hgrows', hreaches'⟩ := ih hreaches
      exact ⟨W'', hgrows.trans hgrows', hreaches'⟩
    | _ => exact ⟨W, .refl W, h⟩

theorem Waits.live (h : Waits D slots W last returns callers ids) :
    ∀ c ∈ callers, ∀ v ∈ c.frame.values ++ c.resume.values, ∀ ref, v.ref? = some ref →
      W.live ref := by
  induction h with
  | nil => exact nofun
  | @cons c id result returns σ σ' callers ids hcode hframe hresume _ ih =>
    intro c' hc' v hv ref href
    obtain rfl | hc' := List.mem_cons.mp hc'
    · obtain hv | hv := List.mem_append.mp hv
      · exact hframe.live hv href
      · cases hr : c'.resume with
        | leave object =>
          rw [hr] at hv hresume
          obtain ⟨ty, -, hobject⟩ := hresume
          cases List.mem_singleton.mp hv
          exact hobject.live ref href
        | _ =>
          rw [hr] at hv
          cases hv
    · exact ih c' hc' v hv ref href

theorem Reaches.live {o : Outcome} (h : Reaches D slots W last o ids) :
    ∀ v ∈ o.values, ∀ ref, v.ref? = some ref → W.live ref := by
  intro v hv ref href
  have hhand := h.atHand
  cases o with
  | running k =>
    cases hhand with
    | intro hcode hframe rest =>
      obtain hv | hv := List.mem_append.mp hv
      · exact hframe.live hv href
      · obtain ⟨c, hc, hv⟩ := List.mem_flatMap.mp hv
        exact rest.live c hc v hv ref href
  | returned | uncaught =>
    cases List.mem_singleton.mp hv
    exact Suits.live hhand ref href
  | faulted e s => cases hv

end Bytesmith.Build
