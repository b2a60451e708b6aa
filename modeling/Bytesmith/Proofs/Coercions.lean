import Bytesmith.Proofs.Conformance
import Bytesmith.Proofs.Jumps
import Bytesmith.Proofs.Retention
import Bytesmith.Proofs.Trees

namespace Bytesmith.Machine

open Code Bytesmith.Outcome
open Build (StaticType)

/-- The value is one of the type: it conforms to it, and is null only where the type has
references. -/
structure Inhabits (m : Module) (s : Store) (ty : StaticType) (v : Value) : Prop where
  conforms : Conforms m s ty v
  reference : v = .null → ty.isReference = true

namespace Inhabits

variable {m : Module} {s : Store} {ty : StaticType} {v : Value}

theorem iff_kind (hty : ty.isValue = true) : Inhabits m s ty v ↔ v.kind? = some ty.valueKind := by
  constructor
  · rintro ⟨hconforms, hreference⟩
    cases hconforms with
    | null =>
      have hty' := hreference rfl
      cases ty <;> first | (cases hty'; done) | cases hty
    | bool | int | enum | long | double => rfl
    | string | text | object | boxed | «class» => cases hty
  · intro hkind
    refine ⟨.of_kind hkind hty, ?_⟩
    rintro rfl
    cases hkind

theorem iff_isInstance {tag : TypeTag} (hty : ty.tag? = some tag) (hv : Conforms m s .object v) :
    Inhabits m s ty v ↔ v = .null ∨ isInstance m s v tag = true := by
  constructor
  · rintro ⟨hconforms, -⟩
    cases hconforms with
    | null => exact .inl rfl
    | string | text | object | boxed =>
      cases hty
      exact .inr rfl
    | «class» id name ref hassignable =>
      cases hty
      exact .inr hassignable
    | bool | int | enum | long | double => cases hty
  · have hreference : ty.isReference = true := by
      cases ty <;> first | rfl | cases hty
    rintro (rfl | hinstance)
    · exact ⟨.null ty, fun _ => hreference⟩
    · exact ⟨hv.of_isInstance hty hinstance, fun _ => hreference⟩

end Inhabits

end Bytesmith.Machine

namespace Bytesmith.Build

open Code Machine Bytesmith.Outcome

theorem Emitter.bytes_push (e : Emitter) (he : e.isFinished = false) (i : Instr Label) :
    (e.push i).bytes = e.bytes ++ (i.mapTarget fun _ => 0).encode := by
  rw [bytes_of_open he, bytes_of_open (e := e.push i) he, code_push, assemble_append]
  exact congrArg _ (List.append_nil _)

namespace Coercion

inductive Between (isSubtype : Nat → Nat → Bool) : StaticType → StaticType → Coercion → Prop
  | same (ty : StaticType) : Between isSubtype ty ty .none
  | null {target : StaticType} (h : target.isReference = true) : Between isSubtype .null target .none
  | object {source : StaticType} (h : source.isReference = true) :
      Between isSubtype source .object .none
  | base {sub sup : Nat} {name name' : String} (h : isSubtype sub sup = true) :
      Between isSubtype (.class sub name) (.class sup name') .none
  | widen {source target : StaticType} {w : Widening} (h : source.widening? target = some w) :
      Between isSubtype source target (.widen w)
  | box {source : StaticType} (h : source.isValue = true) :
      Between isSubtype source .object (.box source.valueKind)
  | unbox {target : StaticType} (h : target.isValue = true) :
      Between isSubtype .object target (.unbox target.valueKind)
  | cast {source target : StaticType} {tag : TypeTag} (hs : source.isReference = true)
      (ht : target.tag? = some tag) : Between isSubtype source target (.cast tag)

variable {isSubtype : Nat → Nat → Bool} {source target : StaticType} {c : Coercion}

theorem Between.of_select (h : select isSubtype source target = .ok c) :
    Between isSubtype source target c := by
  have hselect := select?_eq_some h
  unfold select? at hselect
  split at hselect
  · cases hselect
  · rename_i hstorable
    simp only [Bool.or_eq_true, Bool.not_eq_true', not_or, Bool.not_eq_false] at hstorable
    obtain ⟨hvoid, hstorable⟩ := hstorable
    -- what is neither void nor a value is a reference
    have hreference {ty : StaticType} (hvoid : ¬ ty.isVoid = true) (hvalue : ty.isValue = false) :
        ty.isReference = true := by
      cases ty <;> first | rfl | exact absurd rfl hvoid | cases hvalue
    have htarget : ¬ target.isVoid = true := by
      cases target <;> first | exact Bool.false_ne_true | cases hstorable
    split at hselect
    · rename_i heq
      cases hselect
      exact heq ▸ .same source
    · split at hselect
      · obtain ⟨w, hw, rfl⟩ := Option.map_eq_some_iff.mp hselect
        exact .widen hw
      · rename_i hvalue _
        split at hselect
        · rename_i hobject
          cases hselect
          exact hobject ▸ .box hvalue
        · cases hselect
      · rename_i hvalue
        split at hselect
        · rename_i hobject
          cases hselect
          exact hobject ▸ .unbox hvalue
        · cases hselect
      · rename_i hsource hvalue
        have hs := hreference hvoid hsource
        have ht := hreference htarget hvalue
        unfold ofReferences? at hselect
        split at hselect
        · cases hselect
          exact .null ht
        · cases hselect
          exact .object hs
        · split at hselect
          · rename_i hsub
            cases hselect
            exact .base hsub
          · cases hselect
            exact .cast rfl rfl
        · obtain ⟨tag, htag, rfl⟩ := Option.map_eq_some_iff.mp hselect
          exact .cast rfl htag
        · cases hselect

def instr? {τ : Type} : Coercion → Option (Instr τ)
  | .none => Option.none
  | .widen w => some (.widen w)
  | .box kind => some (.box kind.toByte)
  | .unbox kind => some (.unbox kind.toByte)
  | .cast tag => some (.cast tag)

def bytes (c : Coercion) : List UInt8 := (c.instr?.toList : List (Instr Int32)).flatMap Instr.encode

def steps (c : Coercion) : Nat := (c.instr?.toList : List (Instr Int32)).length

def StandsAt (c : Coercion) (f : Frame) : Prop :=
  ∃ before after, f.function.code.toList = before ++ c.bytes ++ after ∧ before.length = f.position

/-- The frame after the conversion, with the stack as it is then. -/
def passed (c : Coercion) (f : Frame) (stack : List Value) : Frame :=
  { f with position := f.position + c.bytes.length, stack := stack }

/-- What comes of a conversion that gives a value or fails, above the rest of the stack. -/
def outcome (c : Coercion) (k : Configuration) (rest : List Value) :
    Except Fault Value → Machine.Outcome
  | .ok w => .running { k with frame := c.passed k.frame (w :: rest) }
  | .error e => .faulted e k.store

theorem bytes_of_instr? {i : Instr Int32} (hi : c.instr? = some i) : c.bytes = i.encode := by
  rw [bytes, hi, Option.toList_some, List.flatMap_singleton]

theorem emit_eq (hc : c.BoxesValues) {e : Emitter} (he : e.isFinished = false) :
    ∃ e', c.emit e = .ok () e' ∧ e'.bytes = e.bytes ++ c.bytes := by
  have hopen := EmitM.ensureOpen_of_open he
  have hpush (i : Instr Label) (hi : c.instr? = some (i.mapTarget fun _ => (0 : Int32))) :
      (e.push i).bytes = e.bytes ++ c.bytes := by
    rw [e.bytes_push he, bytes_of_instr? hi]
  cases c with
  | none => exact ⟨e, rfl, (List.append_nil _).symm⟩
  | widen w => exact ⟨e.push (.widen w), bind_of_ok hopen, hpush _ rfl⟩
  | cast tag => exact ⟨e.push (.cast tag), bind_of_ok hopen, hpush _ rfl⟩
  | box kind =>
    refine ⟨e.push (.box kind.toByte), (bind_of_ok hopen).trans ?_, hpush _ rfl⟩
    rw [if_neg hc]
    rfl
  | unbox kind =>
    refine ⟨e.push (.unbox kind.toByte), (bind_of_ok hopen).trans ?_, hpush _ rfl⟩
    rw [if_neg hc]
    rfl

theorem fetch_eq {f : Frame} {i : Instr Int32} (hi : c.instr? = some i) (h : c.StandsAt f) :
    f.fetch = .ok (i, c.passed f f.stack) := by
  obtain ⟨before, after, hcode, hposition⟩ := h
  have hreads := i.reads before after
  rw [Wire.Reader.between, Wire.Reader.between, List.length_append, ← List.append_assoc,
    ← bytes_of_instr? hi, ← hcode, hposition] at hreads
  rw [Array.toArray_toList] at hreads
  rw [Frame.fetch, Frame.read, hreads]
  rfl

theorem kindOperand_toByte (f : Frame) (kind : ValueKind) :
    kindOperand f kind.toByte = .ok kind := by
  cases kind <;> rfl

theorem run_eq {m : Module} {limit : Nat} {k : Configuration} {v : Value} {rest : List Value}
    (h : c.StandsAt k.frame) (hstack : k.frame.stack = v :: rest) :
    run m limit c.steps (.running k) = c.outcome k rest (c.convert m k.store v) := by
  have hpop : (c.passed k.frame k.frame.stack).pop = .ok (v, c.passed k.frame rest) := by
    rw [Frame.pop, passed, hstack]
    rfl
  have hone {i : Instr Int32} (hi : c.instr? = some i)
      (hexec : exec m k.store (c.passed k.frame k.frame.stack) i = c.convert m k.store v >>= fun w =>
        .ok (.next (c.passed k.frame (w :: rest)) k.store)) :
      run m limit c.steps (.running k) = c.outcome k rest (c.convert m k.store v) := by
    have hsteps : c.steps = 1 := by
      rw [steps, hi]
      rfl
    rw [hsteps, run, step_of_fetch (fetch_eq hi h), hexec, run_zero]
    cases c.convert m k.store v <;> rfl
  cases c with
  | none =>
    rw [convert, outcome, passed, ← hstack]
    exact run_zero ..
  | widen | cast =>
    apply hone rfl
    rw [exec, hpop]
    rfl
  | box | unbox =>
    apply hone rfl
    rw [exec, kindOperand_toByte, hpop]
    rfl

/-- What a conversion to the type makes of a value: an implicit one gives a value of the type; to
unbox gives the content of a box of such a value, and to cast gives back null and such a value, and
both fail on all others. -/
structure Sound (m : Module) (s : Store) (target : StaticType) (v : Value) (c : Coercion)
    (result : Except Fault Value) : Prop where
  implicit : c.isImplicit = true → ∃ w, result = .ok w ∧ Inhabits m s target w
  none : c = .none → result = .ok v
  box : ∀ kind, c = .box kind → result = .ok (.boxed v)
  unbox : ∀ kind, c = .unbox kind → ∀ w, result = .ok w ↔ v = .boxed w ∧ Inhabits m s target w
  cast : ∀ tag, c = .cast tag → ∀ w, result = .ok w ↔ w = v ∧ (v = .null ∨ Inhabits m s target v)
  faults : ∀ e, result = .error e →
    (∃ kind, c = .unbox kind ∧ v = .null ∧ e = .nullReference (.unboxed kind)) ∨
    (∃ kind, c = .unbox kind ∧ v ≠ .null ∧ e = .invalidCast (runtimeType m s v) kind.name) ∨
    ∃ tag, c = .cast tag ∧ v ≠ .null ∧ e = .invalidCast (runtimeType m s v) (tagName m tag)

variable {m : Module} {s : Store} {v : Value}

theorem sound_none (h : Inhabits m s target v) : Sound m s target v .none (.ok v) := by
  refine ⟨fun _ => ⟨v, rfl, h⟩, fun _ => rfl, nofun, nofun, nofun, ?_⟩
  rintro _ ⟨⟩

theorem sound_widen {w : Widening} (hw : source.widening? target = some w)
    (h : Inhabits m s source v) : Sound m s target v (.widen w) (Machine.widen w v) := by
  obtain ⟨x, hx, hwide⟩ : ∃ x, Machine.widen w v = .ok x ∧ Inhabits m s target x := by
    have hsource : source.isValue = true := by
      cases source <;> first | rfl | cases hw
    have hkind := (Inhabits.iff_kind hsource).mp h
    cases source <;> cases target <;> cases hw <;> cases v <;> cases hkind <;>
      exact ⟨_, rfl, (Inhabits.iff_kind rfl).mpr rfl⟩
  rw [hx]
  refine ⟨fun _ => ⟨x, rfl, hwide⟩, nofun, nofun, nofun, nofun, ?_⟩
  rintro _ ⟨⟩

theorem sound_box (kind : ValueKind) : Sound m s .object v (.box kind) (.ok (.boxed v)) := by
  refine ⟨fun _ => ⟨.boxed v, rfl, .boxed v, nofun⟩, nofun, fun _ _ => rfl, nofun, nofun, ?_⟩
  rintro _ ⟨⟩

theorem sound_unbox (ht : target.isValue = true) :
    Sound m s target v (.unbox target.valueKind) (Machine.unbox m s target.valueKind v) := by
  refine ⟨nofun, nofun, nofun, fun kind hkind w => ?_, nofun, fun e he => ?_⟩
  · cases hkind
    cases v with
    | boxed inner =>
      rw [Machine.unbox]
      by_cases hinner : inner.kind? = some target.valueKind
      · rw [if_pos hinner, Except.ok.injEq, Value.boxed.injEq]
        refine ⟨fun h => ⟨h, ?_⟩, And.left⟩
        exact (Inhabits.iff_kind ht).mpr (h ▸ hinner)
      · rw [if_neg hinner]
        refine ⟨nofun, ?_⟩
        rintro ⟨heq, hw⟩
        cases heq
        exact absurd ((Inhabits.iff_kind ht).mp hw) hinner
    | _ => exact ⟨nofun, nofun⟩
  · cases v with
    | null =>
      cases he
      exact .inl ⟨_, rfl, rfl, rfl⟩
    | boxed inner =>
      rw [Machine.unbox] at he
      split at he
      · cases he
      · cases he
        exact .inr (.inl ⟨_, rfl, nofun, rfl⟩)
    | _ =>
      cases he
      exact .inr (.inl ⟨_, rfl, nofun, rfl⟩)

theorem sound_cast {tag : TypeTag} (ht : target.tag? = some tag) (h : Conforms m s .object v) :
    Sound m s target v (.cast tag) (Machine.cast m s tag v) := by
  have hinstance := Inhabits.iff_isInstance ht h
  rw [Machine.cast]
  refine ⟨nofun, nofun, nofun, nofun, fun tag' htag w => ?_, fun e he => ?_⟩
  · by_cases hv : (decide (v = .null) || isInstance m s v tag) = true
    · rw [if_pos hv]
      simp only [Bool.or_eq_true, decide_eq_true_eq] at hv
      refine ⟨fun hw => ?_, fun hw => congrArg _ hw.1.symm⟩
      cases hw
      exact ⟨rfl, .inr (hinstance.mpr hv)⟩
    · rw [if_neg hv]
      simp only [Bool.or_eq_true, decide_eq_true_eq] at hv
      refine ⟨nofun, fun hw => absurd ?_ hv⟩
      exact hw.2.elim .inl hinstance.mp
  · split at he
    · cases he
    · rename_i hv
      simp only [Bool.or_eq_true, decide_eq_true_eq, not_or] at hv
      cases he
      exact .inr (.inr ⟨tag, rfl, hv.1, rfl⟩)

theorem Between.sound (h : Between isSubtype source target c)
    (hsub : ∀ sub sup name name', isSubtype sub sup = true →
      ∀ v, Conforms m s (.class sub name) v → Conforms m s (.class sup name') v)
    (hv : Inhabits m s source v) : Sound m s target v c (c.convert m s v) := by
  cases h with
  | same ty => exact sound_none hv
  | null ht =>
    obtain ⟨hconforms, -⟩ := hv
    cases hconforms
    exact sound_none ⟨.null target, fun _ => ht⟩
  | object hs => exact sound_none ⟨hv.conforms.of_isReference hs, fun _ => rfl⟩
  | base h => exact sound_none ⟨hsub _ _ _ _ h v hv.conforms, fun _ => rfl⟩
  | widen hw => exact sound_widen hw hv
  | box hs => exact sound_box _
  | unbox ht => exact sound_unbox ht
  | cast hs ht => exact sound_cast ht (hv.conforms.of_isReference hs)

end Coercion

theorem Session.conforms_of_isSubtype {p₀ p p' : Project} {issued : List (Nat × Variable)}
    {m : Module} (h : Session Anything p₀ issued) (ho : Onward p₀ p)
    (hcreate : ProjectM.create p = .ok m p') (hclasses : m.classes.length ≤ 2 ^ 32) {sub sup : Nat}
    (name name' : String) (hsub : p₀.draft.isSubtype sub sup = true) {s : Store} {v : Value}
    (hv : Conforms m s (.class sub name) v) : Conforms m s (.class sup name') v := by
  obtain ⟨issued₁, h₁⟩ := h.onward ho
  have hfrozen := h₁.frozen_of_create hcreate
  have h' := h₁.created hcreate
  obtain ⟨issued', hc, -⟩ := h'.course
  have htables := h'.tabulates hfrozen.created
  have hretains : p₀.draft.Retains p'.draft := by
    have hcreated := (Onward.create ho).retains
    rwa [hcreate] at hcreated
  cases hv with
  | null => exact .null _
  | «class» _ _ ref hassignable =>
    have hassignable' := htables.isAssignable hc.listed (htables.count ▸ hclasses)
      (hretains.isSubtype hsub)
    exact .class sup name' ref
      ((htables.descends hc.listed).isAssignable_trans hassignable hassignable')

/-- Whatever a module has been through, the conversions that are chosen at any time before it is
created are sound when the module runs: their instruction is emitted wherever code is, and takes a
value of the source type to what `Coercion.Sound` says. Unboxing undoes boxing. -/
theorem Session.coercions_sound {p₀ p p' : Project} {issued : List (Nat × Variable)} {m : Module}
    (h : Session Anything p₀ issued) (ho : Onward p₀ p) (hcreate : ProjectM.create p = .ok m p')
    (hclasses : m.classes.length ≤ 2 ^ 32) :
    (∀ source target c, p₀.draft.coercion source target = .ok c →
      (∀ e : Emitter, e.isFinished = false →
        ∃ e', c.emit e = .ok () e' ∧ e'.bytes = e.bytes ++ c.bytes) ∧
      ∀ (limit : Nat) (k : Configuration) (v : Value) (rest : List Value), c.StandsAt k.frame →
        k.frame.stack = v :: rest → Inhabits m k.store source v →
          ∃ result, run m limit c.steps (.running k) = c.outcome k rest result ∧
            c.Sound m k.store target v result) ∧
    ∀ (limit : Nat) (k : Configuration) (kind : ValueKind) (v : Value) (rest : List Value),
      v.kind? = some kind → (Coercion.unbox kind).StandsAt k.frame →
        k.frame.stack = .boxed v :: rest →
          run m limit 1 (.running k) = (Coercion.unbox kind).outcome k rest (.ok v) := by
  constructor
  · intro source target c hselect
    have hbetween := Coercion.Between.of_select hselect
    have hboxes := Coercion.boxesValues_of_select hselect
    refine ⟨fun e he => Coercion.emit_eq hboxes he, fun limit k v rest hat hstack hv => ?_⟩
    refine ⟨c.convert m k.store v, Coercion.run_eq hat hstack, hbetween.sound ?_ hv⟩
    intro sub sup name name' hsub v
    exact h.conforms_of_isSubtype ho hcreate hclasses name name' hsub
  · intro limit k kind v rest hkind hat hstack
    refine (Coercion.run_eq hat hstack).trans (congrArg _ ?_)
    exact if_pos hkind

/-- A method narrows a shape to a square, and another takes the side of a square out of a box. -/
def narrowing : List Operation := [
  .defineType "Shape" {} none [],
  .defineType "Square" {} (some 0) [],
  .defineMethod 0 "narrow" { isStatic := true } (.class 1 "Square") [⟨"shape", .class 0 "Shape"⟩],
  .edit 0 (.ret (.slot 0 0 "shape" (.class 0 "Shape"))),
  .defineMethod 1 "side" { isStatic := true } .int [⟨"value", .object⟩],
  .edit 1 (.ret (.slot 1 0 "value" .object))]

def shapes : Store := ⟨#[⟨0, []⟩, ⟨1, []⟩], []⟩

def converting (g : Function) (v : Value) : Configuration := ⟨shapes, ⟨g, 3, [v], #[v]⟩, []⟩

abbrev Narrows (d : Draft) (m : Module) (narrow side : Function) : Prop :=
  m.classes.length ≤ 2 ^ 32 ∧ m.isAssignable 0 0 = true ∧ m.isAssignable 1 0 = true ∧
  d.coercion (.class 0 "Shape") (.class 1 "Square") = .ok (.cast (.class 1)) ∧
  narrow.code.toList = [16, 0, 0] ++ (Coercion.cast (.class 1)).bytes ++ [162] ∧
  side.code.toList = [16, 0, 0] ++ (Coercion.unbox .i32).bytes ++ [162]

/-- A shape, a square and null are narrowed, and an integer is unboxed. -/
theorem Session.coercions_sound_narrowing : ∃ p issued m p' narrow side,
    Builds Anything "Shapes" narrowing p issued ∧ ProjectM.create p = .ok m p' ∧
    Narrows p.draft m narrow side ∧
    (∀ v ∈ [.object 0, .object 1, .null], ∃ result,
      run m 64 1 (.running (converting narrow v)) =
        (Coercion.cast (.class 1)).outcome (converting narrow v) [] result ∧
      (Coercion.cast (.class 1)).Sound m shapes (.class 1 "Square") v result) ∧
    run m 64 1 (.running (converting side (.boxed (.i32 4)))) =
      (Coercion.unbox .i32).outcome (converting side (.boxed (.i32 4))) [] (.ok (.i32 4)) := by
  obtain ⟨p, issued, m, p', h, hcreate, hchecked⟩ := Builds.exists_created Anything "Shapes"
    narrowing (fun p m _ => (m.function? 0).any fun narrow => (m.function? 1).any fun side =>
      decide (Narrows p.draft m narrow side)) (by decide +kernel)
  obtain ⟨narrow, -, hchecked⟩ := (Option.any_eq_true ..).mp hchecked
  obtain ⟨side, -, hchecked⟩ := (Option.any_eq_true ..).mp hchecked
  have hnarrows := of_decide_eq_true hchecked
  obtain ⟨hclasses, hshape, hsquare, hselect, hnarrow, hside⟩ := id hnarrows
  obtain ⟨hcasts, hunboxes⟩ := h.session.coercions_sound .refl hcreate hclasses
  refine ⟨p, issued, m, p', narrow, side, h, hcreate, hnarrows, fun v hv => ?_, ?_⟩
  · refine (hcasts _ _ _ hselect).2 64 (converting narrow v) v [] ⟨_, _, hnarrow, rfl⟩ rfl ?_
    simp only [List.mem_cons, List.not_mem_nil, or_false] at hv
    obtain rfl | rfl | rfl := hv
    · exact ⟨.class 0 "Shape" 0 hshape, nofun⟩
    · exact ⟨.class 0 "Shape" 1 hsquare, nofun⟩
    · exact ⟨.null _, fun _ => rfl⟩
  · exact hunboxes 64 (converting side (.boxed (.i32 4))) .i32 (.i32 4) [] rfl
      ⟨_, _, hside, rfl⟩ rfl

end Bytesmith.Build
