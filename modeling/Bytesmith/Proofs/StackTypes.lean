import Mathlib.Data.List.Forall2
import Bytesmith.Proofs.Conformance

namespace Bytesmith.Machine

open Code Bytesmith.Outcome
open Build (StaticType)

/-- The types of what a function takes, its receiver first, and of what it returns. -/
structure Signature where
  takes : List StaticType
  returns : StaticType

def caughtType : TypeTag → StaticType
  | .object => .object
  | .string => .string
  | .class id => .class id.toNat ""

theorem tag?_caughtType (tag : TypeTag) : (caughtType tag).tag? = some tag := by
  cases tag with
  | object | string => rfl
  | «class» id => simp [caughtType, StaticType.tag?]

/-- What code is typed by: what it can refer to, and which types are accepted for others. -/
structure Rules where
  strings : Nat
  classes : Nat
  HasField : UInt32 → StaticType → Prop
  signature : UInt32 → Option Signature
  Accepts : StaticType → StaticType → Prop
  refl : ∀ ty, Accepts ty ty
  null : ∀ ty, Accepts .null ty
  member : ∀ id name, Accepts .int (.enum id name)
  reference : ∀ ty, ty.isReference = true → Accepts ty .object
  caught : ∀ ty tag, ty.tag? = some tag → Accepts (caughtType tag) ty

structure Declared where
  module : Module
  fields : UInt32 → Option StaticType
  signature : UInt32 → Option Signature

namespace Declared

def Accepts (D : Declared) (source target : StaticType) : Prop :=
  ∀ s v, Conforms D.module s source v → Conforms D.module s target v

theorem accepts_caughtType (D : Declared) (ty : StaticType) (tag : TypeTag)
    (h : ty.tag? = some tag) : D.Accepts (caughtType tag) ty := by
  intro s v hv
  cases ty <;> cases h
  case «class» id name =>
    cases hv with
    | null => exact .null _
    | «class» _ _ ref hassignable =>
      have hid : id.toUInt32.toNat.toUInt32 = id.toUInt32 := UInt32.ofNat_toNat
      exact .class id name ref (hid ▸ hassignable)
  all_goals exact hv

def rules (D : Declared) : Rules where
  strings := D.module.constants.strings.length
  classes := D.module.classes.length
  HasField id ty := D.fields id = some ty
  signature := D.signature
  Accepts := D.Accepts
  refl _ _ _ h := h
  null ty s v hv := by
    cases hv
    exact .null ty
  member id name s v hv := by
    cases hv with
    | null => exact .null _
    | int n => exact .enum id name n
  reference _ hty _ _ hv := hv.of_isReference hty
  caught := D.accepts_caughtType

/-- The types are those of the module, and what a call of an abstract function comes to takes and
returns the same types as the function. -/
structure Sound (D : Declared) : Prop where
  kinds : ∀ id info ty, D.module.field? id = some info → D.fields id = some ty →
    info.kind = ty.valueKind
  returns : ∀ id f sig, D.module.function? id = some f → D.signature id = some sig →
    f.returnsValue = !sig.returns.isVoid
  dispatch : ∀ id f owner params returns, D.module.function? id = some f → f.isAbstract = true →
    D.signature id = some ⟨owner :: params, returns⟩ → ∀ s ref resolved,
      Conforms D.module s owner (.object ref) → D.module.Instantiable (s.object ref).classId →
      D.module.implementation? (s.object ref).classId f.name params.length = some resolved →
        ∃ owner', D.signature resolved = some ⟨owner' :: params, returns⟩ ∧
          Conforms D.module s owner' (.object ref)

end Declared

def leaves (takes : List StaticType) (returns : StaticType) : CallMode → List StaticType
  | .constructor => takes.take 1
  | _ => if returns.isVoid then [] else [returns]

/-- The instruction takes a stack of some types to a stack of others, top first, in a function
whose slots and result have the given types. -/
inductive Types (R : Rules) (slots : List StaticType) (returns : StaticType) {τ : Type} :
    Instr τ → List StaticType → List StaticType → Prop
  | pop (ty : StaticType) (σ : List StaticType) : Types R slots returns .pop (ty :: σ) σ
  | constNull (ty : StaticType) (σ : List StaticType) : Types R slots returns .constNull σ (ty :: σ)
  | constBool (b : Bool) (σ : List StaticType) : Types R slots returns (.constBool b) σ (.bool :: σ)
  | constI32 (n : Int32) {ty : StaticType} (hty : R.Accepts .int ty) (σ : List StaticType) :
      Types R slots returns (.constI32 n) σ (ty :: σ)
  | constI64 (n : Int64) (σ : List StaticType) : Types R slots returns (.constI64 n) σ (.long :: σ)
  | constF64 (x : Double) (σ : List StaticType) :
      Types R slots returns (.constF64 x) σ (.double :: σ)
  | constStr {index : UInt32} (hindex : index.toNat < R.strings) (σ : List StaticType) :
      Types R slots returns (.constStr index) σ (.string :: σ)
  | loadLocal {slot : UInt16} {ty : StaticType} (hslot : slots[slot.toNat]? = some ty)
      (σ : List StaticType) : Types R slots returns (.loadLocal slot) σ (ty :: σ)
  | storeLocal {slot : UInt16} {ty source : StaticType} (hslot : slots[slot.toNat]? = some ty)
      (haccepts : R.Accepts source ty) (σ : List StaticType) :
      Types R slots returns (.storeLocal slot) (source :: σ) σ
  | arith (kind : Numeric) (op : Arithmetic) (a b : StaticType) (σ : List StaticType) :
      Types R slots returns (.arith kind op) (b :: a :: σ) (.ofNumeric kind :: σ)
  | widen (w : Widening) (a : StaticType) (σ : List StaticType) :
      Types R slots returns (.widen w) (a :: σ) (widened w :: σ)
  | concat (a b : StaticType) (σ : List StaticType) :
      Types R slots returns .concat (b :: a :: σ) (.string :: σ)
  | jump (target : τ) (σ : List StaticType) : Types R slots returns (.jump target) σ σ
  | branch (t : Test) (target : τ) (a b : StaticType) (σ : List StaticType) :
      Types R slots returns (.branch t target) (b :: a :: σ) σ
  | call {mode : CallMode} {id : UInt32} {argc : UInt16} {sig : Signature}
      {takes : List StaticType} (hsig : R.signature id = some sig)
      (hcount : takes.length = argc.toNat + if mode = .static then 0 else 1)
      (haccepts : List.Forall₂ R.Accepts takes sig.takes) (σ : List StaticType) :
      Types R slots returns (.call mode id argc) (takes.reverse ++ σ)
        (leaves takes sig.returns mode ++ σ)
  | ret {source : StaticType} (haccepts : R.Accepts source returns) (σ : List StaticType) :
      Types R slots returns .ret (source :: σ) σ
  | retVoid (σ : List StaticType) : Types R slots returns .retVoid σ σ
  | new {id : Nat} (hid : id < R.classes) (name : String) (σ : List StaticType) :
      Types R slots returns (.new id.toUInt32) σ (.class id name :: σ)
  | loadField {id : UInt32} {ty : StaticType} (hty : R.HasField id ty) (receiver : StaticType)
      (σ : List StaticType) : Types R slots returns (.loadField id) (receiver :: σ) (ty :: σ)
  | storeField {id : UInt32} {ty source : StaticType} (hty : R.HasField id ty)
      (haccepts : R.Accepts source ty) (receiver : StaticType) (σ : List StaticType) :
      Types R slots returns (.storeField id) (source :: receiver :: σ) σ
  | loadStatic {id : UInt32} {ty : StaticType} (hty : R.HasField id ty)
      (σ : List StaticType) : Types R slots returns (.loadStatic id) σ (ty :: σ)
  | storeStatic {id : UInt32} {ty source : StaticType} (hty : R.HasField id ty)
      (haccepts : R.Accepts source ty) (σ : List StaticType) :
      Types R slots returns (.storeStatic id) (source :: σ) σ
  | box (kind : ValueKind) (a : StaticType) (σ : List StaticType) :
      Types R slots returns (.box kind.toByte) (a :: σ) (.object :: σ)
  | unbox {ty : StaticType} (hty : ty.isValue = true) (a : StaticType) (σ : List StaticType) :
      Types R slots returns (.unbox ty.valueKind.toByte) (a :: σ) (ty :: σ)
  | cast {tag : TypeTag} {ty source : StaticType} (hty : ty.tag? = some tag)
      (haccepts : R.Accepts source .object) (σ : List StaticType) :
      Types R slots returns (.cast tag) (source :: σ) (ty :: σ)
  | raise {source : StaticType} (haccepts : R.Accepts source .object) (σ : List StaticType) :
      Types R slots returns .raise (source :: σ) σ

theorem Types.mapTarget {R : Rules} {slots : List StaticType} {returns : StaticType}
    {τ τ' : Type} {i : Instr τ} {σ σ' : List StaticType} (h : Types R slots returns i σ σ')
    (f : τ → τ') : Types R slots returns (i.mapTarget f) σ σ' := by
  cases h <;> constructor <;> assumption

structure Frame.Typed (m : Module) (W : World) (slots σ : List StaticType) (f : Frame) : Prop where
  count : f.locals.size = slots.length
  locals : ∀ (j : Nat) (ty : StaticType) (v : Value), slots[j]? = some ty →
    f.locals[j]? = some v → Suits m W ty v
  stack : List.Forall₂ (Suits m W) σ f.stack

/-- A caller that waits with one stack goes on with another, once a function has returned. -/
def Resume.Restores (m : Module) (W : World) (returns : StaticType) (σ σ' : List StaticType) :
    Resume → Prop
  | .discard => σ' = σ
  | .push => σ' = returns :: σ
  | .leave object => ∃ ty, σ' = ty :: σ ∧ Suits m W ty object

/-- What an effect hands on conforms to the types, and a frame that goes on, now or later, does so
with a stack of the types. -/
def Effect.Typed (D : Declared) (W : World) (slots : List StaticType) (returns : StaticType)
    (σ' : List StaticType) : Effect → Prop
  | .next f s => ∃ live, W.Grows ⟨s, live⟩ ∧ World.Sound D.module D.fields ⟨s, live⟩ ∧
    f.Typed D.module ⟨s, live⟩ slots σ'
  | .call id args caller resume => ∃ sig σ, D.signature id = some sig ∧
    List.Forall₂ (Suits D.module W) sig.takes args ∧ caller.Typed D.module W slots σ ∧
    resume.Restores D.module W sig.returns σ σ'
  | .ret v => Suits D.module W returns v
  | .raise v => Suits D.module W .object v

variable {D : Declared} {W W' : World} {slots σ σ' : List StaticType} {returns ty : StaticType}
  {f f' : Frame} {v : Value}

theorem Suits.accept {source : StaticType} (h : Suits D.module W source v)
    (ha : D.Accepts source ty) : Suits D.module W ty v :=
  ⟨ha _ _ h.conforms, h.live⟩

namespace Frame.Typed

theorem grow (h : f.Typed D.module W slots σ) (hs : W.Sound D.module D.fields)
    (hg : W.Grows W') : f.Typed D.module W' slots σ := by
  refine ⟨h.count, fun j ty v hty hv => (h.locals j ty v hty hv).grow hs hg, ?_⟩
  exact h.stack.imp fun ty v hv => hv.grow hs hg

theorem push (h : f.Typed D.module W slots σ) (hv : Suits D.module W ty v) :
    (f.push v).Typed D.module W slots (ty :: σ) :=
  ⟨h.count, h.locals, .cons hv h.stack⟩

theorem pop (h : f.Typed D.module W slots (ty :: σ)) (hp : f.pop = .ok (v, f')) :
    Suits D.module W ty v ∧ f'.Typed D.module W slots σ := by
  obtain ⟨rest, hstack, rfl⟩ := pop_eq_ok hp
  have hs := h.stack
  rw [hstack] at hs
  cases hs with
  | cons hv hrest => exact ⟨hv, h.count, h.locals, hrest⟩

theorem of_pop {e : Effect} {k : Value × Frame → Except Fault Effect}
    (hf : f.Typed D.module W slots (ty :: σ)) (h : f.pop >>= k = .ok e) :
    ∃ v f', Suits D.module W ty v ∧ f'.Typed D.module W slots σ ∧ k (v, f') = .ok e := by
  obtain ⟨⟨v, f'⟩, hpop, h⟩ := except_bind_eq_ok.mp h
  obtain ⟨hv, hf'⟩ := hf.pop hpop
  exact ⟨v, f', hv, hf', h⟩

theorem of_pop2 {a b : StaticType} {e : Effect} {k : Value × Value × Frame → Except Fault Effect}
    (hf : f.Typed D.module W slots (b :: a :: σ)) (h : f.pop2 >>= k = .ok e) :
    ∃ x y f', Suits D.module W b y ∧ f'.Typed D.module W slots σ ∧ k (x, y, f') = .ok e := by
  obtain ⟨x, y, rest, hstack, h⟩ := pop2_bind_eq_ok h
  have hs := hf.stack
  rw [hstack] at hs
  cases hs with
  | cons hy hs =>
    cases hs with
    | cons _ hrest => exact ⟨x, y, { f with stack := rest }, hy, ⟨hf.count, hf.locals, hrest⟩, h⟩

theorem popArgs {takes : List StaticType} {args : List Value}
    (h : f.Typed D.module W slots (takes.reverse ++ σ)) (hp : f.popArgs takes.length = .ok (args, f')) :
    List.Forall₂ (Suits D.module W) takes args ∧ f'.Typed D.module W slots σ := by
  unfold Frame.popArgs at hp
  split at hp
  · cases hp
  · cases hp
    have htaken := (List.forall₂_take_append f.stack _ _ h.stack.flip).flip
    have hrest := (List.forall₂_drop_append f.stack _ _ h.stack.flip).flip
    rw [List.length_reverse] at htaken hrest
    refine ⟨?_, h.count, h.locals, hrest⟩
    have hreversed := List.forall₂_reverse_iff.mpr htaken
    rwa [List.reverse_reverse] at hreversed

theorem popReceiver {receiver : StaticType} {takes : List StaticType} {args : List Value} {argc : Nat}
    {f₁ : Frame} (h : f.Typed D.module W slots ((receiver :: takes).reverse ++ σ))
    (hcount : takes.length = argc) (hargs : f.popArgs argc = .ok (args, f₁))
    (hp : f₁.pop = .ok (v, f')) : List.Forall₂ (Suits D.module W) takes args ∧
      Suits D.module W receiver v ∧ f'.Typed D.module W slots σ := by
  subst hcount
  rw [List.reverse_cons, List.append_assoc] at h
  obtain ⟨hsuits, h₁⟩ := h.popArgs hargs
  exact ⟨hsuits, h₁.pop hp⟩

theorem loadLocal {slot : UInt16} (h : f.Typed D.module W slots σ)
    (hslot : slots[slot.toNat]? = some ty) (hl : f.loadLocal slot = .ok v) :
    Suits D.module W ty v := by
  unfold Frame.loadLocal at hl
  split at hl
  · rename_i v' hv
    cases hl
    exact h.locals _ _ _ hslot hv
  · cases hl

theorem storeLocal {slot : UInt16} (h : f.Typed D.module W slots σ)
    (hslot : slots[slot.toNat]? = some ty) (hv : Suits D.module W ty v)
    (hs : f.storeLocal slot v = .ok f') : f'.Typed D.module W slots σ := by
  obtain rfl := storeLocal_eq_ok hs
  refine ⟨Array.size_setIfInBounds.trans h.count, fun j ty' v' hty' hv' => ?_, h.stack⟩
  rw [Array.getElem?_setIfInBounds] at hv'
  split at hv'
  · rename_i hj
    subst hj
    rw [hslot] at hty'
    cases hty'
    split at hv'
    · cases hv'
      exact hv
    · cases hv'
  · exact h.locals j ty' v' hty' hv'

theorem jump {distance : Int32} (h : f.Typed D.module W slots σ)
    (hj : f.jump distance = .ok f') : f'.Typed D.module W slots σ := by
  obtain rfl := jump_eq_ok hj
  exact ⟨h.count, h.locals, h.stack⟩

theorem next (h : f.Typed D.module W slots σ) (hs : W.Sound D.module D.fields) :
    (Effect.next f W.store).Typed D W slots returns σ :=
  ⟨W.live, .refl W, hs, h⟩

end Frame.Typed

theorem Frame.typed_enter {takes : List StaticType} {args : List Value} {g : Function}
    (hargs : List.Forall₂ (Suits D.module W) takes args) (hslots : takes <+: slots)
    (hcount : g.localCount = slots.length) :
    (Frame.enter g args).Typed D.module W slots [] := by
  obtain ⟨more, rfl⟩ := hslots
  have hlength := hargs.length_eq
  rw [List.length_append] at hcount
  refine ⟨?_, fun j ty v hty hv => ?_, .nil⟩
  · simp only [enter, List.size_toArray, List.length_append, List.length_replicate]
    omega
  · rw [enter, List.getElem?_toArray] at hv
    by_cases hj : j < args.length
    · rw [List.getElem?_append_left hj] at hv
      rw [List.getElem?_append_left (by omega)] at hty
      obtain ⟨hj', rfl⟩ := List.getElem?_eq_some_iff.mp hty
      obtain ⟨hj'', rfl⟩ := List.getElem?_eq_some_iff.mp hv
      exact hargs.get hj' hj''
    · rw [List.getElem?_append_right (by omega), List.getElem?_replicate] at hv
      split at hv
      · cases hv
        exact .null ty
      · cases hv

theorem Declared.Sound.restores (hD : D.Sound) {id : UInt32} {g : Function} {sig : Signature}
    {mode : CallMode} (hmode : mode ≠ .constructor) (hg : function D.module id = .ok g)
    (hsig : D.signature id = some sig) (takes : List StaticType) :
    (if g.returnsValue then Resume.push else Resume.discard).Restores D.module W sig.returns σ
      (leaves takes sig.returns mode ++ σ) := by
  rw [hD.returns id g sig (function_eq_ok.mp hg) hsig]
  cases mode with
  | constructor => exact absurd rfl hmode
  | static | method =>
    rw [leaves]
    · cases sig.returns.isVoid <;> rfl
    · exact hmode

theorem receiverClass_eq_ok {s : Store} {member : String} {classId : UInt32}
    (h : receiverClass s member v = .ok classId) :
    ∃ ref, v = .object ref ∧ classId = (s.object ref).classId := by
  cases v with
  | object ref =>
    cases h
    exact ⟨ref, rfl, rfl⟩
  | _ => cases h

theorem typed_callEffect (hD : D.Sound) (hW : W.Sound D.module D.fields) {mode : CallMode}
    {id : UInt32} {argc : Nat} {sig : Signature} {takes : List StaticType} {e : Effect}
    (hsig : D.signature id = some sig)
    (hcount : takes.length = argc + if mode = .static then 0 else 1)
    (haccepts : List.Forall₂ D.Accepts takes sig.takes)
    (hf : f.Typed D.module W slots (takes.reverse ++ σ))
    (h : callEffect D.module W.store mode id argc f = .ok e) :
    e.Typed D W slots returns (leaves takes sig.returns mode ++ σ) := by
  have haccept {types types' : List StaticType} {args : List Value}
      (hargs : List.Forall₂ (Suits D.module W) types args)
      (hacc : List.Forall₂ D.Accepts types types') :
      List.Forall₂ (Suits D.module W) types' args := by
    induction hacc generalizing args with
    | nil => exact hargs
    | cons hx _ ih =>
      cases hargs with
      | cons hv hrest => exact .cons (hv.accept hx) (ih hrest)
  obtain ⟨target, htarget, h⟩ := except_bind_eq_ok.mp h
  obtain ⟨⟨args, f₁⟩, hargs, h⟩ := except_bind_eq_ok.mp h
  have hrestores (hmode : mode ≠ .constructor) :=
    hD.restores (W := W) (σ := σ) hmode htarget hsig takes
  obtain ⟨types, result⟩ := sig
  cases mode with
  | static =>
    rw [if_pos rfl, Nat.add_zero] at hcount
    rw [← hcount] at hargs
    obtain ⟨hsuits, hf₁⟩ := hf.popArgs hargs
    cases h
    exact ⟨_, σ, hsig, haccept hsuits haccepts, hf₁, hrestores nofun⟩
  | method =>
    cases haccepts with
    | nil => cases hcount
    | @cons receiver owner takes params hreceiver hparams =>
      rw [if_neg nofun, List.length_cons, Nat.add_right_cancel_iff] at hcount
      obtain ⟨⟨object, f₂⟩, hpop, h⟩ := except_bind_eq_ok.mp h
      obtain ⟨hsuits, hobject, hf₂⟩ := hf.popReceiver hcount hargs hpop
      obtain ⟨classId, hclass, h⟩ := except_bind_eq_ok.mp h
      obtain ⟨ref, rfl, rfl⟩ := receiverClass_eq_ok hclass
      have howner := hobject.accept hreceiver
      split at h
      · rename_i habstract
        split at h
        · rename_i resolved hresolved
          cases h
          rw [← hcount, hparams.length_eq] at hresolved
          obtain ⟨owner', hsig', hconforms⟩ := hD.dispatch id target owner params result
            (function_eq_ok.mp htarget) habstract hsig W.store ref resolved howner.conforms
            (hW.made ref (hobject.live ref rfl)) hresolved
          exact ⟨_, σ, hsig', .cons ⟨hconforms, hobject.live⟩ (haccept hsuits hparams), hf₂,
            hrestores nofun⟩
        · cases h
      · cases h
        exact ⟨_, σ, hsig, .cons howner (haccept hsuits hparams), hf₂, hrestores nofun⟩
  | constructor =>
    cases haccepts with
    | nil => cases hcount
    | @cons receiver owner takes params hreceiver hparams =>
      rw [if_neg nofun, List.length_cons, Nat.add_right_cancel_iff] at hcount
      obtain ⟨⟨object, f₂⟩, hpop, h⟩ := except_bind_eq_ok.mp h
      obtain ⟨hsuits, hobject, hf₂⟩ := hf.popReceiver hcount hargs hpop
      obtain ⟨_, -, h⟩ := except_bind_eq_ok.mp h
      cases h
      exact ⟨_, σ, hsig, .cons (hobject.accept hreceiver) (haccept hsuits hparams), hf₂,
        receiver, rfl, hobject⟩

theorem Declared.Sound.kept_default (hD : D.Sound) (id : UInt32) :
    Kept D.module W (D.fields id)
      (((D.module.field? id).map fun info => Value.default info.kind).getD .null) := by
  cases hty : D.fields id with
  | none =>
    refine ⟨nofun, ?_⟩
    cases D.module.field? id with
    | none => exact nofun
    | some info => cases hkind : info.kind <;> simp [hkind, Value.default, Value.ref?]
  | some ty =>
    refine Suits.kept ?_ rfl
    cases hinfo : D.module.field? id with
    | none => exact .null ty
    | some info =>
      rw [Option.map_some, Option.getD_some, hD.kinds id info ty hinfo hty]
      exact .default ty

theorem kindOperand_eq_ok {kind kind' : ValueKind} (h : kindOperand f kind.toByte = .ok kind') :
    kind' = kind := by
  cases kind <;> cases h <;> rfl

section

variable {e : Effect} (hW : W.Sound D.module D.fields)

include hW

theorem Frame.Typed.next_push (hf : f.Typed D.module W slots σ) (hv : Suits D.module W ty v) :
    (Effect.next (f.push v) W.store).Typed D W slots returns (ty :: σ) :=
  (hf.push hv).next hW

theorem typed_branch {t : Test} {target : Int32} {a b : StaticType}
    (hf : f.Typed D.module W slots (b :: a :: σ))
    (h : exec D.module W.store f (.branch t target) = .ok e) : e.Typed D W slots returns σ := by
  obtain ⟨x, y, f₁, -, hf₁, h⟩ := hf.of_pop2 h
  obtain ⟨taken, -, h⟩ := except_bind_eq_ok.mp h
  cases taken with
  | true =>
    obtain ⟨f₂, hjump, h⟩ := except_bind_eq_ok.mp h
    cases h
    exact (hf₁.jump hjump).next hW
  | false =>
    cases h
    exact hf₁.next hW

theorem typed_new (hD : D.Sound) {id : Nat} (name : String) (hf : f.Typed D.module W slots σ)
    (h : exec D.module W.store f (.new id.toUInt32) = .ok e) :
    e.Typed D W slots returns (.class id name :: σ) := by
  obtain ⟨o, ho, h⟩ := except_bind_eq_ok.mp h
  cases h
  obtain ⟨hclass, hmade, hfields⟩ := newObject_eq_ok ho
  obtain ⟨hgrows, hsound⟩ := hW.allocate (hclass ▸ hmade) fun f v hv =>
    hfields f v hv ▸ hD.kept_default f
  refine ⟨_, hgrows, hsound, (hf.grow hW hgrows).push ⟨.class id name _ ?_, fun ref href => ?_⟩⟩
  · rw [Store.object_allocate, if_pos rfl, hclass]
    exact D.module.isAssignable_refl _
  · cases href
    exact .inr rfl

variable {id : UInt32} (hty : D.rules.HasField id ty)

include hty

theorem typed_loadField {receiver : StaticType} (hf : f.Typed D.module W slots (receiver :: σ))
    (h : exec D.module W.store f (.loadField id) = .ok e) :
    e.Typed D W slots returns (ty :: σ) := by
  obtain ⟨object, f₁, hobject, hf₁, h⟩ := hf.of_pop h
  obtain ⟨v, hv, h⟩ := except_bind_eq_ok.mp h
  cases h
  obtain ⟨ref, rfl, hmem⟩ := loadField_eq_ok hv
  have hkept := hW.fields ref (hobject.live ref rfl) _ v hmem
  exact hf₁.next_push hW ⟨hkept.conforms _ hty, hkept.live⟩

theorem typed_loadStatic (hD : D.Sound) (hf : f.Typed D.module W slots σ)
    (h : exec D.module W.store f (.loadStatic id) = .ok e) :
    e.Typed D W slots returns (ty :: σ) := by
  obtain ⟨v, hv, h⟩ := except_bind_eq_ok.mp h
  cases h
  obtain hmem | ⟨info, hinfo, rfl⟩ := loadStatic_eq_ok hv
  · have hkept := hW.statics _ v hmem
    exact hf.next_push hW ⟨hkept.conforms _ hty, hkept.live⟩
  · rw [hD.kinds _ info _ hinfo hty]
    exact hf.next_push hW (.default _)

variable {source : StaticType} (haccepts : D.rules.Accepts source ty)

include haccepts

theorem typed_storeField {receiver : StaticType}
    (hf : f.Typed D.module W slots (source :: receiver :: σ))
    (h : exec D.module W.store f (.storeField id) = .ok e) : e.Typed D W slots returns σ := by
  obtain ⟨object, v, f₁, hv, hf₁, h⟩ := hf.of_pop2 h
  obtain ⟨s, hs, h⟩ := except_bind_eq_ok.mp h
  cases h
  obtain ⟨ref, rfl, rfl⟩ := storeField_eq_ok hs
  obtain ⟨hgrows, hsound⟩ := hW.setField ref ((hv.accept haccepts).kept hty)
  exact ⟨_, hgrows, hsound, hf₁.grow hW hgrows⟩

theorem typed_storeStatic (hf : f.Typed D.module W slots (source :: σ))
    (h : exec D.module W.store f (.storeStatic id) = .ok e) : e.Typed D W slots returns σ := by
  obtain ⟨_, -, h⟩ := except_bind_eq_ok.mp h
  obtain ⟨v, f₁, hv, hf₁, h⟩ := hf.of_pop h
  cases h
  obtain ⟨hgrows, hsound⟩ := hW.setStatic ((hv.accept haccepts).kept hty)
  exact ⟨_, hgrows, hsound, hf₁.grow hW hgrows⟩

end

theorem typed_exec (hD : D.Sound) (hW : W.Sound D.module D.fields) {i : Instr Int32} {e : Effect}
    (hf : f.Typed D.module W slots σ) (hi : Types D.rules slots returns i σ σ')
    (h : exec D.module W.store f i = .ok e) : e.Typed D W slots returns σ' := by
  cases hi with
  | pop =>
    obtain ⟨v, f₁, -, hf₁, h⟩ := hf.of_pop h
    cases h
    exact hf₁.next hW
  | constNull ty =>
    cases h
    exact hf.next_push hW (.null ty)
  | constBool b =>
    cases h
    exact hf.next_push hW ⟨.bool b, nofun⟩
  | constI32 n hty =>
    cases h
    exact hf.next_push hW (Suits.accept ⟨.int n, nofun⟩ hty)
  | constI64 n =>
    cases h
    exact hf.next_push hW ⟨.long n, nofun⟩
  | constF64 x =>
    cases h
    exact hf.next_push hW ⟨.double x, nofun⟩
  | constStr hindex =>
    unfold exec at h
    dsimp only at h
    split at h <;> cases h
    exact hf.next_push hW ⟨.string _, nofun⟩
  | loadLocal hslot =>
    obtain ⟨v, hv, h⟩ := except_bind_eq_ok.mp h
    cases h
    exact hf.next_push hW (hf.loadLocal hslot hv)
  | storeLocal hslot haccepts =>
    obtain ⟨v, f₁, hv, hf₁, h⟩ := hf.of_pop h
    obtain ⟨f₂, hstore, h⟩ := except_bind_eq_ok.mp h
    cases h
    exact (hf₁.storeLocal hslot (hv.accept haccepts) hstore).next hW
  | arith =>
    obtain ⟨x, y, f₁, -, hf₁, h⟩ := hf.of_pop2 h
    obtain ⟨v, hv, h⟩ := except_bind_eq_ok.mp h
    cases h
    exact hf₁.next_push hW (arith_suits hv)
  | widen =>
    obtain ⟨x, f₁, -, hf₁, h⟩ := hf.of_pop h
    obtain ⟨v, hv, h⟩ := except_bind_eq_ok.mp h
    cases h
    exact hf₁.next_push hW (widen_suits hv)
  | concat =>
    obtain ⟨x, y, f₁, -, hf₁, h⟩ := hf.of_pop2 h
    obtain ⟨v, hv, h⟩ := except_bind_eq_ok.mp h
    cases h
    exact hf₁.next_push hW (concat_suits hv)
  | jump =>
    obtain ⟨f₁, hjump, h⟩ := except_bind_eq_ok.mp h
    cases h
    exact (hf.jump hjump).next hW
  | branch => exact typed_branch hW hf h
  | call hsig hcount haccepts => exact typed_callEffect hD hW hsig hcount haccepts hf h
  | ret haccepts =>
    obtain ⟨v, f₁, hv, -, h⟩ := hf.of_pop h
    cases h
    exact hv.accept haccepts
  | retVoid =>
    cases h
    exact .null returns
  | new hid name => exact typed_new hW hD name hf h
  | loadField hty => exact typed_loadField hW hty hf h
  | storeField hty haccepts => exact typed_storeField hW hty haccepts hf h
  | loadStatic hty => exact typed_loadStatic hW hty hD hf h
  | storeStatic hty haccepts => exact typed_storeStatic hW hty haccepts hf h
  | box =>
    obtain ⟨_, -, h⟩ := except_bind_eq_ok.mp h
    obtain ⟨v, f₁, hv, hf₁, h⟩ := hf.of_pop h
    cases h
    exact hf₁.next_push hW ⟨.boxed v, hv.live⟩
  | unbox hty =>
    obtain ⟨kind, hkind, h⟩ := except_bind_eq_ok.mp h
    obtain rfl := kindOperand_eq_ok hkind
    obtain ⟨v, f₁, hv, hf₁, h⟩ := hf.of_pop h
    obtain ⟨v', hunbox, h⟩ := except_bind_eq_ok.mp h
    cases h
    exact hf₁.next_push hW (unbox_suits hunbox hty hv.live)
  | cast hty haccepts =>
    obtain ⟨v, f₁, hv, hf₁, h⟩ := hf.of_pop h
    obtain ⟨v', hcast, h⟩ := except_bind_eq_ok.mp h
    cases h
    exact hf₁.next_push hW (cast_suits hcast hty (hv.accept haccepts))
  | raise haccepts =>
    obtain ⟨v, f₁, hv, -, h⟩ := hf.of_pop h
    obtain ⟨-, h⟩ := except_guard_eq_ok.mp h
    cases h
    exact hv.accept haccepts

end Bytesmith.Machine
