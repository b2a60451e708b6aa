import Bytesmith.Proofs.Faults
import Bytesmith.Proofs.Markers

namespace Bytesmith.Build

open Code Outcome BuildM

def Block.shape : Block → Shape
  | .conditional (some _) _ => .branch
  | .conditional none _ => .otherwise
  | .loop _ _ => .loop
  | .guarded false => .attempt
  | .guarded true => .clause

namespace Edit

def mark? : Edit → Option Mark
  | .ifBegin _ _ _ => some .ifBegin
  | .elseIf _ _ _ => some .elseIf
  | .elseBegin => some .elseBegin
  | .endIf => some .endIf
  | .whileBegin _ _ _ => some .whileBegin
  | .endWhile => some .endWhile
  | .tryBegin => some .tryBegin
  | .catchBegin _ => some .catchBegin
  | .endTry => some .endTry
  | _ => none

/-- The operands fit the operation: their types and their owner, the rights to read and to write
them, and a slot for the result. Which blocks are open does not matter. -/
def Valid (d : Draft) (m : Nat) (e : Edit) : Prop :=
  ∃ t c, d.methods[m]? = some t ∧ e.Stands d m t c ∧ c.check = .ok () ∧
    (c.result?.isSome = true → t.emitter.localCount < 65536)

variable {d : Draft} {m : Nat} {t : MethodDef} {e : Edit}

theorem resolve_of_stuck {k : Mark} (hk : e.mark? = some k)
    (h : k.step (t.blocks.map Block.shape) = none) :
    ∃ marker, e.resolve d m t = .error (unbalanced marker t.blocks) := by
  cases e <;> cases hk
  case ifBegin => cases h
  case whileBegin => cases h
  case tryBegin => cases h
  case endIf =>
    rw [resolve]
    split
    · rename_i pending _ _ hblocks
      rw [hblocks] at h
      cases pending <;> cases h
    · exact ⟨_, rfl⟩
  case catchBegin =>
    rw [resolve]
    split
    · rename_i hasCatch _ hblocks
      rw [hblocks] at h
      cases hasCatch <;> cases h
    · exact ⟨_, rfl⟩
  all_goals
    rw [resolve]
    split
    · rename_i hblocks
      rw [hblocks] at h
      cases h
    · exact ⟨_, rfl⟩

theorem exists_nextLocal (hopen : t.emitter.isFinished = false)
    (hsize : t.emitter.localCount < 65536) (name : String) (ty : StaticType) :
    ∃ v, t.nextLocal m name ty = .ok v := by
  refine ⟨.slot m t.emitter.localCount.toUInt16 name ty, ?_⟩
  rw [MethodDef.nextLocal, if_neg (by simp [hopen]), if_neg (by omega)]

theorem constructors_ne_nil {type constructor : Nat} {entry : TypeDef} {types : List StaticType}
    (hfind : d.findConstructor? type types = some constructor)
    (htype : d.types[type]? = some entry) : entry.constructors ≠ [] := by
  rintro hnone
  rw [Draft.findConstructor?, htype] at hfind
  simp [hnone, Draft.resolveOverload?] at hfind

theorem receiverOf_of_object {target : CallTarget} {receiver : Option Variable} {object : Variable}
    (hstatic : target.isStatic = false)
    (hobject : receiver = some object ∨ receiver = none ∧ d.this m = .ok object)
    (howned : d.ensureOwned m object = .ok ())
    (hcoercion : d.coercion object.ty target.owner = .ok .none) :
    d.receiverOf m target receiver = .ok (some object) := by
  rw [Draft.receiverOf, hstatic]
  obtain rfl | ⟨rfl, hthis⟩ := hobject
  · refine except_bind_eq_ok.mpr ⟨object, rfl, ?_⟩
    exact except_bind_eq_ok.mpr ⟨_, howned, except_bind_eq_ok.mpr ⟨_, hcoercion, rfl⟩⟩
  · refine except_bind_eq_ok.mpr ⟨_, hthis, ?_⟩
    exact except_bind_eq_ok.mpr ⟨_, howned, except_bind_eq_ok.mpr ⟨_, hcoercion, rfl⟩⟩

theorem resolve_of_call {method : Nat} {receiver object result : Option Variable}
    {args : List Variable} {target : CallTarget} {bound : List Argument}
    (htarget : d.callTarget method = .ok target) (hconstructor : target.isConstructor = false)
    (hobject : d.receiverOf m target receiver = .ok object)
    (hbound : d.bindArguments m target args = .ok bound)
    (hresult : result.map Variable.ty =
      if target.returnType.isVoid then none else some target.returnType)
    (htemp : result.isSome = true → ∃ v, d.nextTemp m t "call" target.returnType = .ok v) :
    ∃ r, (Edit.call method receiver args).resolve d m t =
      .ok (.call target object bound r, t.blocks) := by
  have hresolve {r : Option Variable} (h : (do
      if target.returnType.isVoid then return (.call target object bound none, t.blocks)
      let result ← d.nextTemp m t "call" target.returnType
      return (.call target object bound (some result), t.blocks) :
        Except BuildError (Command × List Block)) = .ok (.call target object bound r, t.blocks)) :
      (Edit.call method receiver args).resolve d m t =
        .ok (.call target object bound r, t.blocks) := by
    refine except_bind_eq_ok.mpr ⟨target, htarget, ?_⟩
    refine except_guard_eq_ok.mpr ⟨by simp [hconstructor], ?_⟩
    exact except_bind_eq_ok.mpr ⟨_, hobject, except_bind_eq_ok.mpr ⟨_, hbound, h⟩⟩
  cases hvoid : target.returnType.isVoid with
  | true => exact ⟨none, hresolve (by rw [hvoid]; rfl)⟩
  | false =>
    rw [hvoid] at hresult
    obtain ⟨v, hv⟩ := htemp (by cases result <;> simp_all)
    exact ⟨some v, hresolve (by rw [hvoid]; exact except_bind_eq_ok.mpr ⟨v, hv, rfl⟩)⟩

theorem resolve_of_plain {c : Command} (hmark : e.mark? = none) (hstands : e.Stands d m t c)
    (hcheck : c.check = .ok ())
    (hslot : c.result?.isSome = true → t.emitter.localCount < 65536)
    (hopen : t.emitter.isFinished = false) :
    ∃ c, e.resolve d m t = .ok (c, t.blocks) ∧ c.check = .ok () := by
  have hlocal (h : c.result?.isSome = true) := exists_nextLocal (m := m) hopen (hslot h)
  have htemp (h : c.result?.isSome = true) (stem : String) (ty : StaticType) :
      ∃ v, d.nextTemp m t stem ty = .ok v := hlocal h _ ty
  cases hstands with
  | @createLocal name ty v hty hv hname hnew =>
    obtain ⟨v', hv'⟩ := hlocal rfl name ty
    refine ⟨.defineLocal v', ?_, rfl⟩
    rw [resolve, hname, requireStorable, hty, hnew, hv']
    rfl
  | assign htarget hsource hcoercion =>
    refine ⟨_, ?_, hcheck⟩
    rw [resolve, htarget, hsource, hcoercion]
    rfl
  | @arithmetic op left right _ ty hleft hright hty hresult =>
    obtain ⟨v, hv⟩ := htemp rfl op.stem ty
    refine ⟨.arithmetic op left right ty v, ?_, hcheck⟩
    refine except_bind_eq_ok.mpr ⟨_, hleft, except_bind_eq_ok.mpr ⟨_, hright, ?_⟩⟩
    exact except_bind_eq_ok.mpr ⟨ty, hty, except_bind_eq_ok.mpr ⟨v, hv, rfl⟩⟩
  | @newPlain type entry _ htype habstract hresult hnone =>
    obtain ⟨v, hv⟩ := htemp rfl "new" (.class type entry.name)
    refine ⟨.newObject (.class type entry.name) none [] v, ?_, hcheck⟩
    refine except_bind_eq_ok.mpr ⟨entry, type_eq_ok.mpr htype, ?_⟩
    refine except_guard_eq_ok.mpr ⟨by simp [habstract], ?_⟩
    refine except_bind_eq_ok.mpr ⟨(none, []), ?_, except_bind_eq_ok.mpr ⟨v, hv, rfl⟩⟩
    rw [Draft.constructorOf, hnone]
    rfl
  | @newObject type constructor entry args target bound _ htype habstract hfind htarget hbound =>
    obtain ⟨v, hv⟩ := htemp rfl "new" (.class type entry.name)
    refine ⟨.newObject (.class type entry.name) (some target) bound v, ?_, hcheck⟩
    refine except_bind_eq_ok.mpr ⟨entry, type_eq_ok.mpr htype, ?_⟩
    refine except_guard_eq_ok.mpr ⟨by simp [habstract], ?_⟩
    refine except_bind_eq_ok.mpr ⟨(some target, bound), ?_, except_bind_eq_ok.mpr ⟨v, hv, rfl⟩⟩
    rw [Draft.constructorOf, if_neg (by simp [constructors_ne_nil hfind htype])]
    simp only [hfind]
    exact except_bind_eq_ok.mpr ⟨target, htarget, except_bind_eq_ok.mpr ⟨bound, hbound, rfl⟩⟩
  | @callStatic _ _ target _ _ htarget hconstructor hstatic hbound hresult =>
    have hobject : d.receiverOf m target none = .ok none := by
      rw [Draft.receiverOf, hstatic]
      rfl
    obtain ⟨r, hr⟩ := resolve_of_call htarget hconstructor hobject hbound hresult
      fun h => htemp h "call" _
    exact ⟨_, hr, hcheck⟩
  | callInstance htarget hconstructor hstatic hobject howned hcoercion hbound hresult =>
    obtain ⟨r, hr⟩ := resolve_of_call htarget hconstructor
      (receiverOf_of_object hstatic hobject howned hcoercion) hbound hresult
      fun h => htemp h "call" _
    exact ⟨_, hr, hcheck⟩
  | callBase hconstructor howner hbase hfind htarget hbound hthis =>
    refine ⟨_, ?_, hcheck⟩
    refine except_guard_eq_ok.mpr ⟨by simp [hconstructor], ?_⟩
    refine except_bind_eq_ok.mpr ⟨_, type_eq_ok.mpr howner, ?_⟩
    simp only [hbase, hfind]
    refine except_bind_eq_ok.mpr ⟨_, htarget, except_bind_eq_ok.mpr ⟨_, hbound, ?_⟩⟩
    exact except_bind_eq_ok.mpr ⟨_, hthis, rfl⟩
  | @box value _ howned hvalue hresult =>
    obtain ⟨v, hv⟩ := htemp rfl "box" .object
    refine ⟨.box value v, except_bind_eq_ok.mpr ⟨_, howned, ?_⟩, hcheck⟩
    exact except_guard_eq_ok.mpr ⟨by simp [hvalue], except_bind_eq_ok.mpr ⟨v, hv, rfl⟩⟩
  | @unbox value _ ty howned hty hvalue hresult =>
    obtain ⟨v, hv⟩ := htemp rfl "unbox" ty
    refine ⟨.unbox value ty v, except_bind_eq_ok.mpr ⟨_, howned, ?_⟩, hcheck⟩
    refine except_guard_eq_ok.mpr ⟨by simp [hty], except_guard_eq_ok.mpr ⟨by simp [hvalue], ?_⟩⟩
    exact except_bind_eq_ok.mpr ⟨v, hv, rfl⟩
  | @cast value _ ty howned hty hvalue hresult =>
    obtain ⟨v, hv⟩ := htemp rfl "cast" ty
    refine ⟨.cast value ty v, except_bind_eq_ok.mpr ⟨_, howned, ?_⟩, hcheck⟩
    refine except_guard_eq_ok.mpr ⟨by simp [Option.isSome_iff_ne_none.mp hty],
      except_guard_eq_ok.mpr ⟨by simp [hvalue], ?_⟩⟩
    exact except_bind_eq_ok.mpr ⟨v, hv, rfl⟩
  | raise howned hvalue hnull =>
    refine ⟨_, except_bind_eq_ok.mpr ⟨_, howned, ?_⟩, hcheck⟩
    exact except_guard_eq_ok.mpr ⟨by simp [hvalue, hnull], rfl⟩
  | ret howned hreturn hcoercion =>
    refine ⟨_, except_bind_eq_ok.mpr ⟨_, howned, ?_⟩, hcheck⟩
    exact except_guard_eq_ok.mpr ⟨by simp [hreturn], except_bind_eq_ok.mpr ⟨_, hcoercion, rfl⟩⟩
  | retVoid hreturn => exact ⟨_, except_guard_eq_ok.mpr ⟨by simp [hreturn], rfl⟩, hcheck⟩
  | _ => cases hmark

theorem resolve_of_marker {k : Mark} {s : List Shape} {c : Command} (hk : e.mark? = some k)
    (h : k.step (t.blocks.map Block.shape) = some s) (hstands : e.Stands d m t c)
    (hcheck : c.check = .ok ())
    (hslot : c.result?.isSome = true → t.emitter.localCount < 65536)
    (hopen : t.emitter.isFinished = false) :
    ∃ c blocks, e.resolve d m t = .ok (c, blocks) ∧ c.check = .ok () ∧
      blocks.map Block.shape = s := by
  have hcondition {left right : Variable} {comparison : Comparison} {c : Condition}
      (hleft : d.ensureOwned m left = .ok ()) (hright : d.ensureOwned m right = .ok ())
      (hc : Condition.make left comparison right = .ok c) :
      d.conditionOf m left comparison right = .ok c :=
    except_bind_eq_ok.mpr ⟨_, hleft, except_bind_eq_ok.mpr ⟨_, hright, hc⟩⟩
  cases hstands with
  | @ifBegin _ _ _ c _ _ hleft hright hc =>
    cases hk
    refine ⟨.ifBegin c (t.nextLabel 0) (t.nextLabel 1), _,
      except_bind_eq_ok.mpr ⟨c, hcondition hleft hright hc, rfl⟩, hcheck, ?_⟩
    cases h
    rfl
  | @elseIf _ _ _ c _ _ _ hleft hright hc =>
    cases hk
    unfold resolve
    generalize t.blocks = blocks at h
    match blocks, h with
    | .conditional (some previous) f :: outer, rfl =>
      exact ⟨.elseIf c previous (t.nextLabel 0) f, _,
        except_bind_eq_ok.mpr ⟨c, hcondition hleft hright hc, rfl⟩, hcheck, rfl⟩
  | elseBegin =>
    cases hk
    unfold resolve
    generalize t.blocks = blocks at h
    match blocks, h with
    | .conditional (some previous) f :: outer, rfl => exact ⟨.elseBegin previous f, _, rfl, rfl, rfl⟩
  | endIf =>
    cases hk
    unfold resolve
    generalize t.blocks = blocks at h
    match blocks, h with
    | .conditional (some pending) f :: outer, rfl =>
      exact ⟨.endIf (some pending) f, _, rfl, rfl, rfl⟩
    | .conditional none f :: outer, rfl => exact ⟨.endIf none f, _, rfl, rfl, rfl⟩
  | @whileBegin _ _ _ c _ _ hleft hright hc =>
    cases hk
    refine ⟨.whileBegin c (t.nextLabel 0) (t.nextLabel 1), _,
      except_bind_eq_ok.mpr ⟨c, hcondition hleft hright hc, rfl⟩, hcheck, ?_⟩
    cases h
    rfl
  | endWhile =>
    cases hk
    unfold resolve
    generalize t.blocks = blocks at h
    match blocks, h with
    | .loop l l' :: outer, rfl => exact ⟨.endWhile l l', _, rfl, rfl, rfl⟩
  | tryBegin =>
    cases hk
    cases h
    exact ⟨.tryBegin, _, rfl, rfl, rfl⟩
  | @catchBegin ty _ hty hv =>
    cases hk
    obtain ⟨v, hv⟩ : ∃ v, d.nextTemp m t "ex" ty = .ok v := exists_nextLocal hopen (hslot rfl) _ ty
    have hclause (outer : List Block) : (do
        if ty.tag?.isNone then throw (.invalidArgument (.notCatchableValues ty))
        let v ← d.nextTemp m t "ex" ty
        return (.catchBegin ty v, .guarded true :: outer) :
          Except BuildError (Command × List Block)) =
        .ok (.catchBegin ty v, .guarded true :: outer) :=
      except_guard_eq_ok.mpr ⟨by simp [Option.isSome_iff_ne_none.mp hty],
        except_bind_eq_ok.mpr ⟨v, hv, rfl⟩⟩
    unfold resolve
    generalize t.blocks = blocks at h
    match blocks, h with
    | .guarded true :: outer, rfl | .guarded false :: outer, rfl =>
      exact ⟨.catchBegin ty v, _, hclause outer, rfl, rfl⟩
  | endTry =>
    cases hk
    unfold resolve
    generalize t.blocks = blocks at h
    match blocks, h with
    | .guarded true :: outer, rfl => exact ⟨.endTry, _, rfl, rfl, rfl⟩
  | _ => cases hk

end Edit

def Draft.Ready (d : Draft) (m : Nat) (s : List Shape) : Prop :=
  ∃ t, d.methods[m]? = some t ∧ t.ensureOpen = .ok () ∧ t.blocks.map Block.shape = s

variable {d d' : Draft} {m : Nat} {t : MethodDef} {s s' : List Shape}
  {issued : List (Nat × Variable)}

def Mark.move (k : Option Mark) (s : List Shape) : Option (List Shape) :=
  match k with
  | none => some s
  | some k => k.step s

namespace Edit

variable {e : Edit}

theorem perform_of_valid (h : Course Anything d issued) (hready : d.Ready m s)
    (hv : e.Valid d m) (hs : Mark.move e.mark? s = some s') :
    ∃ r d', e.perform m d = .ok r d' ∧ d'.Ready m s' := by
  obtain ⟨t, hfound, hopen, rfl⟩ := hready
  obtain ⟨t', c, hfound', hstands, hcheck, hslot⟩ := hv
  rw [hfound] at hfound'
  cases hfound'
  have hhistory := (h.settled hfound (.refl _)).history (MethodDef.state_of_ensureOpen hopen).1
  have hwriting := hhistory.balanced.sane.isOpen
  obtain ⟨c', blocks', hresolve', hcheck', hshapes⟩ : ∃ c blocks,
      e.resolve d m t = .ok (c, blocks) ∧ c.check = .ok () ∧ blocks.map Block.shape = s' := by
    cases hk : e.mark? with
    | none =>
      obtain ⟨c, hresolve, hcheck⟩ := resolve_of_plain hk hstands hcheck hslot hwriting
      rw [hk] at hs
      exact ⟨c, t.blocks, hresolve, hcheck, Option.some.inj hs⟩
    | some k =>
      rw [hk] at hs
      exact resolve_of_marker hk hs hstands hcheck hslot hwriting
  obtain ⟨err, n, hresolve, -⟩ | ⟨c, blocks, n, hresolve, -, hcases⟩ :=
    e.perform_cases hhistory hfound hopen
  · rw [hresolve'] at hresolve
    cases hresolve
  · rw [hresolve'] at hresolve
    cases hresolve
    obtain ⟨err, hrefused, -⟩ | ⟨-, o, -, hperform⟩ := hcases
    · rw [hcheck'] at hrefused
      cases hrefused
    · exact ⟨_, _, hperform, _, Draft.found_edited (Draft.lt_size_of_found hfound), hopen, hshapes⟩

theorem perform_of_stuck (hready : d.Ready m s) (hs : Mark.move e.mark? s = none) :
    ∃ marker innermost d', e.perform m d = .error (.unbalancedBlock marker innermost) d' := by
  obtain ⟨t, hfound, hopen, rfl⟩ := hready
  cases hk : e.mark? with
  | none =>
    rw [hk] at hs
    cases hs
  | some k =>
    rw [hk] at hs
    obtain ⟨marker, hresolve⟩ := resolve_of_stuck (d := d) (m := m) hk hs
    obtain ⟨n, -, hperform⟩ := perform_of_resolve_error hfound hopen hresolve
    exact ⟨marker, _, _, hperform⟩

theorem valid_of_perform {r : Option Variable} (h : e.perform m d = .ok r d') : e.Valid d m := by
  obtain ⟨t, t', c, hedited, hstands, -⟩ := perform_done h
  have htakes := hedited.takes _ (.refl _)
  refine ⟨t, c, hedited.found, hstands, htakes.check, fun hr => ?_⟩
  obtain ⟨v, hv⟩ := Option.isSome_iff_exists.mp hr
  exact (htakes.fresh.slot v hv).1

end Edit

namespace Operation

def mark? : Operation → Option Mark
  | .edit _ e => e.mark?
  | _ => none

/-- An operation on the body of a method, or one that asks for a variable of it, whose operands are
valid. -/
def Valid (d : Draft) (m : Nat) : Operation → Prop
  | .look i l => i = m ∧ ∃ v, l.find d m = .ok v
  | .edit i e => i = m ∧ e.Valid d m
  | .bump i op target => i = m ∧ (Edit.arithmetic op target (.constant (.i32 1))).Valid d m ∧
      ∀ next d', arithmetic m op target (.constant (.i32 1)) d = .ok next d' →
        (Edit.assign target next).Valid d' m
  | .callNamed i receiver name args => i = m ∧ ∃ method,
      d.methodNamed receiver name args = .ok method ∧
      (Edit.call method (some receiver) args).Valid d m
  | _ => False

variable {op : Operation}

theorem perform_of_valid (h : Course Anything d issued) (hready : d.Ready m s)
    (hv : op.Valid d m) (hs : Mark.move op.mark? s = some s') :
    ∃ given d', op.perform d = .ok given d' ∧ d'.Ready m s' := by
  cases op with
  | look i l =>
    obtain ⟨rfl, v, hl⟩ := hv
    cases hs
    exact ⟨_, d, map_eq_ok.mpr ⟨v, reading_eq_ok.mpr ⟨hl, rfl⟩, rfl⟩, hready⟩
  | edit i e =>
    obtain ⟨rfl, hv⟩ := hv
    obtain ⟨r, d', hperform, hready'⟩ := e.perform_of_valid h hready hv hs
    exact ⟨_, d', map_eq_ok.mpr ⟨r, hperform, rfl⟩, hready'⟩
  | bump i op target =>
    obtain ⟨rfl, hadd, hassign⟩ := hv
    cases hs
    obtain ⟨r, d', hperform, hready'⟩ := Edit.perform_of_valid h hready hadd rfl
    obtain ⟨next, hnext, -⟩ := map_eq_ok.mp hperform
    have hcourse := (h.perform_ok (fun _ _ => trivial) hperform).course
    obtain ⟨_, d'', hperform', hready''⟩ :=
      Edit.perform_of_valid hcourse hready' (hassign next d' hnext) rfl
    obtain ⟨_, hstore, -⟩ := map_eq_ok.mp hperform'
    refine ⟨_, d'', map_eq_ok.mpr ⟨next, bind_eq_ok.mpr ⟨next, d', hnext, ?_⟩, rfl⟩, hready''⟩
    exact bind_eq_ok.mpr ⟨(), d'', hstore, rfl⟩
  | callNamed i receiver name args =>
    obtain ⟨rfl, method, hfind, hv⟩ := hv
    cases hs
    obtain ⟨r, d', hperform, hready'⟩ := Edit.perform_of_valid h hready hv rfl
    refine ⟨_, d', map_eq_ok.mpr ⟨r, ?_, rfl⟩, hready'⟩
    rw [callNamed_eq]
    refine bind_eq_ok.mpr ⟨method, d, ?_, hperform⟩
    obtain ⟨t, hfound, hopen, -⟩ := hready
    rw [recording_eq hfound hopen, reading_eq_ok.mpr ⟨hfind, rfl⟩]
  | _ => cases hv

theorem perform_of_stuck (hready : d.Ready m s) (hv : op.Valid d m)
    (hs : Mark.move op.mark? s = none) :
    ∃ marker innermost d', op.perform d = .error (.unbalancedBlock marker innermost) d' := by
  cases op with
  | edit i e =>
    obtain ⟨rfl, -⟩ := hv
    obtain ⟨marker, innermost, d', hperform⟩ := e.perform_of_stuck hready hs
    exact ⟨marker, innermost, d', map_eq_error.mpr hperform⟩
  | _ => cases hs

def method? : Operation → Option Nat
  | .look m _ | .edit m _ | .bump m _ _ | .callNamed m _ _ _ => some m
  | _ => none

theorem valid_of_perform {given : List (Nat × Variable)} (hm : op.method? = some m)
    (h : op.perform d = .ok given d') : op.Valid d m := by
  cases op with
  | look i l =>
    cases hm
    obtain ⟨v, hv, -⟩ := map_eq_ok.mp h
    exact ⟨rfl, v, (reading_eq_ok.mp hv).1⟩
  | edit i e =>
    cases hm
    obtain ⟨r, hr, -⟩ := map_eq_ok.mp h
    exact ⟨rfl, e.valid_of_perform hr⟩
  | bump i op target =>
    cases hm
    obtain ⟨v, hv, -⟩ := map_eq_ok.mp h
    obtain ⟨next, s, hnext, hv⟩ := bind_eq_ok.mp hv
    obtain ⟨_, s', hassign, -⟩ := bind_eq_ok.mp hv
    refine ⟨rfl, Edit.valid_of_perform (map_eq_ok.mpr ⟨next, hnext, rfl⟩), fun next' d' hnext' => ?_⟩
    rw [hnext] at hnext'
    cases hnext'
    exact Edit.valid_of_perform (map_eq_ok.mpr ⟨(), hassign, rfl⟩)
  | callNamed i receiver name args =>
    cases hm
    obtain ⟨r, hr, -⟩ := map_eq_ok.mp h
    obtain ⟨method, hmethod, hcall⟩ := callNamed_eq_ok hr
    exact ⟨rfl, method, hmethod, Edit.valid_of_perform hcall⟩
  | _ => cases hm

end Operation

def performAll : List Operation → BuildM Unit
  | [] => pure ()
  | op :: ops => do
    discard op.perform
    performAll ops

def ValidAll (m : Nat) : List Operation → Draft → Prop
  | [], _ => True
  | op :: ops, d => op.Valid d m ∧ ∀ given d', op.perform d = .ok given d' → ValidAll m ops d'

def marksOf (ops : List Operation) : List Mark := ops.filterMap Operation.mark?

section

variable {op : Operation} {ops before after : List Operation}

theorem steps_marksOf_cons (op : Operation) (ops : List Operation) (s : List Shape) :
    Mark.steps (marksOf (op :: ops)) s = (Mark.move op.mark? s).bind (Mark.steps (marksOf ops)) := by
  cases h : op.mark? with
  | none =>
    rw [marksOf, List.filterMap_cons_none h]
    rfl
  | some k =>
    rw [marksOf, List.filterMap_cons_some h]
    exact Mark.steps_cons k _ s

theorem marksOf_append (before after : List Operation) :
    marksOf (before ++ after) = marksOf before ++ marksOf after := List.filterMap_append

theorem performAll_append (before after : List Operation) (d : Draft) :
    performAll (before ++ after) d = (performAll before >>= fun _ => performAll after) d := by
  induction before generalizing d with
  | nil => rfl
  | cons op before ih =>
    rw [List.cons_append, performAll, performAll, bind_assoc]
    cases h : op.perform d with
    | ok given d' =>
      have hdiscard : (discard op.perform : BuildM Unit) d = .ok () d' :=
        map_eq_ok.mpr ⟨given, h, rfl⟩
      rw [bind_of_ok hdiscard, bind_of_ok hdiscard]
      exact ih d'
    | error e d' =>
      have hdiscard : (discard op.perform : BuildM Unit) d = .error e d' := map_eq_error.mpr h
      rw [bind_of_error hdiscard, bind_of_error hdiscard]

theorem Course.perform (h : Course Anything d issued) {given : List (Nat × Variable)}
    (hop : op.perform d = .ok given d') : ∃ issued', Course Anything d' issued' := by
  obtain ⟨issued', hcontinues, -⟩ := h.follows op fun _ _ => trivial
  rw [hop] at hcontinues
  exact ⟨issued', hcontinues.course⟩

theorem performAll_of_steps (h : Course Anything d issued) (hready : d.Ready m s)
    (hv : ValidAll m (before ++ after) d) (hs : Mark.steps (marksOf before) s = some s') :
    ∃ d' issued', performAll before d = .ok () d' ∧ Course Anything d' issued' ∧ d'.Ready m s' ∧
      ValidAll m after d' := by
  induction before generalizing d issued s with
  | nil =>
    cases hs
    exact ⟨d, issued, rfl, h, hready, hv⟩
  | cons op before ih =>
    rw [steps_marksOf_cons] at hs
    obtain ⟨s₁, hmove, hs⟩ := Option.bind_eq_some_iff.mp hs
    obtain ⟨given, d₁, hop, hready₁⟩ := op.perform_of_valid h hready hv.1 hmove
    obtain ⟨issued₁, h₁⟩ := h.perform hop
    obtain ⟨d', issued', hrest, hfinal⟩ := ih h₁ hready₁ (hv.2 given d₁ hop) hs
    exact ⟨d', issued', (bind_of_ok (map_eq_ok.mpr ⟨given, hop, rfl⟩)).trans hrest, hfinal⟩

theorem steps_of_performAll (h : Course Anything d issued) (hready : d.Ready m s)
    (hv : ValidAll m ops d) (hok : performAll ops d = .ok () d') :
    ∃ s', Mark.steps (marksOf ops) s = some s' := by
  induction ops generalizing d issued s with
  | nil => exact ⟨s, rfl⟩
  | cons op ops ih =>
    obtain ⟨_, d₁, hdiscard, hok⟩ := bind_eq_ok.mp hok
    obtain ⟨given, hop, -⟩ := map_eq_ok.mp hdiscard
    rw [steps_marksOf_cons]
    cases hmove : Mark.move op.mark? s with
    | none =>
      obtain ⟨marker, innermost, s, herror⟩ := op.perform_of_stuck hready hv.1 hmove
      rw [hop] at herror
      cases herror
    | some s₁ =>
      obtain ⟨given', d₁', hop', hready₁⟩ := op.perform_of_valid h hready hv.1 hmove
      rw [hop] at hop'
      cases hop'
      obtain ⟨issued₁, h₁⟩ := h.perform hop
      exact ih h₁ hready₁ (hv.2 given d₁ hop) hok

theorem ValidAll.of_performAll (hm : ∀ op ∈ before, op.method? = some m)
    (hok : performAll before d = .ok () d') (h : ValidAll m after d') :
    ValidAll m (before ++ after) d := by
  induction before generalizing d with
  | nil =>
    cases hok
    exact h
  | cons op before ih =>
    obtain ⟨_, d₁, hdiscard, hok⟩ := bind_eq_ok.mp hok
    obtain ⟨given, hop, -⟩ := map_eq_ok.mp hdiscard
    refine ⟨op.valid_of_perform (hm op (.head _)) hop, fun given' d₁' hop' => ?_⟩
    rw [hop] at hop'
    cases hop'
    exact ih (fun op' hop' => hm op' (.tail _ hop')) hok

end

theorem BuildM.finalize_of_ready (h : Course Anything d issued) (hready : d.Ready m []) :
    ∃ d', finalize m d = .ok () d' := by
  obtain ⟨t, hfound, hopen, hblocks⟩ := hready
  have hstate := (MethodDef.state_of_ensureOpen hopen).1
  replace hblocks := List.map_eq_nil_iff.mp hblocks
  have hf := ((h.settled hfound (.refl _)).history hstate).finalize_eq hblocks
  exact ⟨_, finalize_of_open hfound hstate hblocks hf⟩

theorem BuildM.finalize_of_unclosed {block : Shape} (hready : d.Ready m (block :: s)) :
    ∃ method count innermost, finalize m d = .error (.unclosedBlock method count innermost) d := by
  obtain ⟨t, hfound, hopen, hblocks⟩ := hready
  obtain ⟨b, blocks, hb, -⟩ := List.map_eq_cons_iff.mp hblocks
  refine ⟨t.signature, t.blocks.length, b.kind, ?_⟩
  refine (bind_of_ok (reading_eq_ok.mpr ⟨Draft.method_eq_ok.mpr hfound, rfl⟩)).trans ?_
  simp only [(MethodDef.state_of_ensureOpen hopen).1, hb]
  rfl

section

variable {ops before after : List Operation} {op : Operation}

theorem performAll_finalize_iff (h : Course Anything d issued) (hready : d.Ready m [])
    (hv : ValidAll m ops d) :
    (∃ d', performAll (ops ++ [.finalize m]) d = .ok () d') ↔ Word .body (marksOf ops) := by
  rw [← List.append_nil ops] at hv
  constructor
  · rintro ⟨d', hok⟩
    rw [performAll_append] at hok
    obtain ⟨_, d₁, hops, hfinalize⟩ := bind_eq_ok.mp hok
    obtain ⟨_, _, hdiscard, -⟩ := bind_eq_ok.mp hfinalize
    obtain ⟨_, hmap, -⟩ := map_eq_ok.mp hdiscard
    obtain ⟨_, hfinalize, -⟩ := map_eq_ok.mp hmap
    obtain ⟨s', hs⟩ := steps_of_performAll h hready (List.append_nil ops ▸ hv) hops
    obtain ⟨d₁', issued₁, hops', -, hready₁, -⟩ := performAll_of_steps h hready hv hs
    rw [hops] at hops'
    cases hops'
    cases s' with
    | nil => exact steps_eq_nil_iff.mp hs
    | cons block outer =>
      obtain ⟨method, count, innermost, herror⟩ := finalize_of_unclosed hready₁
      rw [hfinalize] at herror
      cases herror
  · intro hw
    obtain ⟨d₁, issued₁, hops, h₁, hready₁, -⟩ :=
      performAll_of_steps h hready hv (steps_eq_nil_iff.mpr hw)
    obtain ⟨d', hfinalize⟩ := finalize_of_ready h₁ hready₁
    refine ⟨d', ?_⟩
    rw [performAll_append, bind_of_ok hops]
    exact bind_of_ok (map_eq_ok.mpr ⟨[], map_eq_ok.mpr ⟨(), hfinalize, rfl⟩, rfl⟩)

theorem perform_of_not_prefix (h : Course Anything d issued) (hready : d.Ready m [])
    (hv : ValidAll m (before ++ op :: after) d) (hbefore : ∃ v, Word .body (marksOf before ++ v))
    (hop : ¬ ∃ v, Word .body (marksOf (before ++ [op]) ++ v)) :
    ∃ d₁ d' marker innermost, performAll before d = .ok () d₁ ∧
      op.perform d₁ = .error (.unbalancedBlock marker innermost) d' := by
  obtain ⟨s, hs⟩ := Option.isSome_iff_exists.mp (isSome_steps_iff.mpr hbefore)
  obtain ⟨d₁, issued₁, hrun, -, hready₁, hv₁⟩ := performAll_of_steps h hready hv hs
  have hstuck : Mark.move op.mark? s = none := by
    rw [← isSome_steps_iff, marksOf_append, Mark.steps_append_of hs, steps_marksOf_cons] at hop
    cases hk : Mark.move op.mark? s with
    | none => rfl
    | some s' =>
      rw [hk] at hop
      exact absurd rfl hop
  obtain ⟨marker, innermost, d', herror⟩ := op.perform_of_stuck hready₁ hv₁.1 hstuck
  exact ⟨d₁, d', marker, innermost, hrun, herror⟩

theorem finalize_of_prefix (h : Course Anything d issued) (hready : d.Ready m [])
    (hv : ValidAll m ops d) (hbegins : ∃ v, Word .body (marksOf ops ++ v))
    (hw : ¬ Word .body (marksOf ops)) :
    ∃ d₁ d' method count innermost, performAll ops d = .ok () d₁ ∧
      finalize m d₁ = .error (.unclosedBlock method count innermost) d' := by
  rw [← List.append_nil ops] at hv
  obtain ⟨s, hs⟩ := Option.isSome_iff_exists.mp (isSome_steps_iff.mpr hbegins)
  obtain ⟨d₁, issued₁, hrun, -, hready₁, -⟩ := performAll_of_steps h hready hv hs
  cases s with
  | nil => exact absurd (steps_eq_nil_iff.mp hs) hw
  | cons block outer =>
    obtain ⟨method, count, innermost, herror⟩ := finalize_of_unclosed hready₁
    exact ⟨d₁, d₁, method, count, innermost, hrun, herror⟩

end

/-- Operations on a method whose operands are valid all succeed, and the body can be finished behind
them, exactly if their markers are balanced. The first marker that no balanced word goes on with
fails as unbalanced. The emitter never finds a label marked twice or not at all, nor a region out of
place. -/
theorem Session.accepts_iff_balanced {p : Project} (h : Session Anything p issued) :
    (∀ m ops, p.draft.Ready m [] → ValidAll m ops p.draft →
      ((∃ d', performAll (ops ++ [.finalize m]) p.draft = .ok () d') ↔ Word .body (marksOf ops)) ∧
      (∀ before op after, ops = before ++ op :: after →
        (∃ v, Word .body (marksOf before ++ v)) →
        (¬ ∃ v, Word .body (marksOf (before ++ [op]) ++ v)) →
        ∃ d d' marker innermost, performAll before p.draft = .ok () d ∧
          op.perform d = .error (.unbalancedBlock marker innermost) d') ∧
      ((∃ v, Word .body (marksOf ops ++ v)) → ¬ Word .body (marksOf ops) →
        ∃ d d' method count innermost, performAll ops p.draft = .ok () d ∧
          finalize m d = .error (.unclosedBlock method count innermost) d')) ∧
    (∀ (op : Operation) e d', op.perform p.draft = .error e d' → e.isEmitterFault = false) ∧
    ∀ e p', ProjectM.create p = .error e p' → e.isEmitterFault = false := by
  obtain ⟨given, hc, -⟩ := h.course
  refine ⟨fun m ops hready hv => ⟨performAll_finalize_iff hc hready hv, ?_,
    finalize_of_prefix hc hready hv⟩, fun op => op.clean_perform p.draft given hc,
    fun e p' => ProjectM.clean_create hc⟩
  rintro before op after rfl
  exact perform_of_not_prefix hc hready hv

def idle : List Operation := [
  .defineType "Job" {} none [],
  .defineMethod 0 "run" { isStatic := true } .void []]

/-- A guarded block in a branch, a loop in the next one, and an empty last branch. -/
def branching : List Operation := [
  .edit 0 (.ifBegin (.constant (.i32 1)) .less (.constant (.i32 2))),
  .edit 0 .tryBegin,
  .edit 0 (.catchBegin .string),
  .edit 0 (.catchBegin .object),
  .edit 0 .endTry,
  .edit 0 (.elseIf (.constant (.i32 1)) .equal (.constant (.i32 2))),
  .edit 0 (.whileBegin (.constant (.i32 1)) .less (.constant (.i32 2))),
  .edit 0 .endWhile,
  .edit 0 .elseBegin]

def Draft.branches (d : Draft) : Bool :=
  match d.methods[0]?, performAll branching d with
  | some t, .ok _ d => decide (t.state = .open ∧ t.attrs.isAbstract = false ∧ t.blocks = []) &&
      d.methods[0]?.isSome
  | _, _ => false

theorem Session.accepts_branching :
    ∃ p issued, Builds Anything "Jobs" idle p issued ∧ p.draft.Ready 0 [] ∧
      ValidAll 0 (branching ++ [.edit 0 .endIf]) p.draft ∧
      ValidAll 0 (branching ++ [.edit 0 .elseBegin]) p.draft ∧
      (∃ d', performAll (branching ++ [.edit 0 .endIf] ++ [.finalize 0]) p.draft = .ok () d') ∧
      (∃ d d' marker innermost, performAll branching p.draft = .ok () d ∧
        Operation.perform (.edit 0 .elseBegin) d = .error (.unbalancedBlock marker innermost) d') ∧
      ∃ d d' method count innermost, performAll branching p.draft = .ok () d ∧
        finalize 0 d = .error (.unclosedBlock method count innermost) d' := by
  obtain ⟨p, issued, hp, hsucceeds⟩ := Builds.exists_of_any Anything "Jobs" idle
    (fun p _ => p.draft.branches) (by decide +kernel)
  have hsession := hp.session
  unfold Draft.branches at hsucceeds
  split at hsucceeds
  · rename_i t u d hfound hperform
    obtain ⟨hready, hsome⟩ := Bool.and_eq_true_iff.mp hsucceeds
    obtain ⟨hstate, hconcrete, hblocks⟩ := of_decide_eq_true hready
    obtain ⟨t', ht'⟩ := Option.isSome_iff_exists.mp hsome
    have hready : p.draft.Ready 0 [] := by
      refine ⟨t, hfound, ?_, by rw [hblocks]; rfl⟩
      rw [MethodDef.ensureOpen, hstate, hconcrete]
      rfl
    have hvalid (e : Edit) (c : Command) (hstands : e.Stands d 0 t' c) (hcheck : c.check = .ok ())
        (hresult : c.result? = none) : ValidAll 0 (branching ++ [.edit 0 e]) p.draft := by
      refine .of_performAll (by decide) hperform ⟨⟨rfl, t', c, ht', hstands, hcheck, ?_⟩, ?_⟩
      · rw [hresult]
        intro h
        cases h
      · exact fun _ _ _ => trivial
    have hend := hvalid .endIf (.endIf none ⟨0⟩) .endIf rfl rfl
    have helse := hvalid .elseBegin (.elseBegin ⟨0⟩ ⟨0⟩) .elseBegin rfl rfl
    have hopen : ValidAll 0 branching p.draft := by
      rw [← List.append_nil branching]
      exact .of_performAll (by decide) hperform trivial
    have hbegins : ∃ v, Word .body (marksOf branching ++ v) := isSome_steps_iff.mp (by decide)
    refine ⟨p, issued, hp, hready, hend, helse, ?_, ?_, ?_⟩
    · exact (hsession.accepts_iff_balanced.1 0 _ hready hend).1.mpr (steps_eq_nil_iff.mp (by decide))
    · refine (hsession.accepts_iff_balanced.1 0 _ hready helse).2.1 branching _ [] rfl hbegins ?_
      rw [← isSome_steps_iff]
      decide
    · refine (hsession.accepts_iff_balanced.1 0 _ hready hopen).2.2 hbegins ?_
      rw [← steps_eq_nil_iff]
      decide
  · cases hsucceeds

end Bytesmith.Build
