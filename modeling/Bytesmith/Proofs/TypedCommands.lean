import Bytesmith.Proofs.Preservation

namespace Bytesmith.Build

open Code Bytesmith.Outcome Machine

abbrev TypesAll (R : Rules) (slots : List StaticType) (returns : StaticType) :
    List (Instr Label) → List StaticType → List StaticType → Prop :=
  (Grading.types R slots returns).Passes

theorem leaves_eq {mode : CallMode} (hmode : mode ≠ .constructor) (takes : List StaticType)
    (returns : StaticType) :
    leaves takes returns mode = if returns.isVoid then [] else [returns] := by
  cases mode with
  | constructor => exact absurd rfl hmode
  | _ => rfl

def Literal.isProper : Literal → Bool
  | .enum (.enum _ _) _ _ => true
  | .enum _ _ _ => false
  | _ => true

def Literal.Fits (R : Rules) : Literal → Prop
  | .enum ty _ _ => R.Accepts .int ty
  | _ => True

theorem Pool.toNat_indexOf_lt {q : Pool} {s : String} (h : s ∈ q.strings) :
    (q.indexOf s).toNat < q.strings.length := by
  obtain ⟨i, hi⟩ := Option.isSome_iff_exists.mp (List.isSome_idxOf?.mpr h)
  have hlt : i < q.strings.length := (List.findIdx?_eq_some_iff_getElem.mp hi).1
  rw [Pool.indexOf_of_idxOf? hi]
  exact Nat.lt_of_le_of_lt (Nat.mod_le ..) hlt

def Stocked (R : Rules) (q : Pool) (actions : List Action) : Prop :=
  ∀ s, .putString s ∈ actions → (q.indexOf s).toNat < R.strings

variable {R : Rules} {slots σ : List StaticType} {returns : StaticType} {q : Pool}

theorem stocked_append {a b : List Action} :
    Stocked R q (a ++ b) ↔ Stocked R q a ∧ Stocked R q b := by
  simp only [Stocked, List.mem_append, or_imp, forall_and]

theorem Literal.types_loads {l : Literal} (h : l.Fits R) (hs : Stocked R q l.loads) :
    TypesAll R slots returns (codeOf q l.loads) σ (l.ty :: σ) := by
  cases l with
  | null => exact .single (.constNull .null σ)
  | bool b => exact .single (.constBool b σ)
  | i32 n => exact .single (.constI32 n (R.refl _) σ)
  | i64 n => exact .single (.constI64 n σ)
  | f64 x => exact .single (.constF64 x σ)
  | string s => exact .single (.constStr (hs s (.head _)) σ)
  | enum ty member value => exact .single (.constI32 value h σ)

namespace Member

/-- The field or the accessors of a member of an object, which has the given type. -/
def Fits (R : Rules) (holder : StaticType) (m : Member) : Prop :=
  match m.access with
  | .field id _ => R.HasField id.toUInt32 m.ty
  | .property _ getter setter =>
    (∀ g, getter = some g → ∃ owner, R.Accepts holder owner ∧ m.ty.isVoid = false ∧
      R.signature g.toUInt32 = some ⟨[owner], m.ty⟩) ∧
    ∀ s, setter = some s → ∃ owner returns, R.Accepts holder owner ∧ returns.isVoid = true ∧
      R.signature s.toUInt32 = some ⟨[owner, m.ty], returns⟩

variable {m : Member} {holder : StaticType}

theorem Fits.types_loads (h : m.Fits R holder) (hc : m.checkLoad = .ok ()) :
    TypesAll R slots returns (codeOf q (m.loads false)) (holder :: σ) (m.ty :: σ) := by
  obtain ⟨name, ty, access⟩ := m
  cases access with
  | field id writable => exact .single (.loadField h holder σ)
  | property id getter setter =>
    cases getter with
    | none => cases hc
    | some g =>
      obtain ⟨owner, howner, hvoid, hsig⟩ := h.1 g rfl
      have hcall : Types R slots returns (.call .method g.toUInt32 0 : Instr Label)
          ([holder].reverse ++ σ) (leaves [holder] ty .method ++ σ) :=
        .call hsig rfl (.cons howner .nil) σ
      rw [leaves_eq (by decide), if_neg (Bool.eq_false_iff.mp hvoid)] at hcall
      exact .single hcall

theorem Fits.types_saves (h : m.Fits R holder) (hc : m.checkSave = .ok ())
    (hs : R.Accepts source m.ty) :
    TypesAll R slots returns (codeOf q (m.saves false)) (source :: holder :: σ) σ := by
  obtain ⟨name, ty, access⟩ := m
  cases access with
  | field id writable => exact .single (.storeField h hs holder σ)
  | property id getter setter =>
    cases setter with
    | none => cases hc
    | some s =>
      obtain ⟨owner, result, howner, hvoid, hsig⟩ := h.2 s rfl
      have hcall : Types R slots returns (.call .method s.toUInt32 1 : Instr Label)
          ([holder, source].reverse ++ σ) (leaves [holder, source] result .method ++ σ) :=
        .call hsig rfl (.cons howner (.cons hs .nil)) σ
      rw [leaves_eq (by decide), if_pos hvoid] at hcall
      exact .single hcall

end Member

namespace Variable

/-- The variable has the type of what it is loaded from and saved to. -/
def Fits (R : Rules) (slots : List StaticType) : Variable → Prop
  | .slot _ index _ ty => slots[index.toNat]? = some ty
  | .constant value => value.Fits R
  | .own m => ∃ this, slots[0]? = some this ∧ m.Fits R this
  | .of object m => object.Fits R slots ∧ m.Fits R object.ty
  | .shared _ m => ∃ id writable, m.access = .field id writable ∧ R.HasField id.toUInt32 m.ty

def beneath (slots : List StaticType) : Variable → List StaticType
  | .own _ => slots[0]?.toList
  | .of object _ => [object.ty]
  | _ => []

def SlotOf (slots : List StaticType) (ty : StaticType) : Variable → Prop
  | .slot _ index _ _ => slots[index.toNat]? = some ty
  | _ => False

variable {v : Variable}

theorem Fits.types_loads (h : v.Fits R slots) (hc : v.checkLoad = .ok ())
    (hs : Stocked R q v.loads) : TypesAll R slots returns (codeOf q v.loads) σ (v.ty :: σ) := by
  induction v with
  | slot method index name ty => exact .single (.loadLocal h σ)
  | constant value => exact Literal.types_loads h hs
  | own m =>
    obtain ⟨this, hthis, hm⟩ := h
    exact .cons (.loadLocal hthis σ) (hm.types_loads hc)
  | of object m ih =>
    obtain ⟨⟨⟩, hm, hobject⟩ := except_bind_eq_ok.mp hc
    rw [loads, codeOf_append]
    exact (ih h.1 hobject (stocked_append.mp hs).1).append (h.2.types_loads hm)
  | shared type m =>
    obtain ⟨name, ty, access⟩ := m
    obtain ⟨id, writable, rfl, hfield⟩ := h
    exact .single (.loadStatic hfield σ)

theorem Fits.types_receives (h : v.Fits R slots) (hc : v.checkSave = .ok ())
    (hs : Stocked R q v.receives) :
    TypesAll R slots returns (codeOf q v.receives) σ (v.beneath slots ++ σ) := by
  cases v with
  | own m =>
    obtain ⟨this, hthis, -⟩ := h
    rw [beneath, hthis]
    exact .single (.loadLocal hthis σ)
  | of object m =>
    obtain ⟨⟨⟩, -, hobject⟩ := except_bind_eq_ok.mp hc
    exact h.1.types_loads hobject hs
  | _ => exact .nil σ

theorem Fits.types_saves (h : v.Fits R slots) (hc : v.checkSave = .ok ())
    (hs : R.Accepts source v.ty) :
    TypesAll R slots returns (codeOf q v.saves) (source :: (v.beneath slots ++ σ)) σ := by
  cases v with
  | slot method index name ty => exact .single (.storeLocal h hs σ)
  | constant value => cases hc
  | own m =>
    obtain ⟨this, hthis, hm⟩ := h
    rw [beneath, hthis]
    exact hm.types_saves hc hs
  | of object m =>
    obtain ⟨⟨⟩, hm, -⟩ := except_bind_eq_ok.mp hc
    exact h.2.types_saves hm hs
  | shared type m =>
    obtain ⟨name, ty, access⟩ := m
    obtain ⟨id, writable, rfl, hfield⟩ := h
    exact .single (.storeStatic hfield hs σ)

theorem SlotOf.types_saves {ty : StaticType} (h : v.SlotOf slots ty) (hs : R.Accepts source ty) :
    TypesAll R slots returns (codeOf q v.saves) (source :: σ) σ := by
  cases v with
  | slot method index name ty' => exact .single (.storeLocal h hs σ)
  | _ => cases h

theorem Fits.types_widens (h : v.Fits R slots) (hc : v.checkLoad = .ok ()) {target : StaticType}
    (hs : Stocked R q (v.widens target)) (returns : StaticType) :
    ∃ ty, ∀ σ, TypesAll R slots returns (codeOf q (v.widens target)) σ (ty :: σ) := by
  have hloads (σ : List StaticType) : TypesAll R slots returns (codeOf q v.loads) σ (v.ty :: σ) :=
    h.types_loads hc (stocked_append.mp hs).1
  simp only [widens, codeOf_append]
  cases v.ty.widening? target with
  | none => exact ⟨v.ty, fun σ => (hloads σ).append (.nil _)⟩
  | some w => exact ⟨Machine.widened w, fun σ => (hloads σ).append (.single (.widen w v.ty σ))⟩

end Variable

/-- The conversion makes what conforms to the source type conform to the target type. -/
def Coercion.Fits (R : Rules) (source target : StaticType) : Coercion → Prop
  | .none => R.Accepts source target
  | .widen w => target = widened w
  | .box _ => target = .object
  | .unbox kind => kind = target.valueKind ∧ target.isValue = true
  | .cast tag => target.tag? = some tag ∧ R.Accepts source .object

variable {source target : StaticType}

theorem Coercion.Fits.types_converts {c : Coercion} (h : c.Fits R source target)
    (slots : List StaticType) (returns : StaticType) (q : Pool) :
    ∃ ty, R.Accepts ty target ∧
      ∀ σ, TypesAll R slots returns (codeOf q c.converts) (source :: σ) (ty :: σ) := by
  cases c with
  | none => exact ⟨source, h, fun σ => .nil _⟩
  | widen w => exact ⟨widened w, h ▸ R.refl _, fun σ => .single (.widen w source σ)⟩
  | box kind => exact ⟨.object, h ▸ R.refl _, fun σ => .single (.box kind source σ)⟩
  | unbox kind =>
    obtain ⟨rfl, hvalue⟩ := h
    exact ⟨target, R.refl _, fun σ => .single (.unbox hvalue source σ)⟩
  | cast tag => exact ⟨target, R.refl _, fun σ => .single (.cast h.1 h.2 σ)⟩

theorem widened_of_widening? {w : Widening} (h : source.widening? target = some w) :
    target = widened w := by
  cases source <;> cases target <;> cases h <;> rfl

theorem Coercion.fits_of_select {isSubtype : Nat → Nat → Bool} {c : Coercion}
    (hsub : ∀ sub sup name name', isSubtype sub sup = true → R.Accepts (.class sub name) (.class
      sup name')) (h : select isSubtype source target = .ok c) : c.Fits R source target := by
  have hselect : select? isSubtype source target = some c := by
    unfold select at h
    split at h
    · rename_i hc
      cases h
      exact hc
    · cases h
  unfold select? at hselect
  split at hselect
  · cases hselect
  · rename_i hstorable
    split at hselect
    · rename_i heq
      cases hselect
      exact heq ▸ R.refl source
    · split at hselect
      · obtain ⟨w, hw, rfl⟩ := Option.map_eq_some_iff.mp hselect
        exact widened_of_widening? hw
      · split at hselect
        · rename_i hobject
          cases hselect
          exact hobject
        · cases hselect
      · rename_i htarget
        split at hselect
        · cases hselect
          exact ⟨rfl, htarget⟩
        · cases hselect
      · rename_i hsource htarget
        unfold ofReferences? at hselect
        split at hselect
        · cases hselect
          exact R.null target
        · cases hselect
          refine R.reference source ?_
          cases source <;> first | rfl | exact absurd rfl hstorable | cases hsource
        · split at hselect
          · rename_i hsubtype
            cases hselect
            exact hsub _ _ _ _ hsubtype
          · cases hselect
            exact ⟨rfl, R.reference _ rfl⟩
        · obtain ⟨tag, htag, rfl⟩ := Option.map_eq_some_iff.mp hselect
          exact ⟨htag, R.refl .object⟩
        · cases hselect

def Argument.Fits (R : Rules) (slots : List StaticType) (a : Argument) : Prop :=
  a.value.Fits R slots ∧ a.coercion.Fits R a.value.ty a.paramType

theorem Argument.types_loads {args : List Argument} (h : ∀ a ∈ args, a.Fits R slots)
    (hc : args.forM (·.value.checkLoad) = (.ok () : Except BuildError Unit))
    (hs : Stocked R q (args.flatMap Argument.loads)) (returns : StaticType) :
    ∃ takes, List.Forall₂ R.Accepts takes (args.map Argument.paramType) ∧ ∀ σ,
      TypesAll R slots returns (codeOf q (args.flatMap Argument.loads)) σ (takes.reverse ++ σ) := by
  induction args with
  | nil => exact ⟨[], .nil, fun σ => .nil σ⟩
  | cons a args ih =>
    obtain ⟨⟨⟩, ha, hargs⟩ := except_bind_eq_ok.mp hc
    obtain ⟨hvalue, hcoercion⟩ := h a (.head _)
    simp only [List.flatMap_cons, loads, stocked_append] at hs
    obtain ⟨ty, haccepts, hconverts⟩ := hcoercion.types_converts slots returns q
    obtain ⟨takes, htakes, hrest⟩ := ih (fun b hb => h b (.tail a hb)) hargs hs.2
    refine ⟨ty :: takes, .cons haccepts htakes, fun σ => ?_⟩
    have hreverse : (ty :: takes).reverse ++ σ = takes.reverse ++ (ty :: σ) := by simp
    rw [List.flatMap_cons, loads, codeOf_append, codeOf_append, hreverse]
    exact ((hvalue.types_loads ha hs.1.1).append (hconverts σ)).append (hrest (ty :: σ))

def CallTarget.Fits (R : Rules) (receivers : List StaticType) (args : List Argument)
    (target : CallTarget) : Prop :=
  args.length < 65536 ∧ ∃ owners, List.Forall₂ R.Accepts receivers owners ∧
    R.signature target.method.toUInt32 =
      some ⟨owners ++ args.map Argument.paramType, target.returnType⟩

theorem CallTarget.Fits.types_call {target : CallTarget} {receivers takes : List StaticType}
    {args : List Argument} (h : target.Fits R receivers args) (slots : List StaticType)
    (returns : StaticType) (mode : CallMode)
    (hmode : receivers.length = if mode = .static then 0 else 1)
    (htakes : List.Forall₂ R.Accepts takes (args.map Argument.paramType)) (σ : List StaticType) :
    Types R slots returns
      (.call mode target.method.toUInt32 args.length.toUInt16 : Instr Label)
      (takes.reverse ++ (receivers.reverse ++ σ))
      (leaves (receivers ++ takes) target.returnType mode ++ σ) := by
  obtain ⟨hlength, owners, howners, hsig⟩ := h
  have hcount : (receivers ++ takes).length =
      args.length.toUInt16.toNat + if mode = .static then 0 else 1 := by
    rw [List.length_append, hmode, htakes.length_eq, List.length_map,
      UInt16.toNat_ofNat_of_lt' hlength, Nat.add_comm]
  rw [← List.append_assoc, ← List.reverse_append]
  exact .call hsig hcount (List.rel_append howners htakes) σ

theorem types_arithmetic {ty a b : StaticType} {op : Arithmetic} {i : Instr Label}
    (h : ty.arithmetic? op = some i) : Types R slots returns i (b :: a :: σ) (ty :: σ) := by
  unfold StaticType.arithmetic? at h
  split at h
  · cases h
    exact .concat a b σ
  · obtain ⟨kind, hkind, rfl⟩ := Option.map_eq_some_iff.mp h
    have hty : ty = .ofNumeric kind := by
      cases ty <;> cases hkind <;> rfl
    rw [hty]
    exact .arith kind op a b σ

namespace Command

/-- What the command reads, writes and calls has the types it is used with. -/
def Fits (R : Rules) (slots : List StaticType) (returns : StaticType) : Command → Prop
  | .arithmetic _ left right ty result =>
    left.Fits R slots ∧ right.Fits R slots ∧ result.SlotOf slots ty
  | .assign target source coercion => target.Fits R slots ∧ source.Fits R slots ∧
    coercion.Fits R source.ty target.ty
  | .newObject type constructor args result => (∀ id, type.classId? = some id → id < R.classes) ∧
    (∀ a ∈ args, a.Fits R slots) ∧
    (∀ target, constructor = some target → target.Fits R [type] args) ∧ result.SlotOf slots type
  | .call target receiver args result => (∀ r, receiver = some r → r.Fits R slots) ∧
    (∀ a ∈ args, a.Fits R slots) ∧ target.Fits R (receiver.toList.map Variable.ty) args ∧
    receiver.isSome = (target.mode != .static) ∧
    match result with
    | none => target.isConstructor = true ∨ target.returnType.isVoid = true
    | some r => target.isConstructor = false ∧ target.returnType.isVoid = false ∧
      r.SlotOf slots target.returnType
  | .box value result => value.Fits R slots ∧ result.SlotOf slots .object
  | .unbox value ty result => value.Fits R slots ∧ ty.isValue = true ∧ result.SlotOf slots ty
  | .cast value ty result => value.Fits R slots ∧ R.Accepts value.ty .object ∧
    result.SlotOf slots ty
  | .raise value => value.Fits R slots ∧ R.Accepts value.ty .object
  | .ifBegin c _ _ | .elseIf c _ _ _ | .whileBegin c _ _ =>
    c.left.Fits R slots ∧ c.right.Fits R slots
  | .catchBegin ty v => v.SlotOf slots ty
  | .ret (some (value, coercion)) _ => value.Fits R slots ∧ coercion.Fits R value.ty returns
  | _ => True

variable {c : Command}

theorem types_newObject {type : StaticType} {constructor : Option CallTarget}
    {args : List Argument} {result : Variable}
    (h : (newObject type constructor args result).Fits R slots returns)
    (hc : (newObject type constructor args result).check = .ok ())
    (he : (newObject type constructor args result).Emittable)
    (hs : Stocked R q (newObject type constructor args result).actions) :
    TypesAll R slots returns (codeOf q (newObject type constructor args result).actions) [] [] := by
  obtain ⟨hclass, hargs, hconstructor, hresult⟩ := h
  obtain ⟨id, hid⟩ := Option.isSome_iff_exists.mp he
  have hnew : TypesAll R slots returns
      (codeOf q (type.classId?.toList.map fun id => .put (.new id.toUInt32))) [] [type] := by
    cases type <;> cases hid
    exact .single (.new (hclass id rfl) ..)
  rw [actions, codeOf_append, codeOf_append]
  refine hnew.append (.append ?_ (hresult.types_saves (R.refl type)))
  cases constructor with
  | none => exact .nil _
  | some target =>
    simp only [actions, Option.toList_some, List.flatMap_singleton, stocked_append] at hs
    obtain ⟨takes, htakes, hloads⟩ := Argument.types_loads hargs hc hs.2.1.1 returns
    simp only [Option.toList_some, List.flatMap_singleton, codeOf_append]
    have hcall := (hconstructor target rfl).types_call slots returns .constructor rfl htakes []
    exact (hloads [type]).append (.single hcall)

theorem types_call {target : CallTarget} {receiver : Option Variable} {args : List Argument}
    {result : Option Variable} (h : (call target receiver args result).Fits R slots returns)
    (hc : (call target receiver args result).check = .ok ())
    (hs : Stocked R q (call target receiver args result).actions) :
    TypesAll R slots returns (codeOf q (call target receiver args result).actions) [] [] := by
  obtain ⟨hreceiver, hargs, htarget, hmode, hresult⟩ := h
  have hcount : (receiver.toList.map Variable.ty).length =
      if target.mode = .static then 0 else 1 := by
    cases receiver with
    | none =>
      rw [if_pos (by simpa using hmode.symm)]
      rfl
    | some r =>
      rw [if_neg (by simpa using hmode.symm)]
      rfl
  -- a constructor leaves its object, which is dropped
  have hrest {takes : List StaticType}
      (htakes : List.Forall₂ R.Accepts takes (args.map Argument.paramType)) :
      TypesAll R slots returns (codeOf q (.put (.call target.mode target.method.toUInt32
        args.length.toUInt16) :: ((if target.isConstructor then [.put .pop] else []) ++
          result.toList.flatMap Variable.saves)))
        (takes.reverse ++ (receiver.toList.map Variable.ty).reverse) [] := by
    have hcall := htarget.types_call slots returns target.mode hcount htakes []
    rw [List.append_nil, List.append_nil] at hcall
    refine .cons hcall ?_
    cases hconstructor : target.isConstructor with
    | true =>
      have hcalled : target.mode = .constructor := by rw [CallTarget.mode, hconstructor]; rfl
      cases receiver with
      | none =>
        rw [hcalled] at hmode
        cases hmode
      | some r =>
        cases result with
        | none =>
          rw [hcalled]
          exact .single (.pop r.ty [])
        | some v =>
          rw [hconstructor] at hresult
          cases hresult.1
    | false =>
      have hcalled : target.mode ≠ .constructor := by
        rw [CallTarget.mode, hconstructor]
        cases target.isStatic <;> simp
      rw [leaves_eq hcalled]
      cases result with
      | none =>
        rw [if_pos (hresult.resolve_left (by rw [hconstructor]; exact Bool.false_ne_true))]
        exact .nil _
      | some v =>
        obtain ⟨-, hvoid, hv⟩ := hresult
        rw [hvoid, if_neg Bool.false_ne_true, Option.toList_some, List.flatMap_singleton]
        exact hv.types_saves (R.refl _)
  rw [actions, stocked_append, stocked_append] at hs
  rw [actions, codeOf_append, codeOf_append]
  cases receiver with
  | none =>
    obtain ⟨takes, htakes, hloads⟩ := Argument.types_loads hargs hc hs.2.1 returns
    exact (hloads []).append (hrest htakes)
  | some r =>
    obtain ⟨⟨⟩, hload, hcargs⟩ := except_bind_eq_ok.mp hc
    obtain ⟨takes, htakes, hloads⟩ := Argument.types_loads hargs hcargs hs.2.1 returns
    rw [Option.toList_some, List.flatMap_singleton] at hs ⊢
    exact ((hreceiver r rfl).types_loads hload hs.1).append ((hloads [r.ty]).append (hrest htakes))

theorem types_plain (hi : c.indents = false) (ho : c.outdents = false)
    (h : c.Fits R slots returns) (hc : c.check = .ok ()) (he : c.Emittable)
    (hs : Stocked R q c.body) :
    TypesAll R slots returns (codeOf q c.body ++ c.exit?.toList) [] [] := by
  cases c with
  | arithmetic op left right ty result =>
    obtain ⟨hleft, hright, hresult⟩ := h
    obtain ⟨⟨⟩, hcleft, hcright⟩ := except_bind_eq_ok.mp hc
    obtain ⟨i, hi⟩ := Option.isSome_iff_exists.mp he
    simp only [body, actions, stocked_append] at hs
    obtain ⟨a, ha⟩ := hleft.types_widens hcleft hs.1 returns
    obtain ⟨b, hb⟩ := hright.types_widens hcright hs.2.1 returns
    simp only [body, actions, hi, exit?, Option.toList_none, List.append_nil, codeOf_append]
    exact (ha []).append ((hb [a]).append
      (.cons (types_arithmetic hi) (hresult.types_saves (R.refl ty))))
  | assign target source coercion =>
    obtain ⟨htarget, hsource, hcoercion⟩ := h
    obtain ⟨⟨⟩, hctarget, hcsource⟩ := except_bind_eq_ok.mp hc
    obtain ⟨ty, haccepts, hconverts⟩ := hcoercion.types_converts slots returns q
    simp only [body, actions, stocked_append] at hs
    simp only [body, actions, exit?, Option.toList_none, List.append_nil, codeOf_append]
    exact (htarget.types_receives hctarget hs.1).append
      ((hsource.types_loads hcsource hs.2.1).append
        ((hconverts _).append (htarget.types_saves hctarget haccepts)))
  | newObject type constructor args result =>
    simp only [exit?, Option.toList_none, List.append_nil]
    exact types_newObject h hc he hs
  | call target receiver args result =>
    simp only [exit?, Option.toList_none, List.append_nil]
    exact types_call h hc hs
  | box value result =>
    simp only [body, actions, exit?, Option.toList_none, List.append_nil, codeOf_append]
    exact (h.1.types_loads hc (stocked_append.mp hs).1).append
      (.cons (.box _ value.ty []) (h.2.types_saves (R.refl _)))
  | unbox value ty result =>
    obtain ⟨hvalue, hty, hresult⟩ := h
    simp only [body, actions, exit?, Option.toList_none, List.append_nil, codeOf_append]
    exact (hvalue.types_loads hc (stocked_append.mp hs).1).append (.cons (.unbox hty value.ty [])
      (hresult.types_saves (R.refl ty)))
  | cast value ty result =>
    obtain ⟨hvalue, hobject, hresult⟩ := h
    obtain ⟨tag, htag⟩ := Option.isSome_iff_exists.mp he
    simp only [body, actions, htag, exit?, Option.toList_none, List.append_nil, codeOf_append]
    exact (hvalue.types_loads hc (stocked_append.mp hs).1).append (.cons (.cast htag hobject [])
      (hresult.types_saves (R.refl ty)))
  | raise value => exact (h.1.types_loads hc hs).append (.single (.raise h.2 []))
  | defineLocal v => exact .nil _
  | ret value returnType =>
    cases value with
    | none => exact .single (.retVoid [])
    | some r =>
      obtain ⟨v, coercion⟩ := r
      obtain ⟨ty, haccepts, hconverts⟩ := h.2.types_converts slots returns q
      simp only [body, codeOf_append]
      exact ((h.1.types_loads hc (stocked_append.mp hs).1).append (hconverts [])).append
        (.single (.ret haccepts []))
  | ifBegin | elseIf | elseBegin | whileBegin | tryBegin | catchBegin => cases hi
  | endIf | endWhile | endTry => cases ho

theorem graded_of_fits (h : c.Fits R slots returns) (hq : q.strings.length ≤ R.strings)
    (hc : c.check = .ok ()) (he : c.Emittable) : c.Graded (Grading.types R slots returns) q := by
  have hstocked {actions : List Action} (hs : ∀ s, .putString s ∈ actions → s ∈ q.strings) :
      Stocked R q actions := fun s hmem =>
    Nat.lt_of_lt_of_le (Pool.toNat_indexOf_lt (hs s hmem)) hq
  have hbranch {c : Condition} (h : c.left.Fits R slots ∧ c.right.Fits R slots)
      (hc : c.check = .ok ()) (hs : Stocked R q (c.operand c.left ++ c.operand c.right)) :
      ∃ σ, TypesAll R slots returns (c.code q) [] σ ∧
        ∀ l : Label, Types R slots returns (.branch c.comparison.failureTest l) σ [] := by
    obtain ⟨⟨⟩, hcleft, hcright⟩ := except_bind_eq_ok.mp hc
    have hoperand {v : Variable} (hv : v.Fits R slots) (hload : v.checkLoad = .ok ())
        (hs : Stocked R q (c.operand v)) :
        ∃ ty, ∀ σ, TypesAll R slots returns (codeOf q (c.operand v)) σ (ty :: σ) := by
      obtain ⟨left, comparison, right, widenTo⟩ := c
      cases widenTo with
      | none => exact ⟨v.ty, fun σ => hv.types_loads hload hs⟩
      | some target => exact hv.types_widens hload hs returns
    obtain ⟨hsleft, hsright⟩ := stocked_append.mp hs
    obtain ⟨a, ha⟩ := hoperand h.1 hcleft hsleft
    obtain ⟨b, hb⟩ := hoperand h.2 hcright hsright
    rw [Condition.code, codeOf_append]
    exact ⟨[b, a], (ha []).append (hb [a]), fun l => .branch _ l a b []⟩
  cases c with
  | ifBegin | elseIf | whileBegin => exact fun hs => hbranch h hc (hstocked hs)
  | catchBegin ty v =>
    rintro tag method slot name ty' htag rfl
    exact .storeLocal h (R.caught _ _ htag) []
  | _ => exact fun hi ho hs => types_plain hi ho h hc he (hstocked hs)

end Command

theorem MethodDef.types_implied {t : MethodDef} :
    TypesAll R slots t.returnType t.implied [] [] := by
  have hdefault (ty : StaticType) :
      Types R slots t.returnType (.default ty.valueKind : Instr Label) [] [ty] := by
    cases ty with
    | bool => exact .constBool false []
    | int => exact .constI32 0 (R.refl _) []
    | enum id name => exact .constI32 0 (R.member id name) []
    | long => exact .constI64 0 []
    | double => exact .constF64 .zero []
    | _ => exact .constNull _ []
  rw [implied]
  split
  · split
    · exact .single (.retVoid [])
    · exact .cons (hdefault t.returnType) (.single (.ret (R.refl _) []))
  · exact .nil _

theorem Accessor.typesAll {id : Nat} {f : FieldDef} {t : MethodDef} {code : List (Instr Label)}
    (h : Accessor id f t code) (hfield : R.HasField id.toUInt32 f.ty) {this : StaticType}
    {rest : List StaticType} (hslots : slots = this :: t.paramTypes ++ rest) :
    TypesAll R slots t.returnType code [] [] := by
  subst hslots
  cases h with
  | getter hstatic hparams hreturn =>
    rw [hreturn]
    exact .cons (.loadLocal rfl []) (.cons (.loadField hfield this [])
      (.single (.ret (R.refl _) [])))
  | setter hstatic hreturn hparams hvalue =>
    rw [MethodDef.paramTypes, hparams, List.map_singleton, hvalue]
    exact .cons (.loadLocal rfl []) (.cons (.loadLocal rfl [this])
      (.cons (.storeField hfield (R.refl _) this []) (.single (.retVoid []))))

end Bytesmith.Build
