import Bytesmith.Build.Body

namespace Bytesmith.Build

open Code

inductive NameTree
  | empty
  | node (smaller : NameTree) (name : String) (larger : NameTree)
deriving DecidableEq, Repr

namespace NameTree

def contains (s : String) : NameTree → Bool
  | .empty => false
  | .node smaller name larger =>
    if s < name then smaller.contains s else if name < s then larger.contains s else true

def insert (s : String) : NameTree → NameTree
  | .empty => .node .empty s .empty
  | .node smaller name larger =>
    if s < name then .node (smaller.insert s) name larger
    else .node smaller name (larger.insert s)

end NameTree

namespace Draft

/-- Types and enums share one space of names. -/
def ensureNewTypeName (d : Draft) (name : String) : Except BuildError Unit :=
  if d.types.any (·.name == name) || d.enums.any (·.name == name) then
    .error (.duplicateMember d.name name)
  else .ok ()

def checkBase (d : Draft) (name : String) (attrs : TypeAttributes) (base : Nat) :
    Except BuildError Unit := do
  let b ← d.type base
  if b.attrs.isInterface || b.attrs.isSealed then throw (.invalidArgument (.unusableBase b.name))
  if attrs.isInterface then throw (.invalidArgument (.interfaceBase name))

def checkInterface (d : Draft) (id : Nat) : Except BuildError Unit := do
  let i ← d.type id
  if !i.attrs.isInterface then throw (.invalidArgument (.notInterface i.name))

def openType (d : Draft) (type : Nat) : Except BuildError TypeDef := do
  let t ← d.type type
  d.ensureOpen
  if t.created.isSome then throw (.typeSealed t.name)
  return t

def hasMethod (d : Draft) (t : TypeDef) (name : String) : Bool :=
  t.methods.any fun m => d.methods[m]?.any (·.name == name)

/-- Fields and properties own their name; methods share one with methods only. -/
def ensureUnique (d : Draft) (t : TypeDef) (name : String) (isMethod : Bool) :
    Except BuildError Unit :=
  if (d.declaredField? name t).isSome || (d.declaredProperty? name t).isSome ||
      (!isMethod && d.hasMethod t name) then
    .error (.duplicateMember t.name name)
  else .ok ()

/-- No two members of one name have the same parameter types. -/
def ensureNewSignature (d : Draft) (t : TypeDef) (members : List Nat) (name : String)
    (params : List Parameter) : Except BuildError Unit :=
  let types := params.map (·.ty)
  if members.any fun m => d.methods[m]?.any fun e => e.name == name && e.paramTypes == types then
    .error (.duplicateMember t.name s!"{name}({MethodDef.typeList types})")
  else .ok ()

def checkParamsAfter : NameTree → List Parameter → Except BuildError Unit
  | _, [] => .ok ()
  | before, p :: params => do
    requireName .parameter p.name
    requireStorable .parameter p.name p.ty
    if p.name == "this" || before.contains p.name then
      throw (.invalidArgument (.duplicateParameter p.name))
    checkParamsAfter (before.insert p.name) params

def checkParams (params : List Parameter) : Except BuildError Unit := checkParamsAfter .empty params

/-- The attributes a method gets on its type: methods of interfaces are abstract. -/
def methodAttributes (t : TypeDef) (name : String) (attrs : MethodAttributes) :
    Except BuildError MethodAttributes := do
  if t.attrs.isInterface then
    if attrs.isStatic then throw (.invalidArgument (.staticInterfaceMethod name))
    return { attrs with isAbstract := true }
  if attrs.isAbstract && !t.attrs.isAbstract then
    throw (.invalidArgument (.abstractInConcrete name))
  if attrs.isAbstract && attrs.isStatic then throw (.invalidArgument (.staticAbstract name))
  return attrs

def accessor (d : Draft) (type : Nat) (t : TypeDef) (property : String) (m : Nat) :
    Except BuildError MethodDef := do
  let target ← d.method m
  if target.owner ≠ type || target.isConstructor || target.attrs.isStatic then
    throw (.invalidArgument (.foreignAccessor target.name property t.name))
  return target

def checkGetter (property : String) (ty : StaticType) (getter : MethodDef) :
    Except BuildError Unit := do
  if !getter.params.isEmpty then throw (.invalidArgument (.getterParameters property))
  if getter.returnType ≠ ty then throw (.typeMismatch ty getter.returnType)

def checkSetter (property : String) (ty : StaticType) (setter : MethodDef) :
    Except BuildError Unit := do
  match setter.params with
  | [value] => if value.ty ≠ ty then throw (.typeMismatch ty value.ty)
  | _ => throw (.invalidArgument (.setterParameters property))
  if !setter.returnType.isVoid then throw (.typeMismatch .void setter.returnType)

structure MemberCounts where
  fields : Nat × Nat
  methods : Nat × Nat
  properties : Nat × Nat

def countMembers (d : Draft) (t : TypeDef) : MemberCounts where
  fields := (d.fields.size, t.fields.length)
  methods := (d.methods.size, t.methods.length)
  properties := (d.properties.size, t.properties.length)

def truncate (d : Draft) (type : Nat) (counts : MemberCounts) : Draft :=
  { d with
    fields := d.fields.take counts.fields.1
    methods := d.methods.take counts.methods.1
    properties := d.properties.take counts.properties.1 }.modifyType type fun t =>
      { t with
        fields := t.fields.take counts.fields.2
        methods := t.methods.take counts.methods.2
        properties := t.properties.take counts.properties.2 }

end Draft

namespace BuildM

def defineType (name : String) (attrs : TypeAttributes) (base : Option Nat)
    (interfaces : List Nat) : BuildM Nat := do
  let d ← get
  ofExcept do
    d.ensureOpen
    requireName .type name
    d.ensureNewTypeName name
    if let some b := base then d.checkBase name attrs b
    interfaces.forM d.checkInterface
  set { d with types := d.types.push ⟨name, attrs, base, interfaces, [], [], [], [], none⟩ }
  return d.types.size

def defineEnum (name : String) : BuildM Nat := do
  let d ← get
  ofExcept do
    d.ensureOpen
    requireName .enum name
    d.ensureNewTypeName name
  set { d with enums := d.enums.push ⟨name, [], none⟩ }
  return d.enums.size

def defineEnumMember (enum : Nat) (name : String) (value : Int32) : BuildM Unit := do
  let d ← get
  let e ← ofExcept (d.enum enum)
  ofExcept do
    d.ensureOpen
    requireName .enumMember name
    if e.members.any (·.1 == name) then throw (.duplicateMember e.name name)
  set { d with enums :=
    d.enums.modify enum fun e => { e with members := e.members ++ [(name, value)] } }

def defineField (type : Nat) (name : String) (ty : StaticType) (attrs : FieldAttributes) :
    BuildM Nat := do
  let d ← get
  ofExcept do
    let t ← d.openType type
    requireName .field name
    requireStorable .field name ty
    if t.attrs.isInterface then throw (.invalidArgument (.interfaceField t.name name))
    d.ensureUnique t name false
  let id := d.fields.size
  set ({ d with fields := d.fields.push ⟨type, name, ty, attrs⟩ }.modifyType type
    fun t => { t with fields := t.fields ++ [id] })
  return id

def defineMethod (type : Nat) (name : String) (attrs : MethodAttributes) (returnType : StaticType)
    (params : List Parameter) : BuildM Nat := do
  let d ← get
  let attrs ← ofExcept do
    let t ← d.openType type
    requireName .method name
    if name == constructorName then throw (.invalidArgument .constructorName)
    if returnType = .null then throw (.invalidArgument (.nullReturn name))
    Draft.checkParams params
    let attrs ← Draft.methodAttributes t name attrs
    d.ensureUnique t name true
    d.ensureNewSignature t t.methods name params
    return attrs
  let id := d.methods.size
  set ({ d with methods := d.methods.push (.start type name attrs returnType params false) }
    |>.modifyType type fun t => { t with methods := t.methods ++ [id] })
  return id

def defineConstructor (type : Nat) (attrs : MethodAttributes) (params : List Parameter) :
    BuildM Nat := do
  let d ← get
  ofExcept do
    let t ← d.openType type
    if t.attrs.isInterface then throw (.invalidArgument (.interfaceConstructor t.name))
    if attrs.isStatic || attrs.isAbstract then throw (.invalidArgument .constructorAttributes)
    Draft.checkParams params
    d.ensureNewSignature t t.constructors constructorName params
  let id := d.methods.size
  set ({ d with methods :=
      d.methods.push (.start type constructorName attrs .void params true) }
    |>.modifyType type fun t => { t with constructors := t.constructors ++ [id] })
  return id

/-- Adds a constructor without parameters, which first runs that of the base. A base whose
constructors all take parameters is refused. -/
def defineDefaultConstructor (type : Nat) (attrs : MethodAttributes) : BuildM Nat := do
  let d ← get
  let chains ← ofExcept do
    let t ← d.openType type
    match t.base with
    | none => return false
    | some base =>
      let b ← d.type base
      let found := (d.findConstructor? base []).isSome
      if !found && !b.constructors.isEmpty then
        throw (.unknownMember .constructor s!"{b.name}()")
      return found
  let id ← defineConstructor type attrs []
  if chains then callBase id []
  return id

def defineProperty (type : Nat) (name : String) (ty : StaticType) (getter setter : Option Nat) :
    BuildM Nat := do
  let d ← get
  ofExcept do
    let t ← d.openType type
    requireName .property name
    requireStorable .property name ty
    d.ensureUnique t name false
    if getter.isNone && setter.isNone then throw (.invalidArgument (.noAccessor name))
    if let some m := getter then Draft.checkGetter name ty (← d.accessor type t name m)
    if let some m := setter then Draft.checkSetter name ty (← d.accessor type t name m)
  let id := d.properties.size
  set ({ d with properties := d.properties.push ⟨type, name, ty, getter, setter, none⟩ }
    |>.modifyType type fun t => { t with properties := t.properties ++ [id] })
  return id

def synthesize (m : Nat) (code : List (Instr Label)) : BuildM Unit := do
  let body ← writing m (CodeM.emitting do
    code.forM EmitM.emit
    EmitM.finish)
  modify (·.modifyMethod m ({ · with isSynthesized := true, state := .finished body }))

def generateProperty (type : Nat) (name : String) (ty : StaticType) : BuildM Nat := do
  let field ← defineField type s!"<{name}>k__BackingField" ty {}
  let getter ← defineMethod type s!"get_{name}" { isPublic := true } ty []
  let setter ← defineMethod type s!"set_{name}" { isPublic := true } .void [⟨"value", ty⟩]
  synthesize getter [.loadLocal 0, .loadField field.toUInt32, .ret]
  synthesize setter [.loadLocal 0, .loadLocal 1, .storeField field.toUInt32, .retVoid]
  let id ← defineProperty type name ty (some getter) (some setter)
  modify fun d =>
    { d with properties := d.properties.modify id ({ · with backing := some field }) }
  return id

/-- Adds a property with a private field and generated accessors. Nothing is added when one of
them cannot be. -/
def defineAutoProperty (type : Nat) (name : String) (ty : StaticType) : BuildM Nat := do
  let before ← get
  let t ← ofExcept do
    let t ← before.openType type
    requireName .property name
    requireStorable .property name ty
    before.ensureUnique t name false
    return t
  fun d => match generateProperty type name ty d with
    | .ok id d => .ok id d
    | .error e d => .error e (d.truncate type (before.countMembers t))

def setEntryPoint (m : Nat) : BuildM Unit := do
  let d ← get
  ofExcept do
    d.ensureOpen
    let target ← d.method m
    if !target.attrs.isStatic || target.isConstructor then
      throw (.invalidArgument (.entryPoint target.signature))
  set { d with entryPoint := some m }

end BuildM

end Bytesmith.Build
