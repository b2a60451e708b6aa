import Bytesmith.Build.Draft

namespace Bytesmith.Build

open Code

namespace Draft

def basesFrom (d : Draft) : Nat → Option Nat → List Nat
  | 0, _ => []
  | _, none => []
  | steps + 1, some id =>
    match d.types[id]? with
    | none => []
    | some t => id :: d.basesFrom steps t.base

def bases (d : Draft) (id : Nat) : List Nat := d.basesFrom d.types.size (some id)

/-- A type, what its interfaces lead to, and what its base leads to. -/
def lineageFrom (d : Draft) : Nat → Nat → List Nat
  | 0, _ => []
  | steps + 1, id =>
    match d.types[id]? with
    | none => []
    | some t => id :: (t.interfaces ++ t.base.toList).flatMap (d.lineageFrom steps)

def lineage (d : Draft) (id : Nat) : List Nat := d.lineageFrom d.types.size id

def isSubtype (d : Draft) (sub sup : Nat) : Bool := (d.lineage sub).contains sup

def coercion (d : Draft) (source target : StaticType) : Except BuildError Coercion :=
  Coercion.select d.isSubtype source target

def findType? (d : Draft) (name : String) : Option Nat := d.types.findIdx? (·.name == name)

def declaredField? (d : Draft) (name : String) (t : TypeDef) : Option Nat :=
  t.fields.find? fun f => d.fields[f]?.any (·.name == name)

def declaredProperty? (d : Draft) (name : String) (t : TypeDef) : Option Nat :=
  t.properties.find? fun p => d.properties[p]?.any (·.name == name)

def findField? (d : Draft) (id : Nat) (name : String) : Option Nat :=
  (d.bases id).findSome? fun t => d.types[t]?.bind (d.declaredField? name)

def findProperty? (d : Draft) (id : Nat) (name : String) : Option Nat :=
  (d.bases id).findSome? fun t => d.types[t]?.bind (d.declaredProperty? name)

def paramTypes (d : Draft) (m : Nat) : List StaticType :=
  (d.methods[m]?.map (·.paramTypes)).getD []

/-- Whether arguments of the types can be passed without a conversion that may fail. -/
def accepts (d : Draft) (params args : List StaticType) : Bool :=
  params.length == args.length &&
    (params.zip args).all fun (p, a) => (Coercion.select? d.isSubtype a p).any (·.isImplicit)

/-- The candidate with exactly these parameter types, else the first that accepts them. -/
def resolveOverload? (d : Draft) (candidates : List Nat) (args : List StaticType) : Option Nat :=
  match candidates.find? fun m => d.paramTypes m == args with
  | some m => some m
  | none => candidates.find? fun m => d.accepts (d.paramTypes m) args

def declaredOverload? (d : Draft) (name : String) (args : List StaticType) (t : TypeDef) :
    Option Nat :=
  d.resolveOverload? (t.methods.filter fun m => d.methods[m]?.any (·.name == name)) args

/-- Methods are found on the type, then on its interfaces, then on its base. -/
def findMethod? (d : Draft) (id : Nat) (name : String) (args : List StaticType) : Option Nat :=
  (d.lineage id).findSome? fun t => d.types[t]?.bind (d.declaredOverload? name args)

def findConstructor? (d : Draft) (id : Nat) (args : List StaticType) : Option Nat :=
  d.types[id]?.bind fun t => d.resolveOverload? t.constructors args

def callTarget (d : Draft) (m : Nat) : Except BuildError CallTarget := do
  let target ← d.method m
  return {
    method := m
    owner := ← d.classType target.owner
    name := target.name
    params := target.paramTypes
    returnType := target.returnType
    isStatic := target.attrs.isStatic
    isConstructor := target.isConstructor }

def enumConstant (d : Draft) (id : Nat) (member : String) : Except BuildError Variable := do
  let e ← d.enum id
  match e.members.lookup member with
  | some value => return .constant (.enum (.enum id e.name) member value)
  | none => throw (.unknownMember .enumMember s!"{e.name}.{member}")

end Draft

end Bytesmith.Build
