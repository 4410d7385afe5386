/-!
# Deriving a conversion

For a struct with a single field, the conversion into a parameter can be generated: it copies the
field.

* `Derive.Item`: the declaration of a type, as token text.
* `Derive.Implementation`: the generated implementation.
* `Derive.implementation`: the implementation for a declaration, or why there is none.
-/

namespace SqlBind.Derive
set_option autoImplicit false

inductive Generic where
  | lifetime (name : String) (bounds : List String)
  | type (name : String) (bounds : List String) (default : Option String)
  | const (name carrier : String) (default : Option String)
  deriving DecidableEq, Repr

namespace Generic

def name : Generic → String
  | lifetime name _ => name
  | type name _ _ => name
  | const name _ _ => name

def isLifetime : Generic → Bool
  | lifetime .. => true
  | _ => false

/-- A name, and its bounds after a colon if there are any. -/
def bounded (name : String) (bounds : List String) : String :=
  if bounds.isEmpty then name else name ++ " : " ++ String.intercalate " + " bounds

/-- A generic parameter as an implementation introduces it: with its bounds and without its default.
-/
def introduced : Generic → String
  | lifetime name bounds => bounded name bounds
  | type name bounds _ => bounded name bounds
  | const name carrier _ => "const " ++ name ++ " : " ++ carrier

end Generic

inductive Kind where
  | tupleStruct
  | namedStruct
  | unitStruct
  | enumeration
  | union
  deriving DecidableEq, Repr

def Kind.isStruct : Kind → Bool
  | tupleStruct => true
  | namedStruct => true
  | unitStruct => true
  | enumeration => false
  | union => false

/-- A field of a declaration; fields of a tuple struct have no name. -/
structure Field where
  name : Option String
  type : String
  deriving DecidableEq, Repr

/-- The declaration of a type. -/
structure Item where
  kind : Kind
  name : String
  fields : List Field
  generics : List Generic
  /-- The predicates of the where clause. -/
  predicates : List String
  deriving DecidableEq, Repr

/-- A generated implementation. -/
structure Implementation where
  introduced : List String
  implements : String
  self : String
  arguments : List String
  /-- The predicates of the where clause. -/
  predicates : List String
  target : String
  /-- The field that is copied. -/
  member : String
  deriving DecidableEq, Repr

/-- Why no implementation can be generated. -/
inductive Failure where
  | notStruct
  | notSingleField
  deriving DecidableEq, Repr

/-- The wording of a failure. -/
def Failure.message : Failure → String
  | notStruct => "only struct are currently supported"
  | notSingleField => "`ToParam` can only be derived for struct with exactly one field"

/-- The trait of conversions into parameters. -/
def conversionTrait : String := ":: pgparam :: ToParam"

/-- What the field's type must be able to do: be encoded, and be copied. -/
def fieldPredicate (type : String) : String :=
  type ++ " : :: pgparam :: Encode + :: core :: clone :: Clone"

/-- Lifetimes before all other generic parameters, otherwise in the given order. -/
def ordered (generics : List Generic) : List Generic :=
  generics.filter Generic.isLifetime ++ generics.filter fun g => !g.isLifetime

/-- The implementation for a declaration. Whether it is a struct is checked first. -/
def implementation (item : Item) : Except Failure Implementation :=
  if item.kind.isStruct then
    match item.fields with
    | [field] => .ok {
        introduced := (ordered item.generics).map Generic.introduced
        implements := conversionTrait
        self := item.name
        arguments := (ordered item.generics).map Generic.name
        predicates := item.predicates ++ [fieldPredicate field.type]
        target := field.type
        member := field.name.getD "0" }
    | _ => .error .notSingleField
  else
    .error .notStruct

end SqlBind.Derive
