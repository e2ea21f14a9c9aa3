import AgentMarkup.Decimal.Literal
import AgentMarkup.Json.Basic
import AgentMarkup.Table
import AgentMarkup.Text.Blank

/-!
Schemas of primitives. A primitive is a kind of element with a table of attributes, the
states it goes through and the events it may send. Of the attribute types only booleans
and numbers constrain what is written in a document.
-/

set_option autoImplicit false
set_option relaxedAutoImplicit false

namespace AgentMarkup

inductive ValueType where
  | string
  | boolean
  | number
  | object
  | array
deriving DecidableEq

namespace ValueType

def all : List ValueType :=
  [.string, .boolean, .number, .object, .array]

def name : ValueType → String
  | .string => "string"
  | .boolean => "boolean"
  | .number => "number"
  | .object => "object"
  | .array => "array"

def ofName? (name : String) : Option ValueType :=
  all.find? fun type ↦ type.name == name

/-- Whether a literal is a decimal number, blanks around it aside, and not so large
that it rounds to infinity. -/
def acceptsNumber (literal : String) : Bool :=
  match Decimal.Literal.read (Text.trimBy Text.isBlank literal.toList) with
  | some value => value.isFinite
  | none => false

def accepts (type : ValueType) (literal : String) : Bool :=
  match type with
  | .boolean => literal = "true" || literal = "false"
  | .number => acceptsNumber literal
  | .string | .object | .array => true

end ValueType

structure AttributeSpec where
  type : ValueType
  required : Bool
  default : Option Json
  description : Option String

namespace AttributeSpec

def optional (type : ValueType) : AttributeSpec := ⟨type, false, none, none⟩

def mandatory (type : ValueType) : AttributeSpec := ⟨type, true, none, none⟩

def withDefault (spec : AttributeSpec) (value : Json) : AttributeSpec :=
  { spec with default := some value }

/-- An optional attribute that has a value when it is left out. -/
def defaulting (type : ValueType) (value : Json) : AttributeSpec :=
  (optional type).withDefault value

def withDescription (spec : AttributeSpec) (text : String) : AttributeSpec :=
  { spec with description := some text }

def accepts (spec : AttributeSpec) (literal : String) : Bool :=
  spec.type.accepts literal

end AttributeSpec

/-- An event that a primitive may send; the payload names the type of each field. -/
structure EventSpec where
  name : String
  description : Option String
  payload : Option (Table String)
deriving DecidableEq

structure Schema where
  kind : String
  attributes : Table AttributeSpec
  states : List String
  events : List EventSpec

namespace Schema

def empty (kind : String) : Schema := ⟨kind, .empty, [], []⟩

instance : Inhabited Schema := ⟨empty ""⟩

def withAttribute (s : Schema) (name : String) (spec : AttributeSpec) : Schema :=
  { s with attributes := s.attributes.insert name spec }

def withStates (s : Schema) (states : List String) : Schema :=
  { s with states }

def withEvents (s : Schema) (names : List String) : Schema :=
  { s with events := names.map (⟨·, none, none⟩) }

/-- A schema with all its parts; its events have names only. -/
def stated (kind : String) (attributes : List (String × AttributeSpec))
    (states events : List String) : Schema :=
  let bare := (empty kind).withStates states |>.withEvents events
  attributes.foldl (fun s entry ↦ s.withAttribute entry.1 entry.2) bare

def attribute? (s : Schema) (name : String) : Option AttributeSpec :=
  s.attributes.get? name

/-- Names of the required attributes, in name order. -/
def requiredAttributes (s : Schema) : List String :=
  (s.attributes.entries.filter (·.2.required)).map Prod.fst

def defaults (s : Schema) : Table Json :=
  s.attributes.filterMap fun _ spec ↦ spec.default

def hasState (s : Schema) (state : String) : Bool :=
  s.states.contains state

def declaresEvent (s : Schema) (event : String) : Bool :=
  s.events.any (·.name = event)

end Schema

end AgentMarkup
