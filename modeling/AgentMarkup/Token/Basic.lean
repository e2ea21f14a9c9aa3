import AgentMarkup.Datum.Decode

/-!
The lexical units of a document, each with the byte offset of its first character.
-/

set_option autoImplicit false
set_option relaxedAutoImplicit false

namespace AgentMarkup

namespace Token

inductive Kind where
  | tagOpen
  | tagClose
  | attrName
  | attrValue
  | selfClose
  | tagEnd
  | text
deriving DecidableEq

namespace Kind

def all : List Kind :=
  [.tagOpen, .tagClose, .attrName, .attrValue, .selfClose, .tagEnd, .text]

/-- The name that stands for the kind in data. -/
def name : Kind → String
  | .tagOpen => "tag_open"
  | .tagClose => "tag_close"
  | .attrName => "attr_name"
  | .attrValue => "attr_value"
  | .selfClose => "self_close"
  | .tagEnd => "tag_end"
  | .text => "text"

/-- The name that is shown to people. -/
def display : Kind → String
  | .tagOpen => "tag-open"
  | .tagClose => "tag-close"
  | .attrName => "attribute-name"
  | .attrValue => "attribute-value"
  | .selfClose => "self-close"
  | .tagEnd => "tag-end"
  | .text => "text"

def ofName? (name : String) : Option Kind :=
  all.find? fun kind ↦ kind.name == name

end Kind

end Token

structure Token where
  kind : Token.Kind
  value : String
  position : Nat
deriving DecidableEq

def Token.decode (d : Datum) : Decoded Token := do
  let fields ← d.asFields ["kind", "value", "position"]
  let kind ← requiredField fields "kind" (Datum.asName Token.Kind.ofName?)
  let value ← requiredField fields "value" Datum.asText
  let position ← requiredField fields "position" Datum.asCount
  return ⟨kind, value, position⟩

end AgentMarkup
