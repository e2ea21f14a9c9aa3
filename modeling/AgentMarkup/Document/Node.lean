import AgentMarkup.Table

/-!
Document trees. The root is a node of kind `document`, text stands in nodes of kind
`text`, and every other node is an element. The questions asked of a tree read it in
document order, a node before its children.
-/

set_option autoImplicit false
set_option relaxedAutoImplicit false

namespace AgentMarkup

structure Node where
  kind : String
  attributes : Table String
  children : List Node
  text : Option String
  position : Nat

namespace Node

def documentKind : String := "document"

def textKind : String := "text"

def element (kind : String) (attributes : Table String) (children : List Node)
    (position : Nat) : Node :=
  ⟨kind, attributes, children, none, position⟩

def document (children : List Node) : Node :=
  element documentKind .empty children 0

def leaf (text : String) (position : Nat) : Node :=
  ⟨textKind, .empty, [], some text, position⟩

instance : Inhabited Node := ⟨document []⟩

def isDocument (n : Node) : Bool :=
  n.kind = documentKind

def isText (n : Node) : Bool :=
  n.kind = textKind

/-- Kinds with a hyphen are free for anyone to use. -/
def isCustomKind (kind : String) : Bool :=
  kind.toList.contains '-'

def isCustom (n : Node) : Bool :=
  isCustomKind n.kind

def attribute? (n : Node) (name : String) : Option String :=
  n.attributes.get? name

mutual

/-- A node and its descendants, of those the ones of the given kind. -/
def ofKind (kind : String) : Node → List Node
  | ⟨k, attributes, children, text, position⟩ =>
    if k = kind then ⟨k, attributes, children, text, position⟩ :: allOfKind kind children
    else allOfKind kind children

def allOfKind (kind : String) : List Node → List Node
  | [] => []
  | n :: rest => n.ofKind kind ++ allOfKind kind rest

end

/-- The descendants of the given kind; the node itself is not among them. -/
def findAll (kind : String) (n : Node) : List Node :=
  allOfKind kind n.children

mutual

/-- The texts of a node and its descendants. -/
def texts : Node → List String
  | ⟨_, _, children, text, _⟩ => text.toList ++ allTexts children

def allTexts : List Node → List String
  | [] => []
  | n :: rest => n.texts ++ allTexts rest

end

/-- The texts of a node and its descendants, joined by single spaces. -/
def textContent (n : Node) : String :=
  String.intercalate " " n.texts

mutual

/-- A node and its descendants, each with its depth below the starting one. -/
def outline (depth : Nat) : Node → List (Nat × Node)
  | ⟨kind, attributes, children, text, position⟩ =>
    (depth, ⟨kind, attributes, children, text, position⟩) :: outlineAll (depth + 1) children

def outlineAll (depth : Nat) : List Node → List (Nat × Node)
  | [] => []
  | n :: rest => n.outline depth ++ outlineAll depth rest

end

end Node

end AgentMarkup
