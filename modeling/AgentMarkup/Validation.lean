import AgentMarkup.Document.Build
import AgentMarkup.Extension.Registry
import AgentMarkup.Token.Scan

/-!
Checking trees against the primitives in force. Every element is checked on its own,
under elements that fail as well; only nodes of kind `text` are passed over, with all
that is below them. Faults are found in document order, and within an element in name
order: first those of its attributes, then the required attributes it lacks.
-/

set_option autoImplicit false
set_option relaxedAutoImplicit false

namespace AgentMarkup

/-- What is wrong with a node. -/
inductive Violation where
  | notDocument
  | unknownPrimitive (kind : String)
  | unknownAttribute (kind name : String)
  | badLiteral (kind name : String) (type : ValueType)
  | missingAttribute (kind name : String)
deriving DecidableEq

/-- The way from the root to a node: an index among the root's children, then the kind
of each node passed and an index among its children. -/
structure NodePath where
  first : Nat
  steps : List (String × Nat)
deriving DecidableEq

namespace NodePath

def child (p : NodePath) (kind : String) (index : Nat) : NodePath :=
  { p with steps := p.steps ++ [(kind, index)] }

def display (p : NodePath) : String :=
  s!"children[{p.first}]" ++ String.join (p.steps.map fun step ↦ s!".{step.1}[{step.2}]")

end NodePath

/-- A violation and the node that commits it; the root is at no path. -/
structure Finding where
  place : Option NodePath
  violation : Violation
deriving DecidableEq

namespace Violation

def message : Violation → String
  | .notDocument => "Root must be a document node"
  | .unknownPrimitive kind => s!"Unknown primitive: {kind}"
  | .unknownAttribute _ name => s!"Unknown attribute: {name}"
  | .badLiteral _ name .boolean => s!"Attribute {name} must be boolean"
  | .badLiteral _ name _ => s!"Attribute {name} must be number"
  | .missingAttribute _ name => s!"Required attribute missing: {name}"

/-- What the path of a violation adds to the path of its node. -/
def suffix : Violation → String
  | .notDocument | .unknownPrimitive _ => ""
  | .unknownAttribute kind name | .badLiteral kind name _ => s!".{kind}.@{name}"
  | .missingAttribute kind _ => s!".{kind}"

end Violation

def Finding.diagnostic (f : Finding) : Diagnostic :=
  .atPath f.violation.message ((f.place.elim "" NodePath.display) ++ f.violation.suffix)

namespace Schema

/-- The violations of an element of this kind with these attributes. -/
def violations (s : Schema) (kind : String) (attributes : Table String) : List Violation :=
  attributes.entries.filterMap (attributeViolation s kind) ++
    (s.requiredAttributes.filter (!attributes.contains ·)).map (.missingAttribute kind)
where
  attributeViolation (s : Schema) (kind : String) (entry : String × String) : Option Violation :=
    match s.attribute? entry.1 with
    | none => some (.unknownAttribute kind entry.1)
    | some spec =>
      if spec.accepts entry.2 then none else some (.badLiteral kind entry.1 spec.type)

end Schema

namespace Validation

/-- The violations of a node, its descendants aside. Kinds with a hyphen need no schema. -/
def ownViolations (schemas : Table Schema) (kind : String) (attributes : Table String) :
    List Violation :=
  match schemas.get? kind with
  | some schema => schema.violations kind attributes
  | none => if Node.isCustomKind kind then [] else [.unknownPrimitive kind]

mutual

/-- The findings at a node and below it. -/
def findings (schemas : Table Schema) (place : NodePath) : Node → List Finding
  | ⟨kind, attributes, children, _, _⟩ =>
    if kind = Node.textKind then []
    else
      (ownViolations schemas kind attributes).map (⟨some place, ·⟩) ++
        childFindings schemas (place.child kind) 0 children

def childFindings (schemas : Table Schema) (place : Nat → NodePath) (index : Nat) :
    List Node → List Finding
  | [] => []
  | n :: rest =>
    findings schemas (place index) n ++ childFindings schemas place (index + 1) rest

end

/-- The findings in a tree. -/
def check (schemas : Table Schema) (root : Node) : List Finding :=
  (if root.isDocument then [] else [⟨none, .notDocument⟩]) ++
    childFindings schemas (⟨·, []⟩) 0 root.children

end Validation

namespace Registry

/-- All problems of a tree. -/
def validate (r : Registry) (root : Node) : List Diagnostic :=
  (Validation.check r.primitives root).map Finding.diagnostic

end Registry

end AgentMarkup
