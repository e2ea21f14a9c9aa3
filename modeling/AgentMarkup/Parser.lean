import AgentMarkup.Validation

/-!
Reading a document from its text: tokens, tree and, if wanted, validation. A reading
gives a tree or the problems of the first stage that found any.
-/

set_option autoImplicit false
set_option relaxedAutoImplicit false

namespace AgentMarkup

namespace Parser

structure Options where
  /-- Check the tree against the primitives in force. -/
  validate : Bool
  /-- Refuse what the builder would repair. -/
  strict : Bool
  /-- Elements that may be inside one another; at least one always may. -/
  maxDepth : Nat
deriving DecidableEq

namespace Options

def standard : Options := ⟨true, false, Document.defaultMaxDepth⟩

def decode (d : Datum) : Decoded Options := do
  let fields ← d.asFields ["validate", "strict", "max_depth"]
  let validate ← defaultField fields "validate" standard.validate Datum.asBool
  let strict ← defaultField fields "strict" standard.strict Datum.asBool
  let maxDepth ← defaultField fields "max_depth" standard.maxDepth Datum.asCount
  return ⟨validate, strict, maxDepth⟩

def toJson (o : Options) : Json :=
  .obj [("validate", .bool o.validate), ("strict", .bool o.strict),
    ("max_depth", .nat o.maxDepth)]

end Options

/-- A tree if there are no errors, and errors if there is no tree. -/
structure Outcome where
  tree : Option Node
  errors : List Diagnostic

namespace Outcome

def success (tree : Node) : Outcome := ⟨some tree, []⟩

def failure (errors : List Diagnostic) : Outcome := ⟨none, errors⟩

def isOk (o : Outcome) : Bool :=
  o.errors.isEmpty && o.tree.isSome

def result (o : Outcome) : Except (List Diagnostic) Node :=
  match o.tree with
  | some tree => if o.errors.isEmpty then .ok tree else .error o.errors
  | none => .error o.errors

end Outcome

def emptyInput : Diagnostic :=
  .bare "Input must be a non-empty string"

/-- What is left to do once there is a tree. -/
def judge (options : Options) (registry : Registry) (built : Built) : Outcome :=
  if options.strict ∧ built.issues ≠ [] then
    .failure (built.issues.map Issue.diagnostic)
  else if options.validate then
    match registry.validate built.root with
    | [] => .success built.root
    | errors => .failure errors
  else .success built.root

def parse (options : Options) (registry : Registry) (input : String) : Outcome :=
  if input = "" then .failure [emptyInput]
  else
    match Document.build options.maxDepth (tokenize input) with
    | .error e => .failure [e.diagnostic]
    | .ok built => judge options registry built

/-- What a reading with this depth limit reports. -/
def parseLog (maxDepth : Nat) (input : String) : List LogEntry :=
  if input = "" then []
  else
    match Document.build maxDepth (tokenize input) with
    | .error _ => []
    | .ok built => built.log

end Parser

namespace Registry

/-- All problems of the tree that a text spells, faults of nesting repaired. -/
def validateText (r : Registry) (input : String) : List Diagnostic :=
  if input = "" then [Parser.emptyInput]
  else
    match Document.build Document.defaultMaxDepth (tokenize input) with
    | .error e => [e.diagnostic]
    | .ok built => r.validate built.root

end Registry

end AgentMarkup
