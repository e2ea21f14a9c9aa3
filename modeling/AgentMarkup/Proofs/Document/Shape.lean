import AgentMarkup.Document.Node

/-!
Trees up to positions, and how deep their elements are nested. Texts count for nothing in
the nesting, an element for one more than its children. The nesting does not hang on
positions (`nestingAll_unplacedAll`).
-/

set_option autoImplicit false
set_option relaxedAutoImplicit false

namespace AgentMarkup.Node

mutual

/-- A tree with all its positions set to the beginning. -/
def unplaced : Node → Node
  | ⟨kind, attributes, children, text, _⟩ => ⟨kind, attributes, unplacedAll children, text, 0⟩

def unplacedAll : List Node → List Node
  | [] => []
  | n :: rest => n.unplaced :: unplacedAll rest

end

mutual

/-- The number of elements that stand inside one another, the node itself included. -/
def nesting : Node → Nat
  | ⟨_, _, children, none, _⟩ => nestingAll children + 1
  | ⟨_, _, _, some _, _⟩ => 0

def nestingAll : List Node → Nat
  | [] => 0
  | n :: rest => max n.nesting (nestingAll rest)

end

theorem unplaced_document (children : List Node) :
    (document children).unplaced = document (unplacedAll children) := rfl

mutual

theorem nesting_unplaced : ∀ n : Node, n.unplaced.nesting = n.nesting
  | ⟨_, _, children, none, _⟩ => congrArg (· + 1) (nestingAll_unplacedAll children)
  | ⟨_, _, _, some _, _⟩ => rfl

theorem nestingAll_unplacedAll :
    ∀ nodes : List Node, nestingAll (unplacedAll nodes) = nestingAll nodes
  | [] => rfl
  | n :: rest => by
    rw [unplacedAll, nestingAll, nestingAll, nesting_unplaced n, nestingAll_unplacedAll rest]

end

end AgentMarkup.Node
