import AgentMarkup.Decimal.Binary64

/-!
JSON values. Objects are kept as written by whoever built them; a reader builds them
in key order without repetition. Numbers are integers or doubles, and the two differ
even where they denote the same number.
-/

set_option autoImplicit false
set_option relaxedAutoImplicit false

namespace AgentMarkup

inductive Number where
  | int (value : Int)
  | real (negative : Bool) (magnitude : Decimal.Binary64)
deriving DecidableEq

inductive Scalar where
  | null
  | bool (value : Bool)
  | num (value : Number)
  | str (value : String)
deriving DecidableEq

inductive Json where
  | scalar (value : Scalar)
  | arr (items : List Json)
  | obj (members : List (String × Json))

namespace Json

instance : Inhabited Json := ⟨.scalar .null⟩

@[match_pattern] def null : Json := .scalar .null
@[match_pattern] def bool (value : Bool) : Json := .scalar (.bool value)
@[match_pattern] def num (value : Number) : Json := .scalar (.num value)
@[match_pattern] def str (value : String) : Json := .scalar (.str value)

def int (value : Int) : Json := .num (.int value)
def nat (value : Nat) : Json := .num (.int value)
def strs (texts : List String) : Json := .arr (texts.map str)

/-- An object of the fields that are present. -/
def fields (members : List (String × Option Json)) : Json :=
  .obj (members.filterMap fun member ↦ member.2.map (member.1, ·))

end Json

end AgentMarkup
