import AgentMarkup.Json.Basic
import AgentMarkup.Table

/-!
Data as a text states it, before a type is asked of it. An unquoted scalar keeps its
spelling, so that it can still be taken for text; it may spell null, or a number that is
too large to have a value. A list is positional if it may stand for the fields of a
record in their order. A record remembers the members that a later one of the same key
has replaced. What is well formed and yet stands for nothing, such as half of a pair of
code units, is void: it can be passed over and cannot be taken for anything.
-/

set_option autoImplicit false
set_option relaxedAutoImplicit false

namespace AgentMarkup

inductive Datum where
  | scalar (value : Scalar)
  | plain (spelling : String) (value : Option Scalar)
  | absent (spelling : String)
  | list (positional : Bool) (items : List Datum)
  | record (members replaced : List (String × Datum))
  | void

namespace Datum

instance : Inhabited Datum := ⟨.scalar .null⟩

/-- Nothing at all, which also stands for an empty list and an empty record. -/
def blank : Datum := .absent ""

/-- Members whose key is given again further on. -/
def replacedMembers : List (String × Datum) → List (String × Datum)
  | [] => []
  | member :: rest =>
    if (rest.lookup member.1).isSome then member :: replacedMembers rest
    else replacedMembers rest

/-- Members in key order, the last of equal keys standing, and those replaced. A key
that is no text makes the record void. -/
def ofMembers (members : List (Option String × Datum)) : Datum :=
  match members.mapM fun member ↦ member.1.map (·, member.2) with
  | none => .void
  | some members => .record (Table.ofList members).entries (replacedMembers members)

mutual

def ofJson : Json → Datum
  | .scalar value => .scalar value
  | .arr items => .list true (ofJsonItems items)
  | .obj members => .record (ofJsonMembers members) []

def ofJsonItems : List Json → List Datum
  | [] => []
  | item :: rest => ofJson item :: ofJsonItems rest

def ofJsonMembers : List (String × Json) → List (String × Datum)
  | [] => []
  | (key, value) :: rest => (key, ofJson value) :: ofJsonMembers rest

end

mutual

/-- The value, unless some part has none; a member that was replaced is such a part. -/
def toJson? : Datum → Option Json
  | .scalar value => some (.scalar value)
  | .plain _ value => value.map .scalar
  | .absent _ => some .null
  | .list _ items => (toJsonItems? items).map .arr
  | .record members replaced => do
    let _ ← toJsonMembers? replaced
    return .obj (← toJsonMembers? members)
  | .void => none

def toJsonItems? : List Datum → Option (List Json)
  | [] => some []
  | item :: rest => do return (← toJson? item) :: (← toJsonItems? rest)

def toJsonMembers? : List (String × Datum) → Option (List (String × Json))
  | [] => some []
  | (key, value) :: rest => do return (key, ← toJson? value) :: (← toJsonMembers? rest)

end

mutual

theorem toJson?_ofJson : ∀ value : Json, toJson? (ofJson value) = some value
  | .scalar _ => rfl
  | .arr items => by simp [ofJson, toJson?, toJsonItems?_ofJsonItems]
  | .obj members => by
    simp [ofJson, toJson?, toJsonMembers?, toJsonMembers?_ofJsonMembers]

theorem toJsonItems?_ofJsonItems : ∀ items : List Json,
    toJsonItems? (ofJsonItems items) = some items
  | [] => rfl
  | item :: rest => by
    simp [ofJsonItems, toJsonItems?, toJson?_ofJson item, toJsonItems?_ofJsonItems rest]

theorem toJsonMembers?_ofJsonMembers : ∀ members : List (String × Json),
    toJsonMembers? (ofJsonMembers members) = some members
  | [] => rfl
  | (key, value) :: rest => by
    simp [ofJsonMembers, toJsonMembers?, toJson?_ofJson value,
      toJsonMembers?_ofJsonMembers rest]

end

end Datum

end AgentMarkup
