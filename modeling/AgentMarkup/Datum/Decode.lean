import AgentMarkup.Datum.Basic

/-!
Taking data as values of a type. Nothing is coerced, with two exceptions: an unquoted
scalar may stand for text, which is then its spelling, and nothing at all may stand for
an empty collection. A record of known fields may also be given as a positional list of
its fields.
-/

set_option autoImplicit false
set_option relaxedAutoImplicit false

namespace AgentMarkup

inductive DecodeFault where
  | expected (what : String)
  | missing (field : String)
  | duplicate (field : String)
  | surplus
deriving DecidableEq

abbrev Decoded (α : Type) := Except DecodeFault α

def DecodeFault.message : DecodeFault → String
  | .expected what => s!"expected {what}"
  | .missing field => s!"missing field '{field}'"
  | .duplicate field => s!"duplicate field '{field}'"
  | .surplus => "too many elements"

namespace Datum

variable {α : Type}

def asText : Datum → Decoded String
  | .scalar (.str value) => .ok value
  | .plain spelling _ => .ok spelling
  | .absent spelling => .ok spelling
  | _ => .error (.expected "a string")

def asBool : Datum → Decoded Bool
  | .scalar (.bool value) => .ok value
  | .plain _ (some (.bool value)) => .ok value
  | _ => .error (.expected "a boolean")

/-- Counts are integers that fit in sixty-four bits. -/
def countOfScalar : Scalar → Decoded Nat
  | .num (.int value) =>
    if 0 ≤ value ∧ value < Decimal.twoPow 64 then .ok value.toNat else .error (.expected "a count")
  | _ => .error (.expected "a count")

def asCount : Datum → Decoded Nat
  | .scalar value => countOfScalar value
  | .plain _ (some value) => countOfScalar value
  | _ => .error (.expected "a count")

def asItems : Datum → Decoded (List Datum)
  | .list _ items => .ok items
  | .absent "" => .ok []
  | _ => .error (.expected "a list")

/-- All members, those replaced before those that stand. -/
def asMembers : Datum → Decoded (List (String × Datum))
  | .record members replaced => .ok (replaced ++ members)
  | .absent "" => .ok []
  | _ => .error (.expected "a map")

def asJson (d : Datum) : Decoded Json :=
  match d.toJson? with
  | some value => .ok value
  | none => .error (.expected "a value")

/-- What spells null stands for absence. -/
def asOptional (decode : Datum → Decoded α) : Datum → Decoded (Option α)
  | .scalar .null => .ok none
  | .absent _ => .ok none
  | d => (decode d).map some

def asList (decode : Datum → Decoded α) (d : Datum) : Decoded (List α) := do
  (← d.asItems).mapM decode

/-- A map with keys of its own, of which the last of equal keys stands; the values
replaced must be of the same type. -/
def asTable (decode : Datum → Decoded α) (d : Datum) : Decoded (Table α) := do
  let entries ← (← d.asMembers).mapM fun member ↦ (decode member.2).map (member.1, ·)
  return Table.ofList entries

/-- A name out of a fixed set, given as text or as the only key of a record whose
value is null. -/
def asName (named : String → Option α) : Datum → Decoded α
  | .record [(name, .scalar .null)] [] => lookUp name
  | d => d.asText.bind lookUp
where
  lookUp (name : String) : Decoded α :=
    match named name with
    | some value => .ok value
    | none => .error (.expected "a known name")

/-- The fields of a record with these field names. Other members of a record are passed
over, but a known field must not be repeated; a positional list holds the fields in
order. -/
def asFields (names : List String) : Datum → Decoded (List (String × Datum))
  | .record members replaced =>
    match names.find? fun name ↦ (replaced.lookup name).isSome with
    | some name => .error (.duplicate name)
    | none => .ok members
  | .list true items =>
    if names.length < items.length then .error .surplus else .ok (names.zip items)
  | .absent "" => .ok []
  | _ => .error (.expected "a record")

end Datum

/-- Reads a field that must be there. -/
def requiredField {α : Type} (fields : List (String × Datum)) (name : String)
    (decode : Datum → Decoded α) : Decoded α :=
  match fields.lookup name with
  | some d => decode d
  | none => .error (.missing name)

/-- Reads a field that has a value of its own when it is left out. -/
def defaultField {α : Type} (fields : List (String × Datum)) (name : String) (absent : α)
    (decode : Datum → Decoded α) : Decoded α :=
  match fields.lookup name with
  | some d => decode d
  | none => .ok absent

end AgentMarkup
