import AgentMarkup.Datum.Decode
import AgentMarkup.Document.Node

/-!
Trees as data. A node leaves out what it lacks: attributes, children and text each
appear only if there are any.
-/

set_option autoImplicit false
set_option relaxedAutoImplicit false

namespace AgentMarkup

/-- A table of texts as an object. -/
def Table.toJson (t : Table String) : Json :=
  .obj (t.entries.map fun entry ↦ (entry.1, .str entry.2))

/-- A list that is left out when it is empty. -/
def unlessEmpty {α : Type} (items : List α) (value : Json) : Option Json :=
  if items.isEmpty then none else some value

namespace Node

mutual

def toJson : Node → Json
  | ⟨kind, attributes, children, text, position⟩ =>
    .fields [("kind", some (.str kind)),
      ("attributes", unlessEmpty attributes.entries attributes.toJson),
      ("children", unlessEmpty children (.arr (allToJson children))),
      ("text", text.map .str),
      ("position", some (.nat position))]

def allToJson : List Node → List Json
  | [] => []
  | n :: rest => n.toJson :: allToJson rest

end

def fieldNames : List String :=
  ["kind", "attributes", "children", "text", "position"]

/-- The items of a field that may be left out. -/
def childData (fields : List (String × Datum)) : Decoded (List Datum) :=
  defaultField fields "children" [] Datum.asItems

theorem sizeOf_lt_of_mem_zip {names : List String} {items : List Datum} {name : String}
    {d : Datum} (h : (names.zip items).lookup name = some d) : sizeOf d < sizeOf items := by
  induction names generalizing items with
  | nil => simp at h
  | cons n names ih =>
    cases items with
    | nil => simp at h
    | cons item items =>
      simp only [List.zip_cons_cons, List.lookup_cons] at h
      split at h
      · simp only [Option.some.injEq] at h
        subst h
        simp
        omega
      · have := ih h
        simp
        omega

theorem sizeOf_lt_of_lookup {members : List (String × Datum)} {name : String} {d : Datum}
    (h : members.lookup name = some d) : sizeOf d < sizeOf members := by
  induction members with
  | nil => simp at h
  | cons member members ih =>
    obtain ⟨key, value⟩ := member
    simp only [List.lookup_cons] at h
    split at h
    · simp only [Option.some.injEq] at h
      subst h
      simp
      omega
    · have := ih h
      simp
      omega

theorem sizeOf_lt_of_asFields {names : List String} {d : Datum}
    {fields : List (String × Datum)} (h : d.asFields names = .ok fields) {name : String}
    {value : Datum} (hvalue : fields.lookup name = some value) : sizeOf value < sizeOf d := by
  unfold Datum.asFields at h
  split at h
  · split at h
    · simp at h
    · simp only [Except.ok.injEq] at h
      subst h
      have := sizeOf_lt_of_lookup hvalue
      simp
      omega
  · split at h
    · simp at h
    · simp only [Except.ok.injEq] at h
      subst h
      have := sizeOf_lt_of_mem_zip hvalue
      simp
      omega
  · simp only [Except.ok.injEq] at h
    subst h
    simp at hvalue
  · simp at h

theorem sizeOf_lt_of_mem_childData {d child : Datum} {fields : List (String × Datum)}
    {items : List Datum} (h : d.asFields fieldNames = .ok fields)
    (hitems : childData fields = .ok items) (hmem : child ∈ items) : sizeOf child < sizeOf d := by
  unfold childData defaultField at hitems
  split at hitems
  · rename_i value hvalue
    have hlt := sizeOf_lt_of_asFields h hvalue
    unfold Datum.asItems at hitems
    split at hitems
    · simp only [Except.ok.injEq] at hitems
      subst hitems
      have := List.sizeOf_lt_of_mem hmem
      simp at hlt
      omega
    · simp only [Except.ok.injEq] at hitems
      subst hitems
      simp at hmem
    · simp at hitems
  · simp only [Except.ok.injEq] at hitems
    subst hitems
    simp at hmem

def decode (d : Datum) : Decoded Node :=
  match hfields : d.asFields fieldNames with
  | .error fault => .error fault
  | .ok fields =>
    match hitems : childData fields with
    | .error fault => .error fault
    | .ok items => do
      let kind ← requiredField fields "kind" Datum.asText
      let attributes ← defaultField fields "attributes" .empty (Datum.asTable Datum.asText)
      let children ← items.attach.mapM fun child ↦
        have := sizeOf_lt_of_mem_childData hfields hitems child.2
        decode child.1
      let text ← defaultField fields "text" none (Datum.asOptional Datum.asText)
      let position ← requiredField fields "position" Datum.asCount
      return ⟨kind, attributes, children, text, position⟩
termination_by sizeOf d

end Node

end AgentMarkup
