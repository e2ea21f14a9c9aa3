import AgentMarkup.Proofs.Registry.Operation

/-!
Why a registry does not take an extension. The rules are gone through in a fixed order: first the
name and the version, then the primitives in key order, and last whether the name is free.
`Registry.Refuses` says which rule is the first to be broken, and a registration is refused for
this one and no other (`register_eq_error_iff_refuses`). `RegistrationFault.Says` has the text that
goes with each rule (`message_of_refused_iff`).
-/

set_option autoImplicit false
set_option relaxedAutoImplicit false

namespace AgentMarkup

namespace Extension

/-- Whether a schema takes the kind that it is given under, or names none. -/
def Agrees (key : String) (schema : Schema) : Prop :=
  schema.kind = "" ∨ schema.kind = key

/-- The first rule that an extension breaks by itself. -/
inductive Breaks (e : Extension) : ExtensionFault → Prop
  | unnamed (h : Text.trim e.name = "" ∨ Text.trim e.version = "") : Breaks e .unnamed
  | kindMismatch {key : String} {schema : Schema} (hname : Text.trim e.name ≠ "")
    (hversion : Text.trim e.version ≠ "") (hschema : e.primitives.get? key = some schema)
    (hbefore : ∀ other s, other < key → e.primitives.get? other = some s → Agrees other s)
    (h : ¬ Agrees key schema) : Breaks e (.kindMismatch key schema.kind)

theorem fault?_eq_some_iff {e : Extension} {fault : ExtensionFault} :
    e.fault? = some fault ↔ e.Breaks fault := by
  unfold fault?
  split_ifs with h
  · have hempty := unnamed_iff.mp h
    constructor
    · rintro ⟨⟩
      exact .unnamed hempty
    · rintro (_ | ⟨hname, hversion, -, -, -⟩)
      · rfl
      · exact absurd hempty (not_or.mpr ⟨hname, hversion⟩)
  · have hfilled := mt unnamed_iff.mpr h
    rw [Table.findSome?_entries_eq_some_iff]
    constructor
    · rintro ⟨key, schema, hschema, hfault, hbefore⟩
      split_ifs at hfault with hkind
      obtain rfl := Option.some.inj hfault
      refine .kindMismatch (not_or.mp hfilled).1 (not_or.mp hfilled).2 hschema ?_ hkind
      intro other s hlt hs
      have hnone := hbefore other s hlt hs
      split_ifs at hnone with hother
      exact hother
    · rintro (hempty | ⟨-, -, hschema, hbefore, hkind⟩)
      · exact absurd hempty hfilled
      · exact ⟨_, _, hschema, if_neg hkind, fun other s hlt hs ↦ if_pos (hbefore other s hlt hs)⟩

end Extension

/-! ### Messages -/

/-- The message that goes with each refusal. -/
inductive RegistrationFault.Says : RegistrationFault → String → Prop
  | unnamed : Says (.invalid .unnamed) "invalid extension: extension must have a name and a version"
  | kindMismatch (key kind : String) : Says (.invalid (.kindMismatch key kind))
    ("invalid extension: primitive '" ++ key ++ "' declares kind '" ++ kind ++ "'")
  | exists (name : String) : Says (.exists name) ("extension already registered: " ++ name)

theorem RegistrationFault.says_message (fault : RegistrationFault) : fault.Says fault.message := by
  cases fault with
  | invalid fault =>
    cases fault with
    | unnamed => exact .unnamed
    | kindMismatch key kind => exact .kindMismatch key kind
  | «exists» name => exact .exists name

/-- A refusal has one message. -/
theorem RegistrationFault.Says.eq_message {fault : RegistrationFault} {text : String}
    (h : fault.Says text) : text = fault.message := by
  cases h <;> rfl

/-! ### Registrations -/

namespace Registry

/-- Why a registry does not take an extension: a rule that this breaks by itself, and otherwise
that its name is not free. -/
inductive Refuses (r : Registry) (e : Extension) : RegistrationFault → Prop
  | invalid {fault : ExtensionFault} (h : e.Breaks fault) : Refuses r e (.invalid fault)
  | exists (hadmissible : e.Admissible) (h : r.extension? e.name ≠ none) :
    Refuses r e (.exists e.name)

variable {r : Registry} {e : Extension}

theorem register_eq_error_iff_refuses {fault : RegistrationFault} :
    r.register e = .error fault ↔ r.Refuses e fault := by
  rw [register]
  cases hfault : e.fault? with
  | some broken =>
    have hbroken : e.Breaks broken := Extension.fault?_eq_some_iff.mp hfault
    constructor
    · rintro ⟨⟩
      exact .invalid hbroken
    · rintro (@⟨other, hother⟩ | ⟨hadmissible, -⟩)
      · obtain rfl := Option.some.inj (hfault.symm.trans (Extension.fault?_eq_some_iff.mpr hother))
        rfl
      · exact absurd (hfault.symm.trans (Extension.fault?_eq_none_iff.mpr hadmissible)) (by simp)
  | none =>
    have hadmissible : e.Admissible := Extension.fault?_eq_none_iff.mp hfault
    have hlive : r.extensions.contains e.name = true ↔ r.extension? e.name ≠ none :=
      Option.isSome_iff_ne_none
    constructor
    · intro herror
      dsimp only at herror
      split_ifs at herror with htaken
      obtain rfl := Except.error.inj herror
      exact .exists hadmissible (hlive.mp htaken)
    · rintro (@⟨other, hother⟩ | ⟨-, htaken⟩)
      · exact absurd (hfault.symm.trans (Extension.fault?_eq_some_iff.mpr hother)) (by simp)
      · exact if_pos (hlive.mpr htaken)

/-- The message of a refused registration is the one that goes with the first broken rule. -/
theorem message_of_refused_iff (r : Registry) (e : Extension) (text : String) :
    (∃ fault, r.register e = .error fault ∧ fault.message = text) ↔
      ∃ fault, r.Refuses e fault ∧ fault.Says text := by
  refine exists_congr fun fault ↦ ?_
  rw [register_eq_error_iff_refuses]
  refine and_congr_right fun _ ↦ ⟨?_, fun hsays ↦ hsays.eq_message.symm⟩
  rintro rfl
  exact fault.says_message

end Registry

end AgentMarkup
