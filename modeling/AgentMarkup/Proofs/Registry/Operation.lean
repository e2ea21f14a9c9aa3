import AgentMarkup.Extension.Registry
import AgentMarkup.Proofs.Table
import AgentMarkup.Proofs.Text.Blank

/-!
The calls that change a registry, as data. `perform` makes one call and gives its reply;
`after` and `replies` follow a list of calls, and a registry is reachable if some list of
calls leads to it from the empty one. A refused registration leaves the registry as it is.

For each call there is one lemma on what it does to the live extensions, their order and
the layers of a kind, so that later modules need not open the calls again. Registering
succeeds exactly for an admissible extension of a free name (`register_eq_ok_iff`).
-/

set_option autoImplicit false
set_option relaxedAutoImplicit false

namespace AgentMarkup

/-! ### Admissible extensions -/

/-- What an extension has to satisfy by itself to be registered. -/
structure Extension.Admissible (e : Extension) : Prop where
  name_not_blank : Text.trim e.name ≠ ""
  version_not_blank : Text.trim e.version ≠ ""
  kinds_agree : ∀ entry ∈ e.primitives.entries, entry.2.kind = "" ∨ entry.2.kind = entry.1

namespace Extension

theorem unnamed_iff {e : Extension} :
    (Text.isBlankText e.name || Text.isBlankText e.version) = true ↔
      Text.trim e.name = "" ∨ Text.trim e.version = "" := by
  rw [Bool.or_eq_true, Text.isBlankText_eq_true_iff, Text.isBlankText_eq_true_iff]

theorem fault?_eq_none_iff {e : Extension} : e.fault? = none ↔ e.Admissible := by
  unfold fault?
  split_ifs with h
  · have hempty := unnamed_iff.mp h
    simp only [false_iff]
    intro hadmissible
    exact hempty.elim hadmissible.name_not_blank hadmissible.version_not_blank
  · have hfilled := mt unnamed_iff.mpr h
    rw [not_or] at hfilled
    rw [List.findSome?_eq_none_iff]
    constructor
    · intro hkinds
      refine ⟨hfilled.1, hfilled.2, fun entry hentry ↦ ?_⟩
      have hentry := hkinds entry hentry
      split_ifs at hentry with hkind
      exact hkind
    · intro hadmissible entry hentry
      rw [if_pos (hadmissible.kinds_agree entry hentry)]

instance (e : Extension) : Decidable e.Admissible :=
  decidable_of_iff (e.fault? = none) fault?_eq_none_iff

end Extension

namespace Registry

/-! ### Calls and their replies -/

/-- A call that may change a registry. -/
inductive Operation where
  | register (e : Extension)
  | unregister (name : String)
  | registerPrimitive (kind : String) (schema : Schema)
  | clear

/-- What such a call answers. -/
inductive Reply where
  | done
  | refused (fault : RegistrationFault)
  | removed (e : Option Extension)

/-- Whether a call registers or unregisters an extension of this name. -/
def Operation.Names (name : String) : Operation → Prop
  | .register e => e.name = name
  | .unregister other => other = name
  | .registerPrimitive _ _ | .clear => False

def perform (r : Registry) : Operation → Reply × Registry
  | .register e =>
    match r.register e with
    | .ok next => (.done, next)
    | .error fault => (.refused fault, r)
  | .unregister name => (.removed (r.extension? name), r.unregister name)
  | .registerPrimitive kind schema => (.done, r.registerPrimitive kind schema)
  | .clear => (.done, .empty)

/-- The registry after a list of calls. -/
def after (r : Registry) : List Operation → Registry
  | [] => r
  | op :: rest => (r.perform op).2.after rest

/-- What the calls of a list answer. -/
def replies (r : Registry) : List Operation → List Reply
  | [] => []
  | op :: rest => (r.perform op).1 :: (r.perform op).2.replies rest

def Reachable (r : Registry) : Prop :=
  ∃ ops, r = empty.after ops

/-! ### What a registration does -/

/-- Puts the primitives of an extension on top of their kinds, one after the other. -/
def overlay (r : Registry) (name : String) (primitives : List (String × Schema)) : Registry :=
  primitives.foldl (fun r entry ↦ r.pushLayer (.extension name) entry.1 entry.2) r

theorem register_eq_ok_iff {r next : Registry} {e : Extension} :
    r.register e = .ok next ↔ e.Admissible ∧ r.extension? e.name = none ∧
      next = { r.overlay e.name e.primitives.entries with
        extensions := (r.overlay e.name e.primitives.entries).extensions.insert e.name e
        order := (r.overlay e.name e.primitives.entries).order ++ [e.name] } := by
  rw [← Extension.fault?_eq_none_iff, register, Table.contains, extension?]
  cases hfault : e.fault? with
  | some fault => simp
  | none =>
    cases hlive : r.extensions.get? e.name with
    | some other => simp
    | none => simp [overlay, eq_comm]

theorem register_isOk_iff {r : Registry} {e : Extension} :
    (∃ next, r.register e = .ok next) ↔ e.Admissible ∧ r.extension? e.name = none := by
  simp only [register_eq_ok_iff]
  constructor
  · rintro ⟨next, hadmissible, hfree, -⟩
    exact ⟨hadmissible, hfree⟩
  · rintro ⟨hadmissible, hfree⟩
    exact ⟨_, hadmissible, hfree, rfl⟩

@[simp] theorem extensions_pushLayer (r : Registry) (source : SchemaSource) (kind : String)
    (schema : Schema) : (r.pushLayer source kind schema).extensions = r.extensions := rfl

@[simp] theorem order_pushLayer (r : Registry) (source : SchemaSource) (kind : String)
    (schema : Schema) : (r.pushLayer source kind schema).order = r.order := rfl

theorem get?_overlays_pushLayer (r : Registry) (source : SchemaSource) (kind : String)
    (schema : Schema) (k : String) :
    (r.pushLayer source kind schema).overlays.get? k =
      if k = kind then some (r.layers kind ++ [⟨source, { schema with kind }⟩])
      else r.overlays.get? k :=
  Table.get?_insert _ _ _ _

@[simp] theorem extensions_overlay (r : Registry) (name : String)
    (primitives : List (String × Schema)) :
    (r.overlay name primitives).extensions = r.extensions := by
  induction primitives generalizing r with
  | nil => rfl
  | cons entry rest ih => exact (ih _).trans (extensions_pushLayer r _ _ _)

@[simp] theorem order_overlay (r : Registry) (name : String)
    (primitives : List (String × Schema)) :
    (r.overlay name primitives).order = r.order := by
  induction primitives generalizing r with
  | nil => rfl
  | cons entry rest ih => exact (ih _).trans (order_pushLayer r _ _ _)

/-! ### What unregistering does -/

theorem unregister_of_extension?_eq_none {r : Registry} {name : String}
    (h : r.extension? name = none) : r.unregister name = r := by
  rw [extension?] at h
  rw [unregister, Table.contains, h]
  rfl

/-- The replies of a call hang on the extensions of the names that it names. -/
theorem perform_fst_congr {r r' : Registry} {op : Operation}
    (h : ∀ name, op.Names name → r.extension? name = r'.extension? name) :
    (r.perform op).1 = (r'.perform op).1 := by
  cases op with
  | register e =>
    have hlive : r.extensions.contains e.name = r'.extensions.contains e.name :=
      congrArg Option.isSome (h e.name rfl)
    simp only [perform, register]
    cases e.fault? with
    | some fault => rfl
    | none =>
      by_cases hfree : r'.extensions.contains e.name = true
      · rw [if_pos (hlive.trans hfree), if_pos hfree]
      · rw [if_neg (hlive ▸ hfree), if_neg hfree]
  | unregister name =>
    simp only [perform, h name rfl]
  | registerPrimitive kind schema => rfl
  | clear => rfl

end Registry

end AgentMarkup
