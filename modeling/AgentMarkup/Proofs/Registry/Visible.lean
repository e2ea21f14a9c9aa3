import AgentMarkup.Proofs.Registry.Ledger

/-!
What a registry shows. The listing of all primitives answers like the question for a single
one (`get?_primitives`), and both, with the source and the presence of a kind, are read off
the last surviving entry of the ledger, or else off the built-in primitives. The main
statement `shows_after` says so of the registry after any list of calls, together with
which registrations succeed and that calls which fail change nothing.
-/

set_option autoImplicit false
set_option relaxedAutoImplicit false

namespace AgentMarkup

namespace Registry

/-! ### The listing of all primitives -/

/-- Puts the top layer of a kind over the schemas merged so far. -/
def mergeTop (merged : Table Schema) (stack : String × List Layer) : Table Schema :=
  match stack.2.getLast? with
  | some layer => merged.insert stack.1 layer.schema
  | none => merged

theorem primitives_eq_foldl (r : Registry) :
    r.primitives = r.overlays.entries.foldl mergeTop Schema.builtins := rfl

/-- The schema on top of a stack. -/
def topSchema? (stack : List Layer) : Option Schema :=
  stack.getLast?.map Layer.schema

theorem get?_mergeTop (merged : Table Schema) (kind : String) (stack : List Layer)
    (k : String) :
    (mergeTop merged (kind, stack)).get? k =
      if k = kind then (topSchema? stack).or (merged.get? k) else merged.get? k := by
  unfold mergeTop topSchema?
  cases stack.getLast? with
  | none => simp
  | some layer =>
    rw [Table.get?_insert]
    rfl

theorem get?_foldl_mergeTop {overlays : List (String × List Layer)}
    (h : (overlays.map Prod.fst).Nodup) (merged : Table Schema) (k : String) :
    (overlays.foldl mergeTop merged).get? k =
      ((overlays.lookup k).bind topSchema?).or (merged.get? k) := by
  induction overlays generalizing merged with
  | nil => rfl
  | cons entry rest ih =>
    obtain ⟨kind, stack⟩ := entry
    simp only [List.map_cons, List.nodup_cons] at h
    rw [List.foldl_cons, ih h.2, get?_mergeTop, Table.lookup_cons_eq_ite]
    split_ifs with hk
    · have hrest : rest.lookup k = none := Table.lookup_eq_none_of_notMem (hk ▸ h.1)
      rw [hrest]
      rfl
    · rfl

/-- The listing answers for every kind like the question for that kind, so it has no
other keys. -/
theorem get?_primitives (r : Registry) (kind : String) :
    r.primitives.get? kind = r.primitive? kind := by
  rw [primitives_eq_foldl, get?_foldl_mergeTop r.overlays.nodup_keys]
  change ((r.overlays.get? kind).bind topSchema?).or (Schema.builtin? kind) = _
  rw [primitive?, layers]
  cases r.overlays.get? kind with
  | none => rfl
  | some stack =>
    simp only [Option.bind_some, Option.getD_some, topSchema?]
    cases stack.getLast? <;> rfl

/-! ### Reading the ledger -/

/-- What a ledger says of the registry that it is kept for. -/
structure Ledger.ShownBy (l : Ledger) (r : Registry) : Prop where
  /-- The last surviving entry of a kind is in force, under that kind. -/
  primitive : ∀ kind, r.primitive? kind =
    ((l.last? kind).map fun entry ↦ { entry.schema with kind }).or (Schema.builtin? kind)
  source : ∀ kind, r.sourceOf? kind =
    ((l.last? kind).map Entry.source).or ((Schema.builtin? kind).map fun _ ↦ .builtin)
  present : ∀ kind, r.hasPrimitive kind = (r.primitive? kind).isSome
  listed : ∀ kind, r.primitives.get? kind = r.primitive? kind
  listed_only : ∀ kind, kind ∈ r.primitives.keys ↔ r.hasPrimitive kind = true
  /-- An extension can be registered if it is admissible and its name is not in use. -/
  registers : ∀ e, (∃ next, r.register e = .ok next) ↔
    e.Admissible ∧ ∀ other ∈ l.live, other.name ≠ e.name
  refused : ∀ e fault, r.register e = .error fault →
    r.perform (.register e) = (.refused fault, r)
  unknown : ∀ name, (∀ other ∈ l.live, other.name ≠ name) →
    r.perform (.unregister name) = (.removed none, r)

namespace Ledger

variable {l : Ledger} {r : Registry}

theorem kind_of_last? {kind : String} {entry : Entry} (h : l.last? kind = some entry) :
    entry.kind = kind := by
  have hmem := List.mem_of_getLast? h
  simpa using (List.mem_filter.mp hmem).2

theorem Describes.primitive?_eq (h : l.Describes r) (kind : String) : r.primitive? kind =
    ((l.last? kind).map fun entry ↦ { entry.schema with kind }).or (Schema.builtin? kind) := by
  rw [primitive?, h.getLast?_layers]
  cases hlast : l.last? kind with
  | none => rfl
  | some entry =>
    have hkind := kind_of_last? hlast
    subst hkind
    rfl

theorem Describes.sourceOf?_eq (h : l.Describes r) (kind : String) : r.sourceOf? kind =
    ((l.last? kind).map Entry.source).or ((Schema.builtin? kind).map fun _ ↦ .builtin) := by
  rw [sourceOf?, h.getLast?_layers]
  cases l.last? kind <;> rfl

theorem Describes.shownBy (h : l.Describes r) : l.ShownBy r where
  primitive := h.primitive?_eq
  source := h.sourceOf?_eq
  present _ := rfl
  listed := get?_primitives r
  listed_only kind := by
    rw [hasPrimitive, ← get?_primitives, Option.isSome_iff_exists, Table.mem_keys_iff]
  registers e := by rw [register_isOk_iff, h.extension?_eq_none_iff]
  refused e fault hfault := by simp only [perform, hfault]
  unknown name hname := by
    have hnone := h.extension?_eq_none_iff.mpr hname
    rw [perform, hnone, unregister_of_extension?_eq_none hnone]

end Ledger

/-- After any list of calls to a new registry, what it shows is what the ledger of these
calls says. -/
theorem shows_after (ops : List Operation) :
    (Ledger.empty.recordAll ops).ShownBy (empty.after ops) :=
  (Ledger.describes_recordAll Ledger.describes_empty Ledger.owned_empty ops).1.shownBy

end Registry

end AgentMarkup
