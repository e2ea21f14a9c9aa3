import AgentMarkup.Proofs.Registry.Precedence
import AgentMarkup.Proofs.Registry.Undo

/-!
What every registry that calls lead to has in common. It keeps three structures that say in part the
same: the live extensions, their names in order, and the stacks of layers. The ledger ties them
together. Its entries with an owner are those of the live extensions, one extension after
another (`Ledger.Arranged`); every call keeps this, since a registration puts an extension and its
entries behind all others, and unregistering strikes out both. Hence the layers that extensions put
on a kind are those of the live extensions that declare it, in their order
(`Ledger.filter_isOwned_layers`). Main statement: `consistent_after`.
-/

set_option autoImplicit false
set_option relaxedAutoImplicit false

namespace AgentMarkup

/-- The extension that a schema comes from. -/
def SchemaSource.owner? : SchemaSource → Option String
  | .extension name => some name
  | .builtin | .adHoc => none

namespace Layer

def owner? (layer : Layer) : Option String :=
  layer.source.owner?

def isOwned (layer : Layer) : Bool :=
  layer.owner?.isSome

theorem owner?_eq_some_iff {layer : Layer} {name : String} :
    layer.owner? = some name ↔ layer.source = .extension name := by
  rw [owner?]
  cases layer.source <;> simp [SchemaSource.owner?]

end Layer

/-- The layer that an extension has under a kind, if it declares the kind. -/
def Extension.layer? (e : Extension) (kind : String) : Option Layer :=
  (e.primitives.get? kind).map fun schema ↦ ⟨.extension e.name, { schema with kind }⟩

namespace Extension

variable {e : Extension} {kind : String} {layer : Layer}

theorem layer?_eq_some_iff : e.layer? kind = some layer ↔ ∃ schema,
    e.primitives.get? kind = some schema ∧
      layer = ⟨.extension e.name, { schema with kind }⟩ := by
  rw [layer?, Option.map_eq_some_iff]
  simp only [eq_comm]

theorem owner?_of_layer? (h : e.layer? kind = some layer) : layer.owner? = some e.name := by
  obtain ⟨schema, -, rfl⟩ := layer?_eq_some_iff.mp h
  rfl

end Extension

namespace Registry

/-! ### Owned entries -/

/-- Whether an entry was put down for an extension. -/
def Entry.isOwned (entry : Entry) : Bool :=
  entry.layer.isOwned

theorem isOwned_of_mem_entriesOf {e : Extension} {entry : Entry} (h : entry ∈ entriesOf e) :
    entry.isOwned = true := by
  obtain ⟨primitive, -, rfl⟩ := List.mem_map.mp h
  rfl

theorem filter_isOwned_entriesOf (e : Extension) :
    (entriesOf e).filter Entry.isOwned = entriesOf e :=
  List.filter_eq_self.mpr fun _ ↦ isOwned_of_mem_entriesOf

/-- The entries of an extension for a kind make the layer that it has there. -/
theorem map_layer_filter_entriesOf (e : Extension) (kind : String) :
    ((entriesOf e).filter (·.kind = kind)).map Entry.layer = (e.layer? kind).toList := by
  rw [entriesOf, List.filter_map, List.map_map]
  change ((e.primitives.entries.filter (·.1 = kind)).map _) = _
  rw [Table.filter_key_entries, Extension.layer?]
  cases e.primitives.get? kind <;> rfl

theorem flatMap_entriesOf_filter (live : List Extension) (name : String) :
    (live.filter (·.name ≠ name)).flatMap entriesOf =
      (live.flatMap entriesOf).filter (·.source ≠ .extension name) := by
  induction live with
  | nil => rfl
  | cons e rest ih =>
    rw [List.flatMap_cons, List.filter_append, ← ih]
    by_cases hname : e.name = name
    · subst hname
      rw [Ledger.filter_entriesOf_self, List.filter_cons_of_neg (by simp), List.nil_append]
    · rw [Ledger.filter_entriesOf_of_ne hname, List.filter_cons_of_pos (by simpa using hname),
        List.flatMap_cons]

namespace Ledger

variable {l : Ledger} {r : Registry}

/-- Whether the entries with an owner are those of the live extensions in their order, and no
entry passes for a built-in schema. -/
structure Arranged (l : Ledger) : Prop where
  owned : l.entries.filter Entry.isOwned = l.live.flatMap entriesOf
  not_builtin : ∀ entry ∈ l.entries, entry.source ≠ .builtin

theorem Arranged.register (h : l.Arranged) (e : Extension) :
    Ledger.Arranged ⟨l.live ++ [e], l.entries ++ entriesOf e⟩ where
  owned := by
    rw [List.filter_append, h.owned, filter_isOwned_entriesOf, List.flatMap_append,
      List.flatMap_singleton]
  not_builtin entry hentry := by
    rcases List.mem_append.mp hentry with hold | hnew
    · exact h.not_builtin entry hold
    · obtain ⟨primitive, -, rfl⟩ := List.mem_map.mp hnew
      exact SchemaSource.noConfusion

theorem Arranged.forget (h : l.Arranged) (name : String) : (l.forget name).Arranged where
  owned := by
    rw [Ledger.forget, flatMap_entriesOf_filter, ← h.owned, List.filter_filter,
      List.filter_filter]
    simp only [Bool.and_comm]
  not_builtin entry hentry := h.not_builtin entry (List.mem_filter.mp hentry).1

theorem Arranged.registerPrimitive (h : l.Arranged) (kind : String) (schema : Schema) :
    Ledger.Arranged { l with entries := l.entries ++ [⟨kind, .adHoc, schema⟩] } where
  owned := by
    rw [List.filter_append, h.owned]
    exact List.append_nil _
  not_builtin entry hentry := by
    rcases List.mem_append.mp hentry with hold | hnew
    · exact h.not_builtin entry hold
    · rw [List.mem_singleton.mp hnew]
      exact SchemaSource.noConfusion

/-- What extensions put on a kind are the layers of the live extensions that declare it, in the
order of these extensions. -/
theorem filter_isOwned_layers (h : l.Arranged) (kind : String) :
    (l.layers kind).filter Layer.isOwned = l.live.filterMap (·.layer? kind) := by
  have hlive (live : List Extension) :
      ((live.flatMap entriesOf).filter (·.kind = kind)).map Entry.layer =
        live.filterMap (·.layer? kind) := by
    rw [List.filter_flatMap, List.map_flatMap, List.filterMap_eq_flatMap_toList]
    exact List.flatMap_congr fun e _ ↦ map_layer_filter_entriesOf e kind
  rw [layers, List.filter_map, List.filter_filter, ← hlive, ← h.owned, List.filter_filter]
  congr 2
  funext entry
  exact Bool.and_comm _ _

theorem mem_live_of_mem_layers (h : l.Arranged) {kind name : String} {layer : Layer}
    (hlayer : layer ∈ l.layers kind) (hsource : layer.source = .extension name) :
    ∃ e ∈ l.live, e.name = name ∧ e.layer? kind = some layer := by
  have howner := Layer.owner?_eq_some_iff.mpr hsource
  have hmem : layer ∈ (l.layers kind).filter Layer.isOwned :=
    List.mem_filter.mpr ⟨hlayer, by rw [Layer.isOwned, howner]; rfl⟩
  rw [filter_isOwned_layers h] at hmem
  obtain ⟨e, he, hfound⟩ := List.mem_filterMap.mp hmem
  refine ⟨e, he, ?_, hfound⟩
  exact Option.some.inj ((Extension.owner?_of_layer? hfound).symm.trans howner)

/-- Those whose layers lie on a kind are the live extensions that declare it, in their order. -/
theorem owners_layers (h : l.Arranged) (kind : String) :
    (l.layers kind).filterMap Layer.owner? =
      (l.live.filter (·.primitives.contains kind)).map Extension.name := by
  have howner (e : Extension) : (e.layer? kind).bind Layer.owner? =
      if e.primitives.contains kind then some e.name else none := by
    unfold Extension.layer? Table.contains
    cases e.primitives.get? kind <;> rfl
  calc (l.layers kind).filterMap Layer.owner?
      = ((l.layers kind).filter Layer.isOwned).filterMap Layer.owner? := by
        rw [List.filterMap_filter]
        congr 1
        funext layer
        unfold Layer.isOwned
        cases layer.owner? <;> rfl
    _ = l.live.filterMap fun e ↦ (e.layer? kind).bind Layer.owner? := by
        rw [filter_isOwned_layers h, List.filterMap_filterMap]
    _ = (l.live.filter (·.primitives.contains kind)).map Extension.name := by
        simp only [howner]
        rw [← List.filterMap_eq_map, List.filterMap_filter]
        rfl

theorem kind_of_mem_layers {kind : String} {layer : Layer} (hlayer : layer ∈ l.layers kind) :
    layer.schema.kind = kind := by
  obtain ⟨entry, hentry, rfl⟩ := List.mem_map.mp hlayer
  exact of_decide_eq_true (List.mem_filter.mp hentry).2

theorem Describes.get?_overlays_eq_some_iff (h : l.Describes r) {kind : String}
    {stack : List Layer} :
    r.overlays.get? kind = some stack ↔ stack = l.layers kind ∧ stack ≠ [] := by
  rw [h.overlays]
  cases hlayers : l.layers kind with
  | nil => simp [stack?]
  | cons layer rest =>
    simp only [stack?, Option.some.injEq]
    constructor
    · rintro rfl
      exact ⟨rfl, List.cons_ne_nil _ _⟩
    · rintro ⟨rfl, -⟩
      rfl

end Ledger

/-! ### What every registry satisfies -/

/-- Whether a stack of layers is in keeping with the extensions of a registry. -/
structure Fits (r : Registry) (kind : String) (stack : List Layer) : Prop where
  ne_nil : stack ≠ []
  kind_eq : ∀ layer ∈ stack, layer.schema.kind = kind
  /-- A layer of an extension is what a live extension declares. -/
  owned : ∀ layer ∈ stack, ∀ name, layer.source = .extension name → ∃ e schema,
    r.extension? name = some e ∧ e.primitives.get? kind = some schema ∧
      layer.schema.attributes = schema.attributes ∧ layer.schema.states = schema.states ∧
      layer.schema.events = schema.events
  /-- Extensions registered later lie further up. -/
  in_order : (stack.filterMap Layer.owner?).Sublist r.order

/-- Whether the parts of a registry agree. -/
structure Consistent (r : Registry) : Prop where
  order_nodup : r.order.Nodup
  mem_order_iff : ∀ name, name ∈ r.order ↔ name ∈ r.extensions.keys
  named : ∀ name e, r.extension? name = some e → e.name = name
  fits : ∀ kind stack, r.overlays.get? kind = some stack → r.Fits kind stack
  /-- An extension has one layer under each kind that it declares. -/
  declared : ∀ name e kind schema, r.extension? name = some e →
    e.primitives.get? kind = some schema → ∃ stack, r.overlays.get? kind = some stack ∧
      stack.filter (·.source = .extension name) = [⟨.extension name, { schema with kind }⟩]
  /-- The number shown for inspection is that of the kinds whose schema is not built in. -/
  overlaid : ∃ kinds : List String, kinds.Nodup ∧
    (∀ kind, kind ∈ kinds ↔ ∃ source, r.sourceOf? kind = some source ∧ source ≠ .builtin) ∧
    r.inspect = Text.quoteRecord "ExtensionRegistry"
      [("extensions", Text.quoteList r.order), ("overlaid", toString kinds.length)]

namespace Ledger

variable {l : Ledger} {r : Registry}

theorem Describes.fits (h : l.Describes r) (harranged : l.Arranged) (hdistinct : l.Distinct)
    {kind : String} {stack : List Layer} (hstack : r.overlays.get? kind = some stack) :
    r.Fits kind stack := by
  obtain ⟨rfl, hne⟩ := h.get?_overlays_eq_some_iff.mp hstack
  refine ⟨hne, fun _ ↦ kind_of_mem_layers, fun layer hlayer name hsource ↦ ?_, ?_⟩
  · obtain ⟨e, he, rfl, hfound⟩ := mem_live_of_mem_layers harranged hlayer hsource
    obtain ⟨schema, hschema, rfl⟩ := Extension.layer?_eq_some_iff.mp hfound
    have hlive : r.extension? e.name = some e := by rw [h.extension?_eq, find?_live hdistinct he]
    exact ⟨e, schema, hlive, hschema, rfl, rfl, rfl⟩
  · rw [owners_layers harranged, h.order]
    exact List.filter_sublist.map _

end Ledger

end Registry

end AgentMarkup
