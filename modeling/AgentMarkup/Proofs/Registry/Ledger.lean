import AgentMarkup.Proofs.Registry.Operation

/-!
The ledger of a registry. It keeps the live extensions in registration order and, in order
of time, one entry for each schema that a registration put down; unregistering strikes out
the entries of an extension wherever they are. A ledger describes a registry completely
(`Ledger.Describes.unique`), and every call takes a registry and its ledger to a registry
and its ledger (`describes_perform`), hence so does every list of calls
(`describes_recordAll`).
-/

set_option autoImplicit false
set_option relaxedAutoImplicit false

namespace AgentMarkup

namespace Registry

/-- A schema as it was registered for a kind. -/
structure Entry where
  kind : String
  source : SchemaSource
  schema : Schema

namespace Entry

/-- The layer of an entry; its schema takes the kind it is registered for. -/
def layer (entry : Entry) : Layer :=
  ⟨entry.source, { entry.schema with kind := entry.kind }⟩

end Entry

/-- The entries of an extension, one for each of its primitives. -/
def entriesOf (e : Extension) : List Entry :=
  e.primitives.entries.map fun primitive ↦ ⟨primitive.1, .extension e.name, primitive.2⟩

/-- The live extensions in registration order, and the surviving entries in order of time. -/
structure Ledger where
  live : List Extension
  entries : List Entry

namespace Ledger

def empty : Ledger := ⟨[], []⟩

/-- Whether an extension would be registered. -/
def Accepts (l : Ledger) (e : Extension) : Prop :=
  e.Admissible ∧ ∀ other ∈ l.live, other.name ≠ e.name

instance (l : Ledger) (e : Extension) : Decidable (l.Accepts e) :=
  inferInstanceAs (Decidable (_ ∧ _))

/-- Strikes out an extension and all its entries. -/
def forget (l : Ledger) (name : String) : Ledger :=
  ⟨l.live.filter (·.name ≠ name), l.entries.filter (·.source ≠ .extension name)⟩

/-- What a call writes down. -/
def record (l : Ledger) : Operation → Ledger
  | .register e => if l.Accepts e then ⟨l.live ++ [e], l.entries ++ entriesOf e⟩ else l
  | .unregister name => l.forget name
  | .registerPrimitive kind schema => { l with entries := l.entries ++ [⟨kind, .adHoc, schema⟩] }
  | .clear => empty

/-- What the calls of a list write down. -/
def recordAll (l : Ledger) : List Operation → Ledger
  | [] => l
  | op :: rest => (l.record op).recordAll rest

/-- The last surviving entry for a kind. -/
def last? (l : Ledger) (kind : String) : Option Entry :=
  (l.entries.filter (·.kind = kind)).getLast?

/-- The layers that the entries of a kind make. -/
def layers (l : Ledger) (kind : String) : List Layer :=
  (l.entries.filter (·.kind = kind)).map Entry.layer

/-- A stack of layers as a registry stores it: an empty one is not stored. -/
def stack? : List Layer → Option (List Layer)
  | [] => none
  | layer :: rest => some (layer :: rest)

theorem getD_stack? (layers : List Layer) : (stack? layers).getD [] = layers := by
  cases layers <;> rfl

theorem stack?_append_singleton (layers : List Layer) (layer : Layer) :
    stack? (layers ++ [layer]) = some (layers ++ [layer]) := by
  cases layers <;> rfl

/-- A registry is the one that a ledger describes if it holds the live extensions, lists
them in their order, and stores for each kind the layers of its surviving entries. -/
structure Describes (l : Ledger) (r : Registry) : Prop where
  extensions : ∀ name, r.extensions.get? name = l.live.find? (·.name = name)
  order : r.order = l.live.map Extension.name
  overlays : ∀ kind, r.overlays.get? kind = stack? (l.layers kind)

/-- Every entry of an extension belongs to a live one. -/
def Owned (l : Ledger) : Prop :=
  ∀ entry ∈ l.entries, ∀ name, entry.source = .extension name → ∃ e ∈ l.live, e.name = name

/-! ### A ledger determines its registry -/

namespace Describes

variable {l : Ledger} {r : Registry}

theorem unique {r' : Registry} (h : l.Describes r) (h' : l.Describes r') : r = r' := by
  have hextensions : r.extensions = r'.extensions :=
    Table.ext_get? fun name ↦ (h.extensions name).trans (h'.extensions name).symm
  have horder : r.order = r'.order := h.order.trans h'.order.symm
  have hoverlays : r.overlays = r'.overlays :=
    Table.ext_get? fun kind ↦ (h.overlays kind).trans (h'.overlays kind).symm
  cases r
  cases r'
  simp only at hextensions horder hoverlays
  rw [hextensions, horder, hoverlays]

theorem layers_eq (h : l.Describes r) (kind : String) : r.layers kind = l.layers kind := by
  rw [Registry.layers, h.overlays, getD_stack?]

theorem extension?_eq (h : l.Describes r) (name : String) :
    r.extension? name = l.live.find? (·.name = name) :=
  h.extensions name

theorem extension?_eq_none_iff (h : l.Describes r) {name : String} :
    r.extension? name = none ↔ ∀ e ∈ l.live, e.name ≠ name := by
  rw [h.extension?_eq, List.find?_eq_none]
  simp only [decide_eq_true_eq, ne_eq]

/-- The visible layer of a kind is that of its last surviving entry. -/
theorem getLast?_layers (h : l.Describes r) (kind : String) :
    (r.layers kind).getLast? = (l.last? kind).map Entry.layer := by
  rw [h.layers_eq, layers, last?, List.getLast?_map]

end Describes

theorem describes_empty : Ledger.empty.Describes Registry.empty where
  extensions _ := rfl
  order := rfl
  overlays _ := rfl

/-! ### Each call keeps the description -/

variable {l : Ledger} {r : Registry}

theorem layers_append (l : Ledger) (entries : List Entry) (kind : String) :
    Ledger.layers ⟨l.live, l.entries ++ entries⟩ kind =
      l.layers kind ++ (entries.filter (·.kind = kind)).map Entry.layer := by
  rw [layers, layers, List.filter_append, List.map_append]

theorem describes_pushLayer (h : l.Describes r) (entry : Entry) :
    Ledger.Describes ⟨l.live, l.entries ++ [entry]⟩
      (r.pushLayer entry.source entry.kind entry.schema) where
  extensions := h.extensions
  order := h.order
  overlays kind := by
    rw [get?_overlays_pushLayer, layers_append]
    by_cases hkind : entry.kind = kind
    · subst hkind
      rw [if_pos rfl, h.layers_eq, List.filter_cons_of_pos (by simp)]
      exact (stack?_append_singleton _ _).symm
    · rw [if_neg (Ne.symm hkind), List.filter_cons_of_neg (by simpa using hkind)]
      simpa using h.overlays kind

theorem describes_overlay (h : l.Describes r) (name : String)
    (primitives : List (String × Schema)) :
    Ledger.Describes ⟨l.live, l.entries ++
        primitives.map fun primitive ↦ ⟨primitive.1, .extension name, primitive.2⟩⟩
      (r.overlay name primitives) := by
  induction primitives generalizing l r with
  | nil => simpa [overlay] using h
  | cons primitive rest ih =>
    have hnext := ih (describes_pushLayer h ⟨primitive.1, .extension name, primitive.2⟩)
    simpa [overlay, List.append_assoc] using hnext

theorem describes_register (h : l.Describes r) {e : Extension} (haccepts : l.Accepts e) :
    ∃ next, r.register e = .ok next ∧
      Ledger.Describes ⟨l.live ++ [e], l.entries ++ entriesOf e⟩ next := by
  have hfree : r.extension? e.name = none := h.extension?_eq_none_iff.mpr haccepts.2
  have hoverlay := describes_overlay h e.name e.primitives.entries
  refine ⟨_, register_eq_ok_iff.mpr ⟨haccepts.1, hfree, rfl⟩, ?_, ?_, hoverlay.overlays⟩
  · intro name
    rw [Table.get?_insert, extensions_overlay, h.extensions, List.find?_append]
    by_cases hname : name = e.name
    · subst hname
      rw [if_pos rfl, ← h.extension?_eq, hfree]
      simp
    · rw [if_neg hname]
      simp [Ne.symm hname]
  · rw [order_overlay, h.order, List.map_append]
    rfl

/-- Striking out what is not there changes nothing. -/
theorem forget_eq_self (howned : l.Owned) {name : String} (h : ∀ e ∈ l.live, e.name ≠ name) :
    l.forget name = l := by
  have hlive : l.live.filter (·.name ≠ name) = l.live :=
    List.filter_eq_self.mpr fun e he ↦ by simpa using h e he
  have hentries : l.entries.filter (·.source ≠ .extension name) = l.entries := by
    refine List.filter_eq_self.mpr fun entry hentry ↦ ?_
    rw [decide_eq_true_eq]
    intro hsource
    obtain ⟨e, he, hname⟩ := howned entry hentry name hsource
    exact h e he hname
  rw [forget, hlive, hentries]

theorem layers_forget (l : Ledger) (name kind : String) :
    (l.forget name).layers kind =
      (l.layers kind).filter (·.source ≠ .extension name) := by
  rw [layers, layers, forget, List.filter_map, List.filter_filter, List.filter_filter]
  congr 2
  funext entry
  exact Bool.and_comm _ _

theorem describes_unregister (h : l.Describes r) (howned : l.Owned) (name : String) :
    (l.forget name).Describes (r.unregister name) := by
  by_cases hlive : ∀ e ∈ l.live, e.name ≠ name
  · rw [forget_eq_self howned hlive,
      unregister_of_extension?_eq_none (h.extension?_eq_none_iff.mpr hlive)]
    exact h
  · have hcontains : r.extensions.contains name = true := by
      rw [Table.contains, Option.isSome_iff_ne_none]
      exact mt h.extension?_eq_none_iff.mp hlive
    rw [unregister, if_pos hcontains]
    refine ⟨fun other ↦ ?_, ?_, fun kind ↦ ?_⟩
    · rw [Table.get?_erase, h.extensions, forget, List.find?_filter]
      split_ifs with hother
      · subst hother
        refine (List.find?_eq_none.mpr fun e _ ↦ ?_).symm
        simp
      · congr 1
        funext e
        by_cases he : e.name = other
        · simp [he, hother]
        · simp [he]
    · rw [h.order, forget, List.filter_map]
      rfl
    · rw [Table.get?_filterMap, h.overlays, layers_forget]
      cases hlayers : l.layers kind with
      | nil => rfl
      | cons layer rest =>
        simp only [stack?, Option.bind_some]
        cases (layer :: rest).filter (·.source ≠ .extension name) <;> rfl

theorem describes_perform (h : l.Describes r) (howned : l.Owned) (op : Operation) :
    (l.record op).Describes (r.perform op).2 := by
  cases op with
  | register e =>
    rw [record]
    split_ifs with haccepts
    · obtain ⟨next, hregister, hnext⟩ := describes_register h haccepts
      simpa only [perform, hregister] using hnext
    · have hrefused : ¬ ∃ next, r.register e = .ok next := by
        rw [register_isOk_iff, h.extension?_eq_none_iff]
        exact haccepts
      cases hregister : r.register e with
      | ok next => exact absurd ⟨next, hregister⟩ hrefused
      | error fault => simpa only [perform, hregister] using h
  | unregister name => exact describes_unregister h howned name
  | registerPrimitive kind schema => exact describes_pushLayer h ⟨kind, .adHoc, schema⟩
  | clear => exact describes_empty

theorem owned_record (howned : l.Owned) (op : Operation) : (l.record op).Owned := by
  cases op with
  | register e =>
    rw [record]
    split_ifs with haccepts
    · intro entry hentry name hsource
      rcases List.mem_append.mp hentry with hold | hnew
      · obtain ⟨other, hother, hname⟩ := howned entry hold name hsource
        exact ⟨other, List.mem_append_left _ hother, hname⟩
      · obtain ⟨primitive, -, rfl⟩ := List.mem_map.mp hnew
        exact ⟨e, List.mem_append_right _ List.mem_cons_self, SchemaSource.extension.inj hsource⟩
    · exact howned
  | unregister gone =>
    intro entry hentry name hsource
    obtain ⟨hold, hkept⟩ := List.mem_filter.mp hentry
    obtain ⟨e, he, hname⟩ := howned entry hold name hsource
    rw [decide_eq_true_eq, hsource] at hkept
    have hne : e.name ≠ gone := fun heq ↦ hkept (by rw [← hname, heq])
    exact ⟨e, List.mem_filter.mpr ⟨he, by simpa using hne⟩, hname⟩
  | registerPrimitive kind schema =>
    intro entry hentry name hsource
    rcases List.mem_append.mp hentry with hold | hnew
    · exact howned entry hold name hsource
    · rw [List.mem_singleton.mp hnew] at hsource
      exact absurd hsource (by simp)
  | clear =>
    intro entry hentry
    exact absurd hentry List.not_mem_nil

theorem owned_empty : Ledger.empty.Owned := fun _ hentry ↦ absurd hentry List.not_mem_nil

/-- The ledger kept along a run describes the registry at its end. -/
theorem describes_recordAll (h : l.Describes r) (howned : l.Owned) (ops : List Operation) :
    (l.recordAll ops).Describes (r.after ops) ∧ (l.recordAll ops).Owned := by
  induction ops generalizing l r with
  | nil => exact ⟨h, howned⟩
  | cons op rest ih => exact ih (describes_perform h howned op) (owned_record howned op)

end Ledger

end Registry

end AgentMarkup
