import AgentMarkup.Proofs.Registry.Ledger
import Mathlib.Data.List.Nodup

/-!
What the order of registration decides. The live extensions of a registry stand in the order in
which its ledger has them (`Ledger.Describes.registered_eq`): each behind all that were
registered before it, and one that was registered again where it was registered last.

Hooks run in order of priority, and those of one priority in the order of their extensions. Both
together determine the order of all hooks (`ByPriority.unique`), so taking some of them out
leaves the others as they were (`ByPriority.filter`). Since two extensions may bring the same
hook, hooks are looked at together with their owners. A rendering hands the hooks what is
rendered, each of them once and each with what those before it left (`Rendering.made_foldl`).

Of the theme values for a key the one that stands is that of the last extension with such a
value (`get?_theme`). All this holds after any list of calls (`follows_registration_order`).
-/

set_option autoImplicit false
set_option relaxedAutoImplicit false

namespace AgentMarkup

/-- A render hook, and the name of the extension that brought it. -/
structure OwnedHook where
  owner : String
  hook : Middleware

def Extension.ownedHooks (e : Extension) : List OwnedHook :=
  e.middleware.map (⟨e.name, ·⟩)

namespace Registry

/-! ### Hooks by priority -/

/-- Whether hooks run in order of priority, and those of one priority as they are given. -/
structure ByPriority (given hooks : List OwnedHook) : Prop where
  perm : hooks.Perm given
  falling : hooks.Pairwise fun a b ↦ b.hook.priority ≤ a.hook.priority
  ties : ∀ priority, hooks.filter (·.hook.priority = priority) =
    given.filter (·.hook.priority = priority)

theorem mem_iff_of_ties {hooks others : List OwnedHook}
    (hties : ∀ priority, hooks.filter (·.hook.priority = priority) =
      others.filter (·.hook.priority = priority)) (a : OwnedHook) : a ∈ hooks ↔ a ∈ others := by
  have ha := congrArg (a ∈ ·) (hties a.hook.priority)
  simpa using ha

/-- Hooks in order of priority are determined by those of each priority: what comes first has
the highest one, and is the first with it. -/
theorem eq_of_falling {hooks others : List OwnedHook}
    (hfalling : hooks.Pairwise fun a b ↦ b.hook.priority ≤ a.hook.priority)
    (hfalling' : others.Pairwise fun a b ↦ b.hook.priority ≤ a.hook.priority)
    (hties : ∀ priority, hooks.filter (·.hook.priority = priority) =
      others.filter (·.hook.priority = priority)) : hooks = others := by
  induction hooks generalizing others with
  | nil =>
    refine (List.eq_nil_iff_forall_not_mem.mpr fun a ha ↦ ?_).symm
    exact absurd ((mem_iff_of_ties hties a).mpr ha) List.not_mem_nil
  | cons a rest ih =>
    have hmem := mem_iff_of_ties hties
    cases others with
    | nil => exact absurd ((hmem a).mp List.mem_cons_self) List.not_mem_nil
    | cons b rest' =>
      rw [List.pairwise_cons] at hfalling hfalling'
      have hpriority : a.hook.priority = b.hook.priority := by
        refine Int.le_antisymm ?_ ?_
        · rcases List.mem_cons.mp ((hmem a).mp List.mem_cons_self) with rfl | ha
          · exact Int.le_refl _
          · exact hfalling'.1 a ha
        · rcases List.mem_cons.mp ((hmem b).mpr List.mem_cons_self) with rfl | hb
          · exact Int.le_refl _
          · exact hfalling.1 b hb
      have hfirst := hties a.hook.priority
      rw [List.filter_cons_of_pos (by simp),
        List.filter_cons_of_pos (by simp [hpriority])] at hfirst
      obtain ⟨rfl, -⟩ := List.cons.inj hfirst
      have hrest (priority : Int) : rest.filter (·.hook.priority = priority) =
          rest'.filter (·.hook.priority = priority) := by
        have hpriority := hties priority
        by_cases ha : a.hook.priority = priority
        · rw [List.filter_cons_of_pos (by simpa using ha),
            List.filter_cons_of_pos (by simpa using ha)] at hpriority
          exact (List.cons.inj hpriority).2
        · rwa [List.filter_cons_of_neg (by simpa using ha),
            List.filter_cons_of_neg (by simpa using ha)] at hpriority
      exact congrArg (a :: ·) (ih hfalling.2 hfalling'.2 hrest)

namespace ByPriority

variable {given hooks others : List OwnedHook}

theorem unique (h : ByPriority given hooks) (h' : ByPriority given others) : hooks = others :=
  eq_of_falling h.falling h'.falling fun priority ↦ (h.ties priority).trans (h'.ties priority).symm

theorem filter (h : ByPriority given hooks) (keep : OwnedHook → Bool) :
    ByPriority (given.filter keep) (hooks.filter keep) where
  perm := h.perm.filter keep
  falling := h.falling.filter keep
  ties priority := by
    rw [List.filter_filter, List.filter_filter]
    simp only [Bool.and_comm _ (keep _)]
    rw [← List.filter_filter, ← List.filter_filter, h.ties]

end ByPriority

/-- A hook of higher priority runs first. -/
def runsBefore (a b : OwnedHook) : Bool :=
  b.hook.priority ≤ a.hook.priority

theorem byPriority_mergeSort (given : List OwnedHook) :
    ByPriority given (given.mergeSort runsBefore) := by
  have htrans (a b c : OwnedHook) (hab : runsBefore a b = true) (hbc : runsBefore b c = true) :
      runsBefore a c = true := by
    rw [runsBefore, decide_eq_true_eq] at hab hbc ⊢
    exact Int.le_trans hbc hab
  have htotal (a b : OwnedHook) : (runsBefore a b || runsBefore b a) = true := by
    rw [Bool.or_eq_true, runsBefore, runsBefore, decide_eq_true_eq, decide_eq_true_eq]
    exact Int.le_total _ _
  have hperm := given.mergeSort_perm runsBefore
  refine ⟨hperm, ?_, fun priority ↦ ?_⟩
  · exact (List.pairwise_mergeSort htrans htotal given).imp fun h ↦ of_decide_eq_true h
  · -- hooks of one priority are in order as they are given, so sorting keeps their order
    have htied : (given.filter (·.hook.priority = priority)).Pairwise
        (fun a b ↦ runsBefore a b = true) := by
      rw [List.pairwise_iff_forall_sublist]
      intro a b hab
      have ha := (List.mem_filter.mp (hab.subset (a := a) (by simp))).2
      have hb := (List.mem_filter.mp (hab.subset (a := b) (by simp))).2
      rw [decide_eq_true_eq] at ha hb
      rw [runsBefore, ha, hb]
      exact decide_eq_true (Int.le_refl _)
    have hsublist := List.sublist_mergeSort htrans htotal htied List.filter_sublist
    have hkept := hsublist.filter (·.hook.priority = priority)
    rw [List.filter_filter] at hkept
    simp only [Bool.and_self] at hkept
    exact (hkept.eq_of_length (hperm.filter _).length_eq.symm).symm

/-! ### A rendering -/

/-- What calls of hooks do to the values that the hooks share: the first one acts on them as they
are, and each of the others on what the one before it left. -/
inductive Invokes : List (Middleware × RenderContext) → Table Json → Table Json → Prop
  | none (memory : Table Json) : Invokes [] memory memory
  | next {m : Middleware} {context : RenderContext} {rest : List (Middleware × RenderContext)}
    {memory last : Table Json} (h : Invokes rest (m.handler context memory) last) :
    Invokes ((m, context) :: rest) memory last

theorem Invokes.concat {calls : List (Middleware × RenderContext)} {memory last : Table Json}
    (h : Invokes calls memory last) (m : Middleware) (context : RenderContext) :
    Invokes (calls ++ [(m, context)]) memory (m.handler context last) := by
  induction h with
  | none memory => exact .next (.none _)
  | next _ ih => exact .next ih

end Registry

namespace Rendering

variable {memory : Table Json} {s : Rendering}

/-- Whether the calls of a rendering were made, and the shared values are what they left. -/
def Made (memory : Table Json) (s : Rendering) : Prop :=
  Registry.Invokes s.calls memory s.memory

theorem made_invoke (h : s.Made memory) (context : RenderContext) (m : Middleware) :
    (s.invoke context m).Made memory :=
  h.concat m context

theorem made_foldl (h : s.Made memory) (context : RenderContext) (hooks : List Middleware) :
    (hooks.foldl (·.invoke context ·) s).Made memory := by
  induction hooks generalizing s with
  | nil => exact h
  | cons m rest ih => exact ih (made_invoke h context m)

/-- Each hook adds one call, of itself. -/
theorem calls_foldl (s : Rendering) (context : RenderContext) (hooks : List Middleware) :
    (hooks.foldl (·.invoke context ·) s).calls = s.calls ++ hooks.map (·, context) := by
  induction hooks generalizing s with
  | nil => exact (List.append_nil _).symm
  | cons m rest ih => rw [List.foldl_cons, ih, invoke, List.append_assoc]; rfl

end Rendering

namespace Registry

theorem calls_render (r : Registry) (context : RenderContext) (memory : Table Json) :
    (r.render context memory).calls = r.middleware.map (·, context) := by
  rw [render, Rendering.calls_foldl]
  exact List.nil_append _

/-! ### The live extensions in order -/

namespace Ledger

variable {l : Ledger} {r : Registry}

/-- Whether no name is that of two live extensions. -/
def Distinct (l : Ledger) : Prop :=
  (l.live.map Extension.name).Nodup

theorem distinct_record (h : l.Distinct) (op : Operation) : (l.record op).Distinct := by
  cases op with
  | register e =>
    rw [record]
    split_ifs with haccepts
    · have hfree : e.name ∉ l.live.map Extension.name := by
        intro hmem
        obtain ⟨other, hother, hname⟩ := List.mem_map.mp hmem
        exact haccepts.2 other hother hname
      rw [Distinct, List.map_append, List.map_singleton]
      exact h.append (List.nodup_singleton _) (by simpa using hfree)
    · exact h
  | unregister name => exact h.sublist (List.filter_sublist.map _)
  | registerPrimitive kind schema => exact h
  | clear => exact List.nodup_nil

theorem distinct_recordAll (h : l.Distinct) (ops : List Operation) :
    (l.recordAll ops).Distinct := by
  induction ops generalizing l with
  | nil => exact h
  | cons op rest ih => exact ih (distinct_record h op)

theorem distinct_empty : Ledger.empty.Distinct := List.nodup_nil

theorem find?_live (h : l.Distinct) {e : Extension} (he : e ∈ l.live) :
    l.live.find? (·.name = e.name) = some e := by
  cases hfound : l.live.find? (·.name = e.name) with
  | none =>
    have hnone := List.find?_eq_none.mp hfound e he
    simp at hnone
  | some other =>
    have hname : other.name = e.name := by simpa using List.find?_some hfound
    rw [List.inj_on_of_nodup_map h (List.mem_of_find?_eq_some hfound) he hname]

theorem Describes.registered_eq (h : l.Describes r) (hdistinct : l.Distinct) :
    r.registered = l.live := by
  have hfound (e : Extension) (he : e ∈ l.live) : r.extensions.get? e.name = some e := by
    rw [h.extensions, find?_live hdistinct he]
  rw [registered, h.order, List.filterMap_map]
  exact (List.filterMap_congr hfound).trans List.filterMap_some

end Ledger

/-! ### Hooks and their owners -/

/-- The hooks as they run, with their owners. -/
def ownedHooks (r : Registry) : List OwnedHook :=
  (r.registered.flatMap Extension.ownedHooks).mergeSort runsBefore

theorem middleware_eq (r : Registry) : r.middleware = r.ownedHooks.map OwnedHook.hook := by
  have hgiven : (r.registered.flatMap Extension.ownedHooks).map OwnedHook.hook =
      r.registered.flatMap Extension.middleware := by
    rw [List.map_flatMap]
    refine List.flatMap_congr fun e _ ↦ ?_
    rw [Extension.ownedHooks, List.map_map]
    exact List.map_id _
  rw [middleware, ownedHooks, ← hgiven]
  exact (List.map_mergeSort (f := OwnedHook.hook) fun _ _ _ _ ↦ rfl).symm

theorem filter_ownedHooks (e : Extension) (name : String) :
    e.ownedHooks.filter (·.owner ≠ name) = if e.name ≠ name then e.ownedHooks else [] := by
  rw [Extension.ownedHooks, List.filter_map]
  split_ifs with hname
  · exact congrArg _ (List.filter_eq_self.mpr fun hook _ ↦ decide_eq_true hname)
  · exact congrArg _ (List.filter_eq_nil_iff.mpr fun hook _ ↦ by simpa using hname)

theorem flatMap_ownedHooks_filter (live : List Extension) (name : String) :
    (live.filter (·.name ≠ name)).flatMap Extension.ownedHooks =
      (live.flatMap Extension.ownedHooks).filter (·.owner ≠ name) := by
  induction live with
  | nil => rfl
  | cons e rest ih =>
    rw [List.flatMap_cons, List.filter_append, filter_ownedHooks, ← ih]
    by_cases hname : e.name = name
    · rw [List.filter_cons_of_neg (by simpa using hname), if_neg (by simpa using hname)]
      rfl
    · rw [List.filter_cons_of_pos (by simpa using hname), if_pos hname, List.flatMap_cons]

/-! ### Theme values -/

/-- Of several extensions the last one that has a value for a key gives it. -/
theorem get?_foldl_theme (t : Table String) (live : List Extension) (key : String) :
    (live.foldl (fun merged e ↦
      e.theme.entries.foldl (fun t entry ↦ t.insert entry.1 entry.2) merged) t).get? key =
        (live.reverse.findSome? (·.theme.get? key)).or (t.get? key) := by
  induction live generalizing t with
  | nil => rfl
  | cons e rest ih =>
    have hown : e.theme.entries.reverse.lookup key = e.theme.get? key := by
      rw [← Table.get?_ofList, Table.ofList_eq_of_perm (.refl _)]
    rw [List.foldl_cons, ih, Table.get?_foldl_insert, hown, List.reverse_cons,
      List.findSome?_append, Option.or_assoc]
    congr 1
    cases hvalue : e.theme.get? key <;> simp [hvalue]

theorem get?_theme (r : Registry) (key : String) :
    r.theme.get? key = r.registered.reverse.findSome? (·.theme.get? key) := by
  rw [theme, get?_foldl_theme, Table.get?_empty, Option.or_none]

/-! ### After any calls -/

/-- What a registry makes of its live extensions in this order. -/
structure FollowsOrder (r : Registry) (live : List Extension) : Prop where
  registered : r.registered = live
  distinct : (live.map Extension.name).Nodup
  /-- The hooks are those of the live extensions by priority. -/
  hooks : ByPriority (live.flatMap Extension.ownedHooks) r.ownedHooks
  middleware : r.middleware = r.ownedHooks.map OwnedHook.hook
  /-- A rendering calls each hook once, with what it was given. -/
  calls : ∀ context, r.runMiddleware context = r.middleware.map (·, context)
  /-- So it does on any values that the hooks share, and these are handed from each hook to the
  next one in this order. -/
  rendering : ∀ context memory,
    (r.render context memory).calls = r.middleware.map (·, context) ∧
      Invokes (r.middleware.map (·, context)) memory (r.render context memory).memory
  /-- Unregistering takes the hooks of the extension out and leaves the others in order. -/
  remaining : ∀ name, (r.unregister name).ownedHooks = r.ownedHooks.filter (·.owner ≠ name)
  theme : ∀ key, r.theme.get? key = live.reverse.findSome? (·.theme.get? key)
  themed : ∀ key, key ∈ r.theme.keys ↔ ∃ e ∈ live, key ∈ e.theme.keys
  /-- The value of an extension stands if none after it has one for the key, and when that is
  unregistered the last value before it does. -/
  revealed : ∀ before e after key value, live = before ++ e :: after →
    e.theme.get? key = some value → (∀ later ∈ after, later.theme.get? key = none) →
      r.theme.get? key = some value ∧ (r.unregister e.name).theme.get? key =
        before.reverse.findSome? (·.theme.get? key)

theorem filter_name_ne {before after : List Extension} {e : Extension}
    (h : ((before ++ e :: after).map Extension.name).Nodup) :
    (before ++ e :: after).filter (·.name ≠ e.name) = before ++ after := by
  rw [List.map_append, List.map_cons, List.nodup_middle, List.nodup_cons, ← List.map_append] at h
  have hothers : (before ++ after).filter (·.name ≠ e.name) = before ++ after := by
    refine List.filter_eq_self.mpr fun other hother ↦ decide_eq_true fun hname ↦ h.1 ?_
    exact hname ▸ List.mem_map_of_mem hother
  rw [List.filter_append, List.filter_cons_of_neg (by simp), ← List.filter_append, hothers]

namespace Ledger

variable {l : Ledger} {r : Registry}

theorem registered_unregister (h : l.Describes r) (howned : l.Owned) (hdistinct : l.Distinct)
    (name : String) : (r.unregister name).registered = l.live.filter (·.name ≠ name) :=
  (describes_unregister h howned name).registered_eq (distinct_record hdistinct (.unregister name))

theorem Describes.followsOrder (h : l.Describes r) (howned : l.Owned) (hdistinct : l.Distinct) :
    r.FollowsOrder l.live := by
  have hregistered := h.registered_eq hdistinct
  have hunregistered := registered_unregister h howned hdistinct
  have htheme (key : String) : r.theme.get? key = l.live.reverse.findSome? (·.theme.get? key) := by
    rw [get?_theme, hregistered]
  refine ⟨hregistered, hdistinct, ?_, middleware_eq r, fun context ↦ r.calls_render context _,
    fun context memory ↦ ⟨r.calls_render context memory, ?_⟩, fun name ↦ ?_, htheme,
    fun key ↦ ?_, fun before e after key value hlive hvalue hafter ↦ ?_⟩
  · rw [← hregistered]
    exact byPriority_mergeSort _
  · rw [← r.calls_render context memory]
    have hfresh : Rendering.Made memory ⟨memory, []⟩ := Invokes.none memory
    exact Rendering.made_foldl hfresh context r.middleware
  · rw [ownedHooks, hunregistered, flatMap_ownedHooks_filter, ← hregistered]
    exact (byPriority_mergeSort _).unique ((byPriority_mergeSort _).filter _)
  · simp only [Table.mem_keys_iff, htheme, ← Option.isSome_iff_exists]
    rw [List.findSome?_isSome_iff]
    simp only [List.mem_reverse]
  · have hnone : after.reverse.findSome? (·.theme.get? key) = none := by
      rw [List.findSome?_eq_none_iff]
      exact fun later hlater ↦ hafter later (List.mem_reverse.mp hlater)
    constructor
    · rw [htheme, hlive, List.reverse_append, List.reverse_cons, List.findSome?_append,
        List.findSome?_append, hnone, List.findSome?_singleton, hvalue]
      rfl
    · have hdistinct : ((before ++ e :: after).map Extension.name).Nodup := hlive ▸ hdistinct
      rw [get?_theme, hunregistered, hlive, filter_name_ne hdistinct, List.reverse_append,
        List.findSome?_append, hnone, Option.none_or]

end Ledger

/-- A call keeps some of the live extensions in their order, and puts behind them what it
registers. -/
theorem Ledger.exists_live_record (l : Ledger) (op : Operation) :
    ∃ kept added, (l.record op).live = kept ++ added ∧ kept.Sublist l.live ∧
      ∀ e ∈ added, op = .register e := by
  cases op with
  | register e =>
    rw [record]
    split_ifs with haccepts
    · exact ⟨l.live, [e], rfl, .refl _, fun other hother ↦ by rw [List.mem_singleton.mp hother]⟩
    · exact ⟨l.live, [], (List.append_nil _).symm, .refl _, by simp⟩
  | unregister name => exact ⟨_, [], (List.append_nil _).symm, List.filter_sublist, by simp⟩
  | registerPrimitive kind schema => exact ⟨l.live, [], (List.append_nil _).symm, .refl _, by simp⟩
  | clear => exact ⟨[], [], rfl, List.nil_sublist _, by simp⟩

/-- Calls keep some of the live extensions in their order, and put behind them what they
register. -/
theorem Ledger.exists_live_recordAll (l : Ledger) (ops : List Operation) :
    ∃ kept added, (l.recordAll ops).live = kept ++ added ∧ kept.Sublist l.live ∧
      ∀ e ∈ added, .register e ∈ ops := by
  induction ops generalizing l with
  | nil => exact ⟨l.live, [], (List.append_nil _).symm, .refl _, by simp⟩
  | cons op rest ih =>
    obtain ⟨old, new, hfirst, hold, hnew⟩ := l.exists_live_record op
    obtain ⟨kept, added, hlive, hkept, hadded⟩ := ih (l.record op)
    rw [hfirst] at hkept
    obtain ⟨kept, early, rfl, hkept, hearly⟩ := List.sublist_append_iff.mp hkept
    refine ⟨kept, early ++ added, hlive.trans (List.append_assoc ..), hkept.trans hold,
      fun e he ↦ ?_⟩
    rcases List.mem_append.mp he with he | he
    · rw [hnew e (hearly.subset he)]
      exact List.mem_cons_self
    · exact List.mem_cons_of_mem op (hadded e he)

theorem Ledger.recordAll_append (l : Ledger) (before after : List Operation) :
    l.recordAll (before ++ after) = (l.recordAll before).recordAll after := by
  induction before generalizing l with
  | nil => rfl
  | cons op rest ih => exact ih (l.record op)

theorem registered_after (ops : List Operation) :
    (empty.after ops).registered = (Ledger.empty.recordAll ops).live :=
  (Ledger.describes_recordAll Ledger.describes_empty Ledger.owned_empty ops).1.registered_eq
    (Ledger.distinct_recordAll Ledger.distinct_empty ops)

/-- After any list of calls to a new registry its hooks and its theme follow the order of the
live extensions, and at every moment those that are registered later go behind those before. -/
theorem follows_registration_order (ops : List Operation) :
    (empty.after ops).FollowsOrder (Ledger.empty.recordAll ops).live ∧
      ∀ before after, ops = before ++ after → ∃ kept added,
        (empty.after ops).registered = kept ++ added ∧
        kept.Sublist (empty.after before).registered ∧ ∀ e ∈ added, .register e ∈ after := by
  obtain ⟨hdescribes, howned⟩ :=
    Ledger.describes_recordAll Ledger.describes_empty Ledger.owned_empty ops
  refine ⟨hdescribes.followsOrder howned (Ledger.distinct_recordAll Ledger.distinct_empty ops), ?_⟩
  rintro before after rfl
  rw [registered_after, registered_after, Ledger.recordAll_append]
  exact Ledger.exists_live_recordAll _ after

/-- An extension that is registered again goes to the end, and its theme values stand. -/
example :
    let plain := (Extension.bare "plain" "1").withTheme "hue" "red"
    let loud := (Extension.bare "loud" "1").withTheme "hue" "blue"
    let r := empty.after
      [.register plain, .register loud, .unregister "plain", .register plain]
    r.registered.map Extension.name = ["loud", "plain"] ∧ r.theme.get? "hue" = some "red" ∧
      (r.unregister "plain").theme.get? "hue" = some "blue" := by
  decide +kernel

end Registry

end AgentMarkup
