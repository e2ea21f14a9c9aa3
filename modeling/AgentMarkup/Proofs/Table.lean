import AgentMarkup.Table
import Mathlib.Data.List.Nodup
import Mathlib.Tactic.SplitIfs

/-!
What a table answers. Looking a key up determines the table (`ext_get?`), and every
operation is described by what it does to look-ups: `get?_insert`, `get?_filterMap`,
`get?_map`, `get?_erase`, and `get?_foldl_insert` for a whole list of entries inserted one after the
other. A search meets the entries in key order (`findSome?_entries_eq_some_iff`), and keys
are listed in order (`keys_eq_of_mem_iff`). A table is also the table of its own entries, in
whatever order they are inserted (`ofList_eq_of_perm`). A list of entries that may be left out
answers as the entries that are there (`lookup_filterMap_present`).
-/

set_option autoImplicit false
set_option relaxedAutoImplicit false

namespace AgentMarkup.Table

variable {α β : Type}

/-! ### Looking up in a list of entries -/

theorem lookup_cons_eq_ite (key : String) (value : α) (rest : List (String × α)) (k : String) :
    ((key, value) :: rest).lookup k = if k = key then some value else rest.lookup k := by
  by_cases hk : k = key
  · simp [hk]
  · have hbeq : (k == key) = false := by simpa using hk
    rw [List.lookup_cons, hbeq, if_neg hk]

theorem lookup_insertEntry (key : String) (value : α) (entries : List (String × α))
    (k : String) :
    (insertEntry key value entries).lookup k =
      if k = key then some value else entries.lookup k := by
  induction entries with
  | nil => rw [insertEntry, lookup_cons_eq_ite]
  | cons entry rest ih =>
    obtain ⟨other, old⟩ := entry
    rw [insertEntry]
    split
    · rw [lookup_cons_eq_ite]
    · split
      · rename_i heq
        subst heq
        simp only [lookup_cons_eq_ite]
        split_ifs <;> rfl
      · rename_i hne
        simp only [lookup_cons_eq_ite, ih]
        by_cases hk : k = key
        · subst hk
          simp only [if_pos, if_neg hne]
        · simp only [if_neg hk]

theorem lookup_eq_none_of_notMem {entries : List (String × α)} {k : String}
    (h : k ∉ entries.map Prod.fst) : entries.lookup k = none := by
  rw [List.lookup_eq_none_iff]
  intro entry hentry
  have hne : k ≠ entry.1 := fun heq ↦ h (heq ▸ List.mem_map_of_mem hentry)
  simpa using hne

theorem lookup_eq_some_iff_mem {entries : List (String × α)}
    (h : (entries.map Prod.fst).Nodup) {k : String} {value : α} :
    entries.lookup k = some value ↔ (k, value) ∈ entries := by
  induction entries with
  | nil => simp
  | cons entry rest ih =>
    obtain ⟨other, old⟩ := entry
    simp only [List.map_cons, List.nodup_cons] at h
    by_cases hk : k = other
    · subst hk
      have hnot : (k, value) ∉ rest := fun hmem ↦ h.1 (List.mem_map_of_mem hmem)
      simp [hnot, eq_comm]
    · have hbeq : (k == other) = false := by simpa using hk
      simp [List.lookup_cons, hbeq, ih h.2, hk]

theorem mem_of_lookup_eq_some {entries : List (String × α)} {k : String} {value : α}
    (h : entries.lookup k = some value) : (k, value) ∈ entries := by
  obtain ⟨before, after, rfl, -⟩ := List.lookup_eq_some_iff.mp h
  exact List.mem_append_right _ List.mem_cons_self

theorem lookup_eq_of_perm {entries others : List (String × α)}
    (hnodup : (entries.map Prod.fst).Nodup) (hperm : entries.Perm others) (k : String) :
    entries.lookup k = others.lookup k := by
  have hnodup' : (others.map Prod.fst).Nodup := (hperm.map Prod.fst).nodup_iff.mp hnodup
  refine Option.ext fun value ↦ ?_
  rw [lookup_eq_some_iff_mem hnodup, lookup_eq_some_iff_mem hnodup']
  exact hperm.mem_iff

/-- What has the key of a member is that member, if no two members have one key. -/
theorem filter_key_eq_singleton {key : α → β} [DecidableEq β] {members : List α}
    (hnodup : (members.map key).Nodup) {a : α} (ha : a ∈ members) :
    members.filter (key · = key a) = [a] := by
  induction members with
  | nil => exact absurd ha List.not_mem_nil
  | cons first rest ih =>
    rw [List.map_cons, List.nodup_cons] at hnodup
    rcases List.mem_cons.mp ha with rfl | hrest
    · rw [List.filter_cons_of_pos (by simp), List.filter_eq_nil_iff.mpr fun other hother ↦ ?_]
      have hne : key other ≠ key a := fun heq ↦ hnodup.1 (heq ▸ List.mem_map_of_mem hother)
      simpa using hne
    · have hne : key first ≠ key a := fun heq ↦ hnodup.1 (heq ▸ List.mem_map_of_mem hrest)
      rw [List.filter_cons_of_neg (by simpa using hne), ih hnodup.2 hrest]

/-! ### Entries that may be left out -/

theorem lookup_filterMap_present {members : List (String × Option α)}
    (hnodup : (members.map Prod.fst).Nodup) (k : String) :
    (members.filterMap fun member ↦ member.2.map (member.1, ·)).lookup k =
      (members.lookup k).join := by
  induction members with
  | nil => rfl
  | cons member rest ih =>
    obtain ⟨key, value⟩ := member
    rw [List.map_cons, List.nodup_cons] at hnodup
    have hrest := ih hnodup.2
    cases value with
    | none =>
      have hnone : rest.lookup key = none := lookup_eq_none_of_notMem hnodup.1
      rw [List.filterMap_cons_none rfl, hrest, lookup_cons_eq_ite]
      split_ifs with hk
      · rw [hk, hnone]
        rfl
      · rfl
    | some value =>
      rw [List.filterMap_cons, lookup_cons_eq_ite]
      simp only [Option.map_some, lookup_cons_eq_ite, hrest]
      split_ifs <;> rfl

theorem keys_filterMap_present (members : List (String × Option α)) :
    (members.filterMap fun member ↦ member.2.map (member.1, ·)).map Prod.fst =
      (members.filter (·.2.isSome)).map Prod.fst := by
  induction members with
  | nil => rfl
  | cons member rest ih =>
    obtain ⟨key, value⟩ := member
    cases value <;> simpa using ih

/-! ### Looking up in a table -/

theorem nodup_keys (t : Table α) : (t.entries.map Prod.fst).Nodup :=
  t.ordered.imp String.ne_of_lt

theorem get?_eq_some_iff {t : Table α} {k : String} {value : α} :
    t.get? k = some value ↔ (k, value) ∈ t.entries :=
  lookup_eq_some_iff_mem t.nodup_keys

theorem nodup_entries (t : Table α) : t.entries.Nodup :=
  List.Nodup.of_map Prod.fst t.nodup_keys

/-- The entries of a key are the one that looking it up gives. -/
theorem filter_key_entries (t : Table α) (k : String) :
    t.entries.filter (·.1 = k) = ((t.get? k).map (k, ·)).toList := by
  cases hvalue : t.get? k with
  | none =>
    refine List.filter_eq_nil_iff.mpr fun entry hentry ↦ ?_
    have hne : k ≠ entry.1 := by simpa using List.lookup_eq_none_iff.mp hvalue entry hentry
    simpa using hne.symm
  | some value => exact filter_key_eq_singleton t.nodup_keys (get?_eq_some_iff.mp hvalue)

theorem eq_empty_of_entries {t : Table α} (h : t.entries = []) : t = empty := by
  obtain ⟨entries, ordered⟩ := t
  subst h
  rfl

@[simp] theorem get?_empty (k : String) : (empty : Table α).get? k = none := rfl

theorem get?_insert (t : Table α) (key : String) (value : α) (k : String) :
    (t.insert key value).get? k = if k = key then some value else t.get? k :=
  lookup_insertEntry key value t.entries k

/-- A table is determined by its look-ups: both lists of entries have the same members,
and their order is that of the keys. -/
theorem ext_get? {t u : Table α} (h : ∀ k, t.get? k = u.get? k) : t = u := by
  have hmem (entry : String × α) : entry ∈ t.entries ↔ entry ∈ u.entries := by
    rw [← get?_eq_some_iff (k := entry.1), ← get?_eq_some_iff (k := entry.1), h]
  have hperm : t.entries.Perm u.entries :=
    (List.perm_ext_iff_of_nodup t.nodup_entries u.nodup_entries).mpr hmem
  have hentries : t.entries = u.entries := by
    refine List.Perm.eq_of_pairwise ?_ (List.pairwise_map.mp t.ordered)
      (List.pairwise_map.mp u.ordered) hperm
    intro a b _ _ hab hba
    exact absurd hba (String.lt_asymm hab)
  obtain ⟨entries, ordered⟩ := t
  obtain ⟨others, ordered'⟩ := u
  simp only at hentries
  subst hentries
  rfl

theorem get?_filterMap (t : Table α) (f : String → α → Option β) (k : String) :
    (t.filterMap f).get? k = (t.get? k).bind (f k) := by
  ext value
  rw [get?_eq_some_iff, Option.bind_eq_some_iff]
  simp only [filterMap, List.mem_filterMap, Option.map_eq_some_iff, Prod.mk.injEq]
  constructor
  · rintro ⟨entry, hentry, image, himage, rfl, rfl⟩
    exact ⟨entry.2, get?_eq_some_iff.mpr hentry, himage⟩
  · rintro ⟨old, hold, himage⟩
    exact ⟨(k, old), get?_eq_some_iff.mp hold, value, himage, rfl, rfl⟩

/-- Maps each value. -/
def map (f : α → β) (t : Table α) : Table β :=
  t.filterMap fun _ value ↦ some (f value)

theorem entries_map (f : α → β) (t : Table α) :
    (t.map f).entries = t.entries.map fun entry ↦ (entry.1, f entry.2) := by
  rw [map, filterMap, ← List.filterMap_eq_map]
  rfl

theorem get?_map (f : α → β) (t : Table α) (k : String) :
    (t.map f).get? k = (t.get? k).map f := by
  rw [map, get?_filterMap]
  cases t.get? k <;> rfl

theorem map_eq_self_iff {f : α → α} {t : Table α} :
    t.map f = t ↔ ∀ entry ∈ t.entries, f entry.2 = entry.2 := by
  constructor
  · intro h entry hentry
    have hvalue := get?_eq_some_iff.mpr hentry
    have hmapped := get?_map f t entry.1
    rw [h, hvalue, Option.map_some, Option.some.injEq] at hmapped
    exact hmapped.symm
  · intro h
    refine ext_get? fun k ↦ ?_
    rw [get?_map]
    cases hvalue : t.get? k with
    | none => rfl
    | some value => exact congrArg some (h (k, value) (get?_eq_some_iff.mp hvalue))

theorem get?_erase (t : Table α) (key k : String) :
    (t.erase key).get? k = if k = key then none else t.get? k := by
  rw [erase, get?_filterMap]
  split_ifs with hk <;> cases t.get? k <;> rfl

theorem mem_keys_iff {t : Table α} {k : String} :
    k ∈ t.keys ↔ ∃ value, t.get? k = some value := by
  simp only [get?_eq_some_iff, keys, List.mem_map, Prod.exists, exists_and_right, exists_eq_right]

/-- Keys are listed in order, so tables with the same keys list them alike. -/
theorem keys_eq_of_mem_iff {t : Table α} {u : Table β} (h : ∀ k, k ∈ t.keys ↔ k ∈ u.keys) :
    t.keys = u.keys := by
  have hperm : t.keys.Perm u.keys := (List.perm_ext_iff_of_nodup t.nodup_keys u.nodup_keys).mpr h
  refine List.Perm.eq_of_pairwise ?_ t.ordered u.ordered hperm
  intro a b _ _ hab hba
  exact absurd hba (String.lt_asymm hab)

/-- A search through the entries meets that of the least key first. -/
theorem findSome?_entries_eq_some_iff {t : Table α} {f : String × α → Option β} {result : β} :
    t.entries.findSome? f = some result ↔ ∃ key value, t.get? key = some value ∧
      f (key, value) = some result ∧
      ∀ k v, k < key → t.get? k = some v → f (k, v) = none := by
  rw [List.findSome?_eq_some_iff]
  constructor
  · rintro ⟨before, ⟨key, value⟩, after, hentries, hfound, hbefore⟩
    have hmem (entry : String × α) :
        entry ∈ t.entries ↔ entry ∈ before ∨ entry = (key, value) ∨ entry ∈ after := by
      rw [hentries, List.mem_append, List.mem_cons]
    have hordered := List.pairwise_map.mp t.ordered
    rw [hentries, List.pairwise_append, List.pairwise_cons] at hordered
    refine ⟨key, value, get?_eq_some_iff.mpr ((hmem _).mpr (Or.inr (Or.inl rfl))), hfound,
      fun k v hk hv ↦ ?_⟩
    rcases (hmem (k, v)).mp (get?_eq_some_iff.mp hv) with hearly | hsame | hlate
    · exact hbefore _ hearly
    · exact absurd hk ((Prod.mk.inj hsame).1 ▸ String.lt_irrefl k)
    · exact absurd hk (String.lt_asymm (hordered.2.1.1 _ hlate))
  · rintro ⟨key, value, hvalue, hfound, hearlier⟩
    obtain ⟨before, after, hentries⟩ := List.append_of_mem (get?_eq_some_iff.mp hvalue)
    refine ⟨before, (key, value), after, hentries, hfound, fun entry hentry ↦ ?_⟩
    have hordered := List.pairwise_map.mp t.ordered
    rw [hentries, List.pairwise_append] at hordered
    refine hearlier entry.1 entry.2 (hordered.2.2 entry hentry _ List.mem_cons_self) ?_
    rw [get?_eq_some_iff, hentries]
    exact List.mem_append_left _ hentry

/-! ### Inserting a list of entries -/

/-- Of the entries of a key that are inserted one after the other, the last one stands. -/
theorem get?_foldl_insert (t : Table α) (entries : List (String × α)) (k : String) :
    (entries.foldl (fun t entry ↦ t.insert entry.1 entry.2) t).get? k =
      (entries.reverse.lookup k).or (t.get? k) := by
  induction entries generalizing t with
  | nil => simp
  | cons entry rest ih =>
    obtain ⟨key, value⟩ := entry
    rw [List.foldl_cons, ih, get?_insert, List.reverse_cons, List.lookup_append, Option.or_assoc]
    rw [lookup_cons_eq_ite, List.lookup_nil]
    split_ifs <;> rfl

theorem get?_ofList (entries : List (String × α)) (k : String) :
    (ofList entries).get? k = entries.reverse.lookup k := by
  rw [ofList, get?_foldl_insert, get?_empty, Option.or_none]

theorem mem_of_mem_ofList {entries : List (String × α)} {entry : String × α}
    (h : entry ∈ (ofList entries).entries) : entry ∈ entries := by
  have hfound := get?_eq_some_iff.mpr h
  rw [get?_ofList] at hfound
  exact List.mem_reverse.mp (mem_of_lookup_eq_some hfound)

theorem ofList_eq_of_perm {t : Table α} {entries : List (String × α)}
    (h : entries.Perm t.entries) : ofList entries = t := by
  refine ext_get? fun k ↦ Option.ext fun value ↦ ?_
  have hperm : entries.reverse.Perm t.entries := entries.reverse_perm.trans h
  have hnodup : (entries.reverse.map Prod.fst).Nodup :=
    (hperm.map Prod.fst).nodup_iff.mpr t.nodup_keys
  rw [get?_ofList, lookup_eq_some_iff_mem hnodup, get?_eq_some_iff]
  exact hperm.mem_iff

end AgentMarkup.Table
