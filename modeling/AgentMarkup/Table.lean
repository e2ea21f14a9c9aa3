/-!
Tables keyed by text. A table is the list of its entries in strictly increasing key
order, so two tables with the same entries are the same table and every listing is
ordered by key.
-/

set_option autoImplicit false
set_option relaxedAutoImplicit false

namespace AgentMarkup

/-- Entries in strictly increasing order of code points, which is also the order of
the UTF-8 bytes. -/
structure Table (α : Type) where
  entries : List (String × α)
  ordered : (entries.map Prod.fst).Pairwise (· < ·)
deriving DecidableEq

namespace Table

variable {α β : Type}

/-- Puts an entry at its place, replacing one of the same key. -/
def insertEntry (key : String) (value : α) : List (String × α) → List (String × α)
  | [] => [(key, value)]
  | (k, v) :: rest =>
    if key < k then (key, value) :: (k, v) :: rest
    else if key = k then (key, value) :: rest
    else (k, v) :: insertEntry key value rest

theorem mem_keys_insertEntry {key k : String} {value : α} {entries : List (String × α)} :
    k ∈ (insertEntry key value entries).map Prod.fst ↔ k = key ∨ k ∈ entries.map Prod.fst := by
  induction entries with
  | nil => simp [insertEntry]
  | cons entry rest ih =>
    obtain ⟨k', v'⟩ := entry
    simp only [insertEntry]
    split
    · simp
    · split
      · rename_i hkey
        simp [hkey]
      · simp only [List.map_cons, List.mem_cons, ih]
        constructor
        · rintro (h | h | h) <;> simp [h]
        · rintro (h | h | h) <;> simp [h]

theorem lt_of_not_lt_of_ne {a b : String} (hlt : ¬a < b) (hne : a ≠ b) : b < a := by
  refine String.not_le.mp fun hle ↦ hne ?_
  exact String.le_antisymm hle (String.not_lt.mp hlt)

theorem ordered_insertEntry {key : String} {value : α} {entries : List (String × α)}
    (h : (entries.map Prod.fst).Pairwise (· < ·)) :
    ((insertEntry key value entries).map Prod.fst).Pairwise (· < ·) := by
  induction entries with
  | nil => simp [insertEntry]
  | cons entry rest ih =>
    obtain ⟨k', v'⟩ := entry
    simp only [List.map_cons, List.pairwise_cons] at h
    simp only [insertEntry]
    split
    · rename_i hlt
      simp only [List.map_cons, List.pairwise_cons, List.mem_cons]
      refine ⟨?_, h⟩
      rintro k (rfl | hk)
      · exact hlt
      · exact String.lt_trans hlt (h.1 k hk)
    · rename_i hlt
      split
      · rename_i hkey
        subst hkey
        simpa using h
      · rename_i hne
        simp only [List.map_cons, List.pairwise_cons]
        refine ⟨fun k hk ↦ ?_, ih h.2⟩
        rcases mem_keys_insertEntry.mp hk with rfl | hk
        · exact lt_of_not_lt_of_ne hlt hne
        · exact h.1 k hk

def empty : Table α := ⟨[], List.Pairwise.nil⟩

instance : Inhabited (Table α) := ⟨empty⟩

def insert (t : Table α) (key : String) (value : α) : Table α :=
  ⟨insertEntry key value t.entries, ordered_insertEntry t.ordered⟩

/-- Inserts in list order, so a later entry replaces an earlier one of the same key. -/
def ofList (entries : List (String × α)) : Table α :=
  entries.foldl (fun t entry ↦ t.insert entry.1 entry.2) empty

def get? (t : Table α) (key : String) : Option α :=
  t.entries.lookup key

def contains (t : Table α) (key : String) : Bool :=
  (t.get? key).isSome

def keys (t : Table α) : List String :=
  t.entries.map Prod.fst

def values (t : Table α) : List α :=
  t.entries.map Prod.snd

def size (t : Table α) : Nat :=
  t.entries.length

def isEmpty (t : Table α) : Bool :=
  t.entries.isEmpty

theorem ordered_filterMap {entries : List (String × α)} (f : String → α → Option β)
    (h : (entries.map Prod.fst).Pairwise (· < ·)) :
    ((entries.filterMap fun entry ↦ (f entry.1 entry.2).map (entry.1, ·)).map Prod.fst).Pairwise
      (· < ·) := by
  rw [List.pairwise_map] at h ⊢
  rw [List.pairwise_filterMap]
  refine h.imp fun {a b} hab c hc d hd ↦ ?_
  obtain ⟨_, _, rfl⟩ := Option.map_eq_some_iff.mp hc
  obtain ⟨_, _, rfl⟩ := Option.map_eq_some_iff.mp hd
  exact hab

/-- Maps each value and drops the entries for which there is none. -/
def filterMap (t : Table α) (f : String → α → Option β) : Table β :=
  ⟨t.entries.filterMap fun entry ↦ (f entry.1 entry.2).map (entry.1, ·),
    ordered_filterMap f t.ordered⟩

def erase (t : Table α) (key : String) : Table α :=
  t.filterMap fun k v ↦ if k = key then none else some v

end Table

end AgentMarkup
