import Mathlib.Data.List.AList
import Mathlib.Data.Finset.Card

/-!
Contract: finite maps with a size, a retaining filter and a bulk removal.

Owns:
- `Table`, an association list with distinct keys, and its `size`;
- `retain` and `eraseAll` with their lookup laws;
- the size laws that bound a table by the set its keys come from.

Does not own: any iteration order.  Nothing here depends on where an entry
stands in the list.
-/

namespace SmartFecTunnel.Library

universe u v

/-- A finite map from `κ` to `α`. -/
abbrev Table (κ : Type u) (α : Type v) := AList (fun _ : κ => α)

namespace Table

variable {κ : Type u} {α : Type v}

/-- The number of entries. -/
def size (table : Table κ α) : Nat := table.entries.length

theorem size_eq_keys_length (table : Table κ α) : table.size = table.keys.length := by
  simp [size, AList.keys, List.keys]

/-- Keep the entries that satisfy `keep`. -/
def retain (keep : κ → α → Bool) (table : Table κ α) : Table κ α :=
  ⟨table.entries.filter fun entry => keep entry.1 entry.2,
    table.nodupKeys.sublist List.filter_sublist⟩

theorem size_retain_le (keep : κ → α → Bool) (table : Table κ α) :
    (table.retain keep).size ≤ table.size :=
  List.length_filter_le _ _

variable [DecidableEq κ]

/-- Set the value of `key`. -/
def insert (table : Table κ α) (key : κ) (value : α) : Table κ α := AList.insert key value table

/-- Drop `key`. -/
def erase (table : Table κ α) (key : κ) : Table κ α := AList.erase key table

theorem mem_insert {table : Table κ α} {key other : κ} {value : α} :
    other ∈ table.insert key value ↔ other = key ∨ other ∈ table :=
  AList.mem_insert table

theorem mem_erase {table : Table κ α} {key other : κ} :
    other ∈ table.erase key ↔ other ≠ key ∧ other ∈ table :=
  AList.mem_erase

theorem lookup_eq_some_iff {table : Table κ α} {key : κ} {value : α} :
    table.lookup key = some value ↔ ⟨key, value⟩ ∈ table.entries :=
  AList.mem_lookup_iff

theorem lookup_retain (keep : κ → α → Bool) (table : Table κ α) (key : κ) :
    (table.retain keep).lookup key = (table.lookup key).filter (keep key) := by
  apply Option.ext
  intro value
  simp only [lookup_eq_some_iff, retain, List.mem_filter, Option.filter_eq_some_iff]

theorem lookup_of_lookup_retain {keep : κ → α → Bool} {table : Table κ α} {key : κ} {value : α}
    (found : (table.retain keep).lookup key = some value) :
    table.lookup key = some value := by
  rw [lookup_retain, Option.filter_eq_some_iff] at found
  exact found.1

theorem lookup_retain_of_keep {keep : κ → α → Bool} {table : Table κ α} {key : κ} {value : α}
    (found : table.lookup key = some value) (kept : keep key value = true) :
    (table.retain keep).lookup key = some value := by
  rw [lookup_retain, found]
  simp [kept]

theorem mem_iff_exists_lookup {table : Table κ α} {key : κ} :
    key ∈ table ↔ ∃ value, table.lookup key = some value := by
  rw [← AList.lookup_isSome, Option.isSome_iff_exists]

theorem lookup_insert_eq (table : Table κ α) (key other : κ) (value : α) :
    (table.insert key value).lookup other =
      if other = key then some value else table.lookup other := by
  unfold insert
  split
  next same => subst same; exact AList.lookup_insert table
  next different => exact AList.lookup_insert_ne different

theorem lookup_erase_eq (table : Table κ α) (key other : κ) :
    (table.erase key).lookup other =
      if other = key then none else table.lookup other := by
  unfold erase
  split
  next same => subst same; exact AList.lookup_erase other table
  next different => exact AList.lookup_erase_ne different

/-- What is found after an insertion has been inserted, or was there before. -/
theorem of_lookup_insert {table : Table κ α} {key other : κ} {value found : α}
    (isFound : (table.insert key value).lookup other = some found) :
    (other = key ∧ found = value) ∨ (other ≠ key ∧ table.lookup other = some found) := by
  rw [lookup_insert_eq] at isFound
  split at isFound
  next same => exact Or.inl ⟨same, (Option.some.inj isFound).symm⟩
  next different => exact Or.inr ⟨different, isFound⟩

theorem of_lookup_erase {table : Table κ α} {key other : κ} {found : α}
    (isFound : (table.erase key).lookup other = some found) :
    other ≠ key ∧ table.lookup other = some found := by
  rw [lookup_erase_eq] at isFound
  split at isFound
  next => cases isFound
  next different => exact ⟨different, isFound⟩

theorem size_erase_of_mem {table : Table κ α} {key : κ} (member : key ∈ table) :
    (table.erase key).size + 1 = table.size := by
  have inKeys : key ∈ table.keys := member
  rw [size_eq_keys_length, size_eq_keys_length, erase, AList.keys_erase,
    List.length_erase_of_mem inKeys]
  have positive := List.length_pos_of_mem inKeys
  omega

theorem size_erase_le (table : Table κ α) (key : κ) :
    (table.erase key).size ≤ table.size := by
  rw [size_eq_keys_length, size_eq_keys_length, erase, AList.keys_erase]
  exact List.length_erase_le

theorem size_insert_of_mem {table : Table κ α} {key : κ} (value : α) (member : key ∈ table) :
    (table.insert key value).size = table.size := by
  have inKeys : key ∈ table.keys := member
  rw [size_eq_keys_length, size_eq_keys_length, insert, AList.keys_insert, List.length_cons,
    List.length_erase_of_mem inKeys]
  have positive := List.length_pos_of_mem inKeys
  omega

theorem size_insert_of_notMem {table : Table κ α} {key : κ} (value : α) (fresh : key ∉ table) :
    (table.insert key value).size = table.size + 1 := by
  rw [size, insert, AList.entries_insert_of_notMem fresh]
  rfl

theorem size_insert_le (table : Table κ α) (key : κ) (value : α) :
    (table.insert key value).size ≤ table.size + 1 := by
  by_cases member : key ∈ table
  · rw [size_insert_of_mem value member]
    omega
  · rw [size_insert_of_notMem value member]

/-- The keys of a table as a set of its size. -/
theorem exists_keySet (table : Table κ α) :
    ∃ keys : Finset κ, keys.card = table.size ∧ ∀ key, key ∈ keys ↔ key ∈ table := by
  refine ⟨table.keys.toFinset, ?_, fun key => List.mem_toFinset⟩
  rw [size_eq_keys_length]
  exact List.toFinset_card_of_nodup table.keys_nodup

/-- Remove every listed key. -/
def eraseAll (table : Table κ α) : List κ → Table κ α
  | [] => table
  | key :: rest => eraseAll (table.erase key) rest

theorem lookup_eraseAll (table : Table κ α) (keys : List κ) (key : κ) :
    (table.eraseAll keys).lookup key = if key ∈ keys then none else table.lookup key := by
  induction keys generalizing table with
  | nil => simp [eraseAll]
  | cons head tail inductionHypothesis =>
      rw [eraseAll, inductionHypothesis, lookup_erase_eq]
      by_cases inTail : key ∈ tail
      · simp [inTail]
      · by_cases isHead : key = head <;> simp [inTail, isHead]

theorem lookup_of_lookup_eraseAll {table : Table κ α} {keys : List κ} {key : κ} {value : α}
    (found : (table.eraseAll keys).lookup key = some value) :
    table.lookup key = some value := by
  rw [lookup_eraseAll] at found
  split at found
  next => cases found
  next => exact found

theorem size_eraseAll_le (table : Table κ α) (keys : List κ) :
    (table.eraseAll keys).size ≤ table.size := by
  induction keys generalizing table with
  | nil => exact Nat.le_refl _
  | cons head tail inductionHypothesis =>
      exact (inductionHypothesis (table.erase head)).trans (size_erase_le table head)

/-- Removing distinct present keys shrinks the table by exactly their number. -/
theorem size_eraseAll {table : Table κ α} {keys : List κ} (distinct : keys.Nodup)
    (present : ∀ key ∈ keys, key ∈ table) :
    (table.eraseAll keys).size + keys.length = table.size := by
  induction keys generalizing table with
  | nil => simp [eraseAll]
  | cons head tail inductionHypothesis =>
      obtain ⟨headFresh, tailDistinct⟩ := List.nodup_cons.mp distinct
      have tailPresent : ∀ key ∈ tail, key ∈ table.erase head := by
        intro key member
        refine mem_erase.mpr ⟨?_, present key (List.mem_cons_of_mem head member)⟩
        rintro rfl
        exact headFresh member
      have shrunk := inductionHypothesis tailDistinct tailPresent
      have headSize := size_erase_of_mem (present head List.mem_cons_self)
      rw [eraseAll, List.length_cons]
      omega

end Table

end SmartFecTunnel.Library
