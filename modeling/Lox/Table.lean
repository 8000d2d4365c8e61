/-!
Finite tables: entries in the order in which their keys first came, one for each key. The main
statement says what a table answers after an entry is set.
-/

namespace Lox

namespace Table

variable {κ α : Type}

/-- The value of the first entry with a key. -/
def lookup? [DecidableEq κ] (key : κ) : List (κ × α) → Option α
  | [] => none
  | (other, value) :: rest => if other = key then some value else lookup? key rest

/-- Overwrites the entry of a key where it stands, or adds it at the end. -/
def put [DecidableEq κ] (key : κ) (value : α) : List (κ × α) → List (κ × α)
  | [] => [(key, value)]
  | (other, old) :: rest =>
    if other = key then (key, value) :: rest else (other, old) :: put key value rest

theorem mem_keys_put [DecidableEq κ] (key : κ) (value : α) (entries : List (κ × α)) (k : κ)
    : k ∈ (put key value entries).map Prod.fst ↔ k = key ∨ k ∈ entries.map Prod.fst := by
  induction entries with
  | nil => simp [put]
  | cons entry rest ih =>
    obtain ⟨other, old⟩ := entry
    by_cases h : other = key
    · subst h
      simp [put]
    · simp only [put, h, if_false, List.map_cons, List.mem_cons, ih]
      grind

theorem nodup_keys_put [DecidableEq κ] (key : κ) (value : α) (entries : List (κ × α))
    (h : (entries.map Prod.fst).Nodup)
    : ((put key value entries).map Prod.fst).Nodup := by
  induction entries with
  | nil => simp [put]
  | cons entry rest ih =>
    obtain ⟨other, old⟩ := entry
    simp only [List.map_cons, List.nodup_cons] at h
    by_cases same : other = key
    · subst same
      simpa [put] using h
    · simp only [put, same, if_false, List.map_cons, List.nodup_cons]
      exact ⟨fun member => (mem_keys_put key value rest other).1 member |>.elim same h.1, ih h.2⟩

end Table

/-- A finite table from keys to values. -/
structure Table (κ α : Type) where
  entries : List (κ × α)
  /-- No key has two entries. -/
  distinct : (entries.map Prod.fst).Nodup

namespace Table

variable {κ α : Type}

/-- The table without entries. -/
def empty : Table κ α := ⟨[], List.nodup_nil⟩

instance : Inhabited (Table κ α) := ⟨empty⟩

variable [DecidableEq κ]

/-- The value of a key. -/
def get? (table : Table κ α) (key : κ) : Option α := lookup? key table.entries

/-- The key has an entry. -/
def has (table : Table κ α) (key : κ) : Bool := (table.get? key).isSome

/-- Gives a key a value, in place of the one it had. -/
def set (table : Table κ α) (key : κ) (value : α) : Table κ α :=
  ⟨put key value table.entries, nodup_keys_put key value table.entries table.distinct⟩

/-- Sets entries one after the other, so that the last one of a key counts. -/
def ofList (entries : List (κ × α)) : Table κ α :=
  entries.foldl (fun table entry => table.set entry.1 entry.2) empty

theorem lookup?_put (key : κ) (value : α) (entries : List (κ × α)) (k : κ)
    : lookup? k (put key value entries) = if k = key then some value else lookup? k entries := by
  induction entries with
  | nil => grind [lookup?, put]
  | cons entry rest ih => grind [lookup?, put]

@[simp, grind =]
theorem get?_empty (k : κ)
    : (empty : Table κ α).get? k = none := rfl

/-- Setting a key changes what the table answers for this key and for no other. -/
@[grind =]
theorem get?_set (table : Table κ α) (key : κ) (value : α) (k : κ)
    : (table.set key value).get? k = if k = key then some value else table.get? k :=
  lookup?_put key value table.entries k

/-- A table with one entry answers for its key only. -/
theorem get?_single {key k : κ} {value found : α}
    : (empty.set key value).get? k = some found ↔ k = key ∧ found = value := by
  rw [get?_set, get?_empty]
  split <;> simp_all [eq_comm]

theorem has_set (table : Table κ α) (key : κ) (value : α) (k : κ)
    : (table.set key value).has k = true ↔ k = key ∨ table.has k = true := by
  unfold has
  rw [get?_set]
  split <;> simp_all

theorem lookup?_append (key : κ) (entries more : List (κ × α))
    : lookup? key (entries ++ more) = (lookup? key entries).or (lookup? key more) := by
  induction entries with
  | nil => rfl
  | cons entry rest ih =>
    simp only [List.cons_append, lookup?, ih]
    split <;> rfl

theorem mem_of_lookup? {entries : List (κ × α)} {key : κ} {value : α}
    (found : lookup? key entries = some value)
    : (key, value) ∈ entries := by
  induction entries with
  | nil => cases found
  | cons entry rest ih => grind [lookup?]

theorem isSome_lookup? (key : κ) (entries : List (κ × α))
    : (lookup? key entries).isSome = true ↔ key ∈ entries.map Prod.fst := by
  induction entries with
  | nil => simp [lookup?]
  | cons entry rest ih => grind [lookup?]

/-- A table made from a list has the last entry of each key, by induction over the entries. -/
theorem get?_ofList (entries : List (κ × α)) (key : κ)
    : (ofList entries).get? key = lookup? key entries.reverse := by
  have either (table : Table κ α)
      : (entries.foldl (fun table entry => table.set entry.1 entry.2) table).get? key
        = (lookup? key entries.reverse).or (table.get? key) := by
    induction entries generalizing table with
    | nil => rfl
    | cons entry rest ih =>
      rw [List.foldl_cons, ih, get?_set, List.reverse_cons, lookup?_append, Option.or_assoc]
      simp only [lookup?, eq_comm (a := key)]
      split <;> rfl
  exact (either empty).trans Option.or_none

section

variable {β : Type} (change : α → β)

/-- The table with other values. -/
def map (table : Table κ α) : Table κ β :=
  ⟨table.entries.map fun entry => (entry.1, change entry.2), by
    rw [List.map_map]
    exact table.distinct⟩

theorem lookup?_map (entries : List (κ × α)) (key : κ)
    : lookup? key (entries.map fun entry => (entry.1, change entry.2))
      = (lookup? key entries).map change := by
  induction entries with
  | nil => rfl
  | cons entry rest ih =>
    simp only [List.map_cons, lookup?, ih]
    split <;> rfl

@[simp]
theorem get?_map (table : Table κ α) (key : κ)
    : (table.map change).get? key = (table.get? key).map change :=
  lookup?_map change table.entries key

@[simp]
theorem has_map (table : Table κ α) (key : κ)
    : (table.map change).has key = table.has key := by
  simp only [has, get?_map, Option.isSome_map]

theorem put_map (key : κ) (value : α) (entries : List (κ × α))
    : put key (change value) (entries.map fun entry => (entry.1, change entry.2))
      = (put key value entries).map fun entry => (entry.1, change entry.2) := by
  induction entries with
  | nil => rfl
  | cons entry rest ih =>
    simp only [List.map_cons, put, ih]
    split <;> rfl

theorem map_set (table : Table κ α) (key : κ) (value : α)
    : (table.set key value).map change = (table.map change).set key (change value) := by
  simp only [map, set, put_map]

theorem map_ofList (entries : List (κ × α))
    : (ofList entries).map change
      = ofList (entries.map fun entry => (entry.1, change entry.2)) := by
  have along (table : Table κ α)
      : (entries.foldl (fun table entry => table.set entry.1 entry.2) table).map change
        = (entries.map fun entry => (entry.1, change entry.2)).foldl
            (fun table entry => table.set entry.1 entry.2) (table.map change) := by
    induction entries generalizing table with
    | nil => rfl
    | cons entry rest ih => rw [List.foldl_cons, ih, map_set, List.map_cons, List.foldl_cons]
  exact along empty

end

/-- What a list gives a table comes from an entry of the list. -/
theorem mem_of_get?_ofList {entries : List (κ × α)} {key : κ} {value : α}
    (found : (ofList entries).get? key = some value)
    : (key, value) ∈ entries := by
  rw [get?_ofList] at found
  exact List.mem_reverse.1 (mem_of_lookup? found)

/-- A table made from a list has the keys of the list. -/
theorem has_ofList (entries : List (κ × α)) (key : κ)
    : (ofList entries).has key = true ↔ key ∈ entries.map Prod.fst := by
  rw [has, get?_ofList, isSome_lookup?, List.map_reverse, List.mem_reverse]

end Table

end Lox
