namespace SignalDesk

/-- Puts a value under a key, before the first greater key; an equal key gives way. -/
def insertEntry {α : Type} (key : String) (value : α) : List (String × α) → List (String × α)
  | [] => [(key, value)]
  | (k, v) :: rest =>
    if key < k then (key, value) :: (k, v) :: rest
    else if key = k then (key, value) :: rest
    else (k, v) :: insertEntry key value rest

theorem mem_keys_insertEntry {α : Type} {key k : String} {value : α} {entries : List (String × α)} :
    k ∈ (insertEntry key value entries).map Prod.fst ↔ k = key ∨ k ∈ entries.map Prod.fst := by
  induction entries with
  | nil => simp [insertEntry]
  | cons entry rest ih =>
    obtain ⟨k', v'⟩ := entry
    by_cases less : key < k'
    · simp [insertEntry, less]
    · by_cases same : key = k'
      · simp [insertEntry, same]
      · simp only [insertEntry, less, same, if_false, List.map_cons, List.mem_cons, ih]
        grind

theorem ascending_insertEntry {α : Type} (key : String) (value : α) {entries : List (String × α)}
    (ascending : (entries.map Prod.fst).Pairwise (· < ·)) :
    ((insertEntry key value entries).map Prod.fst).Pairwise (· < ·) := by
  induction entries with
  | nil => simp [insertEntry]
  | cons entry rest ih =>
    obtain ⟨k', v'⟩ := entry
    rw [List.map_cons, List.pairwise_cons] at ascending
    by_cases less : key < k'
    · simp only [insertEntry, less, if_true, List.map_cons, List.pairwise_cons]
      refine ⟨?_, ascending⟩
      intro k member
      rcases List.mem_cons.mp member with rfl | later
      · exact less
      · exact String.lt_trans less (ascending.1 k later)
    · by_cases same : key = k'
      · subst same
        simpa only [insertEntry, less, if_false, if_true, List.map_cons, List.pairwise_cons] using ascending
      · simp only [insertEntry, less, same, if_false, List.map_cons, List.pairwise_cons]
        refine ⟨?_, ih ascending.2⟩
        intro k member
        rcases mem_keys_insertEntry.mp member with rfl | later
        · exact Std.lt_of_le_of_ne (String.not_lt.mp less) (Ne.symm same)
        · exact ascending.1 k later

theorem lookup_insertEntry {α : Type} (key k : String) (value : α) (entries : List (String × α)) :
    (insertEntry key value entries).lookup k = if k = key then some value else entries.lookup k := by
  induction entries with
  | nil => grind [insertEntry]
  | cons entry rest ih =>
    obtain ⟨k', v'⟩ := entry
    by_cases less : key < k'
    · grind [insertEntry]
    · by_cases same : key = k'
      · grind [insertEntry]
      · simp only [insertEntry, less, same, if_false, List.lookup_cons, ih]
        grind

/-- Values under names. The names ascend by code point, so equal contents are equal maps. -/
structure SortedMap (α : Type) where
  entries : List (String × α)
  ascending : (entries.map Prod.fst).Pairwise (· < ·)

namespace SortedMap

variable {α β : Type}

def empty : SortedMap α := ⟨[], .nil⟩

instance : EmptyCollection (SortedMap α) := ⟨empty⟩

instance : Inhabited (SortedMap α) := ⟨empty⟩

instance [BEq α] : BEq (SortedMap α) := ⟨fun a b => a.entries == b.entries⟩

@[ext] theorem ext {a b : SortedMap α} (same : a.entries = b.entries) : a = b := by
  cases a; cases b; simp_all

def insert (map : SortedMap α) (key : String) (value : α) : SortedMap α :=
  ⟨insertEntry key value map.entries, ascending_insertEntry key value map.ascending⟩

def get? (map : SortedMap α) (key : String) : Option α := map.entries.lookup key

@[simp] theorem get?_insert (map : SortedMap α) (key k : String) (value : α) :
    (map.insert key value).get? k = if k = key then some value else map.get? k :=
  lookup_insertEntry key k value map.entries

def contains (map : SortedMap α) (key : String) : Bool := (map.get? key).isSome

def keys (map : SortedMap α) : List String := map.entries.map Prod.fst

def values (map : SortedMap α) : List α := map.entries.map Prod.snd

def size (map : SortedMap α) : Nat := map.entries.length

def isEmpty (map : SortedMap α) : Bool := map.entries.isEmpty

/-- Of two values under one key the later one stays. -/
def ofList (entries : List (String × α)) : SortedMap α :=
  entries.foldl (fun map entry => map.insert entry.1 entry.2) empty

/-- Changes every value and no key. -/
def mapValues (f : α → β) (map : SortedMap α) : SortedMap β :=
  ⟨map.entries.map fun entry => (entry.1, f entry.2), by
    simpa [List.map_map, Function.comp_def] using map.ascending⟩

end SortedMap

/-- A set of names is a map that carries nothing. -/
def sortedNames (names : List String) : List String :=
  (SortedMap.ofList (names.map fun name => (name, ()))).keys

end SignalDesk
