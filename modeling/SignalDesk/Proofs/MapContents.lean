import Mathlib.Data.List.Nodup
import Mathlib.Data.List.Perm.Basic
import Mathlib.Data.String.Basic
import SignalDesk.SortedMap

namespace SignalDesk

namespace SortedMap

variable {α β : Type}

theorem lookup_absent {entries : List (String × α)} {name : String}
    (absent : name ∉ entries.map Prod.fst) : entries.lookup name = none := by
  rw [List.lookup_eq_none_iff]
  intro entry member
  refine bne_iff_ne.mpr fun same => absent ?_
  rw [same]
  exact List.mem_map_of_mem member

theorem keys_nodup (map : SortedMap α) : map.keys.Nodup :=
  map.ascending.imp ne_of_lt

theorem lookup_map_snd (f : α → β) (entries : List (String × α)) (name : String) :
    (entries.map fun entry => (entry.1, f entry.2)).lookup name = (entries.lookup name).map f := by
  induction entries with
  | nil => rfl
  | cons entry rest ih =>
    rw [List.map_cons, List.lookup_cons, List.lookup_cons, ih]
    cases name == entry.1 <;> rfl

theorem names_map_snd (f : α → β) (entries : List (String × α)) :
    (entries.map fun entry => (entry.1, f entry.2)).map Prod.fst = entries.map Prod.fst := by
  rw [List.map_map]
  rfl

/-- Where no name stands twice, a name leads to what stands beside it. -/
theorem lookup_eq_some {entries : List (String × α)} (distinct : (entries.map Prod.fst).Nodup) {key : String}
    {value : α} : entries.lookup key = some value ↔ (key, value) ∈ entries := by
  rw [List.Nodup, List.pairwise_map] at distinct
  rw [List.lookup_eq_some_iff]
  constructor
  · rintro ⟨before, behind, split, -⟩
    rw [split]
    exact List.mem_append_right _ List.mem_cons_self
  · intro member
    obtain ⟨before, behind, split⟩ := List.append_of_mem member
    refine ⟨before, behind, split, fun entry inFront => ?_⟩
    rw [split, List.pairwise_append] at distinct
    exact bne_iff_ne.mpr (distinct.2.2 entry inFront (key, value) List.mem_cons_self).symm

/-- Where no name stands twice, a name leads to the same value in any order. -/
theorem lookup_perm {entries others : List (String × α)} (perm : entries.Perm others)
    (distinct : (others.map Prod.fst).Nodup) (name : String) : entries.lookup name = others.lookup name := by
  have distinctToo : (entries.map Prod.fst).Nodup := (perm.map Prod.fst).nodup_iff.mpr distinct
  refine Option.ext fun value => ?_
  rw [lookup_eq_some distinctToo, lookup_eq_some distinct, perm.mem_iff]

theorem get?_eq_some {map : SortedMap α} {key : String} {value : α} :
    map.get? key = some value ↔ (key, value) ∈ map.entries :=
  lookup_eq_some map.keys_nodup

/-- Maps with the same contents are the same map. -/
theorem ext_get? {a b : SortedMap α} (same : ∀ key, a.get? key = b.get? key) : a = b := by
  have members : ∀ entry, entry ∈ a.entries ↔ entry ∈ b.entries := by
    rintro ⟨key, value⟩
    rw [← get?_eq_some, ← get?_eq_some, same key]
  have perm : a.entries.Perm b.entries :=
    (List.perm_ext_iff_of_nodup a.keys_nodup.of_map b.keys_nodup.of_map).mpr members
  have byKey (map : SortedMap α) : map.entries.Pairwise fun x y => x.1 < y.1 :=
    List.pairwise_map.mp map.ascending
  refine ext (List.Perm.eq_of_pairwise ?_ (byKey a) (byKey b) perm)
  intro x y _ _ before behind
  exact absurd behind (lt_asymm before)

theorem get?_mapValues (f : α → β) (map : SortedMap α) (key : String) :
    (map.mapValues f).get? key = (map.get? key).map f :=
  lookup_map_snd f map.entries key

theorem get?_foldl_insert (entries : List (String × α)) (map : SortedMap α) (key : String) :
    (entries.foldl (fun map entry => map.insert entry.1 entry.2) map).get? key =
      (entries.reverse.lookup key).or (map.get? key) := by
  induction entries generalizing map with
  | nil => rfl
  | cons entry rest ih =>
    rw [List.foldl_cons, ih, get?_insert, List.reverse_cons, List.lookup_append, Option.or_assoc]
    obtain ⟨name, value⟩ := entry
    by_cases mine : key = name
    · simp [mine]
    · simp [List.lookup_cons, mine, beq_false_of_ne mine]

theorem get?_ofList (entries : List (String × α)) (key : String) :
    (ofList entries).get? key = entries.reverse.lookup key :=
  (get?_foldl_insert entries empty key).trans Option.or_none

/-- Where no name stands twice, the order of the entries does not matter. -/
theorem get?_ofList_of_nodup {entries : List (String × α)} (distinct : (entries.map Prod.fst).Nodup)
    (key : String) : (ofList entries).get? key = entries.lookup key := by
  rw [get?_ofList]
  induction entries with
  | nil => rfl
  | cons entry rest ih =>
    rw [List.map_cons, List.nodup_cons] at distinct
    rw [List.reverse_cons, List.lookup_append, ih distinct.2, List.lookup_cons, List.lookup_cons,
      List.lookup_nil]
    cases mine : key == entry.1 with
    | false => simp
    | true =>
      rw [lookup_absent (eq_of_beq mine ▸ distinct.1)]
      rfl

@[simp] theorem ofList_entries (map : SortedMap α) : ofList map.entries = map :=
  ext_get? (get?_ofList_of_nodup map.keys_nodup)

theorem mem_of_mem_ofList {entries : List (String × α)} {entry : String × α}
    (member : entry ∈ (ofList entries).entries) : entry ∈ entries := by
  rw [← get?_eq_some, get?_ofList, List.lookup_eq_some_iff] at member
  obtain ⟨before, behind, split, -⟩ := member
  rw [← List.mem_reverse, split]
  exact List.mem_append_right _ List.mem_cons_self

theorem mem_keys {map : SortedMap α} {key : String} : key ∈ map.keys ↔ map.contains key = true := by
  rw [contains, Option.isSome_iff_exists, keys, List.mem_map]
  constructor
  · rintro ⟨⟨_, value⟩, member, rfl⟩
    exact ⟨value, get?_eq_some.mpr member⟩
  · rintro ⟨value, found⟩
    exact ⟨(key, value), get?_eq_some.mp found, rfl⟩

theorem insert_comm {key other : String} (different : key ≠ other) (map : SortedMap α) (value given : α) :
    (map.insert key value).insert other given = (map.insert other given).insert key value := by
  refine ext_get? fun name => ?_
  simp only [get?_insert]
  by_cases first : name = key
  · simp [first, different]
  · simp [first]

end SortedMap

theorem pairwise_sortedNames (names : List String) : (sortedNames names).Pairwise (· < ·) :=
  (SortedMap.ofList _).ascending

@[simp] theorem mem_sortedNames {names : List String} {name : String} :
    name ∈ sortedNames names ↔ name ∈ names := by
  rw [sortedNames, SortedMap.mem_keys, SortedMap.contains, SortedMap.get?_ofList, ← List.map_reverse,
    ← List.mem_reverse]
  generalize names.reverse = others
  induction others with
  | nil => simp
  | cons other rest ih =>
    rw [List.map_cons, List.lookup_cons, List.mem_cons, ← ih]
    by_cases mine : name = other
    · simp [mine]
    · simp [mine, beq_false_of_ne mine]

end SignalDesk
