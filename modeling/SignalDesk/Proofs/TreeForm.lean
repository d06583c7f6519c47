import SignalDesk.Proofs.JsonForm

namespace SignalDesk

open Document Decoder

/-- What a store makes of document trees. Finite numbers and texts stay what they are, lists keep their
order; of the fields of a map only the order may change. -/
structure TreeForm (form : Document → Document) : Prop where
  bool (b : Bool) : form (.bool b) = .bool b
  int (n : Int) : form (.int n) = .int n
  text (s : String) : form (.text s) = .text s
  float {x : Float} (finite : x.isFinite = true) : form (.float x) = .float x
  list (items : List Document) : form (.list items) = .list (items.map form)
  map {fields : List (String × Document)} (distinct : (fields.map Prod.fst).Nodup) :
    ∃ stored, form (.map fields) = .map stored ∧
      stored.Perm (fields.map fun field => (field.1, form field.2))

/-- JSON stores the fields of a map in the order of their names. -/
theorem treeForm_canonical : TreeForm Document.canonical where
  bool _ := rfl
  int _ := rfl
  text _ := rfl
  float finite := if_pos finite
  list := canonical_list
  map {fields} distinct := by
    refine ⟨stored fields, canonical_map fields, ?_⟩
    have names : ((canonicalFields fields).map Prod.fst).Nodup := by
      rwa [canonicalFields_eq_map, SortedMap.names_map_snd]
    rw [← canonicalFields_eq_map, stored]
    refine (List.perm_ext_iff_of_nodup (SortedMap.keys_nodup _).of_map names.of_map).mpr fun entry => ?_
    rw [← SortedMap.lookup_eq_some names, ← SortedMap.get?_ofList_of_nodup names, SortedMap.get?_eq_some]

namespace TreeForm

variable {form : Document → Document} {α : Type}

/-- The fields of a record that have a value are found under their names. -/
theorem record (F : TreeForm form) (fields : List (String × Option Document))
    (distinct : (fields.map Prod.fst).Nodup) :
    ∃ stored, form (Document.record fields) = .map stored ∧
      ∀ name, stored.lookup name = (fields.lookup name).join.map form := by
  have givenDistinct := distinct.sublist (names_given fields)
  obtain ⟨stored, same, perm⟩ := F.map givenDistinct
  refine ⟨stored, same, fun name => ?_⟩
  rw [SortedMap.lookup_perm perm (by rwa [SortedMap.names_map_snd]), SortedMap.lookup_map_snd, lookup_given distinct]

theorem sortedMap (F : TreeForm form) {decode : Decoder α} {encode : α → Document} {map : SortedMap α}
    (reads : ∀ value ∈ map.values, decode (form (encode value)) = .ok value) :
    sortedMap decode (form (ofSortedMap encode map)) = .ok map := by
  have distinct : ((map.mapValues encode).entries.map Prod.fst).Nodup := (map.mapValues encode).keys_nodup
  obtain ⟨stored, same, perm⟩ := F.map distinct
  have formed : ((map.mapValues encode).entries.map fun field => (field.1, form field.2)) =
      map.entries.map fun entry => (entry.1, form (encode entry.2)) := by
    simp [SortedMap.mapValues]
  rw [formed] at perm
  have fromEntries := congrFun₂ (List.eq_map_comp_perm fun entry : String × α =>
    (entry.1, form (encode entry.2))) stored map.entries
  obtain ⟨entries, rfl, reordered⟩ := fromEntries.mpr perm
  have decoded : (entries.map fun entry => (entry.1, form (encode entry.2))).mapM
      (fun field => do return (field.1, ← decode field.2)) = (.ok entries : Except Refusal _) := by
    refine mapM_ok fun entry member => ?_
    rw [reads entry.2 (List.mem_map_of_mem (reordered.mem_iff.mp member))]
    rfl
  have restored : SortedMap.ofList entries = map := by
    have distinctEntries : (entries.map Prod.fst).Nodup :=
      (reordered.map Prod.fst).nodup_iff.mpr map.keys_nodup
    refine SortedMap.ext_get? fun name => ?_
    rw [SortedMap.get?_ofList_of_nodup distinctEntries, SortedMap.lookup_perm reordered map.keys_nodup]
    rfl
  rw [ofSortedMap, same, sortedMap_map, decoded, ok_bind, restored]
  rfl

theorem items (F : TreeForm form) {decode : Decoder α} {encode : α → Document} {xs : List α}
    (reads : ∀ x ∈ xs, decode (form (encode x)) = .ok x) :
    items decode (form (.list (xs.map encode))) = .ok xs := by
  rw [F.list, List.map_map]
  exact mapM_ok reads

end TreeForm

end SignalDesk
