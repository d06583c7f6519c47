import SignalDesk.Codec.Basic
import SignalDesk.Proofs.InstantText
import SignalDesk.Proofs.MapContents

namespace SignalDesk

theorem map_eq_self {α : Type} {f : α → α} {items : List α} (fixed : ∀ item ∈ items, f item = item) :
    items.map f = items := by
  rw [List.map_congr_left fixed, List.map_id']

namespace Document

theorem canonicalItems_eq_map (items : List Document) : canonicalItems items = items.map canonical := by
  induction items with
  | nil => rfl
  | cons item rest ih => rw [canonicalItems, ih, List.map_cons]

theorem canonicalFields_eq_map (fields : List (String × Document)) :
    canonicalFields fields = fields.map fun field => (field.1, field.2.canonical) := by
  induction fields with
  | nil => rfl
  | cons field rest ih => rw [canonicalFields, ih, List.map_cons]

theorem canonical_list (items : List Document) :
    (list items).canonical = list (items.map canonical) := by
  rw [canonical, canonicalItems_eq_map]

/-- The fields of a map as JSON stores them. -/
def stored (fields : List (String × Document)) : List (String × Document) :=
  (SortedMap.ofList (canonicalFields fields)).entries

@[simp] theorem canonical_map (fields : List (String × Document)) :
    (map fields).canonical = map (stored fields) := rfl

theorem canonicalFields_entries (map : SortedMap Document) :
    canonicalFields map.entries = (map.mapValues canonical).entries :=
  canonicalFields_eq_map map.entries

/-- The names of a sorted map ascend already. -/
theorem stored_entries (map : SortedMap Document) :
    stored map.entries = (map.mapValues canonical).entries := by
  rw [stored, canonicalFields_entries, SortedMap.ofList_entries]

theorem mapValues_fixed {map : SortedMap Document}
    (fixed : ∀ field ∈ map.entries, field.2.canonical = field.2) : map.mapValues canonical = map := by
  refine SortedMap.ext (map_eq_self fun field member => ?_)
  rw [fixed field member]

mutual

/-- What is stored is stored as it is. -/
theorem canonical_canonical : (document : Document) → document.canonical.canonical = document.canonical
  | .null | .bool _ | .int _ | .text _ => rfl
  | .float x => by
    cases finite : x.isFinite <;> simp [canonical, ofFloat, finite]
  | .list items => by
    rw [canonical_list, canonical_list, ← canonicalItems_eq_map items]
    congr 1
    exact map_eq_self (canonical_of_mem_items items)
  | .map fields => by
    rw [canonical_map, canonical_map]
    congr 1
    have fixed : ∀ field ∈ stored fields, field.2.canonical = field.2 := fun field member =>
      canonical_of_mem_fields fields field (SortedMap.mem_of_mem_ofList member)
    exact (stored_entries _).trans (congrArg SortedMap.entries (mapValues_fixed fixed))

theorem canonical_of_mem_items : (items : List Document) →
    ∀ item ∈ canonicalItems items, item.canonical = item
  | [], _, member => by cases member
  | item :: rest, other, member => by
    rcases List.mem_cons.mp member with rfl | later
    · exact canonical_canonical item
    · exact canonical_of_mem_items rest other later

theorem canonical_of_mem_fields : (fields : List (String × Document)) →
    ∀ field ∈ canonicalFields fields, field.2.canonical = field.2
  | [], _, member => by cases member
  | (name, value) :: rest, other, member => by
    rcases List.mem_cons.mp member with rfl | later
    · exact canonical_canonical value
    · exact canonical_of_mem_fields rest other later

end

/-- Every field of a record is found among the stored ones, whatever their order. -/
theorem lookup_stored {fields : List (String × Document)} (distinct : (fields.map Prod.fst).Nodup)
    (name : String) : (stored fields).lookup name = (fields.lookup name).map canonical := by
  rw [stored, canonicalFields_eq_map, ← SortedMap.lookup_map_snd]
  exact SortedMap.get?_ofList_of_nodup (by rwa [SortedMap.names_map_snd]) name

/-- The fields of a record that have a value. -/
def given (fields : List (String × Option Document)) : List (String × Document) :=
  fields.filterMap fun (name, value) => value.map fun value => (name, value)

theorem given_cons_none (name : String) (rest : List (String × Option Document)) :
    given ((name, none) :: rest) = given rest := rfl

theorem given_cons_some (name : String) (value : Document) (rest : List (String × Option Document)) :
    given ((name, some value) :: rest) = (name, value) :: given rest := rfl

theorem names_given (fields : List (String × Option Document)) :
    ((given fields).map Prod.fst).Sublist (fields.map Prod.fst) := by
  induction fields with
  | nil => exact .slnil
  | cons field rest ih =>
    obtain ⟨name, value⟩ := field
    cases value with
    | none => exact ih.cons name
    | some value => exact ih.cons_cons name

theorem lookup_given {fields : List (String × Option Document)} (distinct : (fields.map Prod.fst).Nodup)
    (name : String) : (given fields).lookup name = (fields.lookup name).join := by
  induction fields with
  | nil => rfl
  | cons field rest ih =>
    obtain ⟨first, value⟩ := field
    rw [List.map_cons, List.nodup_cons] at distinct
    have later := ih distinct.2
    rw [List.lookup_cons]
    cases value with
    | none =>
      rw [given_cons_none, later]
      cases mine : name == first with
      | false => rfl
      | true =>
        rw [SortedMap.lookup_absent (eq_of_beq mine ▸ distinct.1)]
        rfl
    | some value =>
      rw [given_cons_some, List.lookup_cons, later]
      cases name == first <;> rfl

@[simp] theorem canonical_record (fields : List (String × Option Document)) :
    (record fields).canonical = map (stored (given fields)) := rfl

theorem lookup_stored_given {fields : List (String × Option Document)}
    (distinct : (fields.map Prod.fst).Nodup) (name : String) :
    (stored (given fields)).lookup name = (fields.lookup name).join.map canonical := by
  rw [lookup_stored (distinct.sublist (names_given fields)), lookup_given distinct]

end Document

namespace Decoder

open Document

variable {α : Type}

theorem fieldOr_eq (fields : List (String × Document)) (name : String) (default : α) (decode : Decoder α) :
    fieldOr fields name default decode = (fields.lookup name).elim (.ok default) decode := by
  rw [fieldOr]
  cases fields.lookup name <;> rfl

section

variable {fields : List (String × Document)} {name : String} {decode : Decoder α} {value : α}

theorem fieldOr_of_field (read : field fields name decode = .ok value) (default : α) :
    fieldOr fields name default decode = .ok value := by
  rw [field] at read
  rw [fieldOr]
  cases found : fields.lookup name with
  | none => rw [found] at read; cases read
  | some document => rwa [found] at read

theorem field?_of_field (read : field fields name decode = .ok value) :
    field? fields name decode = .ok (some value) := by
  rw [field] at read
  rw [field?]
  cases found : fields.lookup name with
  | none => rw [found] at read; cases read
  | some document =>
    rw [found] at read
    exact congrArg (Except.map some) read

end

/-- A field may be left out where its value is the default. -/
theorem elim_unless {omitted : Bool} {document : Document} {value default : α} {decode : Decoder α}
    (same : omitted = true → value = default) (read : decode document.canonical = .ok value) :
    ((if omitted then none else some document).map canonical).elim (.ok default) decode = .ok value := by
  cases omitted with
  | true => rw [same rfl]; rfl
  | false => exact read

section

variable {β ε : Type}

@[simp] theorem ok_bind (value : α) (next : α → Except ε β) : (Except.ok value >>= next) = next value :=
  rfl

@[simp] theorem ok_map (value : α) (f : α → β) : f <$> (Except.ok value : Except ε α) = .ok (f value) :=
  rfl

@[simp] theorem ite_bind (good : Bool) (value : α) (fault : ε) (next : α → Except ε β) :
    (if good then .ok value else .error fault : Except ε α) >>= next =
      if good then next value else .error fault := by
  cases good <;> rfl

@[simp] theorem ite_map (good : Bool) (value : α) (fault : ε) (f : α → β) :
    f <$> (if good then .ok value else .error fault : Except ε α) =
      if good then .ok (f value) else .error fault := by
  cases good <;> rfl

end

theorem mapM_ite {β ε : Type} {f : β → Except ε α} {g : α → β} {good : α → Bool} {fault : ε} {xs : List α}
    (reads : ∀ x ∈ xs, f (g x) = if good x then .ok x else .error fault) :
    (xs.map g).mapM f = if xs.all good then .ok xs else .error fault := by
  induction xs with
  | nil => rfl
  | cons x xs ih =>
    rw [List.forall_mem_cons] at reads
    rw [List.map_cons, List.mapM_cons, reads.1, ih reads.2, List.all_cons]
    cases good x with
    | false => rfl
    | true => cases xs.all good <;> rfl

theorem mapM_ok {β ε : Type} {f : β → Except ε α} {g : α → β} {xs : List α}
    (reads : ∀ x ∈ xs, f (g x) = .ok x) : (xs.map g).mapM f = .ok xs := by
  induction xs with
  | nil => rfl
  | cons x xs ih =>
    rw [List.forall_mem_cons] at reads
    rw [List.map_cons, List.mapM_cons, reads.1, ih reads.2]
    rfl

@[simp] theorem string_canonical (s : String) : string (Document.text s).canonical = .ok s := rfl

@[simp] theorem bool_canonical (b : Bool) : bool (Document.bool b).canonical = .ok b := rfl

/-- JSON keeps the finite doubles and no other. -/
theorem float_canonical (x : Float) :
    float (Document.float x).canonical = if x.isFinite then .ok x else .error .shape := by
  cases finite : x.isFinite <;> simp [canonical, ofFloat, finite] <;> rfl

theorem items_canonical {decode : Decoder α} {encode : α → Document} {good : α → Bool} {xs : List α}
    (reads : ∀ x ∈ xs, decode (encode x).canonical = if good x then .ok x else .error .shape) :
    items decode (list (xs.map encode)).canonical = if xs.all good then .ok xs else .error .shape := by
  rw [canonical_list, List.map_map]
  exact mapM_ite reads

theorem items_canonical_ok {decode : Decoder α} {encode : α → Document} {xs : List α}
    (reads : ∀ x ∈ xs, decode (encode x).canonical = .ok x) :
    items decode (list (xs.map encode)).canonical = .ok xs := by
  rw [canonical_list, List.map_map]
  exact mapM_ok reads

theorem sortedMap_map (decode : Decoder α) (fields : List (String × Document)) :
    sortedMap decode (map fields) = (do
      return SortedMap.ofList (← fields.mapM fun field => do return (field.1, ← decode field.2))) := rfl

theorem sortedMap_canonical {decode : Decoder α} {encode : α → Document} {good : α → Bool}
    {map : SortedMap α}
    (reads : ∀ entry ∈ map.entries,
      decode (encode entry.2).canonical = if good entry.2 then .ok entry.2 else .error .shape) :
    sortedMap decode (ofSortedMap encode map).canonical =
      if map.values.all good then .ok map else .error .shape := by
  have decoded : (map.entries.map fun entry => (entry.1, (encode entry.2).canonical)).mapM
      (fun field => do return (field.1, ← decode field.2)) =
        if map.entries.all fun entry => good entry.2 then .ok map.entries else .error .shape := by
    refine mapM_ite fun entry member => ?_
    simp only [reads entry member]
    cases good entry.2 <;> rfl
  have storedAs : stored (map.mapValues encode).entries =
      map.entries.map fun entry => (entry.1, (encode entry.2).canonical) := by
    rw [stored_entries]
    simp [SortedMap.mapValues]
  have all : map.values.all good = map.entries.all fun entry => good entry.2 := List.all_map
  rw [ofSortedMap, canonical_map, storedAs, sortedMap_map, decoded, all]
  cases map.entries.all fun entry => good entry.2 with
  | false => rfl
  | true => exact congrArg Except.ok map.ofList_entries

/-- What is not `null` in JSON can be told from nothing. -/
theorem optional_canonical {decode : Decoder α} {encode : α → Document} {value : Option α}
    (read : ∀ x ∈ value, decode (encode x).canonical = .ok x) (visible : ∀ x, (encode x).canonical ≠ .null) :
    optional decode (Document.ofOption encode value).canonical = .ok value := by
  cases value with
  | none => rfl
  | some x =>
    have something : ∀ document : Document, document ≠ .null →
        optional decode document = (decode document).map some := by
      intro document notNull
      cases document with
      | null => exact absurd rfl notNull
      | _ => rfl
    rw [Document.ofOption, something _ (visible x), read x rfl]
    rfl

theorem instant_toText {t : Instant} (regular : t.Regular) :
    instant (Document.text t.toText).canonical = .ok t := by
  simp [instant, ofOption, canonical, Instant.ofText?_toText regular]

end Decoder

end SignalDesk
