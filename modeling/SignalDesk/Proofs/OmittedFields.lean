import SignalDesk.Fault
import SignalDesk.Proofs.JsonForm

namespace SignalDesk

namespace Document

/-- A step into a document, to a field of a map or to an item of a list. -/
inductive Step where
  | field (name : String)
  | item (index : Nat)
deriving DecidableEq

/-- Marks on the paths into a document. -/
abbrev Marks := List Step → Bool

/-- The marks behind a step. -/
def Marks.below (gone : Marks) (step : Step) : Marks := fun path => gone (step :: path)

/-- Every marked path is of one sort; the document as a whole has no path of its own. -/
def Marks.Within (gone : Marks) (sort : List Step → Prop) : Prop :=
  ∀ step path, gone (step :: path) = true → sort (step :: path)

mutual

/-- The document without the fields at the marked paths. -/
def without (gone : Marks) : Document → Document
  | .list items => .list (itemsWithout gone 0 items)
  | .map fields => .map (fieldsWithout gone fields)
  | document => document

def itemsWithout (gone : Marks) (index : Nat) : List Document → List Document
  | [] => []
  | item :: rest => item.without (gone.below (.item index)) :: itemsWithout gone (index + 1) rest

def fieldsWithout (gone : Marks) : List (String × Document) → List (String × Document)
  | [] => []
  | (name, value) :: rest =>
    if gone [.field name] then fieldsWithout gone rest
    else (name, value.without (gone.below (.field name))) :: fieldsWithout gone rest

end

variable {gone : Marks}

/-- Nothing below a step is marked. -/
def Marks.Silent (gone : Marks) : Prop := gone.Within fun _ => False

theorem Marks.Within.below {sort : List Step → Prop} (within : gone.Within sort) (step : Step) :
    (gone.below step).Within fun path => sort (step :: path) :=
  fun next path marked => within step (next :: path) marked

mutual

/-- Where nothing is marked, nothing is left out. -/
theorem without_eq_self {gone : Marks} (silent : gone.Silent) :
    (document : Document) → document.without gone = document
  | .null | .bool _ | .int _ | .float _ | .text _ => by rw [without] <;> nofun
  | .list items => by rw [without, itemsWithout_eq_self (fun index => silent.below (.item index))]
  | .map fields => by rw [without, fieldsWithout_eq_self silent]

theorem itemsWithout_eq_self {gone : Marks} (silent : ∀ index, (gone.below (.item index)).Silent) {index : Nat} :
    (items : List Document) → itemsWithout gone index items = items
  | [] => rfl
  | item :: rest => by
    rw [itemsWithout, without_eq_self (silent index) item, itemsWithout_eq_self silent rest]

theorem fieldsWithout_eq_self {gone : Marks} (silent : gone.Silent) :
    (fields : List (String × Document)) → fieldsWithout gone fields = fields
  | [] => rfl
  | (name, value) :: rest => by
    have kept : gone [.field name] = false := Bool.eq_false_iff.mpr (silent (.field name) [])
    rw [fieldsWithout, kept, without_eq_self (silent.below (.field name)) value, fieldsWithout_eq_self silent rest]
    rfl

end

/-- The fields that stay are found under their names, without what is marked in them. -/
theorem lookup_fieldsWithout (gone : Marks) (fields : List (String × Document)) (name : String) :
    (fieldsWithout gone fields).lookup name =
      if gone [.field name] then none else (fields.lookup name).map (without (gone.below (.field name))) := by
  induction fields with
  | nil => simp [fieldsWithout]
  | cons field rest ih =>
    obtain ⟨first, value⟩ := field
    rw [fieldsWithout, List.lookup_cons]
    cases mine : name == first with
    | true =>
      obtain rfl := eq_of_beq mine
      cases marked : gone [.field name] with
      | true => simpa only [marked, if_true] using ih
      | false => simp
    | false =>
      cases gone [.field first] with
      | true => simpa using ih
      | false => simpa [List.lookup_cons, mine] using ih

end Document

namespace Decoder

open Document

variable {gone : Marks} {α : Type} {fields : List (String × Document)} {name : String} {decode : Decoder α}
  {value default : α}

/-- A field that stays is read as before. -/
theorem field_without (gone : Marks) (read : field fields name decode = .ok value) (stays : gone [.field name] = false)
    (kept : ∀ document, decode document = .ok value →
      decode (document.without (gone.below (.field name))) = .ok value) :
    field (fieldsWithout gone fields) name decode = .ok value := by
  unfold field at read ⊢
  rw [lookup_fieldsWithout, stays]
  cases found : fields.lookup name with
  | none => rw [found] at read; cases read
  | some document =>
    rw [found] at read
    exact kept document read

/-- A field whose value is the default is read the same, be it there or not. -/
theorem fieldOr_without (gone : Marks) (read : fieldOr fields name default decode = .ok value)
    (omitted : gone [.field name] = true → value = default)
    (kept : ∀ document, decode document = .ok value →
      decode (document.without (gone.below (.field name))) = .ok value) :
    fieldOr (fieldsWithout gone fields) name default decode = .ok value := by
  unfold fieldOr at read ⊢
  rw [lookup_fieldsWithout]
  cases marked : gone [.field name] with
  | true => rw [omitted marked]; rfl
  | false =>
    cases found : fields.lookup name with
    | none => rw [found] at read; exact read
    | some document =>
      rw [found] at read
      exact kept document read

/-- A field in which nothing is marked can go only if it holds the default. -/
theorem fieldOr_leaf (read : fieldOr fields name default decode = .ok value)
    (leaf : (gone.below (.field name)).Silent) (omitted : gone [.field name] = true → value = default) :
    fieldOr (fieldsWithout gone fields) name default decode = .ok value :=
  fieldOr_without gone read omitted fun document readOne => by rwa [without_eq_self leaf]

theorem field_leaf (read : field fields name decode = .ok value) (leaf : (gone.below (.field name)).Silent)
    (stays : ¬gone [.field name] = true) : field (fieldsWithout gone fields) name decode = .ok value :=
  field_without gone read (Bool.eq_false_iff.mpr stays) fun document readOne => by rwa [without_eq_self leaf]

/-- Of a record only fields are left out; where its fields stand in a list, nothing is. -/
theorem record_without {site : Site} {names : List String} {assemble : List (String × Document) → Except Refusal α}
    {document : Document} (read : (orderedFields site names document >>= assemble) = .ok value)
    (noItems : ∀ index, (gone.below (.item index)).Silent)
    (kept : ∀ fields, assemble fields = .ok value → assemble (fieldsWithout gone fields) = .ok value) :
    (orderedFields site names (document.without gone) >>= assemble) = .ok value := by
  cases document with
  | map fields => exact kept fields read
  | list items =>
    rw [without, itemsWithout_eq_self noItems]
    exact read
  | _ => cases read

theorem items_without {values : List α} {document : Document} (read : items decode document = .ok values)
    (kept : ∀ index value document, values[index]? = some value → decode document = .ok value →
      decode (document.without (gone.below (.item index))) = .ok value) :
    items decode (document.without gone) = .ok values := by
  cases document with
  | list documents =>
    have onwards (index : Nat) (documents : List Document) (later : List α)
        (run : documents.mapM decode = .ok later) (tail : values.drop index = later) :
        (itemsWithout gone index documents).mapM decode = .ok later := by
      induction documents generalizing index later with
      | nil => exact run
      | cons document rest ih =>
        rw [List.mapM_cons] at run
        obtain ⟨value, first, restRun⟩ := bind_eq_ok.mp run
        obtain ⟨others, othersRun, same⟩ := bind_eq_ok.mp restRun
        cases same
        have here : values[index]? = some value := by
          rw [← List.head?_drop, tail]
          rfl
        have behind : values.drop (index + 1) = others := by
          rw [← List.drop_drop, tail]
          rfl
        rw [itemsWithout, List.mapM_cons, kept index value document here first, ih (index + 1) others othersRun behind]
        rfl
    exact onwards 0 documents values read rfl
  | _ => cases read

/-- What is found in a list under a name stays the same if it stays so wherever it is found at last. -/
theorem lookup_of_pairs {found : Option α} {others entries : List (String × α)}
    (pairs : List.Forall₂ (fun other entry => other.1 = entry.1 ∧
      (entry.1 = name → found = some entry.2 → other.2 = entry.2)) others entries)
    (last : found = entries.lookup name) : others.lookup name = entries.lookup name := by
  induction pairs with
  | nil => rfl
  | @cons other entry others entries pair _ ih =>
    rw [List.lookup_cons] at last ⊢
    rw [List.lookup_cons, pair.1]
    cases mine : name == entry.1 with
    | true =>
      rw [mine] at last
      rw [pair.2 (eq_of_beq mine).symm last]
    | false =>
      rw [mine] at last
      exact ih last

/-- The entries of a map stay, and those that its names lead to are read as before. -/
theorem entries_without {map : SortedMap α} {entries : List (String × α)}
    (run : fields.mapM (fun field => do return (field.1, ← decode field.2)) = .ok entries)
    (stay : ∀ name, gone [.field name] = false)
    (kept : ∀ name value document, decode document = .ok value →
      ∃ other, decode (document.without (gone.below (.field name))) = .ok other ∧
        (map.get? name = some value → other = value)) :
    ∃ others, (fieldsWithout gone fields).mapM (fun field => do return (field.1, ← decode field.2)) = .ok others ∧
      List.Forall₂ (fun other entry => other.1 = entry.1 ∧
        (map.get? entry.1 = some entry.2 → other.2 = entry.2)) others entries := by
  induction fields generalizing entries with
  | nil =>
    cases run
    exact ⟨[], rfl, .nil⟩
  | cons field rest ih =>
    rw [List.mapM_cons] at run
    obtain ⟨entry, first, restRun⟩ := bind_eq_ok.mp run
    obtain ⟨later, laterRun, same⟩ := bind_eq_ok.mp restRun
    cases same
    obtain ⟨value, decoded, same⟩ := bind_eq_ok.mp first
    cases same
    obtain ⟨others, othersRun, pairs⟩ := ih laterRun
    obtain ⟨other, otherDecoded, unchanged⟩ := kept field.1 value field.2 decoded
    refine ⟨(field.1, other) :: others, ?_, .cons ⟨rfl, unchanged⟩ pairs⟩
    rw [fieldsWithout, stay, if_neg Bool.false_ne_true, List.mapM_cons, otherDecoded, ok_bind, othersRun]
    rfl

/-- A map is read as before. Where a name stands twice, only the later entry has to be. -/
theorem sortedMap_without {map : SortedMap α} {document : Document} (read : sortedMap decode document = .ok map)
    (stay : ∀ name, gone [.field name] = false)
    (kept : ∀ name value document, decode document = .ok value →
      ∃ other, decode (document.without (gone.below (.field name))) = .ok other ∧
        (map.get? name = some value → other = value)) :
    sortedMap decode (document.without gone) = .ok map := by
  cases document with
  | map fields =>
    rw [sortedMap_map] at read
    obtain ⟨entries, run, same⟩ := bind_eq_ok.mp read
    cases same
    obtain ⟨others, othersRun, pairs⟩ := entries_without run stay kept
    have same : SortedMap.ofList others = SortedMap.ofList entries := by
      refine SortedMap.ext_get? fun name => ?_
      have found := SortedMap.get?_ofList entries name
      rw [SortedMap.get?_ofList, SortedMap.get?_ofList]
      refine lookup_of_pairs (List.rel_reverse ?_) found
      exact pairs.imp fun other entry pair => ⟨pair.1, fun mine => mine ▸ pair.2⟩
    rw [without, sortedMap_map, othersRun, ok_bind, same]
    rfl
  | _ => cases read

end Decoder

end SignalDesk
