import SignalDesk.Document
import SignalDesk.Instant

namespace SignalDesk

/-- Why a document is not the form of a value: a field of a wrong shape, or a signal whose confidence
is no confidence. -/
inductive Refusal where
  | shape
  | confidence (strategy : String) (value : Float)

/-- Where a document stands: by itself in JSON or in TOML, or among the fields of a tagged record. -/
inductive Site where
  | json
  | toml
  | tagged
deriving DecidableEq

/-- Whether a value says nothing, so that it may stand beside a word. -/
def Site.isNothing (site : Site) : Document → Bool
  | .null => true
  | .map [] => site ≠ .json
  | .list [] => site = .toml
  | _ => false

abbrev Decoder (α : Type) := Document → Except Refusal α

namespace Decoder

def ofOption {α : Type} (read : Document → Option α) : Decoder α := fun document =>
  match read document with
  | some value => .ok value
  | none => .error .shape

/-- Whole numbers are numbers too. -/
def float : Decoder Float := ofOption fun
  | .float x => some x
  | .int n => some (Float.ofInt n)
  | _ => none

/-- A whole number from zero on, of at most 64 bits. -/
def word : Decoder UInt64 := ofOption fun
  | .int n => if 0 ≤ n ∧ n < UInt64.size then some n.toNat.toUInt64 else none
  | _ => none

def string : Decoder String := ofOption fun
  | .text s => some s
  | _ => none

def bool : Decoder Bool := ofOption fun
  | .bool b => some b
  | _ => none

def instant : Decoder Instant := ofOption fun
  | .text s => Instant.ofText? s
  | _ => none

/-- One of some words; a word may also stand as the only field of a map, beside nothing. -/
def choice {α : Type} (site : Site) (all : List α) (label : α → String) : Decoder α := ofOption fun
  | .text s => all.find? fun value => label value == s
  | .map [(s, value)] =>
    if site.isNothing value then all.find? fun value => label value == s else none
  | _ => none

def items {α : Type} (decode : Decoder α) : Decoder (List α)
  | .list items => items.mapM decode
  | _ => .error .shape

def recordFields : Decoder (List (String × Document))
  | .map fields => .ok fields
  | _ => .error .shape

@[simp] theorem recordFields_map (fields : List (String × Document)) : recordFields (.map fields) = .ok fields := rfl

/-- The fields of a record whose names have an order. A list gives them by place; items to spare
pass in TOML alone. -/
def orderedFields (site : Site) (names : List String) : Decoder (List (String × Document))
  | .list items =>
    if site = .toml ∨ items.length ≤ names.length then .ok (names.zip items) else .error .shape
  | document => recordFields document

@[simp] theorem orderedFields_map (site : Site) (names : List String) (fields : List (String × Document)) :
    orderedFields site names (.map fields) = .ok fields := rfl

/-- A list that is read stands for the record that gives its items their names. -/
theorem orderedFields_list {site : Site} {names : List String} {items : List Document}
    {fields : List (String × Document)} (read : orderedFields site names (.list items) = .ok fields) :
    fields = names.zip items := by
  rw [orderedFields] at read
  split at read
  · exact (Except.ok.inj read).symm
  · cases read

/-- A record among whose fields a signal may be refused. The items of a list are read by place, and only then
counted. -/
def placedRecord {α : Type} (names : List String) (byPlace byName : List (String × Document) → Except Refusal α) :
    Decoder α
  | .list items => do
    let value ← byPlace (names.zip items)
    if items.length ≤ names.length then return value else .error .shape
  | document => do byName (← recordFields document)

@[simp] theorem placedRecord_map {α : Type} (names : List String)
    (byPlace byName : List (String × Document) → Except Refusal α) (fields : List (String × Document)) :
    placedRecord names byPlace byName (.map fields) = byName fields := rfl

def sortedMap {α : Type} (decode : Decoder α) : Decoder (SortedMap α)
  | .map fields => do
    return SortedMap.ofList (← fields.mapM fun (name, value) => do return (name, ← decode value))
  | _ => .error .shape

/-- `null` stands for nothing. -/
def optional {α : Type} (decode : Decoder α) : Decoder (Option α)
  | .null => .ok none
  | document => (decode document).map some

/-- A field that need not be there. -/
def field? {α : Type} (fields : List (String × Document)) (name : String) (decode : Decoder α) :
    Except Refusal (Option α) :=
  match fields.lookup name with
  | none => .ok none
  | some document => (decode document).map some

def field {α : Type} (fields : List (String × Document)) (name : String) (decode : Decoder α) :
    Except Refusal α :=
  match fields.lookup name with
  | none => .error .shape
  | some document => decode document

def fieldOr {α : Type} (fields : List (String × Document)) (name : String) (default : α)
    (decode : Decoder α) : Except Refusal α :=
  match fields.lookup name with
  | none => .ok default
  | some document => decode document

/-- A tag is one of some words. Within a tagged record it may also be the place of its word. -/
def tagWord (site : Site) (words : List String) : Decoder String := ofOption fun
  | .text s => words.find? (· == s)
  | .int n => if site = .tagged ∧ 0 ≤ n then words[n.toNat]? else none
  | _ => none

/-- A record that is told by a tag: the word of the tag, and the record. In a list the tag comes first. -/
def taggedRecord (site : Site) (tag : String) (words : List String) : Decoder (String × Document)
  | .list (word :: items) => do return (← tagWord site words word, .list items)
  | document => do return (← field (← recordFields document) tag (tagWord site words), document)

@[simp] theorem taggedRecord_map (site : Site) (tag : String) (words : List String)
    (fields : List (String × Document)) :
    taggedRecord site tag words (.map fields) = do
      return (← field fields tag (tagWord site words), .map fields) := rfl

/-- A field that has been read before and must have been there. -/
def present {α : Type} : Option α → Except Refusal α
  | some value => .ok value
  | none => .error .shape

end Decoder

namespace Document

/-- The fields of a record that are written; those without a value are left out. -/
def record (fields : List (String × Option Document)) : Document :=
  .map (fields.filterMap fun (name, value) => value.map fun value => (name, value))

def ofOption {α : Type} (encode : α → Document) : Option α → Document
  | some value => encode value
  | none => .null

end Document

end SignalDesk
