import SignalDesk.SortedMap

namespace SignalDesk

/-- A document tree, as JSON and TOML texts spell it. A map keeps its fields in the order of writing. -/
inductive Document where
  | null
  | bool (value : Bool)
  | int (value : Int)
  | float (value : Float)
  | text (value : String)
  | list (items : List Document)
  | map (fields : List (String × Document))
deriving Inhabited

namespace Document

/-- JSON has no notation for a number that is not finite. -/
def ofFloat (x : Float) : Document := if x.isFinite then .float x else .null

mutual

/-- The tree that JSON stores: the fields of a map ascend, each name once, the last value of a
name being kept, and a number that is not finite is `null`. -/
def canonical : Document → Document
  | .float x => ofFloat x
  | .list items => .list (canonicalItems items)
  | .map fields => .map (SortedMap.ofList (canonicalFields fields)).entries
  | document => document

def canonicalItems : List Document → List Document
  | [] => []
  | item :: rest => canonical item :: canonicalItems rest

def canonicalFields : List (String × Document) → List (String × Document)
  | [] => []
  | (name, value) :: rest => (name, canonical value) :: canonicalFields rest

end

def ofTexts (texts : List String) : Document := .list (texts.map .text)

def ofSortedMap {α : Type} (encode : α → Document) (map : SortedMap α) : Document :=
  .map (map.mapValues encode).entries

end Document

end SignalDesk
