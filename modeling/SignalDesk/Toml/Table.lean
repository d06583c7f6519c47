import SignalDesk.Document

namespace SignalDesk.Toml

/-- A character of a key that needs no quotes. -/
def isBareKeyChar (c : Char) : Bool :=
  'A' ≤ c && c ≤ 'Z' || 'a' ≤ c && c ≤ 'z' || '0' ≤ c && c ≤ '9' || c = '_' || c = '-'

/-- How a table came about, which decides who may add to it. -/
inductive Origin where
  /-- named by a header of its own -/
  | header
  /-- named only on the way of a longer header -/
  | way
  /-- named by dotted keys -/
  | dotted
deriving Repr, DecidableEq

/-- A tree under construction. Values are closed, tables are still open. -/
inductive Node where
  | leaf (value : Document)
  | table (origin : Origin) (fields : List (String × Node))
  /-- the elements of an array of tables -/
  | tables (elements : List (List (String × Node)))
deriving Inhabited

abbrev Table := List (String × Node)

mutual

def Node.toDocument : Node → Document
  | .leaf value => value
  | .table _ fields => .map (tableFields fields)
  | .tables elements => .list (tableElements elements)

def tableFields : List (String × Node) → List (String × Document)
  | [] => []
  | (name, node) :: rest => (name, node.toDocument) :: tableFields rest

def tableElements : List (List (String × Node)) → List Document
  | [] => []
  | fields :: rest => .map (tableFields fields) :: tableElements rest

end

/-- Puts a node in the place of the one under a name, or behind all others. -/
def Table.put (table : Table) (name : String) (node : Node) : Table :=
  if (table.lookup name).isSome then
    table.map fun field => if field.1 == name then (name, node) else field
  else table ++ [(name, node)]

/-- Adds a value under a dotted key. Only tables without a header of their own may be entered, and a
value may be added only to the table the line belongs to and to dotted ones. -/
def Table.addValue (accepts : Bool) (key : String) (value : Document) :
    List String → Table → Option Table
  | [], table =>
    if accepts && (table.lookup key).isNone then some (table ++ [(key, .leaf value)]) else none
  | name :: path, table =>
    match table.lookup name with
    | none => do
      let inner ← addValue true key value path []
      some (table.put name (.table .dotted inner))
    | some (.table origin inner) =>
      if origin = .header then none
      else do
        let inner ← addValue (origin = .dotted) key value path inner
        some (table.put name (.table origin inner))
    | some (.tables elements) => do
      let inner ← addValue false key value path (← elements.getLast?)
      some (table.put name (.tables (elements.dropLast ++ [inner])))
    | some (.leaf _) => none

/-- What a header finds in place: the fields of a table met only on the way, or nothing. No other
table is opened twice, and an array of tables only grows. -/
def Table.opened (array : Bool) : List String → Table → Option Table
  | [], _ => none
  | [name], table =>
    match table.lookup name, array with
    | none, _ => some []
    | some (.table .way inner), false => some inner
    | some (.tables _), true => some []
    | _, _ => none
  | name :: path, table =>
    match table.lookup name with
    | none => some []
    | some (.table _ inner) => opened array path inner
    | some (.tables elements) => do opened array path (← elements.getLast?)
    | some (.leaf _) => none

/-- Puts a table in the place its header names, in an array of tables behind the others. -/
def Table.close (array : Bool) (content : Table) : List String → Table → Option Table
  | [], _ => none
  | [name], table =>
    if array then
      match table.lookup name with
      | none => some (table.put name (.tables [content]))
      | some (.tables elements) => some (table.put name (.tables (elements ++ [content])))
      | _ => none
    else some (table.put name (.table .header content))
  | name :: path, table =>
    match table.lookup name with
    | none => do
      let inner ← close array content path []
      some (table.put name (.table .way inner))
    | some (.table origin inner) => do
      let inner ← close array content path inner
      some (table.put name (.table origin inner))
    | some (.tables elements) => do
      let inner ← close array content path (← elements.getLast?)
      some (table.put name (.tables (elements.dropLast ++ [inner])))
    | some (.leaf _) => none

end SignalDesk.Toml
