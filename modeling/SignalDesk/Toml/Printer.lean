import SignalDesk.Decimal.NumberStyle
import SignalDesk.Toml.Table

namespace SignalDesk.Toml

/-- A character that no string may hold as it is. -/
def isControl (c : Char) : Bool :=
  c.toNat < 0x20 && c ≠ '\t' && c ≠ '\n' || c.toNat = 0x7F

def hexDigit (n : Nat) : Char := (Nat.digitChar n).toUpper

/-- A character as it stands in a basic string. -/
def escape (multiline : Bool) (c : Char) : List Char :=
  if c = '\x08' then ['\\', 'b']
  else if c = '\t' then ['\\', 't']
  else if c = '\n' then if multiline then ['\n'] else ['\\', 'n']
  else if c = '\x0c' then ['\\', 'f']
  else if c = '\r' then ['\\', 'r']
  else if c = '\\' then ['\\', '\\']
  else if isControl c then
    ['\\', 'u', '0', '0', hexDigit (c.toNat / 16), hexDigit (c.toNat % 16)]
  else [c]

/-- Every quote is escaped in a single line, and in several lines every third one in a row. -/
def escapeText (multiline : Bool) (quotes : Nat) : List Char → List Char
  | [] => []
  | '"' :: rest =>
    if multiline && quotes < 2 then '"' :: escapeText multiline (quotes + 1) rest
    else '\\' :: '"' :: escapeText multiline 0 rest
  | c :: rest => escape multiline c ++ escapeText multiline 0 rest

/-- The longest run of a character. -/
def longestRun (mark : Char) : Nat → List Char → Nat
  | run, [] => run
  | run, c :: rest => if c = mark then longestRun mark (run + 1) rest else max run (longestRun mark 0 rest)

def basic (s : List Char) : String := "\"" ++ String.ofList (escapeText false 0 s) ++ "\""

def literal (s : List Char) : String := "'" ++ String.ofList s ++ "'"

/-- A text of several lines starts on a line of its own. -/
def opening (s : List Char) : String := if s.contains '\n' then "\n" else ""

def multilineBasic (s : List Char) : String :=
  "\"\"\"" ++ opening s ++ String.ofList (escapeText true 0 s) ++ "\"\"\""

def multilineLiteral (s : List Char) : String :=
  "'''" ++ opening s ++ String.ofList s ++ "'''"

/-- The first form that needs no escapes, a tab in a basic string apart. -/
def string (text : String) : String :=
  let s := text.toList
  let line := !s.contains '\n'
  let plain := !s.any isControl
  if plain && line && !s.contains '\\' && !s.contains '"' then basic s
  else if plain && line && !s.contains '\'' then literal s
  else if plain && !s.contains '\\' && longestRun '"' 0 s ≤ 2 then multilineBasic s
  else if plain && longestRun '\'' 0 s ≤ 2 then multilineLiteral s
  else if line then basic s
  else multilineBasic s

/-- A key stands on one line, bare where it can. -/
def key (text : String) : String :=
  let s := text.toList
  let plain := !s.any fun c => isControl c || c = '\n'
  if !s.isEmpty && s.all isBareKeyChar then text
  else if plain && !s.contains '\\' && !s.contains '"' then basic s
  else if plain && !s.contains '\'' then literal s
  else basic s

mutual

/-- A value on one line; an empty list has no items to stand in tables. -/
def inlineValue : Document → Option String
  | .null => none
  | .bool b => some (if b then "true" else "false")
  | .int n =>
    if Int64.minValue.toInt ≤ n ∧ n ≤ Int64.maxValue.toInt then some (toString n) else none
  | .float x => some (NumberStyle.toml.render x)
  | .text s => some (string s)
  | .list items => do some ("[" ++ ", ".intercalate (← inlineItems items) ++ "]")
  | .map fields => do
    let fields ← inlineFields fields
    some (if fields.isEmpty then "\x7b\x7d" else "\x7b " ++ ", ".intercalate fields ++ " \x7d")

def inlineItems : List Document → Option (List String)
  | [] => some []
  | item :: rest => do some ((← inlineValue item) :: (← inlineItems rest))

def inlineFields : List (String × Document) → Option (List String)
  | [] => some []
  | (name, value) :: rest => do
    some ((key name ++ " = " ++ (← inlineValue value)) :: (← inlineFields rest))

end

def isMap : Document → Bool
  | .map _ => true
  | _ => false

/-- Whether a value is written as tables below the values of its own table. -/
def standsInTables : Document → Bool
  | .map _ => true
  | .list items => !items.isEmpty && items.all isMap
  | _ => false

/-- The values of a table that stand in it, one a line. -/
def valueLines (fields : List (String × Document)) : Option String := do
  let lines ← (fields.filter fun field => !standsInTables field.2).mapM fun (name, value) => do
    some (key name ++ " = " ++ (← inlineValue value) ++ "\n")
  some (String.join lines)

/-- A table without values of its own is named only by the tables in it. -/
def hasHeader (fields : List (String × Document)) : Bool :=
  fields.isEmpty || fields.any fun field => !standsInTables field.2

def dotted (path : List String) : String := ".".intercalate (path.map key)

mutual

/-- The tables that a value stands in, under the path of its table. -/
def tableText (path : List String) : Document → Option String
  | .map fields => do
    let header := if hasHeader fields then "\n[" ++ dotted path ++ "]\n" else ""
    some (header ++ (← valueLines fields) ++ (← innerTables path fields))
  | .list items => elementTables path items
  | _ => some ""

def innerTables (path : List String) : List (String × Document) → Option String
  | [] => some ""
  | (name, value) :: rest => do
    let first ← if standsInTables value then tableText (path ++ [name]) value else some ""
    some (first ++ (← innerTables path rest))

def elementTables (path : List String) : List Document → Option String
  | [] => some ""
  | .map fields :: rest => do
    let first := "\n[[" ++ dotted path ++ "]]\n" ++ (← valueLines fields) ++
      (← innerTables path fields)
    some (first ++ (← elementTables path rest))
  | _ :: rest => elementTables path rest

end

/-- The text of a tree of tables, if TOML has a notation for everything in it. -/
def print : Document → Option String
  | .map fields => do some ((← valueLines fields) ++ (← innerTables [] fields))
  | _ => none

end SignalDesk.Toml
