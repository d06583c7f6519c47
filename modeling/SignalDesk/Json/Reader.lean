import SignalDesk.Decimal.Reading
import SignalDesk.Document

namespace SignalDesk.Json

def skipSpace (s : List Char) : List Char :=
  s.dropWhile fun c => c = ' ' || c = '\t' || c = '\n' || c = '\r'

def fourHex? : List Char → Option (Nat × List Char)
  | a :: b :: c :: d :: rest => do
    let digits ← [a, b, c, d].mapM (digitValue? 16)
    some (digitsValue 16 digits, rest)
  | _ => none

/-- The character of a `\u` escape; a high surrogate needs a low one after it. -/
def unicodeEscape? (s : List Char) : Option (Char × List Char) := do
  let (unit, rest) ← fourHex? s
  if unit < 0xD800 ∨ 0xE000 ≤ unit then some (Char.ofNat unit, rest)
  else if 0xDC00 ≤ unit then none
  else match rest with
    | '\\' :: 'u' :: rest =>
      let (low, rest) ← fourHex? rest
      if 0xDC00 ≤ low ∧ low < 0xE000 then
        some (Char.ofNat (0x10000 + (unit - 0xD800) * 0x400 + (low - 0xDC00)), rest)
      else none
    | _ => none

def simpleEscape? : Char → Option Char
  | '"' => some '"'
  | '\\' => some '\\'
  | '/' => some '/'
  | 'b' => some '\x08'
  | 'f' => some '\x0c'
  | 'n' => some '\n'
  | 'r' => some '\r'
  | 't' => some '\t'
  | _ => none

/-- The rest of a string behind its opening quote. -/
def readString : Nat → List Char → List Char → Option (String × List Char)
  | 0, _, _ => none
  | _ + 1, _, [] => none
  | _ + 1, done, '"' :: rest => some (String.ofList done.reverse, rest)
  | fuel + 1, done, '\\' :: 'u' :: rest => do
    let (c, rest) ← unicodeEscape? rest
    readString fuel (c :: done) rest
  | fuel + 1, done, '\\' :: c :: rest => do readString fuel ((← simpleEscape? c) :: done) rest
  | fuel + 1, done, c :: rest => if c.toNat < 0x20 then none else readString fuel (c :: done) rest

def readExponent (s : List Char) : Option (Option Int × List Char) :=
  match s with
  | c :: rest =>
    if c = 'e' ∨ c = 'E' then
      let (negative, rest) :=
        match rest with
        | '-' :: rest => (true, rest)
        | '+' :: rest => (false, rest)
        | rest => (false, rest)
      match takeDigits 10 rest with
      | ([], _) => none
      | (digits, rest) =>
        let magnitude : Int := digitsValue 10 digits
        some (some (if negative then -magnitude else magnitude), rest)
    else some (none, s)
  | [] => some (none, s)

def readFraction (s : List Char) : Option (Option (List Nat) × List Char) :=
  match s with
  | '.' :: rest =>
    match takeDigits 10 rest with
    | ([], _) => none
    | (digits, rest) => some (some digits, rest)
  | _ => some (none, s)

/-- Digits without a leading zero, then a fraction and an exponent where written. -/
def readNumber (s : List Char) : Option (NumberText × List Char) := do
  let (negative, s) := match s with
    | '-' :: rest => (true, rest)
    | s => (false, s)
  let (whole, s) := takeDigits 10 s
  match whole with
  | [] => none
  | 0 :: _ :: _ => none
  | _ =>
    let (fraction, s) ← readFraction s
    let (exponent, s) ← readExponent s
    some (⟨negative, whole, fraction, exponent⟩, s)

/-- A whole number that 64 bits hold, signed or not, is an integer; any other number, and minus
zero, is a double. -/
def ofNumber (n : NumberText) : Option Document :=
  if n.isWhole && Int64.minValue.toInt ≤ n.toInt && n.toInt < UInt64.size &&
      !(n.negative && n.toInt == 0) then
    some (.int n.toInt)
  else if n.toFloat.isFinite then some (.float n.toFloat)
  else none

def word? (word : String) (document : Document) (s : List Char) : Option (Document × List Char) :=
  if word.toList.isPrefixOf s then some (document, s.drop word.length) else none

mutual

def readValue : Nat → List Char → Option (Document × List Char)
  | 0, _ => none
  | fuel + 1, s =>
    match skipSpace s with
    | '"' :: rest => do
      let (text, rest) ← readString fuel [] rest
      some (.text text, rest)
    | '[' :: rest =>
      match skipSpace rest with
      | ']' :: rest => some (.list [], rest)
      | rest => do
        let (items, rest) ← readItems fuel rest
        some (.list items, rest)
    | '\x7b' :: rest =>
      match skipSpace rest with
      | '\x7d' :: rest => some (.map [], rest)
      | rest => do
        let (fields, rest) ← readFields fuel rest
        some (.map (SortedMap.ofList fields).entries, rest)
    | 't' :: rest => word? "true" (.bool true) ('t' :: rest)
    | 'f' :: rest => word? "false" (.bool false) ('f' :: rest)
    | 'n' :: rest => word? "null" .null ('n' :: rest)
    | s => do
      let (n, rest) ← readNumber s
      some (← ofNumber n, rest)

def readItems : Nat → List Char → Option (List Document × List Char)
  | 0, _ => none
  | fuel + 1, s => do
    let (item, rest) ← readValue fuel s
    match skipSpace rest with
    | ',' :: rest =>
      let (items, rest) ← readItems fuel rest
      some (item :: items, rest)
    | ']' :: rest => some ([item], rest)
    | _ => none

def readFields : Nat → List Char → Option (List (String × Document) × List Char)
  | 0, _ => none
  | fuel + 1, s =>
    match skipSpace s with
    | '"' :: rest => do
      let (name, rest) ← readString fuel [] rest
      match skipSpace rest with
      | ':' :: rest =>
        let (value, rest) ← readValue fuel rest
        match skipSpace rest with
        | ',' :: rest =>
          let (fields, rest) ← readFields fuel rest
          some ((name, value) :: fields, rest)
        | '\x7d' :: rest => some ([(name, value)], rest)
        | _ => none
      | _ => none
    | _ => none

end

/-- The tree of a JSON text, its maps sorted by name. -/
def read (text : String) : Option Document := do
  let s := text.toList
  let (document, rest) ← readValue (2 * s.length + 2) s
  if (skipSpace rest).isEmpty then some document else none

end SignalDesk.Json
