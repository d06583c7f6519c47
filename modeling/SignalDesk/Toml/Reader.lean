import SignalDesk.Decimal.Reading
import SignalDesk.Instant
import SignalDesk.Toml.Table

namespace SignalDesk.Toml

def skipSpace (s : List Char) : List Char := s.dropWhile fun c => c = ' ' || c = '\t'

/-- Tab, or no control character. -/
def isPlain (c : Char) : Bool := c = '\t' || 0x20 ≤ c.toNat && c.toNat ≠ 0x7F

def newline? : List Char → Option (List Char)
  | '\n' :: rest => some rest
  | '\r' :: '\n' :: rest => some rest
  | _ => none

/-- Skips a comment up to the end of its line. -/
def skipComment (s : List Char) : List Char :=
  match s with
  | '#' :: rest => rest.dropWhile isPlain
  | s => s

/-- Skips the blanks and the comment at the end of a line, and the line end itself. -/
def endLine? (s : List Char) : Option (List Char) :=
  match skipComment (skipSpace s) with
  | [] => some []
  | s => newline? s

/-- Skips blanks, comments and line ends. -/
def skipLines : Nat → List Char → List Char
  | 0, s => s
  | fuel + 1, s =>
    match skipComment (skipSpace s) with
    | [] => []
    | s =>
      match newline? s with
      | some rest => skipLines fuel rest
      | none => s

def scalar? (digits : List Char) : Option Char := do
  let value := digitsValue 16 (← digits.mapM (digitValue? 16))
  if value < 0xD800 ∨ 0xE000 ≤ value ∧ value < 0x110000 then some (Char.ofNat value) else none

def simpleEscape? : Char → Option Char
  | 'b' => some '\x08'
  | 't' => some '\t'
  | 'n' => some '\n'
  | 'f' => some '\x0c'
  | 'r' => some '\r'
  | '"' => some '"'
  | '\\' => some '\\'
  | _ => none

/-- The rest of a basic string behind its opening quote. -/
def readBasic : List Char → Option (List Char × List Char)
  | '"' :: rest => some ([], rest)
  | '\\' :: 'u' :: a :: b :: c :: d :: rest => do
    let escaped ← scalar? [a, b, c, d]
    let (text, rest) ← readBasic rest
    some (escaped :: text, rest)
  | '\\' :: 'U' :: a :: b :: c :: d :: e :: f :: g :: h :: rest => do
    let escaped ← scalar? [a, b, c, d, e, f, g, h]
    let (text, rest) ← readBasic rest
    some (escaped :: text, rest)
  | '\\' :: c :: rest => do
    let escaped ← simpleEscape? c
    let (text, rest) ← readBasic rest
    some (escaped :: text, rest)
  | c :: rest =>
    if isPlain c then do
      let (text, rest) ← readBasic rest
      some (c :: text, rest)
    else none
  | [] => none

/-- Where a multi-line string is read: in its text, behind a backslash that ends the line, or in the
blanks of the lines below it. -/
inductive LineMode where
  | text
  | lineEnd
  | below
deriving DecidableEq

/-- The rest of a multi-line basic string behind its opening quotes. Up to two quotes may stand right
before the closing ones. -/
def readMultilineBasic : LineMode → List Char → Option (List Char × List Char)
  | .lineEnd, c :: rest =>
    if c = '\n' then readMultilineBasic .below rest
    else if c = ' ' ∨ c = '\t' ∨ (c = '\r' ∧ rest.head? = some '\n') then readMultilineBasic .lineEnd rest
    else none
  | _, '"' :: '"' :: '"' :: '"' :: '"' :: rest => some (['"', '"'], rest)
  | _, '"' :: '"' :: '"' :: '"' :: rest => some (['"'], rest)
  | _, '"' :: '"' :: '"' :: rest => some ([], rest)
  | _, '\\' :: 'u' :: a :: b :: c :: d :: rest => do
    let escaped ← scalar? [a, b, c, d]
    let (text, rest) ← readMultilineBasic .text rest
    some (escaped :: text, rest)
  | _, '\\' :: 'U' :: a :: b :: c :: d :: e :: f :: g :: h :: rest => do
    let escaped ← scalar? [a, b, c, d, e, f, g, h]
    let (text, rest) ← readMultilineBasic .text rest
    some (escaped :: text, rest)
  | _, '\\' :: c :: rest =>
    match simpleEscape? c with
    | some escaped => do
      let (text, rest) ← readMultilineBasic .text rest
      some (escaped :: text, rest)
    | none => readMultilineBasic .lineEnd (c :: rest)
  | mode, c :: rest =>
    if mode = .below ∧ (c = ' ' ∨ c = '\t' ∨ c = '\n') then readMultilineBasic .below rest
    else if c = '\r' ∧ rest.head? = some '\n' then readMultilineBasic mode rest
    else if isPlain c ∨ c = '\n' then do
      let (text, rest) ← readMultilineBasic .text rest
      some (c :: text, rest)
    else none
  | _, [] => none

def readLiteral : List Char → Option (List Char × List Char)
  | '\'' :: rest => some ([], rest)
  | c :: rest =>
    if isPlain c then do
      let (text, rest) ← readLiteral rest
      some (c :: text, rest)
    else none
  | [] => none

def readMultilineLiteral : List Char → Option (List Char × List Char)
  | '\'' :: '\'' :: '\'' :: '\'' :: '\'' :: rest => some (['\'', '\''], rest)
  | '\'' :: '\'' :: '\'' :: '\'' :: rest => some (['\''], rest)
  | '\'' :: '\'' :: '\'' :: rest => some ([], rest)
  | '\r' :: '\n' :: rest => do
    let (text, rest) ← readMultilineLiteral rest
    some ('\n' :: text, rest)
  | c :: rest =>
    if isPlain c ∨ c = '\n' then do
      let (text, rest) ← readMultilineLiteral rest
      some (c :: text, rest)
    else none
  | [] => none

/-- A line end right behind the opening quotes does not count. -/
def skipFirstNewline (s : List Char) : List Char := (newline? s).getD s

/-- A string of any of the four forms. -/
def readString (s : List Char) : Option (String × List Char) := do
  let (text, rest) ← match s with
    | '"' :: '"' :: '"' :: rest => readMultilineBasic .text (skipFirstNewline rest)
    | '"' :: rest => readBasic rest
    | '\'' :: '\'' :: '\'' :: rest => readMultilineLiteral (skipFirstNewline rest)
    | '\'' :: rest => readLiteral rest
    | _ => none
  some (String.ofList text, rest)

def readKeyPart (s : List Char) : Option (String × List Char) :=
  match s with
  | '"' :: rest => (readBasic rest).map fun (text, rest) => (String.ofList text, rest)
  | '\'' :: rest => (readLiteral rest).map fun (text, rest) => (String.ofList text, rest)
  | s =>
    let part := s.takeWhile isBareKeyChar
    if part.isEmpty then none else some (String.ofList part, s.dropWhile isBareKeyChar)

/-- How deep arrays and inline tables may nest, and how many parts a key may have. -/
def maxDepth : Nat := 79

/-- At most so many parts with dots between them, and at least one: those before the last, and it. -/
def readKeyParts : Nat → List Char → Option ((List String × String) × List Char)
  | 0, _ => none
  | more + 1, s => do
    let (part, rest) ← readKeyPart (skipSpace s)
    match skipSpace rest with
    | '.' :: rest =>
      let ((path, last), rest) ← readKeyParts more rest
      some ((part :: path, last), rest)
    | rest => some (([], part), rest)

def readKey (s : List Char) : Option ((List String × String) × List Char) := readKeyParts maxDepth s

/-- Digits of a base with single underscores between them. -/
def readDigits (base : Nat) : List Char → Option (List Nat × List Char)
  | [] => none
  | c :: rest => do
    let digit ← digitValue? base c
    match rest with
    | '_' :: after =>
      let (digits, rest) ← readDigits base after
      some (digit :: digits, rest)
    | rest =>
      match readDigits base rest with
      | some (digits, rest) => some (digit :: digits, rest)
      | none => some ([digit], rest)

def readSign : List Char → Bool × List Char
  | '-' :: rest => (true, rest)
  | '+' :: rest => (false, rest)
  | s => (false, s)

/-- A whole part without leading zeros, then a fraction and an exponent where written. -/
def readDecimal (s : List Char) : Option (NumberText × List Char) := do
  let (negative, s) := readSign s
  let (whole, s) ← match s with
    | '0' :: rest => some ([0], rest)
    | s => readDigits 10 s
  let (fraction, s) := match s with
    | '.' :: rest =>
      match readDigits 10 rest with
      | some (digits, rest) => (some digits, rest)
      | none => (none, s)
    | s => (none, s)
  let (exponent, s) := match s with
    | c :: rest =>
      if c = 'e' ∨ c = 'E' then
        let (negative, rest) := readSign rest
        match readDigits 10 rest with
        | some (digits, rest) =>
          let magnitude : Int := digitsValue 10 digits
          (some (if negative then -magnitude else magnitude), rest)
        | none => (none, s)
      else (none, s)
    | [] => (none, s)
  some (⟨negative, whole, fraction, exponent⟩, s)

def hasWord (word : String) (s : List Char) : Bool := word.toList.isPrefixOf s

/-- Whole numbers have 64 bits and a sign. -/
def wholeNumber? (n : Int) : Option Document :=
  if Int64.minValue.toInt ≤ n ∧ n ≤ Int64.maxValue.toInt then some (.int n) else none

/-- A number in any of its forms. No number may be too great for a double. -/
def readNumber (s : List Char) : Option (Document × List Char) := do
  let based (base : Nat) (rest : List Char) : Option (Document × List Char) := do
    let (digits, rest) ← readDigits base rest
    some (← wholeNumber? (digitsValue base digits), rest)
  match s with
  | '0' :: 'x' :: rest => based 16 rest
  | '0' :: 'o' :: rest => based 8 rest
  | '0' :: 'b' :: rest => based 2 rest
  | s =>
    let (negative, unsigned) := readSign s
    if hasWord "inf" unsigned then
      some (.float (if negative then -1.0 / 0.0 else 1.0 / 0.0), unsigned.drop 3)
    else if hasWord "nan" unsigned then some (.float (0.0 / 0.0), unsigned.drop 3)
    else
      let (n, rest) ← readDecimal s
      if n.isWhole then some (← wholeNumber? n.toInt, rest)
      else if n.toFloat == 1.0 / 0.0 then none
      else some (.float n.toFloat, rest)

def fixedDigits? (count : Nat) (s : List Char) : Option (Nat × List Char) := do
  let digits ← (s.take count).mapM (digitValue? 10)
  if digits.length = count then some (digitsValue 10 digits, s.drop count) else none

/-- The digits of a fraction of a second down to nanoseconds, without zeros at the end. -/
def fractionText (digits : List Char) : List Char :=
  let kept := ((digits.take 9).reverse.dropWhile (· = '0')).reverse
  if kept.isEmpty then [] else '.' :: kept

/-- A time of day: its text and the rest. -/
def readTime (s : List Char) : Option (List Char × List Char) := do
  let (hour, rest) ← fixedDigits? 2 s
  let rest ← if rest.head? = some ':' then some rest.tail else none
  let (minute, rest) ← fixedDigits? 2 rest
  let rest ← if rest.head? = some ':' then some rest.tail else none
  let (second, rest) ← fixedDigits? 2 rest
  if 24 ≤ hour ∨ 60 ≤ minute ∨ 61 ≤ second then none
  else match rest with
    | '.' :: after =>
      let digits := after.takeWhile Char.isDigit
      if digits.isEmpty then none
      else some (s.take 8 ++ fractionText digits, after.dropWhile Char.isDigit)
    | rest => some (s.take 8, rest)

/-- The offset of a time from universal time, where one is written. No offset is negative by nothing. -/
def readOffset (s : List Char) : Option (List Char × List Char) :=
  match s with
  | c :: after =>
    if c = 'Z' ∨ c = 'z' then some (['Z'], after)
    else if c = '+' ∨ c = '-' then do
      let (hour, rest) ← fixedDigits? 2 after
      let rest ← if rest.head? = some ':' then some rest.tail else none
      let (minute, rest) ← fixedDigits? 2 rest
      if 24 ≤ hour ∨ 60 ≤ minute then none
      else some ((if hour = 0 ∧ minute = 0 then '+' else c) :: after.take 5, rest)
    else some ([], s)
  | [] => some ([], s)

/-- A date, a time of day, or both with or without an offset. -/
def readMoment (s : List Char) : Option (List Char × List Char) :=
  match fixedDigits? 4 s with
  | some (year, '-' :: rest) => do
    let (month, rest) ← fixedDigits? 2 rest
    let rest ← if rest.head? = some '-' then some rest.tail else none
    let (day, rest) ← fixedDigits? 2 rest
    if !(CivilDate.mk year month day).isValid then none
    else match rest with
      | c :: after =>
        if c = 'T' ∨ c = 't' ∨ c = ' ' ∧ (fixedDigits? 2 after).isSome then do
          let (time, rest) ← readTime after
          let (offset, rest) ← readOffset rest
          some (s.take 10 ++ 'T' :: time ++ offset, rest)
        else some (s.take 10, rest)
      | [] => some (s.take 10, [])
  | _ => readTime s

/-- The name of the one field of the map that stands for a date or a time. -/
def momentField : String := "$__toml_private_datetime"

/-- Whether a value starts like a date or a time. -/
def startsMoment (s : List Char) : Bool :=
  match fixedDigits? 4 s, fixedDigits? 2 s with
  | some (_, '-' :: _), _ => true
  | _, some (_, ':' :: _) => true
  | _, _ => false

/-- A value without an inner structure. -/
def readScalar (s : List Char) : Option (Document × List Char) :=
  match s with
  | [] => none
  | c :: _ =>
    if c = '"' ∨ c = '\'' then (readString s).map fun (text, rest) => (.text text, rest)
    else if hasWord "true" s then some (.bool true, s.drop 4)
    else if hasWord "false" s then some (.bool false, s.drop 5)
    else if startsMoment s then do
      let (text, rest) ← readMoment s
      some (.map [(momentField, .text (String.ofList text))], rest)
    else readNumber s

mutual

/-- A value, whose first character is no blank. It may nest at most `depth` levels more. -/
def readValue : Nat → Nat → List Char → Option (Document × List Char)
  | 0, _, _ => none
  | fuel + 1, depth, '[' :: rest =>
    match depth with
    | 0 => none
    | depth + 1 => do
      let (items, rest) ← readItems fuel depth rest
      some (.list items, rest)
  | fuel + 1, depth, '\x7b' :: rest =>
    match depth with
    | 0 => none
    | depth + 1 =>
      match skipSpace rest with
      | '\x7d' :: rest => some (.map [], rest)
      | rest => readFields fuel depth [] rest
  | _ + 1, _, s => readScalar s

/-- The rest of an array; line ends and comments may stand between its items. -/
def readItems : Nat → Nat → List Char → Option (List Document × List Char)
  | 0, _, _ => none
  | fuel + 1, depth, s =>
    match skipLines fuel s with
    | ']' :: rest => some ([], rest)
    | s => do
      let (item, rest) ← readValue fuel depth s
      match skipLines fuel rest with
      | ',' :: rest =>
        let (items, rest) ← readItems fuel depth rest
        some (item :: items, rest)
      | ']' :: rest => some ([item], rest)
      | _ => none

/-- The rest of an inline table, which stands on one line. -/
def readFields : Nat → Nat → Table → List Char → Option (Document × List Char)
  | 0, _, _, _ => none
  | fuel + 1, depth, table, s => do
    let ((path, key), rest) ← readKey s
    match rest with
    | '=' :: rest =>
      let (value, rest) ← readValue fuel depth (skipSpace rest)
      let table ← table.addValue true key value path
      match skipSpace rest with
      | ',' :: rest => readFields fuel depth table rest
      | '\x7d' :: rest => some (.map (tableFields table), rest)
      | _ => none
    | _ => none

end

/-- The part of a text that has been read: the tables closed so far, and the one being filled. -/
structure Progress where
  closed : Table
  array : Bool
  path : List String
  current : Table

def Progress.start : Progress := ⟨[], false, [], []⟩

def Progress.finish (p : Progress) : Option Table :=
  if p.path.isEmpty then some p.current else Table.close p.array p.current p.path p.closed

/-- Closes the table being filled and opens the one of a header. -/
def Progress.header (p : Progress) (array : Bool) (path : List String) : Option Progress := do
  let closed ← p.finish
  let current ← closed.opened array path
  some ⟨closed, array, path, current⟩

/-- One line: a header, a key with its value, or neither. -/
def readLine (fuel : Nat) (p : Progress) (s : List Char) : Option (Progress × List Char) :=
  match skipSpace s with
  | '[' :: '[' :: rest => do
    let ((path, last), rest) ← readKey rest
    match rest with
    | ']' :: ']' :: rest => some (← p.header true (path ++ [last]), ← endLine? rest)
    | _ => none
  | '[' :: rest => do
    let ((path, last), rest) ← readKey rest
    match rest with
    | ']' :: rest => some (← p.header false (path ++ [last]), ← endLine? rest)
    | _ => none
  | s =>
    match endLine? s with
    | some rest => some (p, rest)
    | none => do
      let ((path, key), rest) ← readKey s
      match rest with
      | '=' :: rest =>
        let (value, rest) ← readValue fuel maxDepth (skipSpace rest)
        let current ← p.current.addValue true key value path
        some ({ p with current }, ← endLine? rest)
      | _ => none

def readLines : Nat → Progress → List Char → Option Table
  | _, p, [] => p.finish
  | 0, _, _ => none
  | fuel + 1, p, s => do
    let (p, rest) ← readLine fuel p s
    readLines fuel p rest

/-- The tree of a TOML text. A byte order mark before it does not count. -/
def read (text : String) : Option Document := do
  let s := match text.toList with
    | '\uFEFF' :: rest => rest
    | s => s
  return .map (tableFields (← readLines (2 * s.length + 2) .start s))

end SignalDesk.Toml
