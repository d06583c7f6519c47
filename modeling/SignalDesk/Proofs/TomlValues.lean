import SignalDesk.Proofs.TomlDoubles
import SignalDesk.Proofs.TomlText

namespace SignalDesk

namespace Toml

/-- Values that stand on a line of their own: no list but the empty one has to. -/
def IsSimple : Document → Prop
  | .bool _ | .text _ => True
  | .int n => Int64.minValue.toInt ≤ n ∧ n ≤ Int64.maxValue.toInt
  | .float x => x.isFinite = true
  | .list items => items = []
  | .null | .map _ => False

/-- Characters that a value without an inner structure starts with. -/
def startsScalar (c : Char) : Bool := c ≠ ' ' && c ≠ '\t' && c ≠ '[' && c ≠ '\x7b'

theorem readScalar_string (text : String) (rest : List Char) :
    readScalar ((string text).toList ++ '\n' :: rest) = some (.text text, '\n' :: rest) := by
  obtain ⟨c, cs, chars, quote⟩ := string_eq_cons text
  have read := readString_string text (endsString_cons (by decide : '\n' ≠ '"' ∧ '\n' ≠ '\'') rest)
  rw [chars, List.cons_append] at read ⊢
  rw [readScalar, if_pos quote, read]
  rfl

theorem readValue_scalar (fuel depth : Nat) {c : Char} (starts : startsScalar c = true) (s : List Char) :
    readValue (fuel + 1) depth (c :: s) = readScalar (c :: s) := by
  rw [readValue.eq_def]
  split <;> simp_all [startsScalar]

theorem skipSpace_cons {c : Char} (visible : c ≠ ' ' ∧ c ≠ '\t') (s : List Char) : skipSpace (c :: s) = c :: s := by
  simp [skipSpace, visible.1, visible.2]

theorem starts_digit {c : Char} (digit : c.isDigit = true) : startsScalar c = true := by
  simp only [startsScalar, Bool.and_eq_true, decide_eq_true_eq]
  refine ⟨⟨⟨?_, ?_⟩, ?_⟩, ?_⟩ <;> rintro rfl <;> cases digit

theorem IsWholePart.starts {whole : List Char} (part : IsWholePart whole) (negative : Bool) (rest : List Char) :
    ∃ c cs, minus negative ++ (whole ++ rest) = c :: cs ∧ startsScalar c = true := by
  obtain ⟨c, cs, rfl, digit, -⟩ := part.eq_cons
  cases negative with
  | true => exact ⟨'-', _, rfl, rfl⟩
  | false => exact ⟨c, cs ++ rest, rfl, starts_digit digit⟩

/-- Behind its equals sign a value without an inner structure is read up to the end of its line. -/
theorem readValue_scalar_line {text : List Char} {value : Document}
    (starts : ∃ c cs, text = c :: cs ∧ startsScalar c = true)
    (read : ∀ rest, readScalar (text ++ '\n' :: rest) = some (value, '\n' :: rest)) (fuel depth : Nat)
    (rest : List Char) :
    readValue (fuel + 1) depth (skipSpace (' ' :: (text ++ '\n' :: rest))) = some (value, '\n' :: rest) := by
  obtain ⟨c, cs, rfl, starts⟩ := starts
  have visible : c ≠ ' ' ∧ c ≠ '\t' := by
    simp only [startsScalar, Bool.and_eq_true, decide_eq_true_eq] at starts
    exact ⟨starts.1.1.1, starts.1.1.2⟩
  have skipped : skipSpace (' ' :: (c :: cs ++ '\n' :: rest)) = c :: cs ++ '\n' :: rest := by
    change skipSpace (c :: cs ++ '\n' :: rest) = _
    exact skipSpace_cons visible _
  rw [skipped, List.cons_append, readValue_scalar fuel depth starts, ← List.cons_append, read]

/-- A character of a line that is neither blank nor the start of a comment. -/
def isVisible (c : Char) : Bool := c ≠ ' ' && c ≠ '\t' && c ≠ '#' && c ≠ '\n' && c ≠ '\r'

theorem skipComment_visible {c : Char} (visible : isVisible c = true) (s : List Char) :
    skipComment (skipSpace (c :: s)) = c :: s ∧ newline? (c :: s) = none := by
  simp only [isVisible, Bool.and_eq_true, decide_eq_true_eq] at visible
  obtain ⟨⟨⟨⟨noSpace, noTab⟩, noMark⟩, noNewline⟩, noCarriage⟩ := visible
  refine ⟨?_, newline?_cons noNewline noCarriage s⟩
  rw [skipSpace_cons ⟨noSpace, noTab⟩, skipComment.eq_def]
  split <;> simp_all

theorem endLine?_visible {c : Char} (visible : isVisible c = true) (s : List Char) : endLine? (c :: s) = none := by
  obtain ⟨same, noNewline⟩ := skipComment_visible visible s
  rw [endLine?, same]
  exact noNewline

theorem skipLines_visible {c : Char} (visible : isVisible c = true) (fuel : Nat) (s : List Char) :
    skipLines fuel (c :: s) = c :: s := by
  obtain ⟨same, noNewline⟩ := skipComment_visible visible s
  cases fuel with
  | zero => rfl
  | succ fuel =>
    rw [skipLines, same]
    simp only [noNewline]

theorem readValue_inlineValue {value : Document} (simple : IsSimple value) :
    ∃ text, inlineValue value = some text ∧ ∀ fuel rest,
      readValue (fuel + 2) maxDepth (skipSpace (' ' :: (text.toList ++ '\n' :: rest))) =
        some (value, '\n' :: rest) := by
  cases value with
  | null | map _ => cases simple
  | bool b =>
    refine ⟨if b then "true" else "false", rfl, fun fuel rest => ?_⟩
    refine readValue_scalar_line ?_ (fun rest => ?_) (fuel + 1) maxDepth rest
    · cases b
      · exact ⟨'f', _, rfl, rfl⟩
      · exact ⟨'t', _, rfl, rfl⟩
    · cases b <;> rfl
  | int n =>
    refine ⟨toString n, if_pos simple, fun fuel rest => ?_⟩
    refine readValue_scalar_line ?_ (readScalar_int simple) (fuel + 1) maxDepth rest
    rw [toList_toString, ← List.append_nil (Nat.toDigits 10 _)]
    exact (isWholePart_toDigits _).starts _ []
  | float x =>
    have point := isPointText_toml simple
    refine ⟨NumberStyle.toml.render x, rfl, fun fuel rest => ?_⟩
    refine readValue_scalar_line ?_ (point.readScalar simple) (fuel + 1) maxDepth rest
    obtain ⟨negative, whole, fraction, text, part, -⟩ := point
    rw [text]
    exact part.starts negative _
  | text s =>
    refine ⟨string s, rfl, fun fuel rest => ?_⟩
    refine readValue_scalar_line ?_ (readScalar_string s) (fuel + 1) maxDepth rest
    obtain ⟨c, cs, chars, rfl | rfl⟩ := string_eq_cons s
    · exact ⟨_, cs, chars, rfl⟩
    · exact ⟨_, cs, chars, rfl⟩
  | list items =>
    obtain rfl : items = [] := simple
    refine ⟨"[]", rfl, fun fuel rest => ?_⟩
    have none := skipLines_visible (c := ']') rfl fuel ('\n' :: rest)
    have items : readItems (fuel + 1) 78 (']' :: '\n' :: rest) = some ([], '\n' :: rest) := by
      rw [readItems, none]
      rfl
    change (readItems (fuel + 1) 78 (']' :: '\n' :: rest)).bind
      (fun read => some (Document.list read.1, read.2)) = _
    rw [items]
    rfl

end Toml

end SignalDesk
