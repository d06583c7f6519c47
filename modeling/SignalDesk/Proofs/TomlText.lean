import SignalDesk.Proofs.JsonForm
import SignalDesk.Toml.Printer
import SignalDesk.Toml.Reader

namespace SignalDesk.Toml

theorem isPlain_of_not_isControl {c : Char} (visible : isControl c = false) (inLine : c ≠ '\n') :
    isPlain c = true := by
  simp only [isControl, Bool.or_eq_false_iff, Bool.and_eq_false_iff, decide_eq_false_iff_not] at visible
  simp only [isPlain, Bool.or_eq_true, Bool.and_eq_true, decide_eq_true_eq]
  grind

theorem scalar?_hex {c : Char} (control : isControl c = true) :
    scalar? ['0', '0', hexDigit (c.toNat / 16), hexDigit (c.toNat % 16)] = some c := by
  have small : c.toNat < 128 := by
    simp only [isControl, Bool.or_eq_true, Bool.and_eq_true, decide_eq_true_eq] at control
    omega
  have table : ∀ n < 128, scalar? ['0', '0', hexDigit (n / 16), hexDigit (n % 16)] = some (Char.ofNat n) := by
    decide
  rw [table _ small, Char.ofNat_toNat]

/-- Puts characters in front of what has been read. -/
def prepend (front : List Char) (read : Option (List Char × List Char)) : Option (List Char × List Char) := do
  let (text, rest) ← read
  some (front ++ text, rest)

@[simp] theorem prepend_some (front text rest : List Char) :
    prepend front (some (text, rest)) = some (front ++ text, rest) := rfl

@[simp] theorem prepend_nil (read : Option (List Char × List Char)) : prepend [] read = read := by
  cases read <;> rfl

/-- A character stands by a letter behind a backslash, by its number, or as it is. -/
theorem escape_cases (multiline : Bool) (c : Char) :
    (∃ letter, escape multiline c = ['\\', letter] ∧ simpleEscape? letter = some c) ∨
      (isControl c = true ∧
        escape multiline c = ['\\', 'u', '0', '0', hexDigit (c.toNat / 16), hexDigit (c.toNat % 16)]) ∨
      escape multiline c = [c] ∧ c ≠ '\\' ∧ (isPlain c = true ∨ multiline = true ∧ c = '\n') := by
  rw [escape]
  split_ifs with backspace tab newline multi feed carriage backslash control
  · exact .inl ⟨'b', rfl, backspace ▸ rfl⟩
  · exact .inl ⟨'t', rfl, tab ▸ rfl⟩
  · exact .inr (.inr ⟨newline ▸ rfl, newline ▸ by decide, .inr ⟨multi, newline⟩⟩)
  · exact .inl ⟨'n', rfl, newline ▸ rfl⟩
  · exact .inl ⟨'f', rfl, feed ▸ rfl⟩
  · exact .inl ⟨'r', rfl, carriage ▸ rfl⟩
  · exact .inl ⟨'\\', rfl, by rw [backslash]; rfl⟩
  · exact .inr (.inl ⟨control, rfl⟩)
  · have visible : isControl c = false := by rwa [Bool.not_eq_true] at control
    exact .inr (.inr ⟨rfl, backslash, .inl (isPlain_of_not_isControl visible newline)⟩)

theorem readBasic_letter {letter c : Char} (means : simpleEscape? letter = some c) (rest : List Char) :
    readBasic ('\\' :: letter :: rest) = prepend [c] (readBasic rest) := by
  rw [simpleEscape?.eq_def] at means
  split at means <;> cases means <;> rfl

theorem readMultilineBasic_letter {letter c : Char} (means : simpleEscape? letter = some c) (rest : List Char) :
    readMultilineBasic .text ('\\' :: letter :: rest) = prepend [c] (readMultilineBasic .text rest) := by
  rw [simpleEscape?.eq_def] at means
  split at means <;> cases means <;> rfl

theorem readBasic_escape {c : Char} (other : c ≠ '"') (rest : List Char) :
    readBasic (escape false c ++ rest) = prepend [c] (readBasic rest) := by
  obtain ⟨letter, written, means⟩ | ⟨control, written⟩ | ⟨written, noBackslash, plain | ⟨⟨⟩, -⟩⟩ :=
    escape_cases false c
  · rw [written]
    exact readBasic_letter means rest
  · rw [written]
    simp [readBasic, scalar?_hex control, prepend]
  · rw [written, List.singleton_append, readBasic.eq_def]
    split <;> simp_all [prepend]

theorem readBasic_escapeText (quotes : Nat) (s rest : List Char) :
    readBasic (escapeText false quotes s ++ '"' :: rest) = some (s, rest) := by
  induction s generalizing quotes with
  | nil => simp [escapeText, readBasic]
  | cons c s ih =>
    by_cases quote : c = '"'
    · subst quote
      simp [escapeText, readBasic, simpleEscape?, ih]
    · rw [escapeText, List.append_assoc, readBasic_escape quote, ih]
      · rfl
      · exact quote

theorem readLiteral_append {s : List Char} (plain : ∀ c ∈ s, isPlain c = true ∧ c ≠ '\'') (rest : List Char) :
    readLiteral (s ++ '\'' :: rest) = some (s, rest) := by
  induction s with
  | nil => rfl
  | cons c s ih =>
    obtain ⟨⟨visible, other⟩, later⟩ := List.forall_mem_cons.mp plain
    rw [List.cons_append, readLiteral.eq_def]
    split <;> simp_all

theorem readMultilineBasic_escape {c : Char} (other : c ≠ '"') (rest : List Char) :
    readMultilineBasic .text (escape true c ++ rest) = prepend [c] (readMultilineBasic .text rest) := by
  obtain ⟨letter, written, means⟩ | ⟨control, written⟩ | ⟨written, noBackslash, plain⟩ := escape_cases true c
  · rw [written]
    exact readMultilineBasic_letter means rest
  · rw [written]
    simp [readMultilineBasic, scalar?_hex control, prepend]
  · have noCarriage : c ≠ '\r' := by
      rintro rfl
      exact absurd plain (by decide)
    rw [written, List.singleton_append, readMultilineBasic.eq_def]
    split <;> simp_all [prepend]

/-- What stands behind a string starts with no quote. -/
def EndsString (rest : List Char) : Prop := ∀ c ∈ rest.head?, c ≠ '"' ∧ c ≠ '\''

theorem endsString_cons {c : Char} (noQuote : c ≠ '"' ∧ c ≠ '\'') (rest : List Char) : EndsString (c :: rest) := by
  rintro d ⟨⟩
  exact noQuote

/-- A character stands behind a backslash, or for itself. -/
theorem escape_eq_cons (multiline : Bool) (c : Char) :
    ∃ d cs, escape multiline c = d :: cs ∧ (d = '\\' ∨ d = c ∧ (isPlain c = true ∨ c = '\n')) := by
  obtain ⟨letter, written, -⟩ | ⟨-, written⟩ | ⟨written, -, plain⟩ := escape_cases multiline c
  · exact ⟨_, _, written, .inl rfl⟩
  · exact ⟨_, _, written, .inl rfl⟩
  · exact ⟨_, _, written, .inr ⟨rfl, plain.imp_right And.right⟩⟩

theorem escape_eq_cons_ne {c : Char} (other : c ≠ '"') (multiline : Bool) :
    ∃ d cs, escape multiline c = d :: cs ∧ d ≠ '"' := by
  obtain ⟨d, cs, written, rfl | ⟨rfl, -⟩⟩ := escape_eq_cons multiline c
  · exact ⟨_, cs, written, by decide⟩
  · exact ⟨_, cs, written, other⟩

/-- Up to two quotes in a row are part of a text. -/
theorem readMultilineBasic_quotes {count : Nat} (few : count ≤ 2) {c : Char} (other : c ≠ '"') (rest : List Char) :
    readMultilineBasic .text (List.replicate count '"' ++ c :: rest) =
      prepend (List.replicate count '"') (readMultilineBasic .text (c :: rest)) := by
  match count, few with
  | 0, _ => exact (prepend_nil _).symm
  | 1, _ => simp [List.replicate, readMultilineBasic, other, prepend, isPlain]
  | 2, _ =>
    simp only [List.replicate, List.cons_append, List.nil_append]
    simp [readMultilineBasic, other, isPlain]
    cases readMultilineBasic .text (c :: rest) <;> rfl

theorem readMultilineBasic_close {count : Nat} (few : count ≤ 2) {rest : List Char} (ends : EndsString rest) :
    readMultilineBasic .text (List.replicate count '"' ++ '"' :: '"' :: '"' :: rest) =
      some (List.replicate count '"', rest) := by
  have noQuote (after : List Char) : rest ≠ '"' :: after := by
    rintro rfl
    exact (ends '"' rfl).1 rfl
  match count, few with
  | 0, _ => simp [List.replicate, readMultilineBasic, noQuote]
  | 1, _ => simp [List.replicate, readMultilineBasic]
  | 2, _ => simp [List.replicate, readMultilineBasic]

theorem readMultilineBasic_escapeText {rest : List Char} (ends : EndsString rest) (quotes : Nat) (few : quotes ≤ 2)
    (s : List Char) :
    readMultilineBasic .text (List.replicate quotes '"' ++ (escapeText true quotes s ++ '"' :: '"' :: '"' :: rest)) =
      some (List.replicate quotes '"' ++ s, rest) := by
  induction s generalizing quotes with
  | nil => simpa [escapeText] using readMultilineBasic_close few ends
  | cons c s ih =>
    by_cases quote : c = '"'
    · subst quote
      rw [escapeText]
      by_cases room : quotes < 2
      · have read := ih (quotes + 1) room
        simpa [room, List.replicate_succ'] using read
      · have escaped := ih 0 (by decide)
        simp only [room, Bool.and_false, decide_false, Bool.false_eq_true, if_false, List.cons_append]
        rw [readMultilineBasic_quotes few (by decide), readMultilineBasic_letter (c := '"') rfl]
        simp at escaped
        simp [escaped]
    · obtain ⟨d, cs, written, other⟩ := escape_eq_cons_ne quote true
      have plain := ih 0 (by decide)
      rw [List.replicate_zero, List.nil_append, List.nil_append] at plain
      rw [escapeText, List.append_assoc]
      · rw [written, List.cons_append, readMultilineBasic_quotes few other, ← List.cons_append, ← written,
          readMultilineBasic_escape quote, plain]
        simp
      · exact quote

theorem readMultilineLiteral_quotes {count : Nat} (few : count ≤ 2) {c : Char} (other : c ≠ '\'') (rest : List Char) :
    readMultilineLiteral (List.replicate count '\'' ++ c :: rest) =
      prepend (List.replicate count '\'') (readMultilineLiteral (c :: rest)) := by
  match count, few with
  | 0, _ => exact (prepend_nil _).symm
  | 1, _ => simp [List.replicate, readMultilineLiteral, other, prepend, isPlain]
  | 2, _ =>
    simp [List.replicate, readMultilineLiteral, other, isPlain]
    cases readMultilineLiteral (c :: rest) <;> rfl

theorem readMultilineLiteral_close {count : Nat} (few : count ≤ 2) {rest : List Char} (ends : EndsString rest) :
    readMultilineLiteral (List.replicate count '\'' ++ '\'' :: '\'' :: '\'' :: rest) =
      some (List.replicate count '\'', rest) := by
  have noQuote (after : List Char) : rest ≠ '\'' :: after := by
    rintro rfl
    exact (ends '\'' rfl).2 rfl
  match count, few with
  | 0, _ => simp [List.replicate, readMultilineLiteral, noQuote]
  | 1, _ => simp [List.replicate, readMultilineLiteral]
  | 2, _ => simp [List.replicate, readMultilineLiteral]

theorem le_longestRun (mark : Char) (run : Nat) (s : List Char) : run ≤ longestRun mark run s := by
  induction s generalizing run with
  | nil => exact Nat.le_refl run
  | cons c s ih =>
    rw [longestRun]
    split_ifs with same
    · exact (Nat.le_succ run).trans (ih (run + 1))
    · exact Nat.le_max_left run _

theorem readMultilineLiteral_char {c : Char} (visible : isControl c = false) (other : c ≠ '\'') (rest : List Char) :
    readMultilineLiteral (c :: rest) = prepend [c] (readMultilineLiteral rest) := by
  have noCarriage : c ≠ '\r' := by
    rintro rfl
    exact absurd visible (by decide)
  have plain : isPlain c = true ∨ c = '\n' :=
    or_iff_not_imp_right.mpr (isPlain_of_not_isControl visible)
  rw [readMultilineLiteral.eq_def]
  split <;> simp_all [prepend]
  grind

theorem readMultilineLiteral_append {rest : List Char} (ends : EndsString rest) {quotes : Nat} {s : List Char}
    (visible : ∀ c ∈ s, isControl c = false) (few : longestRun '\'' quotes s ≤ 2) :
    readMultilineLiteral (List.replicate quotes '\'' ++ (s ++ '\'' :: '\'' :: '\'' :: rest)) =
      some (List.replicate quotes '\'' ++ s, rest) := by
  induction s generalizing quotes with
  | nil => simpa using readMultilineLiteral_close (le_longestRun '\'' quotes [] |>.trans few) ends
  | cons c s ih =>
    obtain ⟨plain, later⟩ := List.forall_mem_cons.mp visible
    rw [longestRun] at few
    split_ifs at few with quote
    · subst quote
      simpa [List.replicate_succ'] using ih later few
    · obtain ⟨soFar, behind⟩ := Nat.max_le.mp few
      have read := ih later behind
      rw [List.replicate_zero, List.nil_append, List.nil_append] at read
      rw [List.cons_append, readMultilineLiteral_quotes soFar quote, readMultilineLiteral_char plain quote, read]
      simp

theorem readString_basic {rest : List Char} (ends : EndsString rest) (s : List Char) :
    readString ((basic s).toList ++ rest) = some (String.ofList s, rest) := by
  have read := readBasic_escapeText 0 s rest
  have single (after : List Char) : escapeText false 0 s ++ '"' :: rest ≠ '"' :: '"' :: after := by
    cases s with
    | nil =>
      rintro ⟨⟩
      exact (ends '"' rfl).1 rfl
    | cons c s =>
      by_cases quote : c = '"'
      · subst quote
        simp [escapeText]
      · obtain ⟨d, cs, written, other⟩ := escape_eq_cons_ne quote false
        rw [escapeText]
        · simp [written, other]
        · exact quote
  simp only [basic, String.toList_append, String.toList_ofList, String.reduceToList, List.append_assoc,
    List.cons_append, List.nil_append]
  rw [readString, read]
  · rfl
  · exact fun after same => single after same

theorem readString_literal {rest : List Char} {s : List Char} (some : s ≠ [])
    (plain : ∀ c ∈ s, isPlain c = true ∧ c ≠ '\'') :
    readString ((literal s).toList ++ rest) = .some (String.ofList s, rest) := by
  have read := readLiteral_append plain rest
  have single (after : List Char) : s ++ '\'' :: rest ≠ '\'' :: '\'' :: after := by
    obtain ⟨c, cs, rfl⟩ := List.exists_cons_of_ne_nil some
    intro same
    exact (plain c List.mem_cons_self).2 (List.cons.inj same).1
  simp only [literal, String.toList_append, String.toList_ofList, String.reduceToList, List.append_assoc,
    List.cons_append, List.nil_append]
  rw [readString, read]
  · rfl
  · exact fun after same => single after same

/-- Of a text with several lines the opening line end does not count. -/
theorem skipFirstNewline_opening {s text : List Char} (visible : '\n' ∉ s → newline? text = none) :
    skipFirstNewline ((opening s).toList ++ text) = text := by
  rw [opening]
  by_cases several : s.contains '\n' = true
  · rw [if_pos several]
    rfl
  · rw [if_neg several, String.toList_empty, List.nil_append, skipFirstNewline,
      visible (by simpa using several), Option.getD_none]

theorem newline?_cons {c : Char} (noNewline : c ≠ '\n') (noCarriage : c ≠ '\r') (rest : List Char) :
    newline? (c :: rest) = none := by
  rw [newline?.eq_def]
  split <;> simp_all

theorem readString_multilineBasic {rest : List Char} (ends : EndsString rest) (s : List Char) :
    readString ((multilineBasic s).toList ++ rest) = some (String.ofList s, rest) := by
  have read := readMultilineBasic_escapeText ends 0 (by decide) s
  rw [List.replicate_zero, List.nil_append, List.nil_append] at read
  have visible : '\n' ∉ s → newline? (escapeText true 0 s ++ '"' :: '"' :: '"' :: rest) = none := by
    intro oneLine
    cases s with
    | nil => rfl
    | cons c s =>
      by_cases quote : c = '"'
      · subst quote
        rfl
      · have noNewline : c ≠ '\n' := fun same => oneLine (same ▸ List.mem_cons_self)
        obtain ⟨d, cs, written, rfl | ⟨rfl, plain⟩⟩ := escape_eq_cons true c
        · rw [escapeText, written]
          · rfl
          · exact quote
        · have noCarriage : d ≠ '\r' := by
            rintro rfl
            exact absurd plain (by decide)
          rw [escapeText, written]
          · exact newline?_cons noNewline noCarriage _
          · exact quote
  simp only [multilineBasic, String.toList_append, String.toList_ofList, String.reduceToList, List.append_assoc,
    List.cons_append, List.nil_append]
  rw [readString, skipFirstNewline_opening visible, read]
  rfl

theorem readString_multilineLiteral {rest : List Char} (ends : EndsString rest) {s : List Char}
    (visible : ∀ c ∈ s, isControl c = false) (few : longestRun '\'' 0 s ≤ 2) :
    readString ((multilineLiteral s).toList ++ rest) = some (String.ofList s, rest) := by
  have read := readMultilineLiteral_append ends visible few
  rw [List.replicate_zero, List.nil_append, List.nil_append] at read
  have oneLine : '\n' ∉ s → newline? (s ++ '\'' :: '\'' :: '\'' :: rest) = none := by
    intro noNewline
    cases s with
    | nil => rfl
    | cons c s =>
      have noCarriage : c ≠ '\r' := by
        rintro rfl
        exact absurd (visible _ List.mem_cons_self) (by decide)
      exact newline?_cons (fun same => noNewline (same ▸ List.mem_cons_self)) noCarriage _
  simp only [multilineLiteral, String.toList_append, String.toList_ofList, String.reduceToList, List.append_assoc,
    List.cons_append, List.nil_append]
  rw [readString, skipFirstNewline_opening oneLine, read]
  rfl

/-- A text without control characters on one line can stand in single quotes, if it has none itself. -/
theorem plain_of_visible {s : List Char} (visible : ∀ c ∈ s, isControl c = false) (oneLine : '\n' ∉ s)
    (noQuote : '\'' ∉ s) : ∀ c ∈ s, isPlain c = true ∧ c ≠ '\'' := by
  intro c member
  have noNewline : c ≠ '\n' := fun same => oneLine (same ▸ member)
  exact ⟨isPlain_of_not_isControl (visible c member) noNewline, fun same => noQuote (same ▸ member)⟩

/-- A string is read back in whichever of the four forms it is written. -/
theorem readString_string (text : String) {rest : List Char} (ends : EndsString rest) :
    readString ((string text).toList ++ rest) = some (text, rest) := by
  have same : String.ofList text.toList = text := String.ofList_toList
  simp only [string]
  generalize text.toList = s at same ⊢
  split_ifs with bare quotable noBackslash fewQuotes line
  · rw [readString_basic ends, same]
  · simp only [Bool.and_eq_true, Bool.not_eq_true', List.contains_eq_mem, decide_eq_false_iff_not,
      List.any_eq_false, Bool.not_eq_true] at bare quotable
    obtain ⟨⟨visible, oneLine⟩, noQuote⟩ := quotable
    -- the empty text needs no single quotes
    have some : s ≠ [] := by
      rintro rfl
      exact bare ⟨⟨⟨visible, oneLine⟩, by simp⟩, by simp⟩
    rw [readString_literal some (plain_of_visible visible oneLine noQuote), same]
  · rw [readString_multilineBasic ends, same]
  · simp only [Bool.and_eq_true, Bool.not_eq_true', decide_eq_true_eq, List.any_eq_false, Bool.not_eq_true]
      at fewQuotes
    rw [readString_multilineLiteral ends fewQuotes.1 fewQuotes.2, same]
  · rw [readString_basic ends, same]
  · rw [readString_multilineBasic ends, same]

theorem readKeyPart_bare {s : List Char} (some : s ≠ []) (bare : ∀ c ∈ s, isBareKeyChar c = true) {c : Char}
    (ends : isBareKeyChar c = false) (rest : List Char) :
    readKeyPart (s ++ c :: rest) = .some (String.ofList s, c :: rest) := by
  have taken : (s ++ c :: rest).takeWhile isBareKeyChar = s := by
    rw [List.takeWhile_append_of_pos bare, List.takeWhile_cons_of_neg (by simp [ends]), List.append_nil]
  have left : (s ++ c :: rest).dropWhile isBareKeyChar = c :: rest := by
    rw [List.dropWhile_append_of_pos bare, List.dropWhile_cons_of_neg (by simp [ends])]
  obtain ⟨d, ds, rfl⟩ := List.exists_cons_of_ne_nil some
  have first := bare d List.mem_cons_self
  rw [readKeyPart.eq_def]
  split
  · simp_all [isBareKeyChar]
  · simp_all [isBareKeyChar]
  · rw [taken, left, if_neg (by simp)]

theorem readKeyPart_basic (s rest : List Char) :
    readKeyPart ((basic s).toList ++ rest) = some (String.ofList s, rest) := by
  have read := readBasic_escapeText 0 s rest
  simp only [basic, String.toList_append, String.toList_ofList, String.reduceToList, List.append_assoc,
    List.cons_append, List.nil_append]
  rw [readKeyPart, read]
  rfl

theorem readKeyPart_literal {s : List Char} (plain : ∀ c ∈ s, isPlain c = true ∧ c ≠ '\'') (rest : List Char) :
    readKeyPart ((literal s).toList ++ rest) = some (String.ofList s, rest) := by
  have read := readLiteral_append plain rest
  simp only [literal, String.toList_append, String.toList_ofList, String.reduceToList, List.append_assoc,
    List.cons_append, List.nil_append]
  rw [readKeyPart, read]
  rfl

/-- Behind a bare key there must stand a character of no bare key. -/
theorem readKeyPart_key (name : String) {c : Char} (ends : isBareKeyChar c = false) (rest : List Char) :
    readKeyPart ((key name).toList ++ c :: rest) = some (name, c :: rest) := by
  have same : String.ofList name.toList = name := String.ofList_toList
  simp only [key]
  split_ifs with bare noQuote quotable
  · simp only [Bool.and_eq_true, Bool.not_eq_true', List.isEmpty_eq_false_iff, List.all_eq_true] at bare
    rw [readKeyPart_bare bare.1 bare.2 ends, same]
  · rw [readKeyPart_basic, same]
  · simp only [Bool.and_eq_true, Bool.not_eq_true', List.contains_eq_mem, decide_eq_false_iff_not,
      List.any_eq_false, Bool.or_eq_true, decide_eq_true_eq, not_or, Bool.not_eq_true] at quotable
    obtain ⟨visible, noQuote⟩ := quotable
    have plain := plain_of_visible (fun c member => (visible c member).1)
      (fun member => (visible _ member).2 rfl) noQuote
    rw [readKeyPart_literal plain, same]
  · rw [readKeyPart_basic, same]

theorem basic_eq_cons (s : List Char) : ∃ cs, (basic s).toList = '"' :: cs :=
  ⟨escapeText false 0 s ++ ['"'], by simp [basic]⟩

theorem literal_eq_cons (s : List Char) : ∃ cs, (literal s).toList = '\'' :: cs :=
  ⟨s ++ ['\''], by simp [literal]⟩

theorem multilineBasic_eq_cons (s : List Char) : ∃ cs, (multilineBasic s).toList = '"' :: cs :=
  ⟨'"' :: '"' :: ((opening s).toList ++ (escapeText true 0 s ++ ['"', '"', '"'])), by simp [multilineBasic]⟩

theorem multilineLiteral_eq_cons (s : List Char) : ∃ cs, (multilineLiteral s).toList = '\'' :: cs :=
  ⟨'\'' :: '\'' :: ((opening s).toList ++ (s ++ ['\'', '\'', '\''])), by simp [multilineLiteral]⟩

theorem string_eq_cons (text : String) : ∃ c cs, (string text).toList = c :: cs ∧ (c = '"' ∨ c = '\'') := by
  have double {form : String} (starts : ∃ cs, form.toList = '"' :: cs) :
      ∃ c cs, form.toList = c :: cs ∧ (c = '"' ∨ c = '\'') :=
    starts.elim fun cs chars => ⟨_, cs, chars, .inl rfl⟩
  have single {form : String} (starts : ∃ cs, form.toList = '\'' :: cs) :
      ∃ c cs, form.toList = c :: cs ∧ (c = '"' ∨ c = '\'') :=
    starts.elim fun cs chars => ⟨_, cs, chars, .inr rfl⟩
  simp only [string]
  split_ifs
  · exact double (basic_eq_cons _)
  · exact single (literal_eq_cons _)
  · exact double (multilineBasic_eq_cons _)
  · exact single (multilineLiteral_eq_cons _)
  · exact double (basic_eq_cons _)
  · exact double (multilineBasic_eq_cons _)

/-- A key starts with a character of a bare key or with a quote. -/
theorem key_eq_cons (name : String) :
    ∃ c cs, (key name).toList = c :: cs ∧ (isBareKeyChar c = true ∨ c = '"' ∨ c = '\'') := by
  simp only [key]
  split_ifs with bare noQuote quotable
  · simp only [Bool.and_eq_true, Bool.not_eq_true', List.isEmpty_eq_false_iff, List.all_eq_true] at bare
    obtain ⟨c, cs, chars⟩ := List.exists_cons_of_ne_nil bare.1
    exact ⟨c, cs, chars, .inl (bare.2 c (chars ▸ List.mem_cons_self))⟩
  · obtain ⟨cs, chars⟩ := basic_eq_cons name.toList
    exact ⟨_, cs, chars, .inr (.inl rfl)⟩
  · obtain ⟨cs, chars⟩ := literal_eq_cons name.toList
    exact ⟨_, cs, chars, .inr (.inr rfl)⟩
  · obtain ⟨cs, chars⟩ := basic_eq_cons name.toList
    exact ⟨_, cs, chars, .inr (.inl rfl)⟩

end SignalDesk.Toml
