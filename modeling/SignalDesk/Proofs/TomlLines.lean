import SignalDesk.Proofs.TomlValues

namespace SignalDesk.Toml

/-- Reading a text, line by line, takes the reader from one state to another, whatever follows. -/
def Reads (text : String) (p q : Progress) : Prop :=
  ∃ lines, lines ≤ text.length ∧ ∀ fuel rest, 2 ≤ fuel →
    readLines (fuel + lines) p (text.toList ++ rest) = readLines fuel q rest

theorem Reads.refl (p : Progress) : Reads "" p p := ⟨0, Nat.le_refl 0, fun _ _ _ => rfl⟩

theorem Reads.trans {text more : String} {p q r : Progress} (first : Reads text p q) (second : Reads more q r) :
    Reads (text ++ more) p r := by
  obtain ⟨m, mShort, mRead⟩ := first
  obtain ⟨n, nShort, nRead⟩ := second
  refine ⟨n + m, by rw [String.length_append]; omega, fun fuel rest enough => ?_⟩
  rw [String.toList_append, List.append_assoc, ← Nat.add_assoc, mRead _ _ (by omega), nRead _ _ enough]

theorem key_visible (name : String) : ∃ c cs, (key name).toList = c :: cs ∧ isVisible c = true ∧ c ≠ '[' := by
  obtain ⟨c, cs, chars, bare | rfl | rfl⟩ := key_eq_cons name
  · refine ⟨c, cs, chars, ?_, ?_⟩
    · simp only [isVisible, Bool.and_eq_true, decide_eq_true_eq]
      refine ⟨⟨⟨⟨?_, ?_⟩, ?_⟩, ?_⟩, ?_⟩ <;> rintro rfl <;> cases bare
    · rintro rfl
      cases bare
  · exact ⟨_, cs, chars, rfl, by decide⟩
  · exact ⟨_, cs, chars, rfl, by decide⟩

theorem skipSpace_visible {c : Char} (visible : isVisible c = true) (s : List Char) : skipSpace (c :: s) = c :: s := by
  simp only [isVisible, Bool.and_eq_true, decide_eq_true_eq] at visible
  exact skipSpace_cons ⟨visible.1.1.1.1, visible.1.1.1.2⟩ s

theorem skipSpace_key (name : String) (rest : List Char) :
    skipSpace ((key name).toList ++ rest) = (key name).toList ++ rest := by
  obtain ⟨c, cs, chars, visible, -⟩ := key_visible name
  rw [chars, List.cons_append, skipSpace_visible visible]

theorem readKey_key (name : String) (rest : List Char) :
    readKey ((key name).toList ++ ' ' :: '=' :: rest) = some (([], name), '=' :: rest) := by
  change readKeyParts (78 + 1) _ = _
  rw [readKeyParts, skipSpace_key, readKeyPart_key name (by decide)]
  rfl

theorem dotted_single (last : String) : dotted ([] ++ [last]) = key last := by simp [dotted]

theorem dotted_cons (name : String) (path : List String) (last : String) :
    dotted (name :: path ++ [last]) = key name ++ "." ++ dotted (path ++ [last]) := by
  obtain ⟨next, others, names⟩ :=
    List.exists_cons_of_ne_nil (List.append_ne_nil_of_right_ne_nil path (List.cons_ne_nil last []))
  rw [List.cons_append, names, dotted, dotted, List.map_cons, List.map_cons, String.intercalate_cons_cons]

theorem dotted_eq_cons (path : List String) (last : String) :
    ∃ c cs, (dotted (path ++ [last])).toList = c :: cs ∧ c ≠ '[' := by
  cases path with
  | nil =>
    obtain ⟨c, cs, chars, -, single⟩ := key_visible last
    exact ⟨c, cs, by rw [dotted_single, chars], single⟩
  | cons name path =>
    obtain ⟨c, cs, chars, -, single⟩ := key_visible name
    refine ⟨c, cs ++ ("." ++ dotted (path ++ [last])).toList, ?_, single⟩
    rw [dotted_cons, String.append_assoc, String.toList_append, chars, List.cons_append]

theorem readKeyParts_dotted {more : Nat} {path : List String} (deep : path.length < more) (last : String)
    (rest : List Char) :
    readKeyParts more ((dotted (path ++ [last])).toList ++ ']' :: rest) = some ((path, last), ']' :: rest) := by
  induction path generalizing more with
  | nil =>
    obtain ⟨fewer, rfl⟩ : ∃ fewer, more = fewer + 1 := ⟨more - 1, by simp at deep; omega⟩
    rw [dotted_single, readKeyParts, skipSpace_key, readKeyPart_key last (by decide)]
    rfl
  | cons name path ih =>
    rw [List.length_cons] at deep
    obtain ⟨fewer, rfl⟩ : ∃ fewer, more = fewer + 1 := ⟨more - 1, by omega⟩
    have part := readKeyPart_key name (c := '.') (by decide) ((dotted (path ++ [last])).toList ++ ']' :: rest)
    have point (s : List Char) : skipSpace ('.' :: s) = '.' :: s := rfl
    rw [dotted_cons, String.toList_append, String.toList_append, List.append_assoc, List.append_assoc]
    simp only [String.reduceToList, List.cons_append, List.nil_append]
    rw [readKeyParts, skipSpace_key, part]
    simp only [Option.bind_eq_bind, Option.bind_some, point, ih (by omega : path.length < fewer)]

/-- A key with its value is a line of the table that is being filled. -/
theorem reads_value {p : Progress} {name text : String} {value : Document} (written : inlineValue value = some text)
    (simple : IsSimple value) (absent : p.current.lookup name = none) :
    Reads (key name ++ " = " ++ text ++ "\n") p { p with current := p.current ++ [(name, .leaf value)] } := by
  obtain ⟨same, found, read⟩ := readValue_inlineValue simple
  obtain rfl := Option.some.inj (written.symm.trans found)
  refine ⟨1, ?_, fun fuel rest enough => ?_⟩
  · rw [String.length_append]
    exact Nat.le_add_left 1 _
  · obtain ⟨more, rfl⟩ : ∃ more, fuel = more + 2 := ⟨fuel - 2, by omega⟩
    obtain ⟨c, cs, chars, visible, noBracket⟩ := key_visible name
    have keyRead := readKey_key name (' ' :: (text.toList ++ '\n' :: rest))
    have line : (key name ++ " = " ++ text ++ "\n").toList ++ rest =
        (key name).toList ++ ' ' :: '=' :: ' ' :: (text.toList ++ '\n' :: rest) := by simp
    have added : p.current.addValue true name value [] = some (p.current ++ [(name, .leaf value)]) := by
      simp [Table.addValue, absent]
    rw [line]
    rw [chars, List.cons_append] at keyRead ⊢
    have step : readLine (more + 2) p (c :: (cs ++ ' ' :: '=' :: ' ' :: (text.toList ++ '\n' :: rest))) =
        some ({ p with current := p.current ++ [(name, .leaf value)] }, rest) := by
      have ended : endLine? ('\n' :: rest) = some rest := rfl
      simp [readLine, skipSpace_visible visible, noBracket, endLine?_visible visible, keyRead, read, added, ended]
    rw [readLines, step]
    · rfl
    · exact List.cons_ne_nil _ _

theorem readLines_blank (fuel : Nat) (p : Progress) (rest : List Char) :
    readLines (fuel + 1) p ('\n' :: rest) = readLines fuel p rest := rfl

/-- A header opens the table that it names. -/
theorem reads_header {p q : Progress} {path : List String} {last : String} (deep : path.length < maxDepth)
    (opened : p.header false (path ++ [last]) = some q) :
    Reads ("\n[" ++ dotted (path ++ [last]) ++ "]\n") p q := by
  refine ⟨2, ?_, fun fuel rest enough => ?_⟩
  · rw [String.length_append, String.length_append]
    exact (Nat.le_add_right 2 _).trans (Nat.le_add_right _ _)
  · have line : ("\n[" ++ dotted (path ++ [last]) ++ "]\n").toList ++ rest =
        '\n' :: '[' :: ((dotted (path ++ [last])).toList ++ ']' :: '\n' :: rest) := by simp
    have keyRead : readKey ((dotted (path ++ [last])).toList ++ ']' :: '\n' :: rest) =
        some ((path, last), ']' :: '\n' :: rest) := readKeyParts_dotted deep last _
    obtain ⟨c, cs, chars, single⟩ := dotted_eq_cons path last
    rw [line, readLines_blank]
    rw [chars, List.cons_append] at keyRead ⊢
    have step : readLine fuel p ('[' :: c :: (cs ++ ']' :: '\n' :: rest)) = some (q, rest) := by
      have ended : endLine? ('\n' :: rest) = some rest := rfl
      have here (s : List Char) : skipSpace ('[' :: s) = '[' :: s := rfl
      simp [readLine, here, single, keyRead, opened, ended]
    rw [readLines, step]
    · rfl
    · exact List.cons_ne_nil _ _

/-- A header of an array of tables opens its next element. -/
theorem reads_elementHeader {p q : Progress} {path : List String} {last : String} (deep : path.length < maxDepth)
    (opened : p.header true (path ++ [last]) = some q) :
    Reads ("\n[[" ++ dotted (path ++ [last]) ++ "]]\n") p q := by
  refine ⟨2, ?_, fun fuel rest enough => ?_⟩
  · rw [String.length_append, String.length_append]
    exact Nat.le_add_right_of_le (Nat.le_add_right_of_le (by decide))
  · have line : ("\n[[" ++ dotted (path ++ [last]) ++ "]]\n").toList ++ rest =
        '\n' :: '[' :: '[' :: ((dotted (path ++ [last])).toList ++ ']' :: ']' :: '\n' :: rest) := by simp
    have keyRead : readKey ((dotted (path ++ [last])).toList ++ ']' :: ']' :: '\n' :: rest) =
        some ((path, last), ']' :: ']' :: '\n' :: rest) := readKeyParts_dotted deep last _
    rw [line, readLines_blank]
    have step : readLine fuel p ('[' :: '[' :: ((dotted (path ++ [last])).toList ++ ']' :: ']' :: '\n' :: rest)) =
        some (q, rest) := by
      have ended : endLine? ('\n' :: rest) = some rest := rfl
      have here (s : List Char) : skipSpace ('[' :: '[' :: s) = '[' :: '[' :: s := rfl
      simp [readLine, here, keyRead, opened, ended]
    rw [readLines, step]
    · rfl
    · exact List.cons_ne_nil _ _

end SignalDesk.Toml
