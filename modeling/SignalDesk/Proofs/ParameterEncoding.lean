import SignalDesk.Proofs.MapContents
import SignalDesk.Proofs.TextOrder

namespace SignalDesk

/-- The bytes of a valid value are told apart from whatever stands behind them. -/
def SelfDelimiting {α : Type} (valid : α → Prop) (encode : α → List UInt8) : Prop :=
  ∀ x y, valid x → valid y → ∀ a b, encode x ++ a = encode y ++ b → x = y ∧ a = b

namespace SelfDelimiting

variable {α β : Type} {valid : α → Prop} {fits : β → Prop} {encode : α → List UInt8} {write : β → List UInt8}

theorem of_length {n : Nat} (length : ∀ x, (encode x).length = n) (injective : Function.Injective encode) :
    SelfDelimiting valid encode := by
  intro x y _ _ a b same
  obtain ⟨front, back⟩ := List.append_inj same (by rw [length, length])
  exact ⟨injective front, back⟩

theorem pair (first : SelfDelimiting valid encode) (second : SelfDelimiting fits write) :
    SelfDelimiting (fun x : α × β => valid x.1 ∧ fits x.2) fun x => encode x.1 ++ write x.2 := by
  rintro ⟨x, u⟩ ⟨y, v⟩ ⟨xValid, uFits⟩ ⟨yValid, vFits⟩ a b same
  simp only [List.append_assoc] at same
  obtain ⟨front, rest⟩ := first x y xValid yValid _ _ same
  obtain ⟨middle, back⟩ := second u v uFits vFits _ _ rest
  exact ⟨by rw [front, middle], back⟩

/-- No count is needed in front of a list: it ends where the bytes do. -/
theorem flatMap (delimits : SelfDelimiting valid encode) (visible : ∀ x, encode x ≠ []) {xs ys : List α}
    (xsValid : ∀ x ∈ xs, valid x) (ysValid : ∀ y ∈ ys, valid y)
    (same : xs.flatMap encode = ys.flatMap encode) : xs = ys := by
  induction xs generalizing ys with
  | nil =>
    cases ys with
    | nil => rfl
    | cons y ys =>
      rw [List.flatMap_nil, List.flatMap_cons] at same
      exact absurd (List.append_eq_nil_iff.mp same.symm).1 (visible y)
  | cons x xs ih =>
    cases ys with
    | nil =>
      rw [List.flatMap_nil, List.flatMap_cons] at same
      exact absurd (List.append_eq_nil_iff.mp same).1 (visible x)
    | cons y ys =>
      rw [List.forall_mem_cons] at xsValid ysValid
      rw [List.flatMap_cons, List.flatMap_cons] at same
      obtain ⟨rfl, rest⟩ := delimits x y xsValid.1 ysValid.1 _ _ same
      rw [ih xsValid.2 ysValid.2 rest]

end SelfDelimiting

theorem toNat_wordByte (word shift : UInt64) :
    (word >>> shift).toUInt8.toNat = word.toNat / 2 ^ (shift.toNat % 64) % 256 := by
  rw [UInt64.toNat_toUInt8, UInt64.toNat_shiftRight, Nat.shiftRight_eq_div_pow]

theorem wordBytes_injective : Function.Injective wordBytes := by
  intro x y same
  have digits := congrArg (List.map UInt8.toNat) same
  simp only [wordBytes, List.map_cons, List.map_nil, toNat_wordByte, List.cons.injEq] at digits
  have xBound := x.toNat_lt
  have yBound := y.toNat_lt
  obtain ⟨d0, d1, d2, d3, d4, d5, d6, d7, -⟩ := digits
  simp only [UInt64.toNat_ofNat, Nat.reduceMod, Nat.reducePow] at d0 d1 d2 d3 d4 d5 d6 d7
  apply UInt64.toNat.inj
  omega

theorem length_wordBytes (word : UInt64) : (wordBytes word).length = 8 := rfl

theorem selfDelimiting_wordBytes : SelfDelimiting (fun _ => True) wordBytes :=
  .of_length length_wordBytes wordBytes_injective

/-- The number of the bytes of a text is a number of 64 bits. -/
def FitsWord (text : String) : Prop := (utf8Bytes text).length < UInt64.size

instance (text : String) : Decidable (FitsWord text) :=
  inferInstanceAs (Decidable ((utf8Bytes text).length < UInt64.size))

theorem utf8Bytes_injective : Function.Injective utf8Bytes := by
  intro s t same
  exact byteValues_strictMono.injective (congrArg (List.map UInt8.toNat) same)

theorem selfDelimiting_textBytes : SelfDelimiting FitsWord textBytes := by
  intro s t sFits tFits a b same
  simp only [textBytes, List.append_assoc] at same
  obtain ⟨counts, rest⟩ := selfDelimiting_wordBytes _ _ trivial trivial _ _ same
  have lengths : (utf8Bytes s).length = (utf8Bytes t).length := by
    have values := congrArg UInt64.toNat counts
    change (utf8Bytes s).length % UInt64.size = (utf8Bytes t).length % UInt64.size at values
    rwa [Nat.mod_eq_of_lt sFits, Nat.mod_eq_of_lt tFits] at values
  obtain ⟨texts, back⟩ := List.append_inj rest lengths
  exact ⟨utf8Bytes_injective texts, back⟩

theorem textBytes_ne_nil (text : String) : textBytes text ≠ [] :=
  List.append_ne_nil_of_left_ne_nil (List.cons_ne_nil _ _) _

namespace Setting

/-- What counts of a setting: the bits of a number, or a text. -/
def content : Setting → UInt64 ⊕ String
  | number value => .inl value.toBits
  | text value => .inr value

end Setting

def contentBytes : UInt64 ⊕ String → List UInt8
  | .inl bits => 'n'.toUInt8 :: wordBytes bits
  | .inr text => 't'.toUInt8 :: textBytes text

theorem Setting.encoded_eq_contentBytes (setting : Setting) :
    setting.encoded = contentBytes setting.content := by
  cases setting <;> rfl

def ContentFits : UInt64 ⊕ String → Prop
  | .inl _ => True
  | .inr text => FitsWord text

instance : DecidablePred ContentFits
  | .inl _ => isTrue trivial
  | .inr text => inferInstanceAs (Decidable (FitsWord text))

theorem selfDelimiting_contentBytes : SelfDelimiting ContentFits contentBytes := by
  intro x y xFits yFits a b same
  -- the letter in front says how to read on
  cases x with
  | inl bits =>
    cases y with
    | inl others =>
      obtain ⟨rfl, back⟩ := selfDelimiting_wordBytes _ _ trivial trivial _ _ (List.cons.inj same).2
      exact ⟨rfl, back⟩
    | inr text => exact absurd (List.cons.inj same).1 (by decide)
  | inr text =>
    cases y with
    | inl bits => exact absurd (List.cons.inj same).1 (by decide)
    | inr other =>
      obtain ⟨rfl, back⟩ := selfDelimiting_textBytes _ _ xFits yFits _ _ (List.cons.inj same).2
      exact ⟨rfl, back⟩

/-- The bytes of a name, a switch and what counts under each name. The bits of a number may be any. -/
def hashedBytes (id : String) (enabled : Bool) (contents : SortedMap (UInt64 ⊕ String)) : List UInt8 :=
  textBytes id ++ ([if enabled then 1 else 0] ++ (wordBytes contents.size.toUInt64 ++
    contents.entries.flatMap fun field => textBytes field.1 ++ contentBytes field.2))

theorem hashedBytes_inj {id other : String} {enabled switched : Bool}
    {contents others : SortedMap (UInt64 ⊕ String)} (idFits : FitsWord id) (otherFits : FitsWord other)
    (fits : ∀ field ∈ contents.entries, FitsWord field.1 ∧ ContentFits field.2)
    (othersFit : ∀ field ∈ others.entries, FitsWord field.1 ∧ ContentFits field.2) :
    hashedBytes id enabled contents = hashedBytes other switched others ↔
      id = other ∧ enabled = switched ∧ contents = others := by
  constructor
  · intro same
    obtain ⟨ids, afterId⟩ := selfDelimiting_textBytes _ _ idFits otherFits _ _ same
    obtain ⟨flags, afterFlag⟩ := List.append_inj afterId rfl
    obtain ⟨-, fields⟩ := selfDelimiting_wordBytes _ _ trivial trivial _ _ afterFlag
    have visible (x : String × (UInt64 ⊕ String)) : textBytes x.1 ++ contentBytes x.2 ≠ [] :=
      List.append_ne_nil_of_left_ne_nil (textBytes_ne_nil x.1) _
    have entries := (selfDelimiting_textBytes.pair selfDelimiting_contentBytes).flatMap visible fits
      othersFit fields
    refine ⟨ids, ?_, SortedMap.ext entries⟩
    cases enabled <;> cases switched <;> simp at flags ⊢
  · rintro ⟨rfl, rfl, rfl⟩
    rfl

namespace Parameters

/-- Every text has a number of bytes that 64 bits hold. -/
structure TextsFit (p : Parameters) : Prop where
  id : FitsWord p.strategyId
  names : ∀ entry ∈ p.values.entries, FitsWord entry.1
  texts : ∀ entry ∈ p.values.entries, ContentFits entry.2.content

def contents (p : Parameters) : SortedMap (UInt64 ⊕ String) := p.values.mapValues Setting.content

theorem encoded_eq_hashedBytes (p : Parameters) :
    p.encoded = hashedBytes p.strategyId p.enabled p.contents := by
  simp [encoded, hashedBytes, contents, SortedMap.mapValues, SortedMap.size, List.flatMap_map,
    Setting.encoded_eq_contentBytes]

theorem TextsFit.fields {p : Parameters} (fits : p.TextsFit) :
    ∀ field ∈ p.contents.entries, FitsWord field.1 ∧ ContentFits field.2 := by
  intro field member
  obtain ⟨entry, given, rfl⟩ := List.mem_map.mp member
  exact ⟨fits.names entry given, fits.texts entry given⟩

theorem get?_contents (p : Parameters) (name : String) :
    p.contents.get? name = (p.values.get? name).map Setting.content :=
  SortedMap.get?_mapValues Setting.content p.values name

theorem keys_contents (p : Parameters) : p.contents.keys = p.values.keys := by
  simp [contents, SortedMap.keys, SortedMap.mapValues]

theorem contents_eq_iff {p q : Parameters} :
    p.contents = q.contents ↔ p.values.keys = q.values.keys ∧
      ∀ name, (p.values.get? name).map Setting.content = (q.values.get? name).map Setting.content := by
  simp only [← keys_contents, ← get?_contents]
  constructor
  · intro same
    rw [same]
    exact ⟨rfl, fun _ => rfl⟩
  · rintro ⟨-, values⟩
    exact SortedMap.ext_get? values

def setAll (p : Parameters) (settings : List (String × Setting)) : Parameters :=
  settings.foldl (fun p setting => p.set setting.1 setting.2) p

theorem set_comm {name other : String} (different : name ≠ other) (p : Parameters) (value given : Setting) :
    (p.set name value).set other given = (p.set other given).set name value := by
  simp only [set, SortedMap.insert_comm different]

theorem setAll_perm {settings others : List (String × Setting)} (same : settings.Perm others)
    (distinct : (settings.map Prod.fst).Nodup) (p : Parameters) : p.setAll settings = p.setAll others := by
  refine same.foldl_eq' (fun x xMember y yMember q => ?_) p
  by_cases names : x.1 = y.1
  · rw [List.inj_on_of_nodup_map distinct xMember yMember names]
  · exact set_comm names q x.2 y.2

/-- The hashed bytes of two parameter sets are the same exactly if nothing that counts tells the sets
apart, whatever their texts contain. The order in which the settings were given does not count. -/
theorem encoded_eq_iff {p q : Parameters} (pFits : p.TextsFit) (qFits : q.TextsFit) :
    (p.encoded = q.encoded ↔
      p.strategyId = q.strategyId ∧ p.enabled = q.enabled ∧ p.values.keys = q.values.keys ∧
        ∀ name, (p.values.get? name).map Setting.content = (q.values.get? name).map Setting.content) ∧
      ∀ settings others : List (String × Setting), settings.Perm others →
        (settings.map Prod.fst).Nodup → (p.setAll settings).encoded = (p.setAll others).encoded := by
  constructor
  · rw [encoded_eq_hashedBytes, encoded_eq_hashedBytes,
      hashedBytes_inj pFits.id qFits.id pFits.fields qFits.fields, contents_eq_iff]
  · intro settings others perm distinct
    rw [setAll_perm perm distinct]

/-- A text that looks like the end of a setting and the start of another one, as they stand in `splitText`. -/
def packedText : Parameters := ⟨"x", SortedMap.ofList [("a", .text "b\x00c=td")], true⟩

def splitText : Parameters := ⟨"x", SortedMap.ofList [("a", .text "b"), ("c", .text "d")], true⟩

theorem packedText_encoded_ne :
    packedText.TextsFit ∧ splitText.TextsFit ∧ packedText.encoded ≠ splitText.encoded := by
  have packedFits : packedText.TextsFit := ⟨by decide, by decide, by decide⟩
  have splitFits : splitText.TextsFit := ⟨by decide, by decide, by decide⟩
  refine ⟨packedFits, splitFits, fun same => ?_⟩
  have keys := ((encoded_eq_iff packedFits splitFits).1.mp same).2.2.1
  exact absurd keys (by decide)

end Parameters

end SignalDesk
