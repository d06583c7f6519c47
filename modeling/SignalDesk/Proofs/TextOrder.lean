import Mathlib.Data.List.Lex
import Mathlib.Data.String.Basic
import Mathlib.Order.Monotone.Basic
import SignalDesk.Fingerprint

namespace SignalDesk

/-- The bytes of a text as numbers, which have an order. -/
def byteValues (text : String) : List ℕ := (utf8Bytes text).map UInt8.toNat

/-- The bytes of a character. A byte that goes on lies below every byte that begins a character of more
than one byte, and more bytes begin with a greater one. -/
def charBytes (c : Char) : List ℕ :=
  let v := c.toNat
  if v ≤ 0x7F then [v]
  else if v ≤ 0x7FF then [v / 64 + 192, v % 64 + 128]
  else if v ≤ 0xFFFF then [v / 4096 + 224, v / 64 % 64 + 128, v % 64 + 128]
  else [v / 262144 + 240, v / 4096 % 64 + 128, v / 64 % 64 + 128, v % 64 + 128]

theorem toNat_lt_of_char (c : Char) : c.toNat < 0x110000 := by
  have valid : c.toNat < 0xD800 ∨ 0xDFFF < c.toNat ∧ c.toNat < 0x110000 := c.valid
  omega

theorem map_toNat_utf8EncodeChar (c : Char) :
    (String.utf8EncodeChar c).map UInt8.toNat = charBytes c := by
  have bound := toNat_lt_of_char c
  have value : c.val.toNat = c.toNat := rfl
  unfold String.utf8EncodeChar charBytes
  simp only [value]
  split_ifs <;>
    simp only [List.map_cons, List.map_nil, UInt8.toNat_ofNat', List.cons.injEq, and_true] <;> omega

theorem byteValues_eq_flatMap (text : String) : byteValues text = text.toList.flatMap charBytes := by
  rw [byteValues, utf8Bytes, String.toUTF8, ← String.utf8Encode_toList, List.utf8Encode, List.toList_data_toByteArray,
    List.map_flatMap]
  simp only [map_toNat_utf8EncodeChar]

theorem charBytes_ne_nil (c : Char) : charBytes c ≠ [] := by
  simp only [charBytes]
  split_ifs <;> exact List.cons_ne_nil _ _

/-- Of two characters the bytes of neither begin with those of the other, so what follows does not
matter. -/
theorem charBytes_append_lt {c d : Char} (less : c < d) (after following : List ℕ) :
    charBytes c ++ after < charBytes d ++ following := by
  have values : c.toNat < d.toNat := less
  have bound := toNat_lt_of_char d
  simp only [charBytes]
  split_ifs <;> simp only [List.cons_append, List.nil_append, List.cons_lt_cons_iff] <;> omega

theorem flatMap_charBytes_lt {cs ds : List Char} (less : cs < ds) :
    cs.flatMap charBytes < ds.flatMap charBytes := by
  induction cs generalizing ds with
  | nil =>
    cases ds with
    | nil => exact absurd less (List.lt_irrefl _)
    | cons d ds =>
      obtain ⟨byte, bytes, form⟩ := List.exists_cons_of_ne_nil (charBytes_ne_nil d)
      rw [List.flatMap_nil, List.flatMap_cons, form]
      exact List.nil_lt_cons byte _
  | cons c cs ih =>
    cases ds with
    | nil => exact absurd less (List.not_lt_nil _)
    | cons d ds =>
      rw [List.flatMap_cons, List.flatMap_cons]
      rcases List.cons_lt_cons_iff.mp less with here | ⟨rfl, later⟩
      · exact charBytes_append_lt here _ _
      · exact List.append_left_lt (ih later)

/-- Texts in the order of their code points are in the order of their bytes. -/
theorem byteValues_strictMono : StrictMono byteValues := by
  intro s t less
  rw [byteValues_eq_flatMap, byteValues_eq_flatMap]
  exact flatMap_charBytes_lt (String.lt_iff_toList_lt.mp less)

end SignalDesk
