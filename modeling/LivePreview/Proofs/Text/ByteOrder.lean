import Mathlib.Tactic.SplitIfs

namespace LivePreview.Text

-- The bytes of a text in UTF-8.
def bytes (text : String) : List UInt8 := text.toUTF8.data.toList

theorem bytes_eq_flatMap (text : String) :
    bytes text = text.toList.flatMap String.utf8EncodeChar := by
  have h : text.toList.utf8Encode = text.toByteArray := by simp
  rw [bytes, String.toUTF8_eq_toByteArray, ← h, List.utf8Encode, List.data_toByteArray]

-- The number of bytes of a character grows with it, and so does the leading byte with the number of
-- bytes. Of two characters with equally many bytes, these are the digits to base 64.
theorem encodeChar_append_lt {first second : Char} (h : first < second)
    (later other : List UInt8) :
    String.utf8EncodeChar first ++ later < String.utf8EncodeChar second ++ other := by
  have hlt : first.val.toNat < second.val.toNat := h
  have hmost : second.val.toNat < 1114112 := by
    have hvalid := second.valid
    unfold UInt32.isValidChar Nat.isValidChar at hvalid
    omega
  have hthird : ∀ n, n / 4096 = n / 64 / 64 := fun n => (Nat.div_div_eq_div_mul n 64 64).symm
  have hfourth : ∀ n, n / 262144 = n / 64 / 64 / 64 := fun n => by
    rw [Nat.div_div_eq_div_mul, Nat.div_div_eq_div_mul]
  unfold String.utf8EncodeChar
  dsimp only
  simp only [hthird, hfourth]
  generalize first.val.toNat = low at hlt
  generalize second.val.toNat = high at hlt hmost
  split_ifs <;>
    simp only [List.cons_append, List.nil_append, List.cons_lt_cons_iff, UInt8.lt_iff_toNat_lt,
      ← UInt8.toNat_inj, UInt8.toNat_ofNat'] <;>
    omega

theorem flatMap_encodeChar_lt {first second : List Char} (h : first < second) :
    first.flatMap String.utf8EncodeChar < second.flatMap String.utf8EncodeChar := by
  induction first generalizing second with
  | nil =>
      cases second with
      | nil => exact absurd h (List.lt_irrefl [])
      | cons d second =>
          rw [List.flatMap_nil, List.flatMap_cons]
          cases hbytes : String.utf8EncodeChar d with
          | nil => exact absurd hbytes String.utf8EncodeChar_ne_nil
          | cons byte bytes => exact List.nil_lt_cons _ _
  | cons c first ih =>
      cases second with
      | nil => exact absurd h (List.not_lt_nil _)
      | cons d second =>
          rw [List.flatMap_cons, List.flatMap_cons]
          rcases List.cons_lt_cons_iff.mp h with hlt | ⟨rfl, hlater⟩
          · exact encodeChar_append_lt hlt _ _
          · exact List.append_left_lt (ih hlater)

-- Texts are in the order of their bytes.
theorem bytes_lt_bytes_iff {first second : String} :
    bytes first < bytes second ↔ first < second := by
  have hmono : ∀ {first second : String}, first < second → bytes first < bytes second := by
    intro first second h
    rw [bytes_eq_flatMap, bytes_eq_flatMap]
    exact flatMap_encodeChar_lt (String.lt_iff.mp h)
  refine ⟨fun h => ?_, hmono⟩
  by_cases hlt : first < second
  · exact hlt
  · by_cases hback : second < first
    · exact absurd h (List.lt_asymm (hmono hback))
    · obtain rfl := String.le_antisymm (String.not_lt.mp hback) (String.not_lt.mp hlt)
      exact absurd h (List.lt_irrefl _)

end LivePreview.Text
