import LivePreview.Binary64.Basic
import Mathlib.Data.Nat.Log

namespace LivePreview.Binary64

theorem unitsPerOne_pos : 0 < unitsPerOne := by decide +kernel

theorem spacing_pos (units : Nat) : 0 < spacing units := Nat.pow_pos (by decide)

-- A count of units that is a number of the format if it is not too large.
def Representable (units : Nat) : Prop := spacing units ∣ units

-- The wider spacing further out is a multiple of the narrower one.
theorem spacing_dvd {m n : Nat} (h : m.log2 ≤ n.log2) : spacing m ∣ spacing n :=
  Nat.pow_dvd_pow 2 (Nat.sub_le_sub_right h 52)

theorem spacing_dvd_of_le {m n : Nat} (h : m ≤ n) : spacing m ∣ spacing n := by
  apply spacing_dvd
  rw [Nat.log2_eq_log_two, Nat.log2_eq_log_two]
  exact Nat.log_mono_right h

-- Rounding a quotient does not go beyond a whole number that bounds it.
theorem roundDiv_le {num den k : Nat} (hden : 0 < den) (h : num ≤ k * den) :
    roundDiv num den ≤ k := by
  have hquotient : num / den ≤ k := Nat.div_le_of_le_mul (by rwa [Nat.mul_comm])
  by_cases heq : num / den = k
  · -- the bound is reached, so there is no remainder to round up
    have hsplit := Nat.div_add_mod num den
    rw [heq, Nat.mul_comm] at hsplit
    have hmod : num % den = 0 := by omega
    simp only [roundDiv, hmod, heq, Nat.mul_zero, if_pos hden, le_refl]
  · unfold roundDiv
    dsimp only
    split_ifs <;> omega

theorem roundUnits_le_of_dvd {num den bound : Nat} (hden : 0 < den)
    (hdvd : spacing (num / den) ∣ bound) (h : num ≤ bound * den) :
    roundUnits num den ≤ bound := by
  obtain ⟨k, rfl⟩ := hdvd
  unfold roundUnits
  rw [Nat.mul_comm (spacing _) k]
  apply Nat.mul_le_mul_right
  apply roundDiv_le (Nat.mul_pos hden (spacing_pos _))
  calc num ≤ spacing (num / den) * k * den := h
    _ = k * (den * spacing (num / den)) := by ac_rfl

-- What is rounded does not pass a number of the format that bounds it.
theorem roundUnits_le {units bound : Nat} (hbound : Representable bound) (h : units ≤ bound) :
    roundUnits units 1 ≤ bound := by
  apply roundUnits_le_of_dvd Nat.one_pos
  · rw [Nat.div_one]
    exact Nat.dvd_trans (spacing_dvd_of_le h) hbound
  · rwa [Nat.mul_one]

-- Rounding reaches the next power of two at most; there the spacing is wider, and the power is a
-- multiple of that too.
theorem representable_roundUnits {num den : Nat} (hden : 0 < den) :
    Representable (roundUnits num den) := by
  have hlt : num / den < 2 ^ ((num / den).log2 + 1) := Nat.lt_log2_self
  have hdvd : spacing (num / den) ∣ 2 ^ ((num / den).log2 + 1) :=
    Nat.pow_dvd_pow 2 (by omega)
  have hle : roundUnits num den ≤ 2 ^ ((num / den).log2 + 1) := by
    apply roundUnits_le_of_dvd hden hdvd
    exact Nat.le_of_lt ((Nat.div_lt_iff_lt_mul hden).mp hlt)
  rcases Nat.lt_or_eq_of_le hle with hbelow | hpower
  · have hlog : (roundUnits num den).log2 ≤ (num / den).log2 := by
      by_cases hzero : roundUnits num den = 0
      · rw [hzero]
        exact Nat.zero_le _
      · exact Nat.lt_succ_iff.mp ((Nat.log2_lt hzero).mpr hbelow)
    exact Nat.dvd_trans (spacing_dvd hlog) (Nat.dvd_mul_left _ _)
  · rw [Representable, hpower, spacing, Nat.log2_two_pow]
    exact Nat.pow_dvd_pow 2 (Nat.sub_le _ 52)

-- A product that is finite is a number of the format.
theorem representable_of_mul {x y : Binary64} {negative : Bool} {units : Nat}
    (h : x.mul y = finite negative units) : Representable units ∧ units < unitLimit := by
  cases x with
  | nan => cases h
  | infinite a =>
      cases y with
      | nan | infinite _ => cases h
      | finite b n =>
          simp only [mul] at h
          split at h <;> cases h
  | finite a m =>
      cases y with
      | nan => cases h
      | infinite b =>
          simp only [mul] at h
          split at h <;> cases h
      | finite b n =>
          simp only [mul, ofUnits] at h
          split at h
          · cases h
            exact ⟨representable_roundUnits unitsPerOne_pos, by assumption⟩
          · cases h

-- A number of the format that does not reach the number nearest to `most` does not pass `most`:
-- else `most` would have been rounded to it or to less.
theorem roundToNat_le {x y : Binary64} {most : Nat} (hfinite : (x.mul y).isFinite = true)
    (hless : (ofNat most).le (x.mul y) = false) (limit : Nat) :
    (x.mul y).roundToNat limit ≤ most := by
  cases hproduct : x.mul y with
  | nan | infinite _ => rw [hproduct] at hfinite; cases hfinite
  | finite negative units =>
      obtain ⟨hrepresentable, hlimit⟩ := representable_of_mul hproduct
      cases negative with
      | true => exact Nat.zero_le _
      | false =>
          rw [hproduct] at hless
          have hround : units < roundUnits (most * unitsPerOne) 1 := by
            simp only [ofNat, ofUnits] at hless
            split at hless
            · simpa [le, signedUnits] using hless
            · omega
          have hunits : units ≤ most * unitsPerOne := by
            by_contra hover
            have hle := roundUnits_le hrepresentable (Nat.le_of_lt (Nat.not_le.mp hover))
            omega
          simp only [roundToNat, Bool.false_eq_true, if_false]
          apply (Nat.min_le_left _ _).trans
          apply Nat.lt_succ_iff.mp
          rw [Nat.div_lt_iff_lt_mul (Nat.mul_pos (by decide) unitsPerOne_pos)]
          have hone := unitsPerOne_pos
          calc 2 * units + unitsPerOne ≤ 2 * (most * unitsPerOne) + unitsPerOne := by omega
            _ < 2 * (most * unitsPerOne) + 2 * unitsPerOne := by omega
            _ = (most + 1) * (2 * unitsPerOne) := by
              rw [Nat.add_mul, Nat.one_mul, Nat.mul_left_comm]

end LivePreview.Binary64
