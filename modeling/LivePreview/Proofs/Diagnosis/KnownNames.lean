import LivePreview.Diagnosis.KnownName
import LivePreview.Pattern.CharClass
import LivePreview.Script.Literal
import LivePreview.Text.WordCharacter

namespace LivePreview

namespace Text

variable {c : Char}

theorem codes_of_isAlphanum (h : c.isAlphanum = true) :
    (48 ≤ c.toNat ∧ c.toNat ≤ 57) ∨ (65 ≤ c.toNat ∧ c.toNat ≤ 90) ∨
      (97 ≤ c.toNat ∧ c.toNat ≤ 122) := by
  change (decide ('A'.val ≤ c.val ∧ c.val ≤ 'Z'.val) ||
    (decide ('a'.val ≤ c.val) && decide (c.val ≤ 'z'.val)) ||
      (decide ('0'.val ≤ c.val) && decide (c.val ≤ '9'.val))) = true at h
  simp only [Bool.or_eq_true, Bool.and_eq_true, decide_eq_true_eq, UInt32.le_iff_toNat_le] at h
  change (65 ≤ c.toNat ∧ c.toNat ≤ 90 ∨ 97 ≤ c.toNat ∧ c.toNat ≤ 122) ∨
    48 ≤ c.toNat ∧ c.toNat ≤ 57 at h
  omega

theorem not_blank_of_isAlphanum (h : c.isAlphanum = true) : isBlank c = false := by
  have hcodes := codes_of_isAlphanum h
  simp only [isBlank, Bool.or_eq_false_iff, Bool.and_eq_false_iff, decide_eq_false_iff_not,
    beq_eq_false_iff_ne]
  omega

theorem ne_of_isAlphanum {d : Char} (h : c.isAlphanum = true) (hd : d.isAlphanum = false) :
    c ≠ d := by
  rintro rfl
  rw [h] at hd
  cases hd

theorem isWordCharacter_of_isAlphanum (h : c.isAlphanum = true) : isWordCharacter c = true := by
  have hcodes := codes_of_isAlphanum h
  rw [isWordCharacter, if_pos (by omega), h, Bool.true_or]

theorem isAlphanumeric_of_isAlphanum (h : c.isAlphanum = true) : isAlphanumeric c = true := by
  have hcodes := codes_of_isAlphanum h
  rw [Char.isAlphanum, Bool.or_eq_true] at h
  rw [isAlphanumeric, Bool.or_eq_true]
  refine h.imp (fun hletter => ?_) fun hdigit => ?_
  · rw [isLetter, if_pos (by omega), hletter]
  · rw [isNumeric, isDecimalDigit, if_pos (by omega), hdigit, Bool.true_or]

end Text

theorem Script.inName_of_isAlphanum {c : Char} (h : c.isAlphanum = true) : inName c = true := by
  rw [inName, Text.isAlphanumeric_of_isAlphanum h, Bool.true_or, Bool.true_or]

theorem CharClass.nameStart_of_isAlpha {c : Char} (h : c.isAlpha = true) :
    (CharClass.union (.range 'A' 'Z') (.union (.range 'a' 'z') (.ofList ['_', '$']))).has c =
      true := by
  change (decide ('A'.val ≤ c.val ∧ c.val ≤ 'Z'.val) ||
    (decide ('a'.val ≤ c.val) && decide (c.val ≤ 'z'.val))) = true at h
  change (decide ('A'.val ≤ c.val) && decide (c.val ≤ 'Z'.val) ||
    (decide ('a'.val ≤ c.val) && decide (c.val ≤ 'z'.val) ||
      (CharClass.ofList ['_', '$']).has c)) = true
  rw [Bool.decide_and] at h
  rw [← Bool.or_assoc, h, Bool.true_or]

namespace KnownName

-- A name in letters and digits, and a module that stands in quotes as it is.
structure Plain (known : KnownName) : Prop where
  nonempty : known.name.toList ≠ []
  first : ∀ c ∈ known.name.toList.head?, c.isAlpha = true
  name : ∀ c ∈ known.name.toList, c.isAlphanum = true
  module : ∀ c ∈ known.module.toList, c.isAlphanum = true ∨ c ∈ ['-', '/', '@']

theorem plain_of_mem {known : KnownName} (h : known ∈ table) : known.Plain := by
  have hall : ∀ known ∈ table, known.name.toList ≠ [] ∧
      known.name.toList.head?.all Char.isAlpha = true ∧
      known.name.toList.all Char.isAlphanum = true ∧
      known.module.toList.all (fun c => c.isAlphanum || ['-', '/', '@'].contains c) = true := by
    decide +kernel
  obtain ⟨hnonempty, hfirst, hname, hmodule⟩ := hall known h
  refine ⟨hnonempty, fun c hc => ?_, by simpa using hname, by simpa using hmodule⟩
  rw [Option.mem_def.mp hc] at hfirst
  exact hfirst

theorem Plain.ne_of_mem_module {known : KnownName} (h : known.Plain) {c d : Char}
    (hc : c ∈ known.module.toList) (hd : d.isAlphanum = false ∧ d ∉ ['-', '/', '@']) : c ≠ d := by
  rintro rfl
  rcases h.module c hc with halphanum | hmark
  · exact Text.ne_of_isAlphanum halphanum hd.1 rfl
  · exact hd.2 hmark

end KnownName

end LivePreview
