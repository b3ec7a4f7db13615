import LivePreview.Text.Blank
import Mathlib.Data.List.TakeWhile

namespace LivePreview.Text

variable {text gap gap' : List Char}

-- The codes of the blanks.
def blankCodes : List Nat :=
  List.range' 0x9 5 ++ List.range' 0x2000 11 ++
    [0x20, 0x85, 0xa0, 0x1680, 0x2028, 0x2029, 0x202f, 0x205f, 0x3000]

-- What no blank is, by a look at each of them.
theorem not_of_isBlank {p : Char → Bool} (hall : ∀ n ∈ blankCodes, p (Char.ofNat n) = false) {c : Char}
    (h : isBlank c = true) : p c = false := by
  have hcode : c.toNat ∈ blankCodes := by
    simp only [isBlank, Bool.or_eq_true, Bool.and_eq_true, decide_eq_true_eq, beq_iff_eq] at h
    simp only [blankCodes, List.mem_append, List.mem_range'_1, List.mem_cons, List.not_mem_nil,
      or_false]
    omega
  simpa using hall _ hcode

theorem trimStart_append_blanks (h : ∀ c ∈ gap, isBlank c = true) :
    trimStart (gap ++ text) = trimStart text :=
  List.dropWhile_append_of_pos h

theorem trimEnd_append_blanks (h : ∀ c ∈ gap, isBlank c = true) :
    trimEnd (text ++ gap) = trimEnd text := by
  have hgap : ∀ c ∈ gap.reverse, isBlank c = true := fun c hc => h c (List.mem_reverse.mp hc)
  rw [trimEnd, List.reverse_append, List.dropWhile_append_of_pos hgap, trimEnd]

theorem trimStart_eq_self (h : ∀ c ∈ text.head?, isBlank c = false) : trimStart text = text := by
  cases text with
  | nil => rfl
  | cons c text => exact List.dropWhile_cons_of_neg (by simpa using h c rfl)

theorem trimEnd_eq_self (h : ∀ c ∈ text.getLast?, isBlank c = false) : trimEnd text = text := by
  have hreverse : text.reverse.dropWhile isBlank = text.reverse :=
    trimStart_eq_self fun c hc => h c (by rwa [List.head?_reverse] at hc)
  rw [trimEnd, hreverse, List.reverse_reverse]

theorem trim_eq_self (hhead : ∀ c ∈ text.head?, isBlank c = false)
    (hlast : ∀ c ∈ text.getLast?, isBlank c = false) : trim text = text := by
  rw [trim, trimStart_eq_self hhead, trimEnd_eq_self hlast]

theorem trim_blanks (h : ∀ c ∈ gap, isBlank c = true) : trim gap = [] := by
  rw [trim, trimStart, List.dropWhile_eq_nil_iff.mpr h]
  rfl

-- Blanks around a text are trimmed.
theorem trim_between (hgap : ∀ c ∈ gap, isBlank c = true) (hgap' : ∀ c ∈ gap', isBlank c = true)
    (hhead : ∀ c ∈ text.head?, isBlank c = false)
    (hlast : ∀ c ∈ text.getLast?, isBlank c = false) : trim (gap ++ (text ++ gap')) = text := by
  cases text with
  | nil =>
      rw [List.nil_append]
      exact trim_blanks (List.forall_mem_append.mpr ⟨hgap, hgap'⟩)
  | cons c text =>
      have hstart : trimStart (c :: text ++ gap') = c :: text ++ gap' := trimStart_eq_self hhead
      rw [trim, trimStart_append_blanks hgap, hstart, trimEnd_append_blanks hgap',
        trimEnd_eq_self hlast]

theorem trim_blanks_append (hgap : ∀ c ∈ gap, isBlank c = true)
    (hhead : ∀ c ∈ text.head?, isBlank c = false)
    (hlast : ∀ c ∈ text.getLast?, isBlank c = false) : trim (gap ++ text) = text := by
  have hbetween := trim_between hgap (List.forall_mem_nil _) hhead hlast
  rwa [List.append_nil] at hbetween

theorem trim_append_blanks (hgap : ∀ c ∈ gap, isBlank c = true)
    (hhead : ∀ c ∈ text.head?, isBlank c = false)
    (hlast : ∀ c ∈ text.getLast?, isBlank c = false) : trim (text ++ gap) = text :=
  trim_between (List.forall_mem_nil _) hgap hhead hlast

theorem trimEnd_concat {c : Char} (h : isBlank c = false) (text : List Char) :
    trimEnd (text ++ [c]) = text ++ [c] :=
  trimEnd_eq_self fun d hd => by
    rw [List.getLast?_concat] at hd
    rwa [← Option.some.inj hd]

theorem trimEnd_cons {c : Char} (h : isBlank c = false) (text : List Char) :
    trimEnd (c :: text) = c :: trimEnd text := by
  simp only [trimEnd, List.reverse_cons, List.dropWhile_append]
  split
  · rename_i hnil
    rw [List.isEmpty_iff.mp hnil, List.dropWhile_cons_of_neg (by simp [h])]
    rfl
  · simp

theorem not_blank_of_trimStart {c : Char} {rest : List Char} (h : trimStart text = c :: rest) :
    isBlank c = false := by
  have hhead := List.head?_dropWhile_not isBlank text
  rw [← trimStart, h] at hhead
  simpa using hhead

-- A text is blanks, what trimming leaves of it, and blanks again.
theorem exists_trim (text : List Char) :
    ∃ gap gap', text = gap ++ (trim text ++ gap') ∧ (∀ c ∈ gap, isBlank c = true) ∧
      (∀ c ∈ gap', isBlank c = true) ∧ (∀ c ∈ (trim text).head?, isBlank c = false) ∧
      ∀ c ∈ (trim text).getLast?, isBlank c = false := by
  have hend : trimStart text = trim text ++ ((trimStart text).reverse.takeWhile isBlank).reverse := by
    rw [trim, trimEnd, ← List.reverse_append, List.takeWhile_append_dropWhile,
      List.reverse_reverse]
  refine ⟨text.takeWhile isBlank, ((trimStart text).reverse.takeWhile isBlank).reverse, ?_,
    fun c hc => List.mem_takeWhile_imp hc,
    fun c hc => List.mem_takeWhile_imp (List.mem_reverse.mp hc), fun c hc => ?_, fun c hc => ?_⟩
  · rw [← hend, trimStart, List.takeWhile_append_dropWhile]
  · cases hstart : trimStart text with
    | nil =>
        rw [trim, hstart] at hc
        cases hc
    | cons d rest =>
        have hd := not_blank_of_trimStart hstart
        rw [trim, hstart, trimEnd_cons hd] at hc
        rwa [← Option.some.inj hc]
  · rw [trim, trimEnd, List.getLast?_reverse] at hc
    have hhead := List.head?_dropWhile_not isBlank (trimStart text).reverse
    rw [hc] at hhead
    simpa using hhead

-- Further blanks around a text are trimmed with those that are there.
theorem trim_around (hgap : ∀ c ∈ gap, isBlank c = true) (hgap' : ∀ c ∈ gap', isBlank c = true) :
    trim (gap ++ (text ++ gap')) = trim text := by
  obtain ⟨front, back, htext, hfront, hback, hhead, hlast⟩ := exists_trim text
  have hsplit : gap ++ (text ++ gap') = (gap ++ front) ++ (trim text ++ (back ++ gap')) :=
    (congrArg (fun middle => gap ++ (middle ++ gap')) htext).trans
      (by simp only [List.append_assoc])
  rw [hsplit]
  exact trim_between (List.forall_mem_append.mpr ⟨hgap, hfront⟩)
    (List.forall_mem_append.mpr ⟨hback, hgap'⟩) hhead hlast

theorem blank_of_trim_eq_nil (h : trim text = []) : ∀ c ∈ text, isBlank c = true := by
  obtain ⟨gap, gap', htext, hgap, hgap', _⟩ := exists_trim text
  rw [htext, h, List.nil_append]
  exact List.forall_mem_append.mpr ⟨hgap, hgap'⟩

theorem not_blank_head_trim {c : Char} (h : c ∈ (trim text).head?) : isBlank c = false := by
  obtain ⟨_, _, _, _, _, hhead, _⟩ := exists_trim text
  exact hhead c h

theorem not_blank_last_trim {c : Char} (h : c ∈ (trim text).getLast?) : isBlank c = false := by
  obtain ⟨_, _, _, _, _, _, hlast⟩ := exists_trim text
  exact hlast c h

theorem trim_trim (text : List Char) : trim (trim text) = trim text :=
  trim_eq_self (fun _ => not_blank_head_trim) fun _ => not_blank_last_trim

theorem trim_isPrefix (h : ∀ c ∈ text.head?, isBlank c = false) : trim text <+: text := by
  rw [trim, trimStart_eq_self h, trimEnd, ← List.reverse_suffix, List.reverse_reverse]
  exact List.dropWhile_suffix _

theorem trimStart_eq_trim (h : ∀ c ∈ text.getLast?, isBlank c = false) :
    trimStart text = trim text := by
  refine (trimEnd_eq_self fun c hc => h c ?_).symm
  obtain ⟨front, hfront⟩ := List.dropWhile_suffix isBlank (l := text)
  rw [← hfront, List.getLast?_append, ← trimStart, hc]
  rfl

end LivePreview.Text
