import LivePreview.Proofs.Script.Merging
import LivePreview.Proofs.Script.Passing

namespace LivePreview

namespace ImportPatch

open Script

-- A clause as it is commonly written: names, or names in front of braces and within them, with nothing
-- else behind the braces.
inductive IsPlainClause : List Char → Prop
  | flat {clause : List Char} (h : IsFlat clause) : IsPlainClause clause
  | braces {lead inner gap : List Char} (hlead : IsFlat lead) (hinner : IsFlat inner)
      (hgap : ∀ c ∈ gap, Text.isBlank c = true) (hapart : ∀ c ∈ lead.getLast?, inName c = false) :
      IsPlainClause (lead ++ (braced inner ++ gap))

theorem IsPlainClause.isPlain {clause : List Char} (h : IsPlainClause clause) : IsPlain clause := by
  cases h with
  | flat h => exact .flat h
  | braces hlead hinner hgap hapart => exact .braces hlead hinner (isFlat_of_blank hgap) hapart

-- The parts of a plain clause are flat.
structure ClauseParts.Flat (parts : ClauseParts) : Prop where
  default : IsFlat parts.default
  items : ∀ item ∈ parts.items, IsFlat item

theorem isFlat_of_subset {part whole : List Char} (h : IsFlat whole) (hpart : part ⊆ whole) :
    IsFlat part :=
  fun c hc => h c (hpart hc)

theorem not_mem_of_isFlat {text : List Char} (h : IsFlat text) {c : Char}
    (hc : inClause c = false) : c ∉ text :=
  fun hmem => ne_of_inClause (h c hmem) hc rfl

theorem ofClause_braced {lead inner gap : List Char} (hlead : IsFlat lead) (hinner : IsFlat inner)
    (hgap : ∀ c ∈ gap, Text.isBlank c = true) :
    ClauseParts.ofClause (Text.trim (lead ++ (braced inner ++ gap))) =
      { default := Text.trim (dropTrailing ',' (Text.trim (Text.trimStart lead)))
        items := (inner.splitOn ',').filterMap fun item =>
          match Text.trim item with
          | [] => none
          | item => some item } := by
  have hopen : Text.isBlank '\x7b' = false := by decide
  have hclose : Text.isBlank '\x7d' = false := by decide
  have htrim : Text.trim (lead ++ (braced inner ++ gap)) =
      Text.trimStart lead ++ '\x7b' :: (inner ++ ['\x7d']) := by
    have hstart : Text.trimStart (lead ++ (braced inner ++ gap)) =
        (Text.trimStart lead ++ '\x7b' :: inner) ++ ['\x7d'] ++ gap := by
      rw [Text.trimStart, dropWhile_append_stop]
      · simp [Text.trimStart, braced]
      · intro c hc
        obtain rfl : '\x7b' = c := Option.some.inj hc
        exact hopen
    rw [Text.trim, hstart, Text.trimEnd_append_blanks hgap, Text.trimEnd_concat hclose]
    simp
  have hfront : '\x7b' ∉ Text.trimStart lead :=
    fun hmem => not_mem_of_isFlat hlead (by decide) ((List.dropWhile_sublist _).subset hmem)
  have hbrace : '\x7d' ∉ inner := not_mem_of_isFlat hinner (by decide)
  have hitems : dropTrailing '\x7d' (Text.trimEnd (inner ++ ['\x7d'])) = inner := by
    rw [Text.trimEnd_concat hclose, dropTrailing_concat_self, dropTrailing_of_not_mem hbrace]
  rw [htrim, ClauseParts.ofClause, Text.cut?_char _ hfront]
  dsimp only
  generalize dropTrailing '\x7d' (Text.trimEnd (inner ++ ['\x7d'])) = items at hitems ⊢
  subst hitems
  rfl

theorem IsPlainClause.flat_ofClause {clause : List Char} (h : IsPlainClause clause) :
    (ClauseParts.ofClause (Text.trim clause)).Flat := by
  cases h with
  | flat h =>
      have htrim : IsFlat (Text.trim clause) := isFlat_of_subset h (Text.trim_subset clause)
      have hbrace : '\x7b' ∉ Text.trim clause := not_mem_of_isFlat htrim (by decide)
      rw [ClauseParts.ofClause, Text.cut?_char_eq_none hbrace]
      exact ⟨htrim, List.forall_mem_nil _⟩
  | @braces lead inner gap hlead hinner hgap _ =>
      rw [ofClause_braced hlead hinner hgap]
      constructor
      · have hdefault : Apart (Text.trim (dropTrailing ',' (Text.trim (Text.trimStart lead))))
            (Text.trimStart lead) :=
          (Apart.trim _).trans ((Apart.dropTrailing (by decide) _).trans (Apart.trim _))
        exact isFlat_of_subset hlead
          (List.Subset.trans hdefault.subset (List.dropWhile_sublist _).subset)
      · intro item hitem
        obtain ⟨piece, hpiece, heq⟩ := List.mem_filterMap.mp hitem
        have hsubset : piece ⊆ inner :=
          (Apart.of_mem_splitOn (by decide) hpiece).subset
        have htrim : item ⊆ piece := by
          split at heq
          · cases heq
          · exact Option.some.inj heq ▸ Text.trim_subset piece
        exact isFlat_of_subset hinner (List.Subset.trans htrim hsubset)

theorem isFlat_intercalate {between : List Char} (hbetween : IsFlat between)
    {items : List (List Char)} (h : ∀ item ∈ items, IsFlat item) :
    IsFlat (between.intercalate items) := by
  induction items with
  | nil => exact List.forall_mem_nil _
  | cons item items ih =>
      have hitem := h item List.mem_cons_self
      have hitems : ∀ other ∈ items, IsFlat other :=
        fun other hother => h other (List.mem_cons_of_mem _ hother)
      cases items with
      | nil => rwa [List.intercalate_singleton]
      | cons other items =>
          rw [List.intercalate_cons_cons]
          exact (hitem.append hbetween).append (ih hitems)

theorem ClauseParts.Flat.isPlain_render {parts : ClauseParts} (h : parts.Flat) :
    IsPlain parts.render := by
  have hbetween : IsFlat ", ".toList := by decide
  have hspace : IsFlat [' '] := by decide
  have hinner : IsFlat (' ' :: (", ".toList.intercalate parts.items ++ [' '])) :=
    hspace.append ((isFlat_intercalate hbetween h.items).append hspace)
  have hbraces : "\x7b ".toList ++ ", ".toList.intercalate parts.items ++ " \x7d".toList =
      braced (' ' :: (", ".toList.intercalate parts.items ++ [' '])) := by
    have hopen : "\x7b ".toList = ['\x7b', ' '] := by decide
    have hclose : " \x7d".toList = [' ', '\x7d'] := by decide
    rw [hopen, hclose]
    simp [braced]
  unfold ClauseParts.render
  dsimp only
  rw [hbraces]
  split
  · have hplain : IsPlain ([] ++ (braced _ ++ [])) :=
      .braces (List.forall_mem_nil _) hinner (List.forall_mem_nil _) (by simp)
    rwa [List.nil_append, List.append_nil] at hplain
  split
  · exact .flat h.default
  · have hlast : (parts.default ++ ", ".toList).getLast? = some ' ' := by
      rw [List.getLast?_append]
      rfl
    have hplain : IsPlain (_ ++ (braced _ ++ [])) :=
      .braces (h.default.append hbetween) hinner (List.forall_mem_nil _)
        (not_inName_of_getLast? hlast (by decide))
    rwa [List.append_nil] at hplain

-- A plain clause that takes a name stays one.
theorem IsPlainClause.isPlain_merge {clause merged : List Char} {known : KnownName}
    (h : IsPlainClause clause) (hname : IsFlat known.name.toList)
    (hmerge : merge clause known = .merged merged) : IsPlain merged := by
  have hparts := h.flat_ofClause
  unfold merge at hmerge
  dsimp only at hmerge
  split at hmerge
  · cases hmerge
  split at hmerge
  · split at hmerge
    · cases hmerge
    split at hmerge
    · cases hmerge
      exact ClauseParts.Flat.isPlain_render ⟨hname, hparts.items⟩
    · cases hmerge
  · split at hmerge
    · cases hmerge
    · cases hmerge
      refine ClauseParts.Flat.isPlain_render ⟨hparts.default, fun item hitem => ?_⟩
      rcases List.mem_append.mp hitem with hitem | hitem
      · exact hparts.items item hitem
      · exact List.mem_singleton.mp hitem ▸ hname

end ImportPatch

end LivePreview
