import LivePreview.Diagnosis.Remedy
import LivePreview.Proofs.Pattern.Inclusion
import LivePreview.Proofs.Script.Merging

namespace LivePreview

namespace Pattern

-- Whatever the pattern reads holds a character that is not blank.
def solid : Pattern → Bool
  | set (.one c) => !Text.isBlank c
  | seq first second => first.solid || second.solid
  | alt first second => first.solid && second.solid
  | rounds body least _ _ => least != 0 && body.solid
  | group _ body => body.solid
  | _ => false

theorem Reads.exists_solid {pattern : Pattern} {text : List Char} (h : Reads pattern text)
    (hsolid : pattern.solid = true) : ∃ c ∈ text, Text.isBlank c = false := by
  induction h with
  | empty => cases hsolid
  | @set chars c hc =>
      cases chars with
      | one d =>
          refine ⟨c, List.mem_singleton_self c, ?_⟩
          rw [show c = d by simpa [CharClass.has] using hc]
          simpa [solid] using hsolid
      | _ => cases hsolid
  | assert => cases hsolid
  | seq _ _ ihfirst ihsecond =>
      rw [solid, Bool.or_eq_true] at hsolid
      rcases hsolid with hsolid | hsolid
      · obtain ⟨c, hc, hblank⟩ := ihfirst hsolid
        exact ⟨c, List.mem_append_left _ hc, hblank⟩
      · obtain ⟨c, hc, hblank⟩ := ihsecond hsolid
        exact ⟨c, List.mem_append_right _ hc, hblank⟩
  | left _ ih =>
      rw [solid, Bool.and_eq_true] at hsolid
      exact ih hsolid.1
  | right _ ih =>
      rw [solid, Bool.and_eq_true] at hsolid
      exact ih hsolid.2
  | @rounds body least _ _ texts hleast _ _ ih =>
      rw [solid, Bool.and_eq_true, bne_iff_ne] at hsolid
      obtain ⟨text, texts, rfl⟩ := List.exists_cons_of_ne_nil
        (List.length_pos_iff.mp (Nat.lt_of_lt_of_le (Nat.pos_of_ne_zero hsolid.1) hleast))
      obtain ⟨c, hc, hblank⟩ := ih text List.mem_cons_self hsolid.2
      exact ⟨c, List.mem_append_left _ hc, hblank⟩
  | group _ ih => exact ih hsolid

-- Such a pattern does not match in a blank text.
theorem trim_ne_nil_of_find? {pattern : Pattern} {source : List Char}
    (hsolid : pattern.solid = true) (h : (pattern.find? source).isSome = true) : Text.trim source ≠ [] := by
  intro hnil
  have hall := Text.blank_of_trim_eq_nil hnil
  obtain ⟨found, hfind⟩ := Option.isSome_iff_exists.mp h
  obtain ⟨hsuffix, hmatch⟩ := matchAt_of_findFrom hfind
  obtain ⟨_, _, text, hrest, hreads⟩ := sound_matchAt hmatch
  obtain ⟨c, hc, hsolid⟩ := hreads.exists_solid hsolid
  have hmem : c ∈ source := hsuffix.subset (hrest ▸ List.mem_append_left _ hc)
  rw [hall c hmem] at hsolid
  cases hsolid

end Pattern

namespace Diagnosis

open Pattern Form

section Forms

variable {text : List Char}

-- Each form by which the classifier tells an error about an import is read again by the remedy.
theorem occurs_refusedExport (h : noExportNamed.Occurs text) : refusedExport.Occurs text := by
  have hfront : Implies noExportNamed (.seq (.seq (.seq (.text "does not provide an export named ")
      (maybe quoteMark)) (quotedName 1)) (maybe quoteMark)) := Implies.refl noExportNamed
  have hname : Implies (.seq (.seq (.text "does not provide an export named ") (maybe quoteMark))
      (quotedName 1)) (all [.text "does not provide an export named ", maybe quoteMark,
        quotedName 2]) :=
    (Implies.refl _).seq ((Implies.refl _).group 1 2)
  exact (h.of_implies hfront).front.of_implies (hname.maybe _)

theorem occurs_importNotFound (h : moduleNotFound.Occurs text) : importNotFound.Occurs text := by
  have hlast (h : (seq (.text "Can't resolve") (all [blanks, quoteMark, unquoted 1,
      quoteMark])).Occurs text) : importNotFound.Occurs text :=
    h.of_implies ((Implies.refl _).right.right.right.seq (Implies.refl _))
  rcases h.of_alt_seq with h | h
  · exact h.of_implies ((Implies.refl _).left.seq (Implies.refl _))
  rcases h.of_alt_seq with h | h
  · exact h.of_implies ((Implies.refl _).left.right.seq (Implies.refl _))
  rcases h.of_alt_seq with h | h
  · exact h.of_implies ((Implies.refl _).left.right.right.seq (Implies.refl _))
  -- What stands before the last words can be anything.
  · have hback : Implies (seq (all [.text "Module not found:", starLazy (.set .exceptNewline),
        .text "Can't resolve"]) (all [blanks, quoteMark, unquoted 1, quoteMark]))
        (seq (.text "Module not found:") (seq (starLazy (.set .exceptNewline))
          (seq (.text "Can't resolve") (all [blanks, quoteMark, unquoted 1, quoteMark])))) :=
      Implies.refl _
    exact hlast (h.of_implies hback).back.back

theorem occurs_undefinedName (h : notDefined.Occurs text ∨ (nameNotFound 1).Occurs text) :
    undefinedName.Occurs text := by
  have hname : Implies (nameNotFound 1) (nameNotFound 2) :=
    (Implies.refl _).seq ((Implies.refl _).seq (((Implies.refl _).group 1 2).seq (Implies.refl _)))
  rcases h with h | h
  · exact h.of_implies (Implies.refl _).left
  · exact h.of_implies hname.right

theorem isSome_missingExport?_iff : (missingExport? text).isSome = true ↔
    unmatchedExport.Occurs text ∨ unknownMember.Occurs text ∨ refusedExport.Occurs text := by
  rw [missingExport?, Option.isSome_map, Option.isSome_or, Option.isSome_or, Bool.or_eq_true,
    Bool.or_eq_true, isSome_find?_iff, isSome_find?_iff, isSome_find?_iff, or_assoc]

theorem isSome_undefinedName?_iff :
    (undefinedName? text).isSome = true ↔ undefinedName.Occurs text := by
  rw [undefinedName?, Option.isSome_map, isSome_find?_iff]

-- The remedy finds what is missing.
def Readable (text : List Char) : Prop :=
  (missingExport? text).isSome = true ∨ (undefinedName? text).isSome = true ∨
    (importNotFound.find? text).isSome = true

theorem readable_of_imports {rule : Rule} (hrule : rule ∈ Rule.imports)
    (h : (rule.form.find? text).isSome = true) : Readable text := by
  unfold Readable
  rw [isSome_missingExport?_iff, isSome_undefinedName?_iff, isSome_find?_iff]
  rw [isSome_find?_iff] at h
  simp only [Rule.imports, List.mem_cons, List.not_mem_nil, or_false] at hrule
  rcases hrule with rfl | rfl | rfl | rfl | rfl | rfl
  · exact .inl (.inr (.inr (occurs_refusedExport h)))
  · exact .inl (.inl h)
  · exact .inl (.inr (.inl h))
  · exact .inr (.inr (occurs_importNotFound h))
  · exact .inr (.inl (occurs_undefinedName (.inr h)))
  · exact .inr (.inl (occurs_undefinedName (.inl h)))

end Forms

end Diagnosis

-- A remedy that can be acted on: it has either a patch or a prompt, is about the error that was
-- diagnosed, and changes the source where it patches it.
structure Remedy.Answers (remedy : Remedy) (diagnosis : Diagnosis) (source : String) : Prop where
  success : remedy.success = true
  one : (remedy.patch?.isSome ^^ remedy.prompt?.isSome) = true
  kind : remedy.kind = diagnosis.kind
  target : remedy.target? = diagnosis.location.file?
  patched : ∀ fixed, remedy.patch? = some fixed → remedy.kind = .missingImport ∧ fixed ≠ source

namespace Diagnosis

variable {diagnosis : Diagnosis} {source : String}

theorem answers_directive {text : List Char} (description instruction : String) :
    (diagnosis.directive text description instruction).Answers diagnosis source :=
  ⟨rfl, rfl, rfl, rfl, nofun⟩

theorem answers_typeRemedy : (diagnosis.typeRemedy source.toList).Answers diagnosis source := by
  unfold typeRemedy
  dsimp only
  split
  · split <;> exact answers_directive _ _
  all_goals exact answers_directive _ _

theorem answers_runtimeRemedy :
    (diagnosis.runtimeRemedy source.toList).Answers diagnosis source := by
  unfold runtimeRemedy
  dsimp only
  split
  · exact answers_directive _ _
  · split
    · exact answers_directive _ _
    · split <;> exact answers_directive _ _

theorem answers_sourceFormRemedy :
    (diagnosis.sourceFormRemedy source.toList).Answers diagnosis source := by
  unfold sourceFormRemedy
  dsimp only
  split
  · exact answers_directive _ _
  · split
    · exact answers_directive _ _
    · split <;> exact answers_directive _ _

theorem answers_hookRemedy : (diagnosis.hookRemedy source.toList).Answers diagnosis source := by
  unfold hookRemedy
  dsimp only
  split
  · exact answers_directive _ _
  · split
    · exact answers_directive _ _
    · split <;> exact answers_directive _ _

theorem answers_importRemedy (hkind : diagnosis.kind = .missingImport)
    (hreadable : Readable diagnosis.details) :
    (diagnosis.importRemedy source.toList).Answers diagnosis source := by
  unfold importRemedy
  dsimp only
  split
  · exact answers_directive _ _
  · split
    · rename_i known fixed hbind
      obtain ⟨other, hknown, hmap⟩ := Option.bind_eq_some_iff.mp hbind
      obtain ⟨text, hfixed, heq⟩ := Option.map_eq_some_iff.mp hmap
      obtain ⟨rfl, rfl⟩ := Prod.mk.inj heq
      have hbare := ImportPatch.bare_of_known (Script.name_of_find? hknown).1
      refine ⟨rfl, rfl, rfl, rfl, fun patched hpatched => ⟨hkind, ?_⟩⟩
      rintro rfl
      refine ImportPatch.ne_of_addImport? hbare hfixed ?_
      rw [← Option.some.inj hpatched, String.toList_ofList]
    · exact answers_directive _ _
  · exact answers_directive _ _
  · rename_i hexport hname hmodule
    rw [Readable, hexport, hname, hmodule] at hreadable
    simp at hreadable

end Diagnosis

namespace Classifier

theorem kind_classify (classifier : Classifier) (raw : String) :
    (classifier.classify raw).kind =
      ((classifier.firstMatch? raw.toList).map (·.1.kind)).getD .unknown := by
  unfold classify
  dsimp only
  cases classifier.firstMatch? raw.toList <;> rfl

theorem kind_of_otherRules : ∀ rule ∈ Rule.hooks ++ Rule.types ++ Rule.sourceForm ++ Rule.running ++
    Rule.styles, rule.kind ≠ .missingImport := by
  decide

-- An error is diagnosed as one about an import only by the rules for these.
theorem exists_of_missingImport {raw : String}
    (h : (usual.classify raw).kind = .missingImport) :
    ∃ rule ∈ Rule.imports, (rule.form.find? raw.toList).isSome = true := by
  rw [kind_classify] at h
  cases hfirst : usual.firstMatch? raw.toList with
  | none =>
      rw [hfirst] at h
      cases h
  | some first =>
      rw [hfirst] at h
      obtain ⟨rule, hrule, hmap⟩ := List.exists_of_findSome?_eq_some hfirst
      obtain ⟨found, hfind, rfl⟩ := Option.map_eq_some_iff.mp hmap
      refine ⟨rule, ?_, hfind ▸ rfl⟩
      have hmem : rule ∈ Rule.imports ++ (Rule.hooks ++ Rule.types ++ Rule.sourceForm ++
          Rule.running ++ Rule.styles) := by
        simpa only [usual, Rule.usual, List.append_assoc] using hrule
      exact (List.mem_append.mp hmem).resolve_right fun hother => kind_of_otherRules rule hother h

theorem solid_of_imports : ∀ rule ∈ Rule.imports, rule.form.solid = true := by
  decide

-- Every diagnosis by the usual rules can be acted on, whatever the error and the source are.
theorem answers_usual (raw source : String) :
    ((usual.classify raw).remedy source).Answers (usual.classify raw) source := by
  unfold Diagnosis.remedy
  split
  · rename_i hkind
    obtain ⟨rule, hrule, hfind⟩ := exists_of_missingImport hkind
    have hdetails : (usual.classify raw).details = raw.toList :=
      if_neg (Pattern.trim_ne_nil_of_find? (solid_of_imports rule hrule) hfind)
    refine Diagnosis.answers_importRemedy hkind ?_
    rw [hdetails]
    exact Diagnosis.readable_of_imports hrule hfind
  · exact Diagnosis.answers_typeRemedy
  · exact Diagnosis.answers_runtimeRemedy
  · exact Diagnosis.answers_sourceFormRemedy
  · exact Diagnosis.answers_hookRemedy
  · exact Diagnosis.answers_directive _ _
  · exact Diagnosis.answers_directive _ _

end Classifier

end LivePreview
