import LivePreview.Proofs.Linking.Layout

namespace LivePreview.Linking

open Pattern Script
open ImportPatch (IsGap)
open Spot (between)

section Passes

variable {kind : ExportKind} {indent gap text : List Char} {exported : Export} {chunk : Chunk}

section Statement

variable {next : Pattern} {more : List Pattern} {groups : List (Nat × List Char)}
  {edit : Match → List Char} {assign : Match → List (List Char)} {words out : List Char}
  {given : List (List Char)}

theorem rewrites_exportLine (hindent : IsIndent indent) (hgap : IsGap gap)
    (hwords : ∀ later, ∀ c ∈ (words ++ later).head?, Text.isBlank c = false)
    (hbody : ∀ {spot : Spot} later, (∀ c ∈ later.head?, c = '\n') →
      (all (next :: more)).Takes spot words (text ++ later) groups)
    (hfound : ∀ found : Match, (∀ index, found.group? index =
      (groups ++ [(1, indent)]).lookup index) → edit found = indent ++ out ∧ assign found = given)
    (hcalm : (all (lineStart :: group 1 Form.indent :: Pattern.text "export" :: blanks :: next ::
      more)).Calm text) :
    (all (lineStart :: group 1 Form.indent :: Pattern.text "export" :: blanks :: next ::
      more)).Rewrites edit assign (indent ++ ("export".toList ++ (gap ++ (words ++ text))))
        (indent ++ (out ++ text)) given := by
  have hmatch : ∀ read later, (∀ c ∈ read.getLast?, c = '\n') → (∀ c ∈ later.head?, c = '\n') →
      ∃ found, (all (lineStart :: group 1 Form.indent :: Pattern.text "export" :: blanks :: next ::
          more)).matchAt (between (read ++ []) (indent ++ ("export".toList ++ (gap ++ words)) ++
            (text ++ later))) = some found ∧
        found.stop = between (read ++ [] ++ (indent ++ ("export".toList ++ (gap ++ words))))
          (text ++ later) ∧ edit found = indent ++ out ∧ assign found = given := by
    intro read later hread hlater
    rw [List.append_nil]
    obtain ⟨found, hmatch, hstop, hgroups⟩ := Takes.exists_found
      (takes_exportLine 1 hread hindent hgap (hwords _) (hbody later hlater))
    exact ⟨found, hmatch, hstop, hfound found hgroups⟩
  have hwhole := rewrites_matched rfl (List.forall_mem_nil _) hmatch hcalm
  simpa only [List.nil_append, List.append_assoc] using hwhole

theorem rewrites_exportWord (hindent : IsIndent indent) (hgap : IsGap gap)
    (hwords : ∀ later, ∀ c ∈ (words ++ later).head?, Text.isBlank c = false)
    (hbody : ∀ {spot : Spot} later, (∀ c ∈ later.head?, c = '\n') →
      (all (next :: more)).Takes spot words (text ++ later) groups)
    (hfound : ∀ found : Match, (∀ index, found.group? index = groups.lookup index) →
      edit found = out ∧ assign found = given)
    (hcalm : (all (Form.exportWord :: next :: more)).Calm text) :
    (all (Form.exportWord :: next :: more)).Rewrites edit assign
      (indent ++ ("export".toList ++ (gap ++ (words ++ text)))) (indent ++ (out ++ text)) given := by
  have hfront : ∀ c ∈ indent, (all (Form.exportWord :: next :: more)).firsts.has c = false := by
    intro c hc
    have hfirsts : (all (Form.exportWord :: next :: more)).firsts.has c = (false || c == 'e') := rfl
    rw [hfirsts]
    rcases hindent c hc with rfl | rfl <;> rfl
  have hmatch : ∀ read later, (∀ c ∈ read.getLast?, c = '\n') → (∀ c ∈ later.head?, c = '\n') →
      ∃ found, (all (Form.exportWord :: next :: more)).matchAt (between (read ++ indent)
          ("export".toList ++ (gap ++ words) ++ (text ++ later))) = some found ∧
        found.stop = between (read ++ indent ++ ("export".toList ++ (gap ++ words)))
          (text ++ later) ∧ edit found = out ∧ assign found = given := by
    intro read later hread hlater
    have hedge : ∀ c ∈ (read ++ indent).getLast?, Text.isWordCharacter c = false := by
      intro c hc
      rw [List.getLast?_append] at hc
      cases hlast : indent.getLast? with
      | none =>
          rw [hlast, Option.none_or] at hc
          exact hread c hc ▸ by decide
      | some d =>
          rw [hlast] at hc
          obtain rfl : d = c := Option.some.inj hc
          rcases hindent d (List.mem_of_getLast? hlast) with rfl | rfl <;> decide
    obtain ⟨found, hmatch, hstop, hgroups⟩ := Takes.exists_found
      (takes_exportWord hedge hgap (hwords _) (hbody later hlater))
    exact ⟨found, hmatch, hstop, hfound found hgroups⟩
  have hwhole := rewrites_matched rfl hfront hmatch hcalm
  simpa only [List.append_assoc] using hwhole

end Statement

theorem head_append_line {p : Char → Prop} {later : List Char} (htext : ∀ c ∈ text.head?, p c)
    (hlater : ∀ c ∈ later.head?, c = '\n') (hbreak : p '\n') : ∀ c ∈ (text ++ later).head?, p c := by
  intro c hc
  cases text with
  | nil => exact hlater c hc ▸ hbreak
  | cons d text => exact htext c hc

theorem EndsList.append_line {tail later : List Char} (h : EndsList text tail)
    (hlater : ∀ c ∈ later.head?, c = '\n') : EndsList (text ++ later) tail := by
  cases h with
  | mark hindent => exact .mark hindent
  | silent hindent htext => exact .silent hindent (head_append_line htext hlater (by decide))

-- An export is replaced in the pass of its kind.
theorem Export.rewrites (hindent : IsIndent indent) (hgap : IsGap gap) (hstands : exported.Stands text)
    (hquiet : Quiet (exported.words ++ text)) :
    exported.kind.form.Rewrites exported.kind.edit exported.kind.assign
      (indent ++ ("export".toList ++ (gap ++ (exported.words ++ text))))
      (indent ++ (exported.result ++ text)) exported.assigned := by
  have hcalm := hquiet.of_suffix.calm exported.kind.opens
  have hhead := hstands.not_blank_head
  cases hstands with
  | @declared gap' heading name hgap' hheading hname htext =>
      have hblank : ∀ later, ∀ c ∈ (heading ++ name ++ later).head?, Text.isBlank c = false :=
        fun later => ((hheading.opened.append name).append later).head (by decide)
      obtain ⟨index, hindex, htakes⟩ := exists_takes_defaultBody hheading hname
      have hbody {spot : Spot} (later : List Char) (hlater : ∀ c ∈ later.head?, c = '\n') :
          (all [Pattern.text "default", blanks, defaultBody]).Takes spot
            ("default".toList ++ (gap' ++ (heading ++ name))) (text ++ later)
              [(2, heading ++ name), (index, name)] :=
        (takes_text "default").seq ((takes_gap hgap' (hblank _)).seq
          (htakes _ _ (head_append_line htext hlater (by decide))))
      refine rewrites_exportLine hindent hgap hhead hbody (fun found hgroups => ⟨?_, ?_⟩) hcalm
      · have hdeclaration := congrArg₂ (fun first second => first.getD [] ++ second.getD [])
          (hgroups 1) (hgroups 2)
        rcases hindex with rfl | rfl <;> exact hdeclaration
      · have hassigned := congrArg₂ (fun first second =>
          [assignment "default".toList ((first.or second).getD [])]) (hgroups 3) (hgroups 4)
        rcases hindex with rfl | rfl <;> exact hassigned
  | @expression gap' hgap' hne htext =>
      have hbody {spot : Spot} (later : List Char) : (all [Pattern.text "default", blanks]).Takes spot
          ("default".toList ++ gap') (text ++ later) [] :=
        takes_default hgap' (by rwa [List.head?_append_of_ne_nil _ hne])
      exact rewrites_exportWord hindent hgap hhead (fun later _ => hbody later)
        (fun _ _ => ⟨rfl, rfl⟩) hcalm
  | @value heading name hheading hname htext =>
      have hbody {spot : Spot} (later : List Char) (hlater : ∀ c ∈ later.head?, c = '\n') :
          (group 2 (valueWords 3)).Takes spot (heading ++ name) (text ++ later)
            [(2, heading ++ name), (3, name)] :=
        (takes_valueWords hheading hname (head_append_line htext hlater (by decide))).group 2
      refine rewrites_exportLine hindent hgap hhead hbody (fun found hgroups => ⟨?_, ?_⟩) hcalm
      · exact congrArg₂ (fun first second => first.getD [] ++ second.getD []) (hgroups 1) (hgroups 2)
      · exact congrArg (fun name => [assignment (name.getD []) (name.getD [])]) (hgroups 3)
  | @type heading hheading =>
      have hbody {spot : Spot} (later : List Char) :
          (group 2 typeWords).Takes spot heading (text ++ later) [(2, heading)] :=
        (takes_typeWords hheading).group 2
      refine rewrites_exportLine hindent hgap hhead (fun later _ => hbody later)
        (fun found hgroups => ⟨?_, rfl⟩) hcalm
      exact congrArg₂ (fun first second => first.getD [] ++ second.getD []) (hgroups 1) (hgroups 2)
  | @list items tail hitems htail =>
      have hbody {spot : Spot} (later : List Char) (hlater : ∀ c ∈ later.head?, c = '\n') :
          listBody.Takes spot ('\x7b' :: (items ++ '\x7d' :: tail)) (text ++ later) [(2, items)] :=
        takes_listBody hitems (htail.append_line hlater)
      refine rewrites_exportWord hindent hgap hhead hbody (fun found hgroups => ⟨rfl, ?_⟩) hcalm
      have htypes : found.has 1 = false := by rw [Match.has_eq, hgroups 1]; rfl
      have hitems : found.group 2 = items := congrArg (·.getD []) (hgroups 2)
      change Exporting.listAssignments found = _
      rw [Exporting.listAssignments, htypes, hitems]
      rfl

-- What one pass makes of a part of the script.
theorem Chunk.Laid.rewrites (h : chunk.Laid) (hrank : ∀ other ∈ chunk.kind?, kind.rank ≤ other.rank) :
    kind.form.Rewrites kind.edit kind.assign chunk.source (chunk.replaced kind).source
      (chunk.assigned kind) := by
  cases h with
  | plain h => exact (h.calm kind.opens).rewrites
  | @exporting indent gap text exported hindent hgap hstands hquiet =>
      by_cases hkind : exported.kind = kind
      · subst hkind
        have hreplaced : (Chunk.exporting indent gap exported text).replaced exported.kind =
            .plain (indent ++ (exported.result ++ text)) := if_pos rfl
        have hassigned : (Chunk.exporting indent gap exported text).assigned exported.kind =
            exported.assigned := if_pos rfl
        rw [hreplaced, hassigned]
        exact Export.rewrites hindent hgap hstands hquiet
      · have hreplaced : (Chunk.exporting indent gap exported text).replaced kind =
            .exporting indent gap exported text := if_neg fun h => hkind (Option.some.inj h)
        have hassigned : (Chunk.exporting indent gap exported text).assigned kind = [] :=
          if_neg hkind
        have hlower : kind.rank < exported.kind.rank :=
          lt_of_le_of_ne (hrank exported.kind rfl) fun h => hkind (ExportKind.eq_of_rank h).symm
        rw [hreplaced, hassigned]
        intro read later out' given' hread hlater hmore
        refine .barren (kind.exports.barren kind.nullable_body (fun _ => kind.not_blank_firsts)
          kind.opens hindent hgap ?_ hquiet hlater fun front hfront => ?_) hmore
        · rw [List.append_assoc]
          exact hstands.not_blank_head _
        · rw [List.append_assoc]
          exact hstands.apart hlower hlater hfront

theorem Chunk.Laid.replaced (h : chunk.Laid) (kind : ExportKind) : (chunk.replaced kind).Laid := by
  unfold Chunk.replaced
  split
  · cases h with
    | plain h => exact .plain h
    | @exporting indent gap text exported hindent hgap hstands hquiet =>
        exact .plain ((hstands.quiet_result hquiet).append_indent hindent)
  · exact h

theorem Chunk.kind?_replaced (kind : ExportKind) (chunk : Chunk) :
    (chunk.replaced kind).kind? = if chunk.kind? = some kind then none else chunk.kind? := by
  unfold Chunk.replaced
  split <;> rfl

theorem Chunk.result_replaced (kind : ExportKind) (chunk : Chunk) :
    (chunk.replaced kind).result = chunk.result := by
  unfold Chunk.replaced
  split <;> rfl

theorem Chunk.assigned_replaced {other : ExportKind} (h : kind ≠ other) (chunk : Chunk) :
    (chunk.replaced kind).assigned other = chunk.assigned other := by
  unfold Chunk.replaced
  split
  · rename_i hkind
    cases chunk with
    | plain => rfl
    | exporting => exact (if_neg fun hother => h ((Option.some.inj hkind).symm.trans hother)).symm
  · rfl

theorem Chunk.result_of_kind? (h : chunk.kind? = none) : chunk.result = chunk.source := by
  cases chunk with
  | plain => rfl
  | exporting => cases h

theorem ExportKind.replace_script {chunks : List Chunk} (hlaid : ∀ chunk ∈ chunks, chunk.Laid)
    (hrank : ∀ chunk ∈ chunks, ∀ other ∈ chunk.kind?, kind.rank ≤ other.rank)
    (given : List (List Char)) : kind.replace ⟨script chunks, given⟩ =
      ⟨script (chunks.map (Chunk.replaced kind)), given ++ chunks.flatMap (Chunk.assigned kind)⟩ := by
  have hedits : Edits kind.form kind.edit kind.assign [] (script chunks)
      (['\n'].intercalate (chunks.map fun chunk => (chunk.replaced kind).source))
      (chunks.flatMap (Chunk.assigned kind)) :=
    edits_intercalate (Quiet.nil.calm kind.opens)
      (fun chunk hchunk => (hlaid chunk hchunk).rewrites (hrank chunk hchunk)) (by simp)
  obtain ⟨hbody, hgiven⟩ := hedits.splice_findAll kind.nullable
  have hsources : script (chunks.map (Chunk.replaced kind)) =
      ['\n'].intercalate (chunks.map fun chunk => (chunk.replaced kind).source) := by
    rw [script, List.map_map]
    rfl
  rw [replace, Exporting.step, hbody, hgiven, hsources]

-- The passes one after the other.
theorem foldl_replace {kinds : List ExportKind} {chunks : List Chunk}
    (hkinds : kinds.Pairwise fun kind other => kind.rank < other.rank)
    (hlaid : ∀ chunk ∈ chunks, chunk.Laid)
    (hknown : ∀ chunk ∈ chunks, ∀ kind ∈ chunk.kind?, kind ∈ kinds) (given : List (List Char)) :
    kinds.foldl (fun script kind => kind.replace script) ⟨script chunks, given⟩ =
      ⟨['\n'].intercalate (chunks.map Chunk.result),
        given ++ kinds.flatMap fun kind => chunks.flatMap (Chunk.assigned kind)⟩ := by
  induction kinds generalizing chunks given with
  | nil =>
      have hplain : chunks.map Chunk.source = chunks.map Chunk.result := by
        refine List.map_congr_left fun chunk hchunk => (Chunk.result_of_kind? ?_).symm
        exact Option.eq_none_iff_forall_not_mem.mpr fun kind hkind =>
          absurd (hknown chunk hchunk kind hkind) List.not_mem_nil
      simp [script, hplain]
  | cons kind kinds ih =>
      obtain ⟨hfirst, hkinds⟩ := List.pairwise_cons.mp hkinds
      have hrank : ∀ chunk ∈ chunks, ∀ other ∈ chunk.kind?, kind.rank ≤ other.rank := by
        intro chunk hchunk other hother
        rcases List.mem_cons.mp (hknown chunk hchunk other hother) with rfl | hother
        · exact Nat.le_refl _
        · exact Nat.le_of_lt (hfirst other hother)
      have hlaid' : ∀ chunk ∈ chunks.map (Chunk.replaced kind), chunk.Laid := by
        intro _ hmem
        obtain ⟨chunk, hchunk, rfl⟩ := List.mem_map.mp hmem
        exact (hlaid chunk hchunk).replaced kind
      have hknown' : ∀ chunk ∈ chunks.map (Chunk.replaced kind), ∀ other ∈ chunk.kind?,
          other ∈ kinds := by
        intro _ hmem other hother
        obtain ⟨chunk, hchunk, rfl⟩ := List.mem_map.mp hmem
        rw [Chunk.kind?_replaced] at hother
        split at hother
        · cases hother
        · rename_i hkind
          refine (List.mem_cons.mp (hknown chunk hchunk other hother)).resolve_left ?_
          rintro rfl
          exact hkind hother
      have hassigned : ∀ other ∈ kinds, (chunks.map (Chunk.replaced kind)).flatMap
          (Chunk.assigned other) = chunks.flatMap (Chunk.assigned other) := by
        intro other hother
        have hne : kind ≠ other := fun h => absurd (hfirst other hother) (h ▸ Nat.lt_irrefl _)
        rw [List.flatMap_map]
        exact List.flatMap_congr fun chunk _ => chunk.assigned_replaced hne
      rw [List.foldl_cons, ExportKind.replace_script hlaid hrank, ih hkinds hlaid' hknown',
        List.flatMap_congr hassigned, List.map_map, List.flatMap_cons, List.append_assoc]
      congr 2
      exact List.map_congr_left fun chunk _ => chunk.result_replaced kind

-- The exports of a script are replaced where they stand, and the assignments are those of its
-- declarations that are exported as the default, then those of its values, then those of its lists.
theorem ofScript_script {chunks : List Chunk} (h : ∀ chunk ∈ chunks, chunk.Laid) :
    Exporting.ofScript (script chunks) = ⟨['\n'].intercalate (chunks.map Chunk.result),
      ExportKind.all.flatMap fun kind => chunks.flatMap (Chunk.assigned kind)⟩ := by
  have hkinds : ExportKind.all.Pairwise fun kind other => kind.rank < other.rank := by decide
  have hknown : ∀ kind, kind ∈ ExportKind.all := by rintro ⟨⟩ <;> decide
  rw [ExportKind.ofScript_eq, foldl_replace hkinds h fun _ _ kind _ => hknown kind, List.nil_append]

end Passes

-- The assignments for the end of the script, in the order of the passes.
def assignments (chunks : List Chunk) : List (List Char) :=
  ExportKind.all.flatMap fun kind => chunks.flatMap (Chunk.assigned kind)

-- Where every export starts a line, the exports are replaced where they stand, and the assignments
-- come behind them.
theorem assignExports_script {chunks : List Chunk} (h : ∀ chunk ∈ chunks, chunk.Laid) :
    assignExports (script chunks) = "exports.__esModule = true;\n".toList ++
      ['\n'].intercalate (chunks.map Chunk.result ++ assignments chunks) := by
  have hscript := ofScript_script h
  unfold assignExports
  dsimp only
  rw [hscript, List.append_assoc]
  congr 1
  change ['\n'].intercalate (chunks.map Chunk.result) ++ (if assignments chunks = [] then [] else
    '\n' :: ['\n'].intercalate (assignments chunks)) = _
  split
  · rename_i hnil
    rw [hnil, List.append_nil, List.append_nil]
  · rename_i hne
    have hchunks : chunks.map Chunk.result ≠ [] := by
      intro hnil
      rw [List.map_eq_nil_iff.mp hnil] at hne
      exact hne rfl
    rw [Text.intercalate_append hchunks hne, List.append_assoc, List.singleton_append]

-- A function or a class with a name that is exported as the default keeps its declaration and is
-- assigned at the end of the script. Any other default is assigned where it stands.
theorem assignExports_defaults {chunks : List Chunk} (h : ∀ chunk ∈ chunks, chunk.Laid) :
    assignExports (script chunks) = "exports.__esModule = true;\n".toList ++
        ['\n'].intercalate (chunks.map Chunk.result ++ assignments chunks) ∧
      (∀ indent gap gap' heading name text,
        .exporting indent gap (.declared gap' heading name) text ∈ chunks →
          indent ++ (heading ++ name ++ text) ∈ chunks.map Chunk.result ∧
            assignment "default".toList name ∈ assignments chunks) ∧
      ∀ indent gap gap' text, .exporting indent gap (.expression gap') text ∈ chunks →
        indent ++ ("exports.default = ".toList ++ text) ∈ chunks.map Chunk.result := by
  refine ⟨assignExports_script h, fun indent gap gap' heading name text hmem => ⟨?_, ?_⟩,
    fun indent gap gap' text hmem => ?_⟩
  · exact List.mem_map_of_mem (f := Chunk.result) hmem
  · refine List.mem_flatMap.mpr ⟨.declared, by decide, List.mem_flatMap.mpr ⟨_, hmem, ?_⟩⟩
    exact List.mem_singleton_self _
  · exact List.mem_map_of_mem (f := Chunk.result) hmem

theorem isGap_blank : IsGap [' '] := ⟨List.cons_ne_nil _ _, by decide⟩

-- A generator that is exported as the default, and a list.
def generatorChunks : List Chunk :=
  [.exporting [] [' '] (.declared [' '] "async function* ".toList "load".toList)
      "() \x7b\x7d".toList,
    .plain "const answer = 42;".toList,
    .exporting [] [' '] (.list " answer as a ".toList [';']) []]

theorem laid_generatorChunks : ∀ chunk ∈ generatorChunks, chunk.Laid := by
  have hheading : DefaultHeading "async function* ".toList := by
    have hsplit : "async function* ".toList =
        ("async".toList ++ [' ']) ++ ("function".toList ++ ([] ++ '*' :: [' '])) := by decide
    rw [hsplit]
    exact .function (.present isGap_blank) (.star (by decide) (by decide))
  have hname : IsDeclared "load".toList := by
    have hsplit : "load".toList = 'l' :: "oad".toList := by decide
    rw [hsplit]
    exact .intro (by decide) (by decide)
  have htail : EndsList [] [';'] := .mark (List.forall_mem_nil _)
  rw [generatorChunks, List.forall_mem_cons, List.forall_mem_cons, List.forall_mem_singleton]
  exact ⟨.exporting (List.forall_mem_nil _) isGap_blank
    (.declared isGap_blank hheading hname (by decide)) (quiet_of_contains (by decide)),
    .plain (quiet_of_contains (by decide)),
    .exporting (List.forall_mem_nil _) isGap_blank (.list (by decide) htail)
      (quiet_of_contains (by decide))⟩

theorem assignExports_defaults_generator :
    (∀ chunk ∈ generatorChunks, chunk.Laid) ∧
      assignExports ("export default async function* load() \x7b\x7d\n".toList ++
        "const answer = 42;\nexport \x7b answer as a \x7d;".toList) =
      "exports.__esModule = true;\nasync function* load() \x7b\x7d\nconst answer = 42;\n".toList ++
        "\nexports.default = load;\nexports.a = answer;".toList := by
  refine ⟨laid_generatorChunks, ?_⟩
  have hscript : script generatorChunks =
      "export default async function* load() \x7b\x7d\n".toList ++
        "const answer = 42;\nexport \x7b answer as a \x7d;".toList := by decide +kernel
  rw [← hscript, (assignExports_defaults laid_generatorChunks).1]
  decide +kernel

-- An identifier that begins with the word `function` is taken for a function with a name.
theorem assignExports_misreads_functional :
    assignExports "const functional = 1;\nexport default functional;".toList =
      "exports.__esModule = true;\nconst functional = 1;\nfunctional;\nexports.default = al;".toList := by
  decide +kernel

end LivePreview.Linking
