import LivePreview.Proofs.Healing.Accounts
import LivePreview.Proofs.Healing.Curable
import LivePreview.Proofs.Healing.Reports

namespace LivePreview.Healing

open Linking Retry Script

variable {ρ : Type} {healer : Healer ρ} {options : BundleOptions} {files : Sources}
  {plan : BuildPlan}

-- The part of a round is to add the import of a component to a file that lacked it when the round
-- began.
structure Adding (options : BundleOptions) (files : Sources) (plan : BuildPlan) (begun : Sources)
    (part : Diagnosis × String) (name : String) : Prop where
  target : part.2 ∈ treatable options files plan
  lacks : lacks begun part.2 name = true
  known : ∃ known, KnownName.find? name = some known
  told : ∃ report : String, Undefined.Tells name report.toList ∧
    part.1 = Classifier.usual.classify report

theorem lacks_iff {workspace : Workspace Bool ρ} {key name : String} :
    lacks workspace.files key name = true ↔
      name ∈ undeclaredNames (workspace.content key).toList := by
  rw [lacks, List.contains_iff_mem]
  rfl

-- Different components are told of in different words.
theorem name_eq_of_message {name other : String}
    (h : (Problem.undeclared name).message = (Problem.undeclared other).message) : name = other :=
  Problem.undeclared.inj (Problem.eq_undeclared_of_message h)

namespace Adding

variable {begun : Sources} {part : Diagnosis × String} {name other : String}

theorem classified (h : Adding options files plan begun part name) :
    part.1.kind = .missingImport ∧ part.1.message = (Problem.undeclared name).message ∧
      part.1.isFixable = true := by
  obtain ⟨known, hknown⟩ := h.known
  obtain ⟨report, htells, heq⟩ := h.told
  obtain ⟨hmem, rfl⟩ := name_of_find? hknown
  rw [heq]
  exact Undefined.classify_eq (Undefined.plainly_of_known hmem) htells

theorem action (h : Adding options files plan begun part name) (source : String) :
    (∃ fixed, Adds name source.toList fixed ∧
      (part.1.remedy source).action = .patch (String.ofList fixed)) ∨
    (isBound source.toList name.toList = true ∧
      ∃ text, (part.1.remedy source).action = .prompt text) := by
  obtain ⟨known, hknown⟩ := h.known
  obtain ⟨report, htells, heq⟩ := h.told
  obtain ⟨hmem, rfl⟩ := name_of_find? hknown
  rw [heq]
  rcases Undefined.action_remedy (Undefined.plainly_of_known hmem) htells hknown source with
    ⟨fixed, hfixed, haction⟩ | ⟨hnone, hprompt⟩
  · exact .inl ⟨fixed, ⟨known, hknown, hfixed⟩, haction⟩
  · exact .inr ⟨ImportPatch.isBound_of_addImport?_eq_none hnone, hprompt⟩

end Adding

-- Between two rounds the bundle is that of the files as they have become.
structure Treated (options : BundleOptions) (files : Sources) (plan : BuildPlan)
    (workspace : Workspace Bool ρ) : Prop where
  linker : workspace.bundler.IsLinker options
  built : workspace.built = ((Bundler.onLinker options).bundle workspace.files).1
  repaired : AllRepaired plan files workspace.files

namespace Treated

variable {workspace : Workspace Bool ρ} {part : Diagnosis × String} {key name : String}

-- A diagnosis about a file is treated in that file.
theorem target?_eq (ht : Treated options files plan workspace) (h : Curable options files plan)
    (hkey : key ∈ files.paths) {error : BundleError} (hconcerns : Concerns error key name) :
    Healer.target? workspace.files workspace.built (Classifier.usual.classify error.raw) =
      some key := by
  obtain ⟨named, hnamed, hnormal⟩ := hconcerns.file
  have hpaths := Sources.Alike.paths_eq ht.repaired
  rw [← hpaths] at hkey
  obtain ⟨found, hfound⟩ := Sources.exists_spelling? hkey hnormal.symm
  obtain ⟨hmem, hsame⟩ := Sources.spelling?_eq_some hfound
  obtain rfl := List.inj_on_of_nodup_map (hpaths ▸ h.spelled) hmem hkey (hsame.trans hnormal)
  rw [Healer.target?, hnamed, Option.bind_some, hfound, Option.some_or]

-- A diagnosis is about a component that a file lacks, and it is treated in that file.
theorem exists_adding_of_mem (ht : Treated options files plan workspace)
    (h : Curable options files plan) {diagnosis : Diagnosis}
    (hdiagnosis : diagnosis ∈ workspace.built.diagnoses .usual) :
    ∃ target name, Healer.target? workspace.files workspace.built diagnosis = some target ∧
      Adding options files plan workspace.files (diagnosis, target) name := by
  rw [(BundleResult.diagnoses_perm workspace.built .usual).mem_iff] at hdiagnosis
  obtain ⟨error, herror, rfl⟩ :=
    List.mem_map.mp ((Classifier.distinct_sublist _ _).subset hdiagnosis)
  rw [ht.built] at herror
  obtain ⟨key, hkey, name, known, hknown, hlacks, hconcerns⟩ :=
    h.exists_lack ht.repaired (Bundler.isLinker_onLinker options) herror
  exact ⟨key, name, ht.target?_eq h (Curable.mem_treatable_iff.mp hkey).1 hconcerns, hkey, hlacks,
    ⟨known, hknown⟩, error.raw, hconcerns.tells, rfl⟩

-- Each part of a plan is to add an import.
theorem exists_adding (ht : Treated options files plan workspace) (h : Curable options files plan)
    (hclassifier : healer.classifier = .usual) (hpart : part ∈ healer.plan workspace) :
    ∃ name, Adding options files plan workspace.files part name := by
  obtain ⟨diagnosis, hworth, hsome⟩ := List.mem_filterMap.mp hpart
  obtain ⟨target, htarget, hpart⟩ := Option.bind_eq_some_iff.mp hsome
  split at hpart
  · obtain rfl := Option.some.inj hpart
    have hdiagnosis := (List.mem_filter.mp hworth).1
    rw [hclassifier] at hdiagnosis
    obtain ⟨other, name, hother, hadding⟩ := ht.exists_adding_of_mem h hdiagnosis
    obtain rfl := Option.some.inj (htarget.symm.trans hother)
    exact ⟨name, hadding⟩
  · cases hpart

-- For each component that some file lacks, the plan is to add the import of it to one such file.
theorem exists_part (ht : Treated options files plan workspace) (h : Curable options files plan)
    (hclassifier : healer.classifier = .usual) (hkey : key ∈ treatable options files plan)
    (hlacks : lacks workspace.files key name = true) :
    ∃ part ∈ healer.plan workspace, Adding options files plan workspace.files part name := by
  obtain ⟨⟨known, hknown⟩, error, herror, hconcerns⟩ :=
    h.exists_error ht.repaired (Bundler.isLinker_onLinker options) hkey hlacks
  obtain ⟨hmem, rfl⟩ := name_of_find? hknown
  obtain ⟨_, hmessage, _⟩ :=
    Undefined.classify_eq (Undefined.plainly_of_known hmem) hconcerns.tells
  rw [← ht.built] at herror
  -- Of the errors with this message the first one has its diagnosis kept.
  have hdiagnosed : Classifier.usual.classify error.raw ∈ workspace.built.diagnosed .usual :=
    List.mem_map_of_mem herror
  obtain ⟨first, _, hfind, hsame⟩ :=
    Diagnosis.exists_find?_isAlike hdiagnosed (Diagnosis.isAlike_iff.mpr rfl)
  rw [← Classifier.find?_distinct List.not_mem_nil] at hfind
  have hfirst : first ∈ workspace.built.diagnoses .usual :=
    (BundleResult.diagnoses_perm workspace.built .usual).mem_iff.mpr
      (List.mem_of_find?_eq_some hfind)
  obtain ⟨target, name, htarget, hadding⟩ := ht.exists_adding_of_mem h hfirst
  obtain ⟨_, hfirstMessage, hfixable⟩ := hadding.classified
  obtain rfl : name = known.name := name_eq_of_message
    (hfirstMessage.symm.trans ((congrArg Prod.snd hsame).trans hmessage))
  refine ⟨(first, target), ?_, hadding⟩
  refine List.mem_filterMap.mpr ⟨first, List.mem_filter.mpr ⟨hclassifier ▸ hfirst, ?_⟩, ?_⟩
  · rw [hfixable, Bool.or_true]
  · rw [htarget, Option.bind_some, if_pos]
    unfold Healer.canTreat
    rcases hadding.action (workspace.content target) with
      ⟨_, _, haction⟩ | ⟨hbound, _⟩
    · rw [haction]
    · exact absurd (lacks_iff.mp hadding.lacks) (not_mem_undeclaredNames hbound)

end Treated

-- Within a round no file comes to lack more, and a file for which an attempt has ended lacks the
-- component no longer. It is added to no file but those for which the round has a part.
structure Curing (options : BundleOptions) (files : Sources) (plan : BuildPlan) (begun : Sources)
    (parts : List (Diagnosis × String)) (ended : List (String × Outcome))
    (workspace : Workspace Bool ρ) : Prop where
  linker : workspace.bundler.IsLinker options
  repaired : AllRepaired plan files workspace.files
  fewer : ∀ key name, lacks workspace.files key name = true → lacks begun key name = true
  kept : ∀ key name, lacks begun key name = true → lacks workspace.files key name = true ∨
    ∃ part ∈ parts, part.2 = key ∧ part.1.message = (Problem.undeclared name).message
  done : ∀ (index : Nat) (part : Diagnosis × String) (name : String), parts[index]? = some part →
    part.1.message = (Problem.undeclared name).message →
    (∃ outcome, (toString index, outcome) ∈ ended) → lacks workspace.files part.2 name = false

namespace Curing

variable {begun : Sources} {parts : List (Diagnosis × String)} {ended : List (String × Outcome)}
  {workspace : Workspace Bool ρ} {part : Diagnosis × String} {name : String} {index : Nat}

theorem bundle (hc : Curing options files plan begun parts ended workspace) :
    Curing options files plan begun parts ended workspace.bundle :=
  ⟨(Bundler.bundle_linker hc.linker workspace.files).2, hc.repaired, hc.fewer, hc.kept, hc.done⟩

-- An attempt ends once the file does not lack the component any more.
theorem finish (hc : Curing options files plan begun parts ended workspace)
    (hpart : parts[index]? = some part) (hadding : Adding options files plan begun part name)
    (hlacks : lacks workspace.files part.2 name = false) (outcome : Outcome) :
    Curing options files plan begun parts (ended ++ [(toString index, outcome)]) workspace := by
  refine ⟨hc.linker, hc.repaired, hc.fewer, hc.kept, ?_⟩
  rintro other same component hother hmessage ⟨result, hresult⟩
  rcases List.mem_append.mp hresult with hresult | hresult
  · exact hc.done other same component hother hmessage ⟨result, hresult⟩
  · obtain rfl := toString_inj (congrArg Prod.fst (List.mem_singleton.mp hresult))
    obtain rfl := Option.some.inj (hpart.symm.trans hother)
    obtain rfl := name_eq_of_message (hadding.classified.2.1.symm.trans hmessage)
    exact hlacks

theorem addFix (hc : Curing options files plan begun parts ended workspace) (fix : Fix) :
    Curing options files plan begun parts ended (workspace.addFix fix) :=
  ⟨hc.linker, hc.repaired, hc.fewer, hc.kept, hc.done⟩

-- The file with the import added lacks the component no longer and the others as before.
theorem write (hc : Curing options files plan begun parts ended workspace)
    (h : Curable options files plan) (hbegun : AllRepaired plan files begun) (hpart : part ∈ parts)
    (hadding : Adding options files plan begun part name) {fixed : List Char}
    (hadds : Adds name (workspace.content part.2).toList fixed) :
    Curing options files plan begun parts ended
        (workspace.write part.2 (workspace.content part.2) (String.ofList fixed)) ∧
      lacks (workspace.write part.2 (workspace.content part.2) (String.ofList fixed)).files
        part.2 name = false := by
  obtain ⟨_, hreached, _, _⟩ := Curable.mem_treatable_iff.mp hadding.target
  obtain ⟨content, other, hcontent, hother, hread, hpatched⟩ :=
    h.exists_texts hc.repaired hadding.target
  have htakes := h.takes _ hreached _ hread
  have hnow : workspace.content part.2 = other := by
    rw [Workspace.content, hother, Option.getD_some]
  rw [hnow] at hadds
  have hname : name ∈ undeclaredNames content.toList := by
    obtain ⟨first, text, hfirst, htext, _, hthen⟩ := h.exists_texts hbegun hadding.target
    obtain rfl := Option.some.inj (hcontent.symm.trans hfirst)
    have hlacks := hadding.lacks
    rw [lacks, List.contains_iff_mem, Walk.sourceOf, htext] at hlacks
    exact htakes.subset hthen hlacks
  have hbound := not_mem_of_adds hadds
  have hthere : ∀ component,
      lacks (workspace.files.insert part.2 (String.ofList fixed)) part.2 component = true ↔
        component ∈ undeclaredNames fixed := by
    intro component
    rw [lacks, List.contains_iff_mem, Walk.sourceOf, Sources.get?_insert, if_pos rfl,
      Option.getD_some, String.toList_ofList]
  have hbefore : ∀ component, lacks workspace.files part.2 component = true ↔
      component ∈ undeclaredNames other.toList := by
    intro component
    rw [lacks_iff, hnow]
  have helsewhere : ∀ key component, key ≠ part.2 →
      lacks (workspace.files.insert part.2 (String.ofList fixed)) key component =
        lacks workspace.files key component := by
    intro key component hne
    rw [lacks, lacks, Walk.sourceOf, Walk.sourceOf, Sources.get?_insert, if_neg hne]
  have hafter : ∀ key component,
      lacks (workspace.files.insert part.2 (String.ofList fixed)) key component = true →
        lacks workspace.files key component = true := by
    intro key component hlacks
    by_cases hkey : key = part.2
    · rw [hkey, hthere] at hlacks
      rw [hkey, hbefore]
      exact htakes.subset_of_adds hpatched hname hadds hlacks
    · rwa [helsewhere key component hkey] at hlacks
  unfold Workspace.write
  split
  · rename_i heq
    refine ⟨hc, Bool.eq_false_iff.mpr fun hlacks => hbound ?_⟩
    rwa [lacks_iff, ← heq, String.toList_ofList] at hlacks
  · refine ⟨⟨hc.linker, ?_, fun key component hlacks => hc.fewer _ _ (hafter _ _ hlacks), ?_, ?_⟩, ?_⟩
    · refine Sources.Alike.insert_second hc.repaired hcontent (.inr ⟨hreached, hread, ?_⟩)
      rw [String.toList_ofList]
      exact hpatched.tail ⟨name, hname, hadds⟩
    · intro key component hlacks
      refine (hc.kept key component hlacks).elim (fun hlacks => ?_) .inr
      by_cases hkey : key = part.2
      · by_cases hsame : component = name
        · exact .inr ⟨part, hpart, hkey.symm, hsame ▸ hadding.classified.2.1⟩
        · rw [hkey, hbefore] at hlacks
          rw [hkey, hthere]
          exact .inl ((htakes.lacks _ _ _ _ hpatched hname hadds hsame).mpr hlacks)
      · exact .inl ((helsewhere key component hkey).trans hlacks)
    · intro index same component hsame hmessage hended
      refine Bool.eq_false_iff.mpr fun hlacks => ?_
      have hearlier := hafter _ _ hlacks
      rw [hc.done index same component hsame hmessage hended] at hearlier
      cases hearlier
    · exact Bool.eq_false_iff.mpr fun hlacks => hbound ((hthere name).mp hlacks)

end Curing

namespace Attempt

variable {begun : Sources} {parts : List (Diagnosis × String)} {part : Diagnosis × String}
  {name : String} {index : Nat}

theorem keeps_curing (h : Curable options files plan) (hbegun : AllRepaired plan files begun)
    (service : Repair.Service ρ)
    (hservice : service.answersPrompts = false) (hpart : parts[index]? = some part)
    (hadding : Adding options files plan begun part name) (round number : Nat) :
    (Attempt.work .usual service ⟨round, part.1, part.2, number⟩).Keeps
      (Curing options files plan begun parts) (toString index) := by
  intro ended workspace hc
  refine ⟨hc, fun ended workspace hc => ?_⟩
  simp only [Work.KeepsAt, id_eq, treat]
  rcases hadding.action (workspace.content part.2) with
    ⟨fixed, hadds, haction⟩ | ⟨hbound, text, haction⟩
  · rw [haction]
    obtain ⟨hwritten, hlacks⟩ :=
      hc.write h hbegun (List.mem_of_getElem? hpart) hadding hadds
    have hbuilt := hwritten.bundle
    simp only [put, verify, Work.KeepsAt]
    split
    · exact hbuilt.finish hpart hadding hlacks _
    · exact (hbuilt.addFix _).finish hpart hadding hlacks _
  · rw [haction]
    dsimp only
    rw [hservice, if_neg Bool.false_ne_true]
    refine hc.finish hpart hadding ?_ _
    refine Bool.eq_false_iff.mpr fun hlacks => ?_
    exact not_mem_undeclaredNames hbound (lacks_iff.mp hlacks)

end Attempt

theorem countP_lt_of_mem {α : Type} {items : List α} {first second : α → Bool}
    (himp : ∀ item, second item = true → first item = true) {item : α} (hmem : item ∈ items)
    (hfirst : first item = true) (hsecond : second item = false) :
    items.countP second < items.countP first := by
  have hboth : (items.filter second).countP first = items.countP second := by
    rw [List.countP_eq_length_filter, List.filter_filter, List.countP_eq_length_filter]
    congr 1
    refine List.filter_congr fun other _ => ?_
    cases hother : second other with
    | false => rw [Bool.and_false]
    | true => rw [himp other hother, Bool.and_true]
  have hmore : 0 < (items.filter fun other => !second other).countP first :=
    List.countP_pos_iff.mpr ⟨item, List.mem_filter.mpr ⟨hmem, by rw [hsecond]; rfl⟩, hfirst⟩
  rw [List.countP_eq_countP_filter_add items first second, hboth]
  omega

theorem countP_le_succ {α : Type} [DecidableEq α] {items : List α} (hnodup : items.Nodup)
    {first second : α → Bool} (last : α)
    (himp : ∀ item, first item = true → second item = true ∨ item = last) :
    items.countP first ≤ items.countP second + 1 := by
  have hcount : items.countP first ≤ items.countP second + items.count last := by
    clear hnodup
    induction items with
    | nil => exact Nat.zero_le _
    | cons item items ih =>
        rw [List.countP_cons, List.countP_cons, List.count_cons]
        by_cases hfirst : first item = true
        · rcases himp item hfirst with hsecond | heq
          · rw [if_pos hfirst, if_pos hsecond]
            omega
          · rw [if_pos hfirst, if_pos (beq_iff_eq.mpr heq)]
            omega
        · rw [if_neg hfirst]
          omega
  have hone := List.nodup_iff_count_le_one.mp hnodup last
  omega

theorem Curable.nodup_treatable (h : Curable options files plan) :
    (treatable options files plan).Nodup :=
  (List.Nodup.of_map _ h.spelled).filter _

-- The number of files that lack a component.
def need (options : BundleOptions) (files : Sources) (plan : BuildPlan) (later : Sources)
    (name : String) : Nat :=
  (treatable options files plan).countP (lacks later · name)

namespace Treated

variable {progress : Progress Bool ρ}

-- A plan has one part for each message.
theorem eq_of_message {workspace : Workspace Bool ρ} (ht : Treated options files plan workspace)
    (h : Curable options files plan) (hclassifier : healer.classifier = .usual)
    {part other : Diagnosis × String} (hpart : part ∈ healer.plan workspace)
    (hother : other ∈ healer.plan workspace) (hmessage : part.1.message = other.1.message) :
    part = other := by
  have hspec : ∀ part ∈ healer.plan workspace, part.1 ∈ workspace.built.diagnoses .usual ∧
      Healer.target? workspace.files workspace.built part.1 = some part.2 := by
    intro part hpart
    obtain ⟨diagnosis, hworth, hsome⟩ := List.mem_filterMap.mp hpart
    obtain ⟨target, htarget, hpart⟩ := Option.bind_eq_some_iff.mp hsome
    split at hpart
    · obtain rfl := Option.some.inj hpart
      exact ⟨hclassifier ▸ (List.mem_filter.mp hworth).1, htarget⟩
    · cases hpart
  obtain ⟨name, hadding⟩ := ht.exists_adding h hclassifier hpart
  obtain ⟨same, hsame⟩ := ht.exists_adding h hclassifier hother
  have hkey : part.1.key = other.1.key := by
    rw [Diagnosis.key, Diagnosis.key, hmessage, hadding.classified.1, hsame.classified.1]
  have hnodup : ((workspace.built.diagnoses .usual).map Diagnosis.key).Nodup :=
    ((BundleResult.diagnoses_perm workspace.built .usual).map _).nodup_iff.mpr
      (Classifier.nodup_distinct [] _)
  have hfirst : part.1 = other.1 :=
    List.inj_on_of_nodup_map hnodup (hspec part hpart).1 (hspec other hother).1 hkey
  have hsecond := (hspec part hpart).2
  rw [hfirst, (hspec other hother).2] at hsecond
  exact Prod.ext hfirst (Option.some.inj hsecond).symm

-- In a round each component is added to exactly one of the files that lack it.
theorem carryOut (ht : Treated options files plan progress.workspace)
    (h : Curable options files plan) (hclassifier : healer.classifier = .usual)
    (hservice : healer.service.answersPrompts = false)
    (hsettings : healer.scheduler.problem? = none) :
    Treated options files plan
        (healer.carryOut progress (healer.plan progress.workspace)).workspace ∧
      ∀ name, need options files plan
          (healer.carryOut progress (healer.plan progress.workspace)).workspace.files name =
        need options files plan progress.workspace.files name - 1 := by
  have hstart : Curing options files plan progress.workspace.files
      (healer.plan progress.workspace) [] progress.workspace :=
    ⟨ht.linker, ht.repaired, fun _ _ hlacks => hlacks, fun _ _ hlacks => .inl hlacks, by simp⟩
  obtain ⟨ended, hdone, _, _, hended, _⟩ := Healer.carried_out healer hsettings hstart
    (progress.rounds + 1) (healer.plan progress.workspace) fun index part hpart number _ _ => by
      obtain ⟨name, hadding⟩ := ht.exists_adding h hclassifier (List.mem_of_getElem? hpart)
      rw [hclassifier]
      exact Attempt.keeps_curing h ht.repaired healer.service hservice hpart hadding _ number
  unfold Healer.carryOut
  dsimp only
  generalize (healer.enqueueAll (progress.rounds + 1) 0 (healer.plan progress.workspace)
    (.start healer.scheduler progress.workspace [])).waitIdle.world = world at hdone
  refine ⟨⟨(Bundler.bundle_linker hdone.linker world.files).2,
    Bundler.bundle_eq_onLinker hdone.linker world.files, hdone.repaired⟩, fun name => ?_⟩
  show need options files plan world.files name = _
  by_cases hany : ∃ key ∈ treatable options files plan,
      lacks progress.workspace.files key name = true
  · obtain ⟨key, hkey, hlacks⟩ := hany
    obtain ⟨part, hpart, hadding⟩ := ht.exists_part h hclassifier hkey hlacks
    obtain ⟨index, hindex, hget⟩ := List.getElem_of_mem hpart
    have hgone := hdone.done index part name (List.getElem?_eq_some_iff.mpr ⟨hindex, hget⟩)
      hadding.classified.2.1 (hended index hindex)
    have hless := countP_lt_of_mem (fun key => hdone.fewer key name) hadding.target
      hadding.lacks hgone
    have hmost : need options files plan progress.workspace.files name ≤
        need options files plan world.files name + 1 := by
      refine countP_le_succ h.nodup_treatable part.2 fun key hlacks =>
        (hdone.kept key name hlacks).imp id ?_
      rintro ⟨other, hother, rfl, hmessage⟩
      rw [ht.eq_of_message h hclassifier hpart hother
        (hadding.classified.2.1.trans hmessage.symm)]
    exact (Nat.le_antisymm (Nat.le_pred_of_lt hless) (Nat.sub_le_of_le_add hmost))
  · have hnone : need options files plan world.files name = 0 := by
      refine List.countP_eq_zero.mpr fun key hkey hlacks => hany ⟨key, hkey, ?_⟩
      exact hdone.fewer key name hlacks
    have hnever : need options files plan progress.workspace.files name = 0 :=
      List.countP_eq_zero.mpr fun key hkey hlacks => hany ⟨key, hkey, hlacks⟩
    rw [hnone, hnever]

theorem success_iff (ht : Treated options files plan progress.workspace)
    (h : Curable options files plan) :
    progress.workspace.built.success = true ↔
      ∀ key ∈ treatable options files plan, ∀ name,
        lacks progress.workspace.files key name = false := by
  have hlinker := Bundler.isLinker_onLinker options
  obtain ⟨_, _, _, hsuccess, _⟩ := h.exists_built ht.repaired hlinker
  rw [ht.built, hsuccess]
  constructor
  · intro hnil key hkey name
    refine Bool.eq_false_iff.mpr fun hlacks => ?_
    obtain ⟨_, error, herror, _⟩ := h.exists_error ht.repaired hlinker hkey hlacks
    rw [hnil] at herror
    cases herror
  · intro hnone
    refine List.eq_nil_iff_forall_not_mem.mpr fun error herror => ?_
    obtain ⟨key, hkey, name, _, _, hlacks, _⟩ := h.exists_lack ht.repaired hlinker herror
    rw [hnone key hkey name] at hlacks
    cases hlacks

theorem success_iff_need (ht : Treated options files plan progress.workspace)
    (h : Curable options files plan) :
    progress.workspace.built.success = true ↔
      ∀ name, need options files plan progress.workspace.files name = 0 := by
  rw [ht.success_iff h]
  constructor
  · intro hnone name
    refine List.countP_eq_zero.mpr fun key hkey => ?_
    rw [hnone key hkey name]
    exact Bool.false_ne_true
  · intro hnone key hkey name
    exact Bool.eq_false_iff.mpr (List.countP_eq_zero.mp (hnone name) key hkey)

-- The rounds suffice if and only if there are as many as there are files that lack any one
-- component.
theorem makeRounds (rounds : Nat) (ht : Treated options files plan progress.workspace)
    (h : Curable options files plan) (hclassifier : healer.classifier = .usual)
    (hservice : healer.service.answersPrompts = false)
    (hsettings : healer.scheduler.problem? = none) :
    ∃ after, healer.makeRounds rounds progress = .ok after ∧
      (after.workspace.built.success = true ↔
        ∀ name, need options files plan progress.workspace.files name ≤ rounds) := by
  induction rounds generalizing progress with
  | zero =>
      refine ⟨progress, rfl, ?_⟩
      simpa only [Nat.le_zero] using ht.success_iff_need h
  | succ rounds ih =>
      unfold Healer.makeRounds
      cases hsuccess : progress.workspace.built.success with
      | true =>
          have hneed := (ht.success_iff_need h).mp hsuccess
          refine ⟨progress, ?_, fun _ name => ?_, fun _ => hsuccess⟩
          · rw [Healer.nextPlan, if_pos hsuccess]
          · rw [hneed name]
            exact Nat.zero_le _
      | false =>
          obtain ⟨key, hkey, name, hlacks⟩ : ∃ key ∈ treatable options files plan, ∃ name,
              lacks progress.workspace.files key name = true := by
            by_contra hnone
            refine Bool.false_ne_true (hsuccess.symm.trans ((ht.success_iff h).mpr ?_))
            intro key hkey name
            exact Bool.eq_false_iff.mpr fun hlacks => hnone ⟨key, hkey, name, hlacks⟩
          obtain ⟨part, hpart, _⟩ := ht.exists_part h hclassifier hkey hlacks
          have hworth : healer.worthTreating progress.workspace.built ≠ [] := by
            intro hnil
            rw [Healer.plan, hnil] at hpart
            cases hpart
          have hnext : healer.nextPlan progress.workspace =
              .ok (healer.plan progress.workspace) := by
            rw [Healer.nextPlan, if_neg (by rw [hsuccess]; exact Bool.false_ne_true),
              if_neg hworth, hsettings]
          obtain ⟨htreated, hless⟩ := ht.carryOut h hclassifier hservice hsettings
          rw [hnext]
          obtain ⟨first, later, hparts⟩ := List.exists_cons_of_ne_nil (List.ne_nil_of_mem hpart)
          rw [hparts] at htreated hless ⊢
          obtain ⟨after, hafter, hiff⟩ := ih htreated
          refine ⟨after, hafter, hiff.trans ?_⟩
          simp only [hless, Nat.sub_le_iff_le_add]

end Treated

end LivePreview.Healing
