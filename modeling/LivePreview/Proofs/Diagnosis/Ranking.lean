import LivePreview.Diagnosis.Classifier
import Mathlib.Data.Fin.Tuple.Basic
import Mathlib.Data.List.FinRange
import Mathlib.Data.List.Nodup

namespace LivePreview

-- Where the order does not tell two entries apart, the one in front stays in front.
theorem pairwise_mergeSort_ties {α : Type} {le : α → α → Bool} {before : α → α → Prop}
    (htrans : ∀ a b c, le a b = true → le b c = true → le a c = true)
    (htotal : ∀ a b, (le a b || le b a) = true) {list : List α} (h : list.Pairwise before) :
    (list.mergeSort le).Pairwise fun a b => le b a = true → before a b := by
  induction list with
  | nil => rw [List.mergeSort_nil]; exact .nil
  | cons a list ih =>
      obtain ⟨hhead, htail⟩ := List.pairwise_cons.mp h
      obtain ⟨front, back, hsorted, hrest, hfront⟩ := List.mergeSort_cons htrans htotal a list
      have hmem : ∀ b ∈ front ++ back, b ∈ list := fun b hb =>
        List.mem_mergeSort.mp (hrest ▸ hb)
      have hties := ih htail
      rw [hrest, List.pairwise_append] at hties
      obtain ⟨hfrontTies, hbackTies, hbetween⟩ := hties
      rw [hsorted, List.pairwise_append, List.pairwise_cons]
      refine ⟨hfrontTies,
        ⟨fun b hb _ => hhead b (hmem b (List.mem_append_right _ hb)), hbackTies⟩, ?_⟩
      intro b hb c hc hle
      rcases List.mem_cons.mp hc with heq | hc
      · -- What stands in front of the new entry exceeds it.
        have hexceeds := hfront b hb
        rw [← heq, hle] at hexceeds
        cases hexceeds
      · exact hbetween b hb c hc hle

namespace Diagnosis

-- The two agree in all that counts when each kind and message is kept once.
def isAlike (first second : Diagnosis) : Bool :=
  first.kind == second.kind && first.message == second.message

def key (diagnosis : Diagnosis) : ErrorKind × String := (diagnosis.kind, diagnosis.message)

theorem isAlike_iff {first second : Diagnosis} :
    first.isAlike second = true ↔ first.key = second.key := by
  simp [isAlike, key]

end Diagnosis

namespace Classifier

open Diagnosis

variable {seen : List (ErrorKind × String)} {diagnoses : List Diagnosis} {diagnosis : Diagnosis}

theorem distinct_cons (seen : List (ErrorKind × String)) (head : Diagnosis)
    (later : List Diagnosis) :
    distinct seen (head :: later) =
      if head.key ∈ seen then distinct seen later else head :: distinct (head.key :: seen) later :=
  rfl

theorem distinct_sublist (seen : List (ErrorKind × String)) (diagnoses : List Diagnosis) :
    (distinct seen diagnoses).Sublist diagnoses := by
  induction diagnoses generalizing seen with
  | nil => exact .slnil
  | cons head later ih =>
      rw [distinct_cons]
      split
      · exact (ih seen).cons head
      · exact (ih _).cons_cons head

theorem key_notMem_of_mem_distinct (h : diagnosis ∈ distinct seen diagnoses) :
    diagnosis.key ∉ seen := by
  induction diagnoses generalizing seen with
  | nil => cases h
  | cons head later ih =>
      rw [distinct_cons] at h
      split at h
      · exact ih h
      · rename_i hnew
        rcases List.mem_cons.mp h with rfl | h
        · exact hnew
        · exact fun hseen => ih h (List.mem_cons_of_mem _ hseen)

-- No kind and message is kept twice.
theorem nodup_distinct (seen : List (ErrorKind × String)) (diagnoses : List Diagnosis) :
    ((distinct seen diagnoses).map key).Nodup := by
  induction diagnoses generalizing seen with
  | nil => exact List.nodup_nil
  | cons head later ih =>
      rw [distinct_cons]
      split
      · exact ih seen
      · refine List.nodup_cons.mpr ⟨fun hmem => ?_, ih _⟩
        obtain ⟨other, hother, hkey⟩ := List.mem_map.mp hmem
        exact key_notMem_of_mem_distinct hother (hkey ▸ List.mem_cons_self)

-- Of the diagnoses with one kind and message the first one is kept.
theorem find?_distinct (h : diagnosis.key ∉ seen) :
    (distinct seen diagnoses).find? (·.isAlike diagnosis) =
      diagnoses.find? (·.isAlike diagnosis) := by
  induction diagnoses generalizing seen with
  | nil => rfl
  | cons head later ih =>
      by_cases halike : head.isAlike diagnosis = true
      · have hnew : head.key ∉ seen := isAlike_iff.mp halike ▸ h
        rw [distinct_cons, if_neg hnew, List.find?_cons_of_pos (by exact halike),
          List.find?_cons_of_pos (by exact halike)]
      · have hne : diagnosis.key ≠ head.key := fun heq => halike (isAlike_iff.mpr heq.symm)
        rw [distinct_cons, List.find?_cons_of_neg (by exact halike)]
        split
        · exact ih h
        · rw [List.find?_cons_of_neg (by exact halike)]
          exact ih (by simpa using ⟨hne, h⟩)

theorem classifyAll_perm (classifier : Classifier) (raws : List String) :
    (classifier.classifyAll raws).Perm (distinct [] (raws.map classifier.classify)) :=
  List.mergeSort_perm _ _

-- No diagnosis in front of the place has its kind and message, and they are not among those seen.
def IsFirst (seen : List (ErrorKind × String)) (diagnoses : List Diagnosis)
    (i : Fin diagnoses.length) : Prop :=
  diagnoses[i].key ∉ seen ∧ ∀ j < i, diagnoses[j].key ≠ diagnoses[i].key

instance (seen : List (ErrorKind × String)) (diagnoses : List Diagnosis) :
    DecidablePred (IsFirst seen diagnoses) :=
  fun _ => inferInstanceAs (Decidable (_ ∧ _))

-- The places at which a kind and message stands for the first time.
def firsts (seen : List (ErrorKind × String)) (diagnoses : List Diagnosis) :
    List (Fin diagnoses.length) :=
  (List.finRange diagnoses.length).filter (IsFirst seen diagnoses)

theorem isFirst_zero {head : Diagnosis} {later : List Diagnosis} :
    IsFirst seen (head :: later) (0 : Fin (later.length + 1)) ↔ head.key ∉ seen :=
  ⟨fun h => h.1, fun h => ⟨h, fun j hj => absurd hj (Fin.not_lt_zero j)⟩⟩

theorem isFirst_succ {head : Diagnosis} {later : List Diagnosis} (i : Fin later.length) :
    IsFirst seen (head :: later) i.succ ↔ IsFirst (head.key :: seen) later i := by
  constructor
  · rintro ⟨hseen, hbefore⟩
    refine ⟨fun hmem => ?_, fun j hj => hbefore j.succ (Fin.succ_lt_succ_iff.mpr hj)⟩
    rcases List.mem_cons.mp hmem with heq | hmem
    · exact hbefore (0 : Fin (later.length + 1)) i.succ_pos heq.symm
    · exact hseen hmem
  · rintro ⟨hseen, hbefore⟩
    refine ⟨fun hmem => hseen (List.mem_cons_of_mem _ hmem), fun j => ?_⟩
    cases j using Fin.cases with
    | zero => exact fun _ heq => hseen (List.mem_cons.mpr (.inl heq.symm))
    | succ j => exact fun hj => hbefore j (Fin.succ_lt_succ_iff.mp hj)

theorem firsts_cons (seen : List (ErrorKind × String)) (head : Diagnosis)
    (later : List Diagnosis) :
    firsts seen (head :: later) =
      (if head.key ∈ seen then [] else [0]) ++
        (firsts (head.key :: seen) later).map Fin.succ := by
  have hrange : List.finRange (head :: later).length =
      (0 : Fin (later.length + 1)) :: (List.finRange later.length).map Fin.succ := List.finRange_succ
  unfold firsts
  rw [hrange, List.filter_cons, List.filter_map]
  simp only [Function.comp_def, isFirst_succ, isFirst_zero]
  by_cases hseen : head.key ∈ seen <;> simp [hseen]

theorem firsts_of_mem {seen : List (ErrorKind × String)} {key : ErrorKind × String}
    (h : key ∈ seen) (diagnoses : List Diagnosis) :
    firsts (key :: seen) diagnoses = firsts seen diagnoses := by
  have hmem : ∀ other, other ∈ key :: seen ↔ other ∈ seen := fun other =>
    ⟨fun hother => (List.mem_cons.mp hother).elim (fun heq => heq ▸ h) id,
      List.mem_cons_of_mem key⟩
  refine List.filter_congr fun i _ => ?_
  rw [decide_eq_decide, IsFirst, IsFirst, hmem]

theorem distinct_eq_map_firsts (seen : List (ErrorKind × String)) (diagnoses : List Diagnosis) :
    distinct seen diagnoses = (firsts seen diagnoses).map (diagnoses[·]) := by
  induction diagnoses generalizing seen with
  | nil => rfl
  | cons head later ih =>
      rw [distinct_cons, firsts_cons, List.map_append, List.map_map]
      split
      · rename_i hseen
        rw [ih, firsts_of_mem hseen]
        rfl
      · rw [ih]
        rfl

-- Where no kind and message stands twice, all diagnoses are kept.
theorem distinct_of_nodup (hnodup : (diagnoses.map key).Nodup)
    (hseen : ∀ diagnosis ∈ diagnoses, diagnosis.key ∉ seen) :
    distinct seen diagnoses = diagnoses := by
  induction diagnoses generalizing seen with
  | nil => rfl
  | cons head later ih =>
      obtain ⟨hhead, hlater⟩ := List.nodup_cons.mp hnodup
      obtain ⟨hheadSeen, hlaterSeen⟩ := List.forall_mem_cons.mp hseen
      rw [distinct_cons, if_neg hheadSeen, ih hlater]
      intro diagnosis hmem hkey
      rcases List.mem_cons.mp hkey with heq | hkey
      · exact hhead (heq ▸ List.mem_map_of_mem hmem)
      · exact hlaterSeen diagnosis hmem hkey

-- The order of the report: the more certain diagnosis first.
def isCertain (first second : Diagnosis) : Bool :=
  second.confidence.rank ≤ first.confidence.rank

theorem isCertain_trans (first second third : Diagnosis) (h : isCertain first second = true)
    (h' : isCertain second third = true) : isCertain first third = true := by
  unfold isCertain at *
  simp only [decide_eq_true_eq] at *
  omega

theorem isCertain_total (first second : Diagnosis) :
    (isCertain first second || isCertain second first) = true := by
  unfold isCertain
  simp only [Bool.or_eq_true, decide_eq_true_eq]
  omega

-- The places of the diagnoses that are kept, in the order of the report.
def ranking (diagnoses : List Diagnosis) : List (Fin diagnoses.length) :=
  (firsts [] diagnoses).mergeSort fun i j => isCertain diagnoses[i] diagnoses[j]

theorem map_ranking (diagnoses : List Diagnosis) :
    (ranking diagnoses).map (diagnoses[·]) = (distinct [] diagnoses).mergeSort isCertain := by
  rw [distinct_eq_map_firsts]
  exact List.map_mergeSort fun _ _ _ _ => rfl

theorem mem_ranking_iff {i : Fin diagnoses.length} :
    i ∈ ranking diagnoses ↔ ∀ j < i, diagnoses[j].key ≠ diagnoses[i].key := by
  rw [ranking, List.mem_mergeSort, firsts, List.mem_filter, decide_eq_true_iff, IsFirst]
  exact ⟨fun h => h.2.2, fun h => ⟨List.mem_finRange i, List.not_mem_nil, h⟩⟩

theorem pairwise_ranking (diagnoses : List Diagnosis) :
    (ranking diagnoses).Pairwise fun i j =>
      diagnoses[j].confidence.rank < diagnoses[i].confidence.rank ∨
        diagnoses[j].confidence.rank = diagnoses[i].confidence.rank ∧ i < j := by
  have hascending : (firsts [] diagnoses).Pairwise (· < ·) :=
    (List.pairwise_lt_finRange _).filter _
  have htrans : ∀ i j k : Fin diagnoses.length, isCertain diagnoses[i] diagnoses[j] = true →
      isCertain diagnoses[j] diagnoses[k] = true → isCertain diagnoses[i] diagnoses[k] = true :=
    fun _ _ _ => isCertain_trans _ _ _
  have htotal : ∀ i j : Fin diagnoses.length,
      (isCertain diagnoses[i] diagnoses[j] || isCertain diagnoses[j] diagnoses[i]) = true :=
    fun _ _ => isCertain_total _ _
  have hsorted := List.pairwise_mergeSort htrans htotal (firsts [] diagnoses)
  have hties := pairwise_mergeSort_ties htrans htotal hascending
  refine (hsorted.and hties).imp fun {i j} ⟨hcertain, htie⟩ => ?_
  simp only [isCertain, decide_eq_true_eq] at hcertain htie
  rcases Int.lt_or_eq_of_le hcertain with hless | heq
  · exact .inl hless
  · exact .inr ⟨heq, htie heq.ge⟩

variable (classifier : Classifier) (raws : List String)

theorem classifyAll_eq : classifier.classifyAll raws =
    (distinct [] (raws.map classifier.classify)).mergeSort isCertain := rfl

theorem classify_reported (raw : String) :
    classifier.classify (classifier.classify raw).reported = classifier.classify raw := rfl

theorem classify_reported_of_mem (h : diagnosis ∈ classifier.classifyAll raws) :
    classifier.classify diagnosis.reported = diagnosis := by
  have hmem := (distinct_sublist _ _).subset ((classifier.classifyAll_perm raws).mem_iff.mp h)
  obtain ⟨raw, _, rfl⟩ := List.mem_map.mp hmem
  exact classifier.classify_reported raw

-- A report made of the errors of a report is that report.
theorem classifyAll_reported :
    classifier.classifyAll ((classifier.classifyAll raws).map (·.reported)) =
      classifier.classifyAll raws := by
  have hagain : ((classifier.classifyAll raws).map (·.reported)).map classifier.classify =
      classifier.classifyAll raws := by
    rw [List.map_map]
    exact (List.map_congr_left fun _ => classifier.classify_reported_of_mem raws).trans
      (List.map_id _)
  have hnodup : ((classifier.classifyAll raws).map key).Nodup :=
    (((classifier.classifyAll_perm raws).map key).nodup_iff).mpr (nodup_distinct [] _)
  have hsorted : (classifier.classifyAll raws).Pairwise fun first second =>
      isCertain first second = true := by
    rw [classifyAll_eq]
    exact List.pairwise_mergeSort isCertain_trans isCertain_total _
  rw [classifyAll_eq, hagain, distinct_of_nodup hnodup fun _ _ => List.not_mem_nil,
    List.mergeSort_of_pairwise hsorted]

end Classifier

end LivePreview
