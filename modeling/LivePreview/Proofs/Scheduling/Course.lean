import LivePreview.Proofs.Scheduling.Ledger
import Mathlib.Data.List.Chain

namespace LivePreview.Retry

-- The tasks whose state is changed by a row of writes, as they are after the change, in order.
def changesAlong : List Task → List Moment → List Task
  | _, [] => []
  | table, moment :: moments => changed table moment.table ++ changesAlong moment.table moments

-- The states of one task in a list of notices.
def statusesOf (id : String) (told : List Task) : List Status :=
  (told.filter (·.id == id)).map (·.status)

-- A path through the states of a task from the first one.
structure IsCourse (statuses : List Status) : Prop where
  starts : ∀ status ∈ statuses.head?, status = .pending
  goes : statuses.IsChain fun before after => before.leadsTo after = true

-- What the notices of all changes so far have to do with the table.
structure Recorded (ledger : Ledger) (told : List Task) : Prop where
  course : ∀ id, IsCourse (statusesOf id told)
  latest : ∀ task ∈ ledger.table, (statusesOf task.id told).getLast? = some task.status
  known : ∀ note ∈ told, note.id ∈ ledger.known
  limit : ∀ note ∈ told, ∀ other ∈ told, note.id = other.id → note.maxAttempts = other.maxAttempts
  present : ∀ task ∈ ledger.table, ∃ note ∈ told, note.id = task.id ∧
    note.maxAttempts = task.maxAttempts

theorem changesAlong_append (ledger : Ledger) (first second : List Moment) :
    changesAlong ledger.table (first ++ second) =
      changesAlong ledger.table first ++ changesAlong (ledger.play first).table second := by
  induction first generalizing ledger with
  | nil => rfl
  | cons moment first ih =>
      have h := ih (ledger.after moment)
      simp only [Ledger.after] at h
      simp only [List.cons_append, changesAlong, h, Ledger.play_cons, Ledger.after,
        List.append_assoc]

-- The table that a journal leaves, and what observers should be told of its writes.
def tableAfter (journal : List Moment) : List Task := (Ledger.empty.play journal).table

def changesOf (journal : List Moment) : List Task := changesAlong [] journal

theorem changesOf_append (first second : List Moment) :
    changesOf (first ++ second) = changesOf first ++ changesAlong (tableAfter first) second :=
  changesAlong_append .empty first second

@[simp] theorem statusesOf_append (id : String) (first second : List Task) :
    statusesOf id (first ++ second) = statusesOf id first ++ statusesOf id second := by
  simp [statusesOf]

theorem statusesOf_singleton (id : String) (task : Task) :
    statusesOf id [task] = if task.id = id then [task.status] else [] := by
  by_cases h : task.id = id <;> simp [statusesOf, h]

theorem isCourse_nil : IsCourse [] := ⟨by simp, .nil⟩

theorem IsCourse.extend {statuses : List Status} (h : IsCourse statuses) {status : Status}
    (hfirst : statuses.getLast? = none → status = .pending)
    (hnext : ∀ last ∈ statuses.getLast?, last.leadsTo status = true) :
    IsCourse (statuses ++ [status]) := by
  constructor
  · intro first hmem
    cases statuses with
    | nil => simpa [hfirst rfl] using hmem.symm
    | cons head rest => exact h.starts first (by simpa using hmem)
  · refine h.goes.append (.singleton _) ?_
    intro last hlast next hn
    simp only [List.head?_cons, Option.mem_some_iff] at hn
    exact hn ▸ hnext last hlast

namespace Recorded

variable {settings : Settings} {ledger : Ledger} {told : List Task}

theorem empty : Recorded .empty [] := by
  constructor <;> simp [Ledger.empty, statusesOf, isCourse_nil]

-- Nothing is told of a task that is not made yet.
theorem statusesOf_eq_nil (h : Recorded ledger told) {id : String} (hid : id ∉ ledger.known) :
    statusesOf id told = [] := by
  simp only [statusesOf, List.map_eq_nil_iff, List.filter_eq_nil_iff, beq_iff_eq]
  intro note hn he
  exact hid (he ▸ h.known note hn)

private theorem enqueue (h : Recorded ledger told) (hs : ledger.Sound) (task : Task)
    (hstatus : task.status = .pending) (hid : task.id ∉ ledger.known) :
    Recorded (ledger.after ⟨.enqueue task.id, ledger.table ++ [task]⟩) (told ++ [task]) := by
  have hnil := h.statusesOf_eq_nil hid
  have hne : ∀ other ∈ ledger.table, other.id ≠ task.id := by
    intro other ho he
    exact hid (he ▸ hs.known other ho)
  constructor
  · intro id
    rw [statusesOf_append, statusesOf_singleton]
    by_cases he : task.id = id
    · subst he
      rw [hnil, if_pos rfl, hstatus]
      exact ⟨by simp, .singleton _⟩
    · rw [if_neg he, List.append_nil]
      exact h.course id
  · intro other ho
    rw [statusesOf_append, statusesOf_singleton]
    rcases List.mem_append.mp ho with ho | ho
    · rw [if_neg (Ne.symm (hne other ho)), List.append_nil]
      exact h.latest other ho
    · rw [List.mem_singleton.mp ho, if_pos rfl, List.getLast?_concat]
  · intro note hn
    rcases List.mem_append.mp hn with hn | hn
    · exact List.mem_cons_of_mem _ (h.known note hn)
    · simp [List.mem_singleton.mp hn, Ledger.after, Cause.knownAfter]
  · intro note hn other ho he
    have hold : ∀ old ∈ told, old.id ≠ task.id := fun old hm hi => hid (hi ▸ h.known old hm)
    rcases List.mem_append.mp hn with hn | hn <;> rcases List.mem_append.mp ho with ho | ho
    · exact h.limit note hn other ho he
    · exact absurd (List.mem_singleton.mp ho ▸ he) (hold note hn)
    · exact absurd (List.mem_singleton.mp hn ▸ he.symm) (hold other ho)
    · rw [List.mem_singleton.mp hn, List.mem_singleton.mp ho]
  · intro other ho
    rcases List.mem_append.mp ho with ho | ho
    · obtain ⟨note, hn, hrest⟩ := h.present other ho
      exact ⟨note, List.mem_append_left _ hn, hrest⟩
    · exact ⟨task, by simp, by rw [List.mem_singleton.mp ho]; exact ⟨rfl, rfl⟩⟩

private theorem turn (h : Recorded ledger told) (hs : ledger.Sound) {cause : Cause}
    {before after : Task} (hmem : before ∈ ledger.table)
    (hturn : Turn settings cause before after) :
    Recorded (ledger.after ⟨cause, replaceTask ledger.table after⟩) (told ++ [after]) := by
  have hid := hturn.id_eq
  have hmemiff := mem_replaceTask hs.ids hmem hid
  have hlast := h.latest before hmem
  have hknown : cause.knownAfter ledger.known = ledger.known := by cases hturn <;> rfl
  -- the limit of the task is the one that was told of before
  have hlimit : ∀ note ∈ told, note.id = after.id → note.maxAttempts = after.maxAttempts := by
    intro note hn he
    obtain ⟨other, ho, hoid, hmax⟩ := h.present before hmem
    rw [h.limit note hn other ho (by rw [he, hid, hoid]), hmax, hturn.made_eq.2]
  constructor
  · intro id
    rw [statusesOf_append, statusesOf_singleton]
    by_cases he : after.id = id
    · rw [if_pos he, ← he, hid]
      apply (h.course before.id).extend
      · simp [hlast]
      · intro status hstatus
        rw [hlast, Option.mem_some_iff] at hstatus
        exact hstatus ▸ hturn.leadsTo
    · rw [if_neg he, List.append_nil]
      exact h.course id
  · intro task htask
    rw [statusesOf_append, statusesOf_singleton]
    rcases (hmemiff task).mp htask with rfl | ⟨hm, hne⟩
    · rw [if_pos rfl, List.getLast?_concat]
    · rw [if_neg (by rw [hid]; exact Ne.symm hne), List.append_nil]
      exact h.latest task hm
  · simp only [Ledger.after, hknown]
    intro note hn
    rcases List.mem_append.mp hn with hn | hn
    · exact h.known note hn
    · rw [List.mem_singleton.mp hn, hid]
      exact hs.known before hmem
  · intro note hn other ho he
    rcases List.mem_append.mp hn with hn | hn <;> rcases List.mem_append.mp ho with ho | ho
    · exact h.limit note hn other ho he
    · rw [List.mem_singleton.mp ho] at he ⊢
      exact hlimit note hn he
    · rw [List.mem_singleton.mp hn] at he ⊢
      exact (hlimit other ho he.symm).symm
    · rw [List.mem_singleton.mp hn, List.mem_singleton.mp ho]
  · intro task htask
    rcases (hmemiff task).mp htask with rfl | ⟨hm, _⟩
    · exact ⟨task, by simp, rfl, rfl⟩
    · obtain ⟨note, hn, hrest⟩ := h.present task hm
      exact ⟨note, List.mem_append_left _ hn, hrest⟩

-- Tasks that leave the table, and those that stay as they are, give no notice.
private theorem quiet (h : Recorded ledger told) {moment : Moment}
    (hsub : moment.table ⊆ ledger.table)
    (hknown : moment.cause.knownAfter ledger.known = ledger.known) :
    Recorded (ledger.after moment) told := by
  refine ⟨h.course, fun task ht => h.latest task (hsub ht), ?_, h.limit,
    fun task ht => h.present task (hsub ht)⟩
  simp only [Ledger.after, hknown]
  exact h.known

theorem move (h : Recorded ledger told) (hs : ledger.Sound) {moment : Moment}
    (hmove : ledger.Move settings moment) :
    Recorded (ledger.after moment) (told ++ changed ledger.table moment.table) := by
  cases hmove with
  | enqueue task hstatus hsound hid hcreated =>
      rw [changed_append_new fun other ho he => hid (he ▸ hs.known other ho)]
      exact h.enqueue hs task hstatus hid
  | turn cause before after hmem hturn hadmits =>
      rw [changed_replaceTask hs.ids hmem hturn.id_eq hturn.status_ne]
      exact h.turn hs hmem hturn
  | prune =>
      have hsub := (List.filter_sublist (p := fun task : Task => !task.status.isTerminal)
        (l := ledger.table)).subset
      rw [changed_of_subset hsub, List.append_nil]
      exact h.quiet hsub rfl
  | invoke id hid =>
      rw [changed_of_subset (List.Subset.refl _), List.append_nil]
      exact h.quiet (List.Subset.refl _) rfl
  | reorder table hperm =>
      rw [changed_of_subset hperm.subset, List.append_nil]
      exact h.quiet hperm.subset rfl

theorem play (h : Recorded ledger told) (hs : ledger.Sound) {moments : List Moment}
    (hlawful : ledger.Lawful settings moments) :
    Recorded (ledger.play moments) (told ++ changesAlong ledger.table moments) := by
  induction moments generalizing ledger told with
  | nil => simpa [changesAlong] using h
  | cons moment moments ih =>
      have hnext := ih (h.move hs hlawful.1) (hlawful.1.sound hs) hlawful.2
      rw [List.append_assoc] at hnext
      exact hnext

end Recorded

theorem recorded_changesOf {settings : Settings} {journal : List Moment}
    (h : Ledger.empty.Lawful settings journal) :
    Recorded (Ledger.empty.play journal) (changesOf journal) :=
  Recorded.empty.play Ledger.sound_empty h

end LivePreview.Retry
