import LivePreview.Proofs.Scheduling.Turn

namespace LivePreview.Retry

-- One write of the table of tasks, with the table that it leaves.
structure Moment where
  cause : Cause
  table : List Task
deriving DecidableEq, Repr

-- What the writes of a table depend on.
structure Ledger where
  table : List Task
  -- The tasks with an attempt that was launched and has not begun yet.
  owed : Multiset String
  -- The identifiers of all tasks ever made.
  known : List String
  -- The tasks whose work was called, once for each call, the latest first.
  begun : List String

def Cause.owedAfter : Cause → Multiset String → Multiset String
  | .launch id, owed => id ::ₘ owed
  | .invoke id, owed => owed.erase id
  | _, owed => owed

def Cause.knownAfter : Cause → List String → List String
  | .enqueue id, known => id :: known
  | _, known => known

def Cause.invoked : Cause → List String
  | .invoke id => [id]
  | _ => []

-- The tasks whose work was called, once for each call, in order.
def invocations (moments : List Moment) : List String :=
  moments.flatMap fun moment => moment.cause.invoked

theorem invocations_cons (moment : Moment) (moments : List Moment) :
    invocations (moment :: moments) = moment.cause.invoked ++ invocations moments := rfl

namespace Ledger

def empty : Ledger := ⟨[], 0, [], []⟩

def after (ledger : Ledger) (moment : Moment) : Ledger :=
  ⟨moment.table, moment.cause.owedAfter ledger.owed, moment.cause.knownAfter ledger.known,
    moment.cause.invoked ++ ledger.begun⟩

def play (ledger : Ledger) (moments : List Moment) : Ledger := moments.foldl after ledger

-- The pending task that is launched comes before all others, and an attempt ends only after it has
-- begun.
def Admits (ledger : Ledger) (task : Task) : Cause → Prop
  | .launch _ =>
      ∀ other ∈ ledger.table, other.status = .pending → other.precedes task = false
  | .finish _ => task.id ∉ ledger.owed
  | _ => True

inductive Move (settings : Settings) (ledger : Ledger) : Moment → Prop where
  | enqueue (task : Task) (hstatus : task.status = .pending) (hsound : task.Sound)
      (hid : task.id ∉ ledger.known) (hcreated : task.created = ledger.known.length) :
      Move settings ledger ⟨.enqueue task.id, ledger.table ++ [task]⟩
  | turn (cause : Cause) (before after : Task) (hmem : before ∈ ledger.table)
      (hturn : Turn settings cause before after) (hadmits : ledger.Admits before cause) :
      Move settings ledger ⟨cause, replaceTask ledger.table after⟩
  | prune : Move settings ledger ⟨.prune, ledger.table.filter (!·.status.isTerminal)⟩
  | invoke (id : String) (h : id ∈ ledger.owed) : Move settings ledger ⟨.invoke id, ledger.table⟩
  | reorder (table : List Task) (h : table.Perm ledger.table) :
      Move settings ledger ⟨.reorder, table⟩

def Lawful (settings : Settings) : Ledger → List Moment → Prop
  | _, [] => True
  | ledger, moment :: moments =>
      ledger.Move settings moment ∧ Lawful settings (ledger.after moment) moments

@[simp] theorem play_nil (ledger : Ledger) : ledger.play [] = ledger := rfl

@[simp] theorem play_cons (ledger : Ledger) (moment : Moment) (moments : List Moment) :
    ledger.play (moment :: moments) = (ledger.after moment).play moments := rfl

theorem play_append (ledger : Ledger) (first second : List Moment) :
    ledger.play (first ++ second) = (ledger.play first).play second := List.foldl_append

theorem begun_play (ledger : Ledger) (moments : List Moment) :
    (ledger.play moments).begun = (invocations moments).reverse ++ ledger.begun := by
  induction moments generalizing ledger with
  | nil => rfl
  | cons moment moments ih =>
      have hreverse : moment.cause.invoked.reverse = moment.cause.invoked := by
        cases moment.cause <;> rfl
      rw [play_cons, ih, invocations_cons, List.reverse_append, hreverse, List.append_assoc]
      rfl

theorem lawful_append {settings : Settings} {ledger : Ledger} {first second : List Moment} :
    ledger.Lawful settings (first ++ second) ↔
      ledger.Lawful settings first ∧ (ledger.play first).Lawful settings second := by
  induction first generalizing ledger with
  | nil => simp [Lawful]
  | cons moment first ih => simp only [List.cons_append, Lawful, ih, play_cons, and_assoc]

-- What holds of a table at any time. A task with an attempt owed is under way.
structure Sound (ledger : Ledger) : Prop where
  ids : (ledger.table.map (·.id)).Nodup
  known : ∀ task ∈ ledger.table, task.id ∈ ledger.known
  unique : ledger.known.Nodup
  created : (ledger.table.map (·.created)).Nodup
  made : ∀ task ∈ ledger.table, task.created < ledger.known.length
  tasks : ∀ task ∈ ledger.table, task.Sound
  single : ledger.owed.Nodup
  running : ∀ id ∈ ledger.owed, id ∈ runningIds ledger.table

theorem sound_empty : empty.Sound := by
  constructor <;> simp [empty]

section Step

variable {settings : Settings} {ledger : Ledger} {moment : Moment}

private theorem sound_enqueue (hs : ledger.Sound) (task : Task) (hsound : task.Sound)
    (hid : task.id ∉ ledger.known) (hcreated : task.created = ledger.known.length) :
    (ledger.after ⟨.enqueue task.id, ledger.table ++ [task]⟩).Sound := by
  have hfresh : task.id ∉ ledger.table.map (·.id) := by
    intro hm
    obtain ⟨other, ho, he⟩ := List.mem_map.mp hm
    exact hid (he ▸ hs.known other ho)
  have hnumber : task.created ∉ ledger.table.map (·.created) := by
    intro hm
    obtain ⟨other, ho, he⟩ := List.mem_map.mp hm
    have := hs.made other ho
    omega
  constructor <;> simp only [after, Cause.owedAfter, Cause.knownAfter]
  · rw [List.map_append, List.map_singleton, ← List.concat_eq_append]
    exact hs.ids.concat hfresh
  · intro other ho
    rcases List.mem_append.mp ho with ho | ho
    · exact List.mem_cons_of_mem _ (hs.known other ho)
    · simp [List.mem_singleton.mp ho]
  · exact List.nodup_cons.mpr ⟨hid, hs.unique⟩
  · rw [List.map_append, List.map_singleton, ← List.concat_eq_append]
    exact hs.created.concat hnumber
  · intro other ho
    rw [List.length_cons]
    rcases List.mem_append.mp ho with ho | ho
    · have := hs.made other ho
      omega
    · rw [List.mem_singleton.mp ho]
      omega
  · intro other ho
    rcases List.mem_append.mp ho with ho | ho
    · exact hs.tasks other ho
    · exact List.mem_singleton.mp ho ▸ hsound
  · exact hs.single
  · intro id ho
    obtain ⟨other, hm, hrest⟩ := mem_runningIds.mp (hs.running id ho)
    exact mem_runningIds.mpr ⟨other, List.mem_append_left _ hm, hrest⟩

-- An owed attempt belongs to a task that is under way; so no other write than the end of the
-- attempt could take it from there, and that is not admitted.
private theorem owed_turn (hs : ledger.Sound) {cause : Cause} {before after : Task}
    (hmem : before ∈ ledger.table) (hturn : Turn settings cause before after)
    (hadmits : ledger.Admits before cause) (howed : before.id ∈ ledger.owed) : False := by
  obtain ⟨task, hm, hid, hstatus⟩ := mem_runningIds.mp (hs.running _ howed)
  have he := task_eq_of_id_eq hs.ids hm hmem hid
  subst he
  cases hturn with
  | cancel _ h | cancelAll _ h | retry _ h => simp [hstatus, Status.isCancellable,
      Status.isRetryable] at h
  | launch _ h | wake _ h => simp [hstatus] at h
  | finish => exact hadmits howed

private theorem sound_turn (hs : ledger.Sound) {cause : Cause} {before after : Task}
    (hmem : before ∈ ledger.table) (hturn : Turn settings cause before after)
    (hadmits : ledger.Admits before cause) :
    (ledger.after ⟨cause, replaceTask ledger.table after⟩).Sound := by
  have hid := hturn.id_eq
  have hnot : before.id ∉ ledger.owed := owed_turn hs hmem hturn hadmits
  have hmemiff := mem_replaceTask hs.ids hmem hid
  have hknown : cause.knownAfter ledger.known = ledger.known := by cases hturn <;> rfl
  have hcreated := map_replaceTask (·.created) hs.ids hmem hid hturn.made_eq.1
  -- the attempts that were owed before belong to other tasks
  have hkeep : ∀ id ∈ ledger.owed, id ∈ runningIds (replaceTask ledger.table after) := by
    intro id ho
    obtain ⟨task, hm, hi, hstatus⟩ := mem_runningIds.mp (hs.running id ho)
    have hne : task.id ≠ before.id := by
      intro he
      exact hnot (he ▸ hi ▸ ho)
    exact mem_runningIds.mpr ⟨task, (hmemiff task).mpr (.inr ⟨hm, hne⟩), hi, hstatus⟩
  constructor <;> simp only [Ledger.after, hknown]
  · rw [map_replaceTask (·.id) hs.ids hmem hid hid]
    exact hs.ids
  · intro task htask
    rcases (hmemiff task).mp htask with rfl | ⟨hm, _⟩
    · rw [hid]
      exact hs.known before hmem
    · exact hs.known task hm
  · exact hs.unique
  · rw [hcreated]
    exact hs.created
  · intro task htask
    rcases (hmemiff task).mp htask with rfl | ⟨hm, _⟩
    · rw [hturn.made_eq.1]
      exact hs.made before hmem
    · exact hs.made task hm
  · intro task htask
    rcases (hmemiff task).mp htask with rfl | ⟨hm, _⟩
    · exact hturn.sound (hs.tasks before hmem)
    · exact hs.tasks task hm
  · cases hturn with
    | launch => exact Multiset.nodup_cons.mpr ⟨hnot, hs.single⟩
    | _ => exact hs.single
  · intro id ho
    cases hturn with
    | launch =>
        rcases Multiset.mem_cons.mp ho with rfl | ho
        · exact mem_runningIds.mpr ⟨_, (hmemiff _).mpr (.inl rfl), rfl, rfl⟩
        · exact hkeep id ho
    | _ => exact hkeep id ho

-- Each single write keeps the table sound.
theorem Move.sound (h : ledger.Move settings moment) (hs : ledger.Sound) :
    (ledger.after moment).Sound := by
  cases h with
  | enqueue task _ hsound hid hcreated => exact sound_enqueue hs task hsound hid hcreated
  | turn cause before after hmem hturn hadmits => exact sound_turn hs hmem hturn hadmits
  | prune =>
      have hsub := List.filter_sublist (p := fun task : Task => !task.status.isTerminal)
        (l := ledger.table)
      refine ⟨hs.ids.sublist (hsub.map _), fun task h => hs.known task (hsub.subset h), hs.unique,
        hs.created.sublist (hsub.map _), fun task h => hs.made task (hsub.subset h),
        fun task h => hs.tasks task (hsub.subset h), hs.single, ?_⟩
      intro id ho
      obtain ⟨task, hm, hid, hstatus⟩ := mem_runningIds.mp (hs.running id ho)
      refine mem_runningIds.mpr ⟨task, List.mem_filter.mpr ⟨hm, ?_⟩, hid, hstatus⟩
      simp [hstatus, Status.isTerminal]
  | invoke id h =>
      exact ⟨hs.ids, hs.known, hs.unique, hs.created, hs.made, hs.tasks, hs.single.erase id,
        fun other ho => hs.running other (Multiset.mem_of_mem_erase ho)⟩
  | reorder table h =>
      refine ⟨(h.map _).nodup_iff.mpr hs.ids, fun task ht => hs.known task (h.mem_iff.mp ht),
        hs.unique, (h.map _).nodup_iff.mpr hs.created,
        fun task ht => hs.made task (h.mem_iff.mp ht),
        fun task ht => hs.tasks task (h.mem_iff.mp ht), hs.single, ?_⟩
      intro id ho
      obtain ⟨task, hm, hrest⟩ := mem_runningIds.mp (hs.running id ho)
      exact mem_runningIds.mpr ⟨task, h.mem_iff.mpr hm, hrest⟩

-- Whatever has another state after a write was written by one of the turns.
theorem Move.turn_of_ne (h : ledger.Move settings moment) (hs : ledger.Sound) {before after : Task}
    (hbefore : before ∈ ledger.table) (hafter : after ∈ moment.table) (hid : after.id = before.id)
    (hne : after.status ≠ before.status) :
    Turn settings moment.cause before after ∧ ledger.Admits before moment.cause := by
  have hkept : after ∉ ledger.table := by
    intro hm
    exact hne (task_eq_of_id_eq hs.ids hm hbefore hid ▸ rfl)
  cases h with
  | enqueue task _ _ hnew _ =>
      rcases List.mem_append.mp hafter with hm | hm
      · exact absurd hm hkept
      · rw [List.mem_singleton.mp hm] at hid
        exact absurd (hid ▸ hs.known before hbefore) hnew
  | turn cause old new hmem hturn hadmits =>
      rcases (mem_replaceTask hs.ids hmem hturn.id_eq after).mp hafter with rfl | ⟨hm, _⟩
      · have hsame := task_eq_of_id_eq hs.ids hmem hbefore (hturn.id_eq.symm.trans hid)
        subst hsame
        exact ⟨hturn, hadmits⟩
      · exact absurd hm hkept
  | prune => exact absurd (List.filter_sublist.subset hafter) hkept
  | invoke => exact absurd hafter hkept
  | reorder table hperm => exact absurd (hperm.mem_iff.mp hafter) hkept

-- A write changes the state of one task at most.
theorem Move.length_changed_le (h : ledger.Move settings moment) (hs : ledger.Sound) :
    (changed ledger.table moment.table).length ≤ 1 := by
  cases h with
  | enqueue task _ _ hnew _ =>
      rw [changed_append_new fun other ho he => hnew (he ▸ hs.known other ho)]
      exact le_rfl
  | turn cause before after hmem hturn _ =>
      rw [changed_replaceTask hs.ids hmem hturn.id_eq hturn.status_ne]
      exact le_rfl
  | prune =>
      rw [changed_of_subset List.filter_sublist.subset]
      exact Nat.zero_le 1
  | invoke =>
      rw [changed_of_subset (List.Subset.refl _)]
      exact Nat.zero_le 1
  | reorder table hperm =>
      rw [changed_of_subset hperm.subset]
      exact Nat.zero_le 1

end Step

section Run

variable {settings : Settings} {ledger : Ledger}

-- So does any number of writes.
theorem Lawful.sound {moments : List Moment} (h : ledger.Lawful settings moments)
    (hs : ledger.Sound) : (ledger.play moments).Sound := by
  induction moments generalizing ledger with
  | nil => exact hs
  | cons moment moments ih => exact ih h.2 (h.1.sound hs)

-- Any single write of a row, with the table before it.
theorem Lawful.move {earlier later : List Moment} {moment : Moment}
    (h : ledger.Lawful settings (earlier ++ moment :: later)) (hs : ledger.Sound) :
    (ledger.play earlier).Move settings moment ∧ (ledger.play earlier).Sound := by
  obtain ⟨hearlier, hmove, _⟩ := lawful_append.mp h
  exact ⟨hmove, hearlier.sound hs⟩

end Run

end Ledger

end LivePreview.Retry
