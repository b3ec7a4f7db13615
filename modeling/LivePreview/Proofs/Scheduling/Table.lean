import LivePreview.Retry.Queue
import Mathlib.Algebra.Order.Group.Multiset
import Mathlib.Data.List.Nodup

namespace LivePreview.Retry

-- A table with a changed task in the place of the old one.
def replaceTask (table : List Task) (task : Task) : List Task :=
  table.map fun other => if other.id = task.id then task else other

-- The identifiers of the tasks with an attempt under way.
def runningIds (table : List Task) : List String :=
  (table.filter fun task => task.status == .inProgress).map (·.id)

-- The tasks of a table whose state is not the one that they had in the old table.
def changed (old new : List Task) : List Task :=
  new.filter fun task => !old.any fun other => other.id == task.id && other.status == task.status

section Replace

variable {table : List Task} {before after : Task}

-- With distinct identifiers exactly one place of the table is written.
theorem exists_replaceTask (hids : (table.map (·.id)).Nodup) (hmem : before ∈ table)
    (hid : after.id = before.id) :
    ∃ left right, table = left ++ before :: right ∧
      replaceTask table after = left ++ after :: right ∧
      ∀ other ∈ left ++ right, other.id ≠ before.id := by
  obtain ⟨left, right, rfl⟩ := List.append_of_mem hmem
  have hother : ∀ other ∈ left ++ right, other.id ≠ before.id := by
    intro other ho he
    have hperm : (left ++ before :: right).Perm (before :: (left ++ right)) := List.perm_middle
    have hnodup := (hperm.map (·.id)).nodup_iff.mp hids
    rw [List.map_cons, List.nodup_cons] at hnodup
    exact hnodup.1 (he ▸ List.mem_map_of_mem ho)
  have hsame : ∀ side ⊆ left ++ right, replaceTask side after = side := by
    intro side hside
    unfold replaceTask
    conv_rhs => rw [← List.map_id side]
    apply List.map_congr_left
    intro other ho
    rw [if_neg (hid ▸ hother other (hside ho)), id]
  refine ⟨left, right, rfl, ?_, hother⟩
  have hleft := hsame left (List.subset_append_left left right)
  have hright := hsame right (List.subset_append_right left right)
  simp only [replaceTask, List.map_append, List.map_cons, hid, if_true] at hleft hright ⊢
  rw [hleft, hright]

-- What is the same for both tasks is the same for both tables.
theorem map_replaceTask {β : Type} (f : Task → β) (hids : (table.map (·.id)).Nodup)
    (hmem : before ∈ table) (hid : after.id = before.id) (hf : f after = f before) :
    (replaceTask table after).map f = table.map f := by
  obtain ⟨left, right, ht, hr, _⟩ := exists_replaceTask hids hmem hid
  rw [hr, ht]
  simp only [List.map_append, List.map_cons, hf]

theorem mem_replaceTask (hids : (table.map (·.id)).Nodup) (hmem : before ∈ table)
    (hid : after.id = before.id) (task : Task) :
    task ∈ replaceTask table after ↔ task = after ∨ (task ∈ table ∧ task.id ≠ before.id) := by
  obtain ⟨left, right, ht, hr, hother⟩ := exists_replaceTask hids hmem hid
  rw [hr, ht]
  simp only [List.mem_append, List.mem_cons] at hother ⊢
  constructor
  · rintro (h | rfl | h)
    · exact .inr ⟨.inl h, hother task (.inl h)⟩
    · exact .inl rfl
    · exact .inr ⟨.inr (.inr h), hother task (.inr h)⟩
  · rintro (rfl | ⟨h | rfl | h, hne⟩)
    · exact .inr (.inl rfl)
    · exact .inl h
    · exact absurd rfl hne
    · exact .inr (.inr h)

theorem mem_replaceTask_self (hids : (table.map (·.id)).Nodup) (hmem : before ∈ table)
    (hid : after.id = before.id) : after ∈ replaceTask table after :=
  (mem_replaceTask hids hmem hid after).mpr (.inl rfl)

-- Only the task that is written can begin or cease to run.
theorem runningIds_replaceTask (hids : (table.map (·.id)).Nodup) (hmem : before ∈ table)
    (hid : after.id = before.id) :
    (runningIds (replaceTask table after) : Multiset String) +
        (if before.status = .inProgress then {before.id} else 0) =
      (runningIds table : Multiset String) +
        (if after.status = .inProgress then {before.id} else 0) := by
  obtain ⟨left, right, ht, hr, _⟩ := exists_replaceTask hids hmem hid
  rw [hr, ht]
  simp only [runningIds, List.filter_append, List.map_append, List.filter_cons, beq_iff_eq,
    ← Multiset.coe_add]
  by_cases hb : before.status = .inProgress <;> by_cases ha : after.status = .inProgress <;>
    simp only [hb, ha, if_true, if_false, List.map_cons, ← Multiset.cons_coe,
      ← Multiset.singleton_add, hid, add_zero] <;> ac_rfl

theorem changed_replaceTask (hids : (table.map (·.id)).Nodup) (hmem : before ∈ table)
    (hid : after.id = before.id) (hne : after.status ≠ before.status) :
    changed table (replaceTask table after) = [after] := by
  obtain ⟨left, right, ht, hr, hother⟩ := exists_replaceTask hids hmem hid
  have hsame : ∀ side ⊆ left ++ right, changed table side = [] := by
    intro side hside
    apply List.filter_eq_nil_iff.mpr
    intro task htask
    have hm : task ∈ table := by
      rw [ht]
      have := hside htask
      simp only [List.mem_append, List.mem_cons] at this ⊢
      exact this.imp id .inr
    simp only [Bool.not_eq_true', Bool.not_eq_false, List.any_eq_true]
    exact ⟨task, hm, by simp⟩
  have hafter : changed table [after] = [after] := by
    apply List.filter_eq_self.mpr
    intro task htask
    rw [List.mem_singleton] at htask
    subst htask
    rw [Bool.not_eq_true', List.any_eq_false]
    intro other ho
    simp only [Bool.and_eq_true, beq_iff_eq, not_and]
    intro he hs
    rw [ht, List.mem_append, List.mem_cons] at ho
    rcases ho with ho | rfl | ho
    · exact hother other (List.mem_append_left _ ho) (he.trans hid)
    · exact hne hs.symm
    · exact hother other (List.mem_append_right _ ho) (he.trans hid)
  rw [hr, ← List.singleton_append]
  have hleft := hsame left (List.subset_append_left left right)
  have hright := hsame right (List.subset_append_right left right)
  unfold changed at *
  rw [List.filter_append, List.filter_append, hleft, hright, hafter]
  rfl

end Replace

theorem changed_of_subset {old new : List Task} (h : new ⊆ old) : changed old new = [] := by
  apply List.filter_eq_nil_iff.mpr
  intro task htask
  simp only [Bool.not_eq_true', Bool.not_eq_false, List.any_eq_true]
  exact ⟨task, h htask, by simp⟩

theorem changed_append_new {table : List Task} {task : Task}
    (hnew : ∀ other ∈ table, other.id ≠ task.id) : changed table (table ++ [task]) = [task] := by
  have hold : changed table table = [] := changed_of_subset (List.Subset.refl table)
  have htask : changed table [task] = [task] := by
    apply List.filter_eq_self.mpr
    intro other ho
    rw [List.mem_singleton] at ho
    subst ho
    rw [Bool.not_eq_true', List.any_eq_false]
    intro earlier he
    simp [hnew earlier he]
  unfold changed at *
  rw [List.filter_append, hold, htask, List.nil_append]

theorem mem_runningIds {table : List Task} {id : String} :
    id ∈ runningIds table ↔ ∃ task ∈ table, task.id = id ∧ task.status = .inProgress := by
  simp only [runningIds, List.mem_map, List.mem_filter, beq_iff_eq]
  constructor
  · rintro ⟨task, ⟨hm, hs⟩, hid⟩
    exact ⟨task, hm, hid, hs⟩
  · rintro ⟨task, hm, hid, hs⟩
    exact ⟨task, ⟨hm, hs⟩, hid⟩

theorem nodup_runningIds {table : List Task} (hids : (table.map (·.id)).Nodup) :
    (runningIds table).Nodup :=
  hids.sublist (List.filter_sublist.map _)

-- Two tasks of a table with one identifier are one task.
theorem task_eq_of_id_eq {table : List Task} {task other : Task}
    (hids : (table.map (·.id)).Nodup) (ht : task ∈ table) (ho : other ∈ table)
    (hid : task.id = other.id) : task = other :=
  List.inj_on_of_nodup_map hids ht ho hid

namespace Queue

theorem mem_of_find?_eq_some {queue : Queue} {id : String} {task : Task}
    (h : queue.find? id = some task) : task ∈ queue.tasks ∧ task.id = id :=
  ⟨List.mem_of_find?_eq_some h, by simpa using List.find?_some h⟩

theorem find?_eq_some_of_mem {queue : Queue} {task : Task}
    (hids : (queue.tasks.map (·.id)).Nodup) (hmem : task ∈ queue.tasks) :
    queue.find? task.id = some task := by
  cases hfind : queue.find? task.id with
  | none => exact absurd (List.find?_eq_none.mp hfind task hmem) (by simp)
  | some other =>
      obtain ⟨hm, hid⟩ := mem_of_find?_eq_some hfind
      rw [task_eq_of_id_eq hids hm hmem hid]

-- The counts that the queue tells of itself.
theorem stats_inProgress (queue : Queue) :
    queue.stats.inProgress = (runningIds queue.tasks).length := by
  simp only [stats, Stats.ofTasks, runningIds, List.length_map, List.countP_eq_length_filter]

end Queue

end LivePreview.Retry
