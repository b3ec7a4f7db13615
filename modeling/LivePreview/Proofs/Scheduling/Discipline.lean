import LivePreview.Retry.Scheduler
import Mathlib.Order.ConditionallyCompleteLattice.Basic
import Mathlib.Order.Lattice.Nat

namespace LivePreview.Retry

variable {ω : Type}

namespace Work

-- Work that neither waits nor holds anything.
def Straight : Work ω → Prop
  | .finish _ => True
  | .act _ next => ∀ world, (next world).Straight
  | _ => False

-- Work that has a name held, sleeps at most so many times before it lets the name go, and then comes
-- to its end without waiting.
def Holding (name : String) : Work ω → Nat → Prop
  | .act _ next, naps => ∀ world, (next world).Holding name naps
  | .sleep _ next, naps + 1 => next.Holding name naps
  | .release other next, _ => other = name ∧ next.Straight
  | _, _ => False

-- The least number of times that work which has a name held will sleep.
noncomputable def naps (work : Work ω) : Nat := sInf {naps | ∃ name, work.Holding name naps}

-- The work of a whole attempt: all is done with one name held, in at most three naps.
def Orderly (work : Work ω) : Prop := ∃ name next, work = .hold name next ∧ next.Holding name 3

theorem naps_le {work : Work ω} {name : String} {naps : Nat} (h : work.Holding name naps) :
    work.naps ≤ naps :=
  Nat.sInf_le (s := {naps | ∃ name, work.Holding name naps}) ⟨name, h⟩

theorem holding_naps {work : Work ω} {name : String} {naps : Nat} (h : work.Holding name naps) :
    ∃ name, work.Holding name work.naps :=
  Nat.sInf_mem (s := {naps | ∃ name, work.Holding name naps}) ⟨naps, name, h⟩

-- The name that work has held is the one that it lets go, whatever the world is like meanwhile.
theorem Holding.name_eq (world : ω) {work : Work ω} {name other : String} {naps more : Nat}
    (h : work.Holding name naps) (ho : work.Holding other more) : name = other := by
  induction work generalizing naps more world with
  | act change next ih => exact ih world world (h world) (ho world)
  | sleep span next ih =>
      cases naps with
      | zero => exact h.elim
      | succ naps =>
          cases more with
          | zero => exact ho.elim
          | succ more => exact ih world h ho
  | release let_go next => exact h.1.symm.trans ho.1
  | _ => exact h.elim

section Keeping

variable (Inv : List (String × Outcome) → ω → Prop) (id : String)

-- Done in a world from here on, the work of a task keeps what holds between the attempts that have
-- ended and the world. While it waits all may go on that keeps it too.
def KeepsAt : Work ω → List (String × Outcome) → ω → Prop
  | .finish outcome, ended, world => Inv (ended ++ [(id, outcome)]) world
  | .act change next, ended, world => (next (change world)).KeepsAt ended (change world)
  | .sleep _ next, ended, world =>
      Inv ended world ∧ ∀ ended world, Inv ended world → next.KeepsAt ended world
  | .hold _ next, ended, world =>
      Inv ended world ∧ ∀ ended world, Inv ended world → next.KeepsAt ended world
  | .release _ next, ended, world => next.KeepsAt ended world

def Keeps (work : Work ω) : Prop := ∀ ended world, Inv ended world → work.KeepsAt Inv id ended world

end Keeping

end Work

namespace Scheduler

variable {Inv : List (String × Outcome) → ω → Prop} {id : String} {ended : List (String × Outcome)}

theorem release_world (s : Scheduler ω) (world : ω) (name : String) :
    { s.release name with world := world } = { s with world := world }.release name := by
  unfold release
  cases s.held.lookup name with
  | none => rfl
  | some waiting => cases waiting <;> rfl

-- Work that does not wait changes the world and ends.
theorem perform_straight {work : Work ω} {s : Scheduler ω} (h : work.Straight)
    (hkeeps : work.KeepsAt Inv id ended s.world) :
    ∃ world outcome, perform id work s = { s with world := world }.settle id outcome ∧
      Inv (ended ++ [(id, outcome)]) world := by
  induction work generalizing s with
  | finish outcome => exact ⟨s.world, outcome, rfl, hkeeps⟩
  | act change next ih =>
      exact ih (change s.world) (s := { s with world := change s.world }) (h _) hkeeps
  | _ => exact h.elim

-- Work that has a name held changes the world and goes to sleep, or it lets the name go and ends.
theorem perform_holding {work : Work ω} {s : Scheduler ω} {name : String} {naps : Nat}
    (h : work.Holding name naps) (hkeeps : work.KeepsAt Inv id ended s.world) :
    (∃ world due next, perform id work s =
        { s with world := world }.alarm due (.resume id next) ∧
      (∃ fewer < naps, next.Holding name fewer) ∧ next.Keeps Inv id ∧ Inv ended world) ∨
    ∃ world outcome, perform id work s =
        ({ s with world := world }.release name).settle id outcome ∧
      Inv (ended ++ [(id, outcome)]) world := by
  induction work generalizing s naps with
  | act change next ih =>
      exact ih (change s.world) (s := { s with world := change s.world }) (h _) hkeeps
  | sleep span next ih =>
      cases naps with
      | zero => exact h.elim
      | succ naps =>
          obtain ⟨hinv, hnext⟩ := hkeeps
          unfold perform
          split
          · refine (ih h (hnext ended s.world hinv)).imp_left ?_
            rintro ⟨world, due, later, he, ⟨fewer, hlt, hholds⟩, hrest⟩
            exact ⟨world, due, later, he, ⟨fewer, Nat.lt_succ_of_lt hlt, hholds⟩, hrest⟩
          · exact .inl ⟨s.world, _, next, rfl, ⟨naps, Nat.lt_succ_self naps, h⟩, hnext, hinv⟩
  | release other next =>
      obtain ⟨rfl, hstraight⟩ := h
      have hworld : (s.release other).world = s.world := by
        unfold Scheduler.release
        split <;> rfl
      obtain ⟨world, outcome, he, hinv⟩ :=
        perform_straight (s := s.release other) hstraight (hworld ▸ hkeeps)
      rw [release_world] at he
      exact .inr ⟨world, outcome, he, hinv⟩
  | _ => exact h.elim

end Scheduler

end LivePreview.Retry
