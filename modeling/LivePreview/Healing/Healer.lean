import LivePreview.Healing.Options
import LivePreview.Healing.Workspace

/-!
Healing: rounds of repair until the files bundle. Each round plans one task for every diagnosis that
is worth acting on, lets the tasks run on a scheduler of its own until it is idle, and bundles again.
Healing stops when the bundle succeeds, when the rounds are used up, or when nothing can be done.
-/

namespace LivePreview.Healing

/-- All that healing goes by. -/
structure Healer (ρ : Type) where
  classifier : Classifier
  service : Repair.Service ρ
  scheduler : Retry.Settings
  options : Options

/-- How far healing has come. -/
structure Progress (σ ρ : Type) where
  rounds : Nat
  workspace : Workspace σ ρ
  stats : Retry.Stats

/-- What healing has come to. -/
structure Report where
  success : Bool
  rounds : Nat
  /-- The bundle of the files. -/
  result : BundleResult
  fixes : List Fix
  /-- The diagnoses that the bundle still reports. -/
  remaining : List Diagnosis
  files : Sources
  /-- The paths at which the content has changed. -/
  modified : List String
  /-- The counts of the tasks of all rounds. -/
  stats : Retry.Stats

namespace Healer

variable {σ ρ : Type}

/-- The diagnoses of a bundle on which to act. -/
def worthTreating (healer : Healer ρ) (result : BundleResult) : List Diagnosis :=
  (result.diagnoses healer.classifier).filter fun diagnosis =>
    !healer.options.fixableOnly || diagnosis.isFixable

/-- Where a diagnosis is to be repaired: in its own file if that is there, otherwise in the entry. -/
def target? (files : Sources) (result : BundleResult) (diagnosis : Diagnosis) : Option String :=
  (diagnosis.location.file?.bind files.spelling?).or
    (result.entryPoint?.bind fun entry => files.spelling? entry.path)

/-- The service, or a patch without it, can do something about a diagnosis of a file. -/
def canTreat (healer : Healer ρ) (diagnosis : Diagnosis) (content : String) : Bool :=
  match (diagnosis.remedy content).action with
  | .patch _ => true
  | .prompt _ => healer.service.answersPrompts
  | .none => false

/-- The diagnoses of the bundle that a round acts on, with the file in which each is repaired. -/
def plan (healer : Healer ρ) (workspace : Workspace σ ρ) : List (Diagnosis × String) :=
  (healer.worthTreating workspace.built).filterMap fun diagnosis =>
    (target? workspace.files workspace.built diagnosis).bind fun target =>
      if healer.canTreat diagnosis (workspace.content target) then some (diagnosis, target) else none

/-- Add a task for each part of a plan; `first` tasks were added before. -/
def enqueueAll (healer : Healer ρ) (round : Nat) :
    (first : Nat) → List (Diagnosis × String) → Retry.Scheduler (Workspace σ ρ) →
      Retry.Scheduler (Workspace σ ρ)
  | _, [], scheduler => scheduler
  | first, (diagnosis, target) :: plan, scheduler =>
    let request : Retry.TaskRequest := ⟨toString first, diagnosis.kind, none, none, none⟩
    let work (number : Nat) : Retry.Work (Workspace σ ρ) :=
      Attempt.work healer.classifier healer.service ⟨round, diagnosis, target, number⟩
    healer.enqueueAll round (first + 1) plan (scheduler.enqueue request work).1

/-- The counts with those of one more round. -/
def addStats (total round : Retry.Stats) : Retry.Stats :=
  { total with
    total := total.total + round.total
    succeeded := total.succeeded + round.succeeded
    failed := total.failed + round.failed
    cancelled := total.cancelled + round.cancelled }

/-- Carry out the plan of a round and bundle. -/
def carryOut (healer : Healer ρ) (progress : Progress σ ρ) (plan : List (Diagnosis × String)) :
    Progress σ ρ :=
  let round := progress.rounds + 1
  let scheduler :=
    (healer.enqueueAll round 0 plan (.start healer.scheduler progress.workspace [])).waitIdle
  ⟨round, scheduler.world.bundle, addStats progress.stats scheduler.queue.stats⟩

/-- The plan of the next round. It is empty if the files bundle or no diagnosis is worth acting on. -/
def nextPlan (healer : Healer ρ) (workspace : Workspace σ ρ) :
    Except Retry.SettingsError (List (Diagnosis × String)) :=
  if workspace.built.success then .ok []
  else if healer.worthTreating workspace.built = [] then .ok []
  else match healer.scheduler.problem? with
    | some e => .error e
    | none => .ok (healer.plan workspace)

/-- Make at most so many more rounds. -/
def makeRounds (healer : Healer ρ) :
    (rounds : Nat) → Progress σ ρ → Except Retry.SettingsError (Progress σ ρ)
  | 0, progress => .ok progress
  | rounds + 1, progress =>
    match healer.nextPlan progress.workspace with
    | .error e => .error e
    | .ok [] => .ok progress
    | .ok plan => healer.makeRounds rounds (healer.carryOut progress plan)

/-- The paths of the files whose content is not what it was. -/
def modified (before after : Sources) : List String :=
  (after.toList.filter fun file => before.get? file.1 != some file.2).map (·.1)

/-- The report on how far healing has come. -/
def report (healer : Healer ρ) (before : Sources) (progress : Progress σ ρ) : Report :=
  let workspace := progress.workspace
  { success := workspace.built.success
    rounds := progress.rounds
    result := workspace.built
    fixes := workspace.fixes
    remaining := if workspace.built.success then [] else workspace.built.diagnoses healer.classifier
    files := workspace.files
    modified := modified before workspace.files
    stats := progress.stats }

/-- Repair files until they bundle or no more can be done. -/
def heal (healer : Healer ρ) (bundler : Bundler σ) (service : ρ) (files : Sources) :
    Except Retry.SettingsError (Report × Workspace σ ρ) := do
  let start : Progress σ ρ := ⟨0, .ofFiles bundler service files, .ofTasks []⟩
  let progress ← healer.makeRounds healer.options.maxRounds start
  pure (healer.report files progress, progress.workspace)

end Healer

end LivePreview.Healing
