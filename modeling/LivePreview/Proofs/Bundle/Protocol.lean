import LivePreview.Proofs.Bundle.Outcome

namespace LivePreview

-- A call that a bundler makes of its engine; of a start, with the answer.
inductive EngineCall where
  | start (answer : Except BuildError Unit)
  | build (files : Sources) (entry : String)

namespace EngineCall

def isStart : EngineCall → Bool
  | start _ => true
  | build _ _ => false

-- The engine runs after the call, be it that it was started now or that it was started elsewhere.
def isSuccess : EngineCall → Bool
  | start (.ok ()) => true
  | start (.error .alreadyStarted) => true
  | _ => false

theorem isSuccess_start_error {e : BuildError} :
    (start (.error e)).isSuccess = true ↔ e = .alreadyStarted := by
  cases e <;> simp [isSuccess]

end EngineCall

-- As long as no start succeeded the engine is only started, and from then on it only builds. Whether
-- a start succeeded before these calls is known.
def Alternating (started : Prop) (calls : List EngineCall) : Prop :=
  ∀ before call after, calls = before ++ call :: after →
    (call.isStart = true ↔ ¬(started ∨ ∃ earlier ∈ before, earlier.isSuccess = true))

section Alternating

variable {started : Prop} {calls later : List EngineCall}

theorem Alternating.imp {running : Prop} (h : Alternating started calls)
    (hiff : started ↔ running) : Alternating running calls := by
  rwa [← propext hiff]

theorem alternating_nil : Alternating started [] := by
  intro before call after h
  cases before <;> cases h

theorem alternating_singleton {call : EngineCall} :
    Alternating started [call] ↔ (call.isStart = true ↔ ¬started) := by
  constructor
  · intro h
    simpa using h [] call [] rfl
  · intro h before other after heq
    cases before with
    | nil =>
        obtain ⟨rfl, _⟩ := List.cons.inj heq
        simpa using h
    | cons first before => cases before <;> cases heq

theorem alternating_append (h : Alternating started calls)
    (hlater : Alternating (started ∨ ∃ call ∈ calls, call.isSuccess = true) later) :
    Alternating started (calls ++ later) := by
  intro before call after heq
  rcases List.append_eq_append_iff.mp heq with ⟨between, rfl, hsplit⟩ | ⟨between, rfl, hsplit⟩
  · have hcall := hlater between call after hsplit
    simpa only [List.mem_append, or_and_right, exists_or, or_assoc] using hcall
  · cases between with
    | nil => simpa using hlater [] call after hsplit.symm
    | cons first between =>
        obtain ⟨rfl, _⟩ := List.cons.inj hsplit
        exact h before call between rfl

end Alternating

-- An engine that keeps a journal of the calls made of it and answers as it did.
def Engine.recorded {σ : Type} (engine : Engine σ) : Engine (σ × List EngineCall) where
  start := fun (state, calls) =>
    let (answer, next) := engine.start state
    (answer, next, calls ++ [.start answer])
  build files entry := fun (state, calls) =>
    let (built, next) := engine.build files entry state
    (built, next, calls ++ [.build files entry])

-- What a bundler can be asked for.
inductive BundlerRequest where
  | ready
  | bundle (files : Sources)

inductive BundlerResponse where
  | ready (answer : Except BuildError Unit)
  | bundle (result : BundleResult)

-- A request, the response to it and the calls that were made of the engine in between.
structure Exchange where
  request : BundlerRequest
  response : BundlerResponse
  calls : List EngineCall

namespace Bundler

variable {σ : Type}

def respond (bundler : Bundler σ) : BundlerRequest → BundlerResponse × Bundler σ
  | .ready => bundler.ensureReady.map .ready id
  | .bundle files => (bundler.bundle files).map .bundle id

def responses (bundler : Bundler σ) : List BundlerRequest → List BundlerResponse
  | [] => []
  | request :: later => (bundler.respond request).1 :: (bundler.respond request).2.responses later

-- The bundler on an engine that keeps a journal, with nothing in it yet.
def recorded (bundler : Bundler σ) : Bundler (σ × List EngineCall) :=
  ⟨bundler.engine.recorded, bundler.options, (bundler.state, []), bundler.ready⟩

def exchange (bundler : Bundler σ) (request : BundlerRequest) : Exchange × Bundler σ :=
  let (response, after) := bundler.recorded.respond request
  (⟨request, response, after.state.2⟩,
    { bundler with state := after.state.1, ready := after.ready })

def exchanges (bundler : Bundler σ) : List BundlerRequest → List Exchange
  | [] => []
  | request :: later => (bundler.exchange request).1 :: (bundler.exchange request).2.exchanges later

end Bundler

namespace Exchange

-- All calls of the engine, in their order.
def journal (exchanges : List Exchange) : List EngineCall := exchanges.flatMap calls

-- A request that cannot be answered without an engine that runs.
def Needs (options : BundleOptions) : BundlerRequest → Prop
  | .ready => True
  | .bundle files => (EntryPoint.detect? (files.prepare options.skipInvalid).files).isSome = true

-- The response tells that the engine did not start, and why.
def Reports (options : BundleOptions) (exchange : Exchange) (e : BuildError) : Prop :=
  match exchange.request with
  | .ready => exchange.response = .ready (.error e)
  | .bundle files => ∃ plan, BuildPlan.make options files = .ok plan ∧
      exchange.response =
        .bundle (.failure (.ofKind .compile e.message) plan.warnings (some plan.entry))

def starts (exchange : Exchange) : List EngineCall := exchange.calls.filter (·.isStart)

def builds (exchange : Exchange) : List EngineCall := exchange.calls.filter (!·.isStart)

-- The engine ran when it came to a build.
def Passed (started : Prop) (exchange : Exchange) : Prop :=
  started ∨ ∃ call ∈ exchange.calls, call.isSuccess = true

-- An exchange as it has to be, with an engine of which it is known whether a start of it succeeded
-- before.
structure Proper (options : BundleOptions) (started : Prop) (exchange : Exchange) : Prop where
  startsOnce : ¬started → Needs options exchange.request → ∃ call, exchange.starts = [call]
  startsNever : started → exchange.starts = []
  reports : ∀ e, .start (.error e) ∈ exchange.calls → e ≠ .alreadyStarted →
    exchange.Reports options e
  buildsOnce : ∀ files entry, exchange.request = .bundle files →
    EntryPoint.detect? (files.prepare options.skipInvalid).files = some entry →
    exchange.Passed started →
    ∃ plan, BuildPlan.make options files = .ok plan ∧ plan.entry = entry ∧
      exchange.builds = [.build plan.files plan.start]
  buildsNever : ¬exchange.Passed started → exchange.builds = []
  readyOnly : exchange.request = .ready → exchange.builds = []
  idle : ∀ files, exchange.request = .bundle files →
    (files.toList = [] ∨ (files.prepare options.skipInvalid).files.toList = [] ∨
      EntryPoint.detect? (files.prepare options.skipInvalid).files = none) →
    exchange.calls = []

end Exchange

namespace Bundler

variable {σ : Type}

-- The calls by which the bundler sees to it that the engine runs.
def opening (bundler : Bundler σ) : List EngineCall :=
  if bundler.ready then [] else [.start (bundler.engine.start bundler.state).1]

-- With a journal or without, an engine is started in the same way.
theorem ensureReady_recorded (bundler : Bundler σ) :
    bundler.recorded.ensureReady = (bundler.ensureReady.1,
      { bundler.ensureReady.2.recorded with
        state := (bundler.ensureReady.2.state, bundler.opening) }) := by
  obtain ⟨⟨start, build⟩, options, state, ready⟩ := bundler
  cases ready with
  | true => rfl
  | false =>
      simp only [opening, ensureReady, recorded, Engine.recorded, Bool.false_eq_true, if_false,
        List.nil_append]
      rcases start state with ⟨_ | _, next⟩
      · rename_i e
        cases e <;> rfl
      · rfl

theorem ensureReady_fields (bundler : Bundler σ) :
    bundler.ensureReady.2.engine = bundler.engine ∧
      bundler.ensureReady.2.options = bundler.options := by
  unfold ensureReady
  split
  · exact ⟨rfl, rfl⟩
  · split <;> exact ⟨rfl, rfl⟩

theorem ensureReady_of_ready {bundler : Bundler σ} (h : bundler.ready = true) :
    bundler.ensureReady = (.ok (), bundler) := if_pos h

-- Either the engine runs from then on, or its start failed.
theorem ensureReady_cases (bundler : Bundler σ) :
    (bundler.ensureReady.1 = .ok () ∧ bundler.ensureReady.2.ready = true ∧
      (bundler.ready = true ∨ ∃ call, bundler.opening = [call] ∧ call.isSuccess = true)) ∨
    ∃ e, bundler.ensureReady.1 = .error e ∧ bundler.ensureReady.2.ready = false ∧
      bundler.ready = false ∧ bundler.opening = [.start (.error e)] ∧ e ≠ .alreadyStarted := by
  cases hready : bundler.ready with
  | true =>
      rw [ensureReady_of_ready hready]
      exact .inl ⟨rfl, hready, .inl rfl⟩
  | false =>
      unfold opening ensureReady
      rw [hready]
      rcases bundler.engine.start bundler.state with ⟨_ | _, next⟩
      · rename_i e
        cases e with
        | alreadyStarted => exact .inl ⟨rfl, rfl, .inr ⟨_, rfl, rfl⟩⟩
        | _ => exact .inr ⟨_, rfl, rfl, rfl, rfl, nofun⟩
      · exact .inl ⟨rfl, rfl, .inr ⟨_, rfl, rfl⟩⟩

theorem exchange_ready (bundler : Bundler σ) :
    bundler.exchange .ready =
      (⟨.ready, .ready bundler.ensureReady.1, bundler.opening⟩, bundler.ensureReady.2) := by
  obtain ⟨hengine, hoptions⟩ := ensureReady_fields bundler
  have hafter : ∀ after : Bundler σ, after.engine = bundler.engine →
      after.options = bundler.options →
      { bundler with state := after.state, ready := after.ready } = after := by
    rintro ⟨_, _, _, _⟩ rfl rfl
    rfl
  simp only [exchange, respond, ensureReady_recorded, Prod.map, id]
  exact congrArg _ (hafter _ hengine hoptions)

theorem exchange_of_make_eq_error {bundler : Bundler σ} {files : Sources} {result : BundleResult}
    (h : BuildPlan.make bundler.options files = .error result) :
    bundler.exchange (.bundle files) = (⟨.bundle files, .bundle result, []⟩, bundler) := by
  have hrecorded : BuildPlan.make bundler.recorded.options files = .error result := h
  simp only [exchange, respond, bundle, hrecorded, Prod.map, id]
  rfl

theorem exchange_of_make_eq_ok {bundler : Bundler σ} {files : Sources} {plan : BuildPlan}
    (h : BuildPlan.make bundler.options files = .ok plan) :
    bundler.exchange (.bundle files) = (⟨.bundle files, .bundle (bundler.bundle files).1,
      bundler.opening ++ (match bundler.ensureReady.1 with
        | .ok () => [.build plan.files plan.start]
        | .error _ => [])⟩, (bundler.bundle files).2) := by
  obtain ⟨hengine, hoptions⟩ := ensureReady_fields bundler
  have hrecorded : BuildPlan.make bundler.recorded.options files = .ok plan := h
  simp only [exchange, respond, bundle, h, hrecorded, ensureReady_recorded, Prod.map, id]
  rcases hready : bundler.ensureReady with ⟨_ | _, ⟨_, _, _, _⟩⟩
  · rw [hready] at hengine hoptions
    dsimp only at hengine hoptions ⊢
    subst hengine hoptions
    rw [List.append_nil]
    rfl
  · rw [hready] at hengine hoptions
    dsimp only at hengine hoptions ⊢
    subst hengine hoptions
    rfl

-- A journal changes nothing but the journal.
theorem exchange_respond (bundler : Bundler σ) (request : BundlerRequest) :
    ((bundler.exchange request).1.response, (bundler.exchange request).2) =
      bundler.respond request := by
  cases request with
  | ready => rw [exchange_ready]; rfl
  | bundle files =>
      cases hmake : BuildPlan.make bundler.options files with
      | error result =>
          rw [exchange_of_make_eq_error hmake, respond, bundle, hmake]
          rfl
      | ok plan => rw [exchange_of_make_eq_ok hmake]; rfl

theorem map_response_exchanges (bundler : Bundler σ) (requests : List BundlerRequest) :
    (bundler.exchanges requests).map (·.response) = bundler.responses requests := by
  induction requests generalizing bundler with
  | nil => rfl
  | cons request later ih =>
      have h := exchange_respond bundler request
      rw [exchanges, responses, List.map_cons, ih, ← h]

theorem map_request_exchanges (bundler : Bundler σ) (requests : List BundlerRequest) :
    (bundler.exchanges requests).map (·.request) = requests := by
  induction requests generalizing bundler with
  | nil => rfl
  | cons request later ih =>
      rw [exchanges, List.map_cons, ih]
      rfl

theorem exchange_options (bundler : Bundler σ) (request : BundlerRequest) :
    (bundler.exchange request).2.options = bundler.options := rfl

-- What is known of one exchange: the calls, by what was asked for and by how the start went.
theorem exchange_cases (bundler : Bundler σ) (request : BundlerRequest) :
    (∃ files result, request = .bundle files ∧
      BuildPlan.make bundler.options files = .error result ∧
      (bundler.exchange request).1.calls = [] ∧
      (bundler.exchange request).2.ready = bundler.ready) ∨
    (∃ calls, (request = .ready ∧ calls = [] ∨ ∃ files plan, request = .bundle files ∧
        BuildPlan.make bundler.options files = .ok plan ∧
        calls = [.build plan.files plan.start]) ∧
      (bundler.exchange request).1.calls = bundler.opening ++ calls ∧
      (bundler.exchange request).2.ready = true ∧
      (bundler.ready = true ∨ ∃ call, bundler.opening = [call] ∧ call.isSuccess = true)) ∨
    ∃ e, (request = .ready ∨ ∃ files plan, request = .bundle files ∧
        BuildPlan.make bundler.options files = .ok plan) ∧
      bundler.ready = false ∧ e ≠ .alreadyStarted ∧
      (bundler.exchange request).1.calls = [.start (.error e)] ∧
      (bundler.exchange request).2.ready = false ∧
      (bundler.exchange request).1.Reports bundler.options e := by
  have hstart := ensureReady_cases bundler
  cases request with
  | ready =>
      rw [exchange_ready]
      rcases hstart with ⟨_, hafter, hpassed⟩ | ⟨e, he, hafter, hready, hopening, hne⟩
      · exact .inr (.inl ⟨[], .inl ⟨rfl, rfl⟩, (List.append_nil _).symm, hafter, hpassed⟩)
      · exact .inr (.inr ⟨e, .inl rfl, hready, hne, hopening, hafter,
          congrArg BundlerResponse.ready he⟩)
  | bundle files =>
      cases hmake : BuildPlan.make bundler.options files with
      | error result =>
          rw [exchange_of_make_eq_error hmake]
          exact .inl ⟨files, result, rfl, hmake, rfl, rfl⟩
      | ok plan =>
          rw [exchange_of_make_eq_ok hmake]
          unfold bundle
          rw [hmake]
          rcases hensure : bundler.ensureReady with ⟨answer, after⟩
          rw [hensure] at hstart
          dsimp only at hstart ⊢
          rcases hstart with ⟨rfl, hafter, hpassed⟩ | ⟨e, rfl, hafter, hready, hopening, hne⟩
          · exact .inr (.inl ⟨_, .inr ⟨files, plan, rfl, hmake, rfl⟩, rfl, hafter, hpassed⟩)
          · rw [hopening]
            exact .inr (.inr ⟨e, .inr ⟨files, plan, rfl, hmake⟩, hready, hne, rfl, hafter, plan,
              hmake, rfl⟩)

theorem opening_cases (bundler : Bundler σ) :
    (bundler.ready = true ∧ bundler.opening = []) ∨
      (bundler.ready = false ∧ ∃ answer, bundler.opening = [.start answer]) := by
  unfold opening
  cases bundler.ready with
  | true => exact .inl ⟨rfl, rfl⟩
  | false => exact .inr ⟨rfl, _, rfl⟩

theorem filter_opening (bundler : Bundler σ) :
    bundler.opening.filter (·.isStart) = bundler.opening ∧
      bundler.opening.filter (!·.isStart) = [] := by
  rcases opening_cases bundler with ⟨_, h⟩ | ⟨_, answer, h⟩ <;> rw [h] <;> exact ⟨rfl, rfl⟩

-- Without an entry among the files there is no plan.
theorem not_make_of_idle {options : BundleOptions} {files : Sources} {plan : BuildPlan}
    (hmake : BuildPlan.make options files = .ok plan)
    (hidle : files.toList = [] ∨ (files.prepare options.skipInvalid).files.toList = [] ∨
      EntryPoint.detect? (files.prepare options.skipInvalid).files = none) : False := by
  obtain ⟨hfiles, hprepared, entry, hentry, _⟩ := BuildPlan.make_eq_ok_iff.mp hmake
  rcases hidle with hnil | hnil | hnone
  · exact hfiles hnil
  · exact hprepared hnil
  · rw [hnone] at hentry
    cases hentry

-- Where the engine runs in the end, nobody reported that it did not start.
theorem passed_opening {bundler : Bundler σ}
    (h : bundler.ready = true ∨ ∃ call, bundler.opening = [call] ∧ call.isSuccess = true) :
    (bundler.ready = true ∨ ∃ call ∈ bundler.opening, call.isSuccess = true) ∧
      ∀ e, .start (.error e) ∈ bundler.opening → e = .alreadyStarted := by
  rcases h with hready | ⟨call, hopening, hsuccess⟩
  · rw [opening, if_pos hready]
    exact ⟨.inl hready, nofun⟩
  · rw [hopening]
    refine ⟨.inr ⟨call, List.mem_cons_self, hsuccess⟩, fun e hmem => ?_⟩
    rw [← List.mem_singleton.mp hmem] at hsuccess
    exact EngineCall.isSuccess_start_error.mp hsuccess

theorem proper_of_unplanned {bundler : Bundler σ} {files : Sources} {result : BundleResult}
    (hmake : BuildPlan.make bundler.options files = .error result)
    (hcalls : (bundler.exchange (.bundle files)).1.calls = []) :
    (bundler.exchange (.bundle files)).1.Proper bundler.options (bundler.ready = true) := by
  have hrequest : (bundler.exchange (.bundle files)).1.request = .bundle files := rfl
  obtain ⟨hnone, _⟩ := BuildPlan.exists_of_make_eq_error hmake
  constructor
  case startsOnce =>
    intro _ hneeds
    rw [hrequest, Exchange.Needs, hnone] at hneeds
    cases hneeds
  case buildsOnce =>
    intro other entry hother hentry _
    cases hrequest.symm.trans hother
    rw [hnone] at hentry
    cases hentry
  all_goals simp [Exchange.starts, Exchange.builds, hcalls]

theorem proper_of_passed {bundler : Bundler σ} {request : BundlerRequest} {calls : List EngineCall}
    (hasked : request = .ready ∧ calls = [] ∨ ∃ files plan, request = .bundle files ∧
      BuildPlan.make bundler.options files = .ok plan ∧ calls = [.build plan.files plan.start])
    (hcalls : (bundler.exchange request).1.calls = bundler.opening ++ calls)
    (hpassed : bundler.ready = true ∨
      ∃ call, bundler.opening = [call] ∧ call.isSuccess = true) :
    (bundler.exchange request).1.Proper bundler.options (bundler.ready = true) := by
  obtain ⟨hpassed, hfailed⟩ := passed_opening hpassed
  have hstarts : (bundler.exchange request).1.starts = bundler.opening := by
    rw [Exchange.starts, hcalls, List.filter_append, (filter_opening bundler).1]
    rcases hasked with ⟨_, rfl⟩ | ⟨_, _, _, _, rfl⟩ <;> exact List.append_nil _
  have hbuilds : (bundler.exchange request).1.builds = calls := by
    rw [Exchange.builds, hcalls, List.filter_append, (filter_opening bundler).2]
    rcases hasked with ⟨_, rfl⟩ | ⟨_, _, _, _, rfl⟩ <;> rfl
  constructor
  case startsOnce =>
    intro hnot _
    rw [hstarts]
    obtain ⟨answer, hopening⟩ := ((opening_cases bundler).resolve_left fun h => hnot h.1).2
    exact ⟨_, hopening⟩
  case startsNever =>
    intro hready
    rw [hstarts, opening, if_pos hready]
  case reports =>
    intro e hmem hne
    have hstart : EngineCall.start (.error e) ∈ (bundler.exchange request).1.starts :=
      List.mem_filter.mpr ⟨hmem, rfl⟩
    exact absurd (hfailed e (hstarts ▸ hstart)) hne
  case buildsOnce =>
    intro files entry hfiles hentry _
    rw [hbuilds]
    rcases hasked with ⟨hask, _⟩ | ⟨_, plan, hask, hmake, rfl⟩
    · cases hask.symm.trans hfiles
    · cases hask.symm.trans hfiles
      rw [BuildPlan.entry_of_make hmake] at hentry
      exact ⟨plan, hmake, Option.some.inj hentry, rfl⟩
  case buildsNever =>
    intro hnot
    refine absurd (hpassed.imp_right ?_) hnot
    rintro ⟨call, hmem, hsuccess⟩
    exact ⟨call, hcalls ▸ List.mem_append_left _ hmem, hsuccess⟩
  case readyOnly =>
    intro hready
    rw [hbuilds]
    rcases hasked with ⟨_, hnil⟩ | ⟨_, _, hask, _⟩
    · exact hnil
    · cases hask.symm.trans hready
  case idle =>
    intro files hfiles hidle
    rcases hasked with ⟨hask, _⟩ | ⟨_, plan, hask, hmake, _⟩
    · cases hask.symm.trans hfiles
    · cases hask.symm.trans hfiles
      exact (not_make_of_idle hmake hidle).elim

theorem proper_of_failed {bundler : Bundler σ} {request : BundlerRequest} {e : BuildError}
    (hasked : request = .ready ∨ ∃ files plan, request = .bundle files ∧
      BuildPlan.make bundler.options files = .ok plan)
    (hready : bundler.ready = false) (hne : e ≠ .alreadyStarted)
    (hcalls : (bundler.exchange request).1.calls = [.start (.error e)])
    (hreports : (bundler.exchange request).1.Reports bundler.options e) :
    (bundler.exchange request).1.Proper bundler.options (bundler.ready = true) := by
  have hnot : ¬(bundler.exchange request).1.Passed (bundler.ready = true) := by
    rintro (hstarted | ⟨call, hmem, hsuccess⟩)
    · rw [hready] at hstarted
      cases hstarted
    · rw [hcalls] at hmem
      rw [List.mem_singleton.mp hmem] at hsuccess
      exact hne (EngineCall.isSuccess_start_error.mp hsuccess)
  have hbuilds : (bundler.exchange request).1.builds = [] := by
    rw [Exchange.builds, hcalls]
    rfl
  constructor
  case startsOnce =>
    intro _ _
    rw [Exchange.starts, hcalls]
    exact ⟨_, rfl⟩
  case startsNever => exact fun hstarted => absurd (.inl hstarted) hnot
  case reports =>
    intro other hmem _
    rw [hcalls] at hmem
    cases List.mem_singleton.mp hmem
    exact hreports
  case buildsOnce => exact fun _ _ _ _ h => absurd h hnot
  case buildsNever => exact fun _ => hbuilds
  case readyOnly => exact fun _ => hbuilds
  case idle =>
    intro files hfiles hidle
    rcases hasked with hask | ⟨_, plan, hask, hmake⟩
    · cases hask.symm.trans hfiles
    · cases hask.symm.trans hfiles
      exact (not_make_of_idle hmake hidle).elim

-- Step lemma: one exchange, by whether the engine ran before it.
theorem exchange_proper (bundler : Bundler σ) (request : BundlerRequest) :
    (bundler.exchange request).1.Proper bundler.options (bundler.ready = true) := by
  rcases exchange_cases bundler request with
    ⟨files, result, rfl, hmake, hcalls, _⟩ |
    ⟨calls, hasked, hcalls, _, hpassed⟩ |
    ⟨e, hasked, hready, hne, hcalls, _, hreports⟩
  · exact proper_of_unplanned hmake hcalls
  · exact proper_of_passed hasked hcalls hpassed
  · exact proper_of_failed hasked hready hne hcalls hreports

-- A bundler takes its engine to run if it did so before or a start succeeded in between.
theorem ready_exchange_iff (bundler : Bundler σ) (request : BundlerRequest) :
    (bundler.exchange request).2.ready = true ↔
      bundler.ready = true ∨
        ∃ call ∈ (bundler.exchange request).1.calls, call.isSuccess = true := by
  rcases exchange_cases bundler request with
    ⟨_, _, _, _, hcalls, hafter⟩ | ⟨calls, _, hcalls, hafter, hpassed⟩ |
    ⟨e, _, hready, hne, hcalls, hafter, _⟩
  · rw [hcalls, hafter]
    simp
  · refine iff_of_true hafter ((passed_opening hpassed).1.imp_right ?_)
    rintro ⟨call, hmem, hsuccess⟩
    exact ⟨call, hcalls ▸ List.mem_append_left _ hmem, hsuccess⟩
  · rw [hcalls, hafter, hready]
    simp [EngineCall.isSuccess_start_error, hne]

theorem alternating_exchange (bundler : Bundler σ) (request : BundlerRequest) :
    Alternating (bundler.ready = true) (bundler.exchange request).1.calls := by
  rcases exchange_cases bundler request with
    ⟨_, _, _, _, hcalls, _⟩ | ⟨calls, hasked, hcalls, _, hpassed⟩ |
    ⟨e, _, hready, _, hcalls, _⟩
  · rw [hcalls]
    exact alternating_nil
  · have hcalls' : Alternating True calls := by
      rcases hasked with ⟨_, rfl⟩ | ⟨_, _, _, _, rfl⟩
      · exact alternating_nil
      · exact alternating_singleton.mpr (by simp [EngineCall.isStart])
    rw [hcalls]
    refine alternating_append ?_ (hcalls'.imp (iff_true_intro (passed_opening hpassed).1).symm)
    rcases opening_cases bundler with ⟨_, hnil⟩ | ⟨hready, answer, hopening⟩
    · rw [hnil]
      exact alternating_nil
    · rw [hopening]
      exact alternating_singleton.mpr (by simp [EngineCall.isStart, hready])
  · rw [hcalls]
    exact alternating_singleton.mpr (by simp [EngineCall.isStart, hready])

-- Run lemmas: the exchanges of a whole session, by what one exchange preserves.
theorem alternating_exchanges (bundler : Bundler σ) (requests : List BundlerRequest) :
    Alternating (bundler.ready = true) (Exchange.journal (bundler.exchanges requests)) := by
  induction requests generalizing bundler with
  | nil => exact alternating_nil
  | cons request later ih =>
      refine alternating_append (alternating_exchange bundler request) ?_
      exact (ih _).imp (ready_exchange_iff bundler request)

theorem proper_exchanges (bundler : Bundler σ) (requests : List BundlerRequest)
    {before after : List Exchange} {exchange : Exchange}
    (h : bundler.exchanges requests = before ++ exchange :: after) :
    exchange.Proper bundler.options
      (bundler.ready = true ∨ ∃ call ∈ Exchange.journal before, call.isSuccess = true) := by
  induction requests generalizing bundler before with
  | nil => cases before <;> cases h
  | cons request later ih =>
      cases before with
      | nil =>
          obtain ⟨rfl, _⟩ := List.cons.inj h
          simpa [Exchange.journal] using exchange_proper bundler request
      | cons first before =>
          obtain ⟨rfl, hlater⟩ := List.cons.inj h
          have hproper := ih (bundler.exchange request).2 hlater
          rw [ready_exchange_iff, or_assoc, exchange_options] at hproper
          simpa only [Exchange.journal, List.flatMap_cons, List.mem_append, or_and_right,
            exists_or] using hproper

end Bundler

-- The exchanges of a session with an engine of which nothing is known.
structure Orderly (options : BundleOptions) (exchanges : List Exchange) : Prop where
  -- An engine is started until a start succeeds, and asked for builds from then on.
  alternates : Alternating False (Exchange.journal exchanges)
  proper : ∀ before exchange after, exchanges = before ++ exchange :: after →
    exchange.Proper options (∃ call ∈ Exchange.journal before, call.isSuccess = true)

-- For every engine, whatever it answers, and every session.
theorem Bundler.exchanges_orderly {σ : Type} (engine : Engine σ) (state : σ)
    (options : BundleOptions) (requests : List BundlerRequest) :
    Orderly options ((ofEngine engine state options).exchanges requests) ∧
      ((ofEngine engine state options).exchanges requests).map (·.request) = requests ∧
      ((ofEngine engine state options).exchanges requests).map (·.response) =
        (ofEngine engine state options).responses requests := by
  refine ⟨⟨?_, fun before exchange after h => ?_⟩, map_request_exchanges _ _,
    map_response_exchanges _ _⟩
  · exact (alternating_exchanges _ requests).imp (iff_of_false Bool.false_ne_true id)
  · simpa [ofEngine] using proper_exchanges _ requests h

end LivePreview
