import LivePreview.Bundle.Error

/-!
Compile engines. An engine has a state, is started once and then builds from a set of files and an
entry. The linker is such an engine; a scripted engine gives the answers it was told to give, to show
what a bundler makes of them.
-/

namespace LivePreview

/-- The answer to a request for a build, and what the build needed from outside the project. -/
structure Built where
  result : Except BuildError Linking.Output
  outside : Outside

/-- A compile engine whose state is a `σ`. -/
structure Engine (σ : Type) where
  start : σ → Except BuildError Unit × σ
  build : Sources → (entry : String) → σ → Built × σ

namespace Engine

/-- Link the files as a build. -/
def linked (files : Sources) (entry : String) : Built :=
  { result := (Linking.link files entry).mapError fun findings =>
      .failed (findings.map .ofFinding)
    outside := Linking.outside files entry }

/-- Start the linker, of which it is known whether it was started before. -/
def startLinker (started : Bool) : Except BuildError Unit × Bool :=
  (if started then .error .alreadyStarted else .ok (), true)

/-- The linker as an engine; its state tells whether it was started. -/
def linker : Engine Bool where
  start := startLinker
  build files entry started := (linked files entry, started)

end Engine

/-- How a scripted engine answers when it is started. -/
inductive ScriptedStart where
  | answer (result : Except BuildError Unit)
  /-- Start the linker inside. -/
  | linker

/-- How a scripted engine answers a request for a build. -/
inductive ScriptedBuild where
  | answer (result : Except BuildError Linking.Output)
  /-- Let the linker inside build. -/
  | linker

/-- The answers of a scripted engine, one for each call; the last one stays. -/
structure EngineScript where
  starts : List ScriptedStart
  builds : List ScriptedBuild

/-- What a scripted engine has seen. -/
structure ScriptedState where
  /-- How often it was started. -/
  starts : Nat
  /-- How often it was asked to build. -/
  builds : Nat
  /-- The linker inside was started. -/
  linkerStarted : Bool
deriving DecidableEq, Repr

/-- The element of a script for a call, the last one if there are more calls than elements. -/
def scripted? {α : Type} (script : List α) (call : Nat) : Option α := script[call]?.or script.getLast?

namespace Engine

/-- An engine that answers by a script. -/
def scripted (script : EngineScript) : Engine ScriptedState where
  start state :=
    let next := { state with starts := state.starts + 1 }
    match scripted? script.starts state.starts with
    | none => (.ok (), next)
    | some (.answer result) => (result, next)
    | some .linker =>
      let (result, started) := startLinker state.linkerStarted
      (result, { next with linkerStarted := started })
  build files entry state :=
    let next := { state with builds := state.builds + 1 }
    match scripted? script.builds state.builds with
    | some (.answer result) => (⟨result, .empty⟩, next)
    | _ => (linked files entry, next)

/-- A scripted engine before its first call. -/
def unseen : ScriptedState := ⟨0, 0, false⟩

end Engine

end LivePreview
