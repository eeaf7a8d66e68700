import SchemaTypings.Shell.Machine

/-!
# Engines

Running a command may run other commands, and expanding a word may expand words inside it.  An
engine runs and expands what stands one level deeper; scripts and shells of their own are run with
its help.

This belongs to the outer layer, which only runs programs; no result depends on it.
-/

namespace SchemaTypings.Shell

open SchemaTypings.Run SchemaTypings.Text SchemaTypings.Tools

/-- A piece of an expanded word. -/
inductive Piece where
  /-- A character: whether it was quoted, and whether fields are split at it. -/
  | char (c : Char) (quoted splits : Bool)
  /-- A place where quotes stand. -/
  | quotes
  /-- The place between two arguments. -/
  | cut
  deriving DecidableEq, Repr

/-- What runs commands and expands parts of words.  A command may be told that its failure is
looked at; parts may be told that they are quoted. -/
structure Engine where
  run : Bool → Command → Script Unit
  expand : Bool → List Part → Script (List Piece)

namespace Engine

/-- Complains of a source that cannot be read and ends the shell. -/
def refuseSource (problem : SourceProblem) : Script Unit := do
  modifyShell fun s => { s with line := problem.line }
  fault problem.message

/-- Runs the commands of a source one after another. -/
def runSource (engine : Engine) (tested : Bool) : Nat → Source → Script Unit
  | 0, _ => return
  | n + 1, source => do
    let number := (← get).nextDocument
    match nextCommand.run { source with next := number, documents := [] } with
    | .error problem => refuseSource problem
    | .ok (none, _) => return
    | .ok (some command, after) =>
      modify fun m => { m with
        nextDocument := after.next, documents := after.documents ++ m.documents }
      engine.run tested command
      engine.runSource tested n after

/-- Runs a text as a script. -/
def runText (engine : Engine) (tested : Bool) (text : Octets) : Script Unit :=
  engine.runSource tested (text.length + 2) { rest := text }

/-- The status that a shell ends with, unless it was killed. -/
def statusAfter (status : Nat) : Jump → Nat
  | .exit n => n
  | .leave n => n
  | .fault => 2
  | _ => status

/-- Ends the running shell: what is to be done at its end is done. -/
def finish (engine : Engine) (result : Except Jump Unit) : Script Ending := do
  let s ← getShell
  match result with
  | .error (.killed number signal) =>
    if number = s.number then return .signalled signal else throw (.killed number signal)
  | _ =>
    let status := match result with
      | .ok _ => s.status
      | .error jump => statusAfter s.status jump
    match s.traps.lookup 0 with
    | none => return .exited status
    | some action =>
      modifyShell fun s => { s with status, builtin := none, traps := s.traps.filter (·.1 != 0) }
      match ← attempt (engine.runText false action) with
      | .error (.killed number signal) =>
        if number = s.number then return .signalled signal else throw (.killed number signal)
      | .error jump => return .exited (statusAfter status jump)
      | .ok _ => return .exited status

/-- Runs a step in a shell that starts as a changed copy of the running one; the running one is as
before afterwards. -/
def fork (engine : Engine) (change : ShellState → ShellState) (step : Script Unit) :
    Script Ending := do
  let outer ← getShell
  let place := (← get).files.current
  modifyShell fun s => change { s with
    loops := 0, isCopy := true, traps := s.traps.filter fun entry => entry.2.isEmpty }
  let ending ← attempt do engine.finish (← attempt step)
  modify fun m => { m with shell := outer, files := { m.files with current := place } }
  if let some signal := (← get).doomed then
    unless outer.isCopy do throw (.killed outer.number signal)
  match ending with
  | .ok ending => return ending
  | .error jump => throw jump

/-- What a step writes to its output when it runs in a shell of its own. -/
def capture (engine : Engine) (step : Script Unit) : Script (Ending × Octets) := do
  let index ← newHandle (.sink [])
  let ending ← engine.fork
    (fun s => { s with channels := withChannel s.channels 1 (some index) }) step
  return (ending, sinkContent (← get) index)

end Engine

end SchemaTypings.Shell
