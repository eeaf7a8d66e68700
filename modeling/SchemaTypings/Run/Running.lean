import SchemaTypings.Run.Failure

/-!
# Steps of runs

A step of a run changes the file system and may fail; what it changed before it failed stays.
-/

namespace SchemaTypings.Run

open SchemaTypings.Text

/-- A step of a run: it may change the file system and may fail. -/
abbrev Running := ExceptT Failure (StateM FileSystem)

/-- The result of a step and the file system that it leaves behind. -/
def Running.on {α : Type} (running : Running α) (fs : FileSystem) :
    Except Failure α × FileSystem :=
  StateT.run (ExceptT.run running) fs

/-- The step that leaves the files alone and has a given result. -/
def ofResult {α : Type} : Except Failure α → Running α
  | .ok value => pure value
  | .error failure => throw failure

namespace Running

variable {α β : Type}

@[simp] theorem on_pure (value : α) (fs : FileSystem) :
    Running.on (pure value) fs = (.ok value, fs) := rfl

@[simp] theorem on_get (fs : FileSystem) :
    Running.on (get : Running FileSystem) fs = (.ok fs, fs) := rfl

@[simp] theorem on_set (after fs : FileSystem) :
    Running.on (set after : Running PUnit) fs = (.ok ⟨⟩, after) := rfl

/-- A step after another one runs on what that one leaves, unless it has failed. -/
theorem on_bind (first : Running α) (next : α → Running β) (fs : FileSystem) :
    Running.on (first >>= next) fs =
      match first.on fs with
      | (.ok value, after) => (next value).on after
      | (.error failure, after) => (.error failure, after) := by
  simp only [Running.on, ExceptT.run_bind, StateT.run_bind]
  rcases StateT.run (ExceptT.run first) fs with ⟨_ | _, _⟩ <;> rfl

/-- A step without effect has its result on every file system. -/
@[simp] theorem on_ofResult (result : Except Failure α) (fs : FileSystem) :
    (ofResult result).on fs = (result, fs) := by
  cases result <;> rfl

end Running

/-- Starts a program on an input; the files are then as the program leaves them. -/
def start (tools : Toolbox) (program : String) (arguments : List String) (input : Bytes) :
    Running (Option Outcome) := do
  match tools.start program arguments input (← get) with
  | some outcome =>
    set outcome.files
    return some outcome
  | none => return none

/-- Writes a file. -/
def writeFile (path text : String) : Running Unit := do
  match (← get).write? path text with
  | some fs => set fs
  | none => throw (.output (.unwritable path))

end SchemaTypings.Run
