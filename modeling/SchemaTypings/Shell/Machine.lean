import SchemaTypings.Run.Toolbox
import SchemaTypings.Shell.Reader
import SchemaTypings.Shell.Pattern
import SchemaTypings.Tools.Session

/-!
# The machine that runs scripts

A machine holds what all shells of a run share, the files and what channels lead to, and the state
of the shell that is running: its variables, functions, channels and settings.  A shell that is
started by another one works on a copy of the state; what is shared stays changed when it ends.

This belongs to the outer layer, which only runs programs; no result depends on it.
-/

namespace SchemaTypings.Shell

open SchemaTypings.Run SchemaTypings.Text SchemaTypings.Tools

/-! ### Channels -/

/-- What a channel leads to. -/
inductive Handle where
  /-- Octets that can be taken. -/
  | source (rest : Octets)
  /-- A place that keeps what is written, last first. -/
  | sink (written : List Octets)
  /-- A file with the position of the next octet; what is written may always go to its end. -/
  | file (place : Place) (position : Nat) (appends : Bool)

/-! ### Shells -/

/-- A variable: its value, if it has one, whether programs see it and whether it can change. -/
structure Variable where
  value : Option Octets
  isExported : Bool := false
  isFixed : Bool := false

/-- The state of one shell. -/
structure ShellState where
  name : Octets
  arguments : List Octets := []
  /-- The number of the argument in which the next option is looked for. -/
  nextOption : Nat := 1
  /-- How much of the argument before that one was read, if its options are not at their end. -/
  optionOffset : Option Nat := none
  environment : List (Octets × Variable) := []
  functions : List (Octets × Command) := []
  /-- The handles of the open channels. -/
  channels : List (Nat × Nat) := []
  /-- The letters of the options that are on. -/
  options : Octets := []
  /-- What is done on a signal; the number 0 is that of the end of the shell. -/
  traps : List (Nat × Octets) := []
  status : Nat := 0
  /-- The status of the last substitution of a command. -/
  substituted : Nat := 0
  line : Nat := 1
  /-- The command of the shell that is at work. -/
  builtin : Option Octets := none
  /-- The number by which the shell is known, which copies share. -/
  number : Nat := 0
  isCopy : Bool := false
  /-- The number of the last command that was left running. -/
  background : Option Nat := none
  /-- How many loops and how many functions are under way. -/
  loops : Nat := 0
  calls : Nat := 0
  /-- The values that local variables hide, for each function under way. -/
  hidden : List (List (Octets × Option Variable)) := []

/-- The state with other arguments, whose options are looked for from the first one on. -/
def ShellState.withArguments (s : ShellState) (arguments : List Octets) : ShellState :=
  { s with arguments, nextOption := 1, optionOffset := none }

/-- The number of the first shell. -/
def firstNumber : Nat := 1000

/-- What all shells of a run share, and the shell that is running. -/
structure Machine where
  files : FileSystem
  handles : Array Handle := #[]
  documents : List (Nat × List Part) := []
  nextDocument : Nat := 0
  /-- The number of the next shell. -/
  nextNumber : Nat := firstNumber
  /-- The statuses of commands that were left running, by their numbers. -/
  finished : List (Nat × Nat) := []
  /-- The signal that a copy has sent to its shell. -/
  doomed : Option Nat := none
  shell : ShellState

/-- Why a command does not go on. -/
inductive Jump where
  | exit (status : Nat)
  /-- An error that ends the shell. -/
  | fault
  | leave (status : Nat)
  | breaks (levels : Nat)
  | continues (levels : Nat)
  | killed (number signal : Nat)

/-- A step of a script. -/
abbrev Script := ExceptT Jump (StateM Machine)

/-- The status that an ending is shown as. -/
def endingStatus : Ending → Nat
  | .exited status => status
  | .signalled signal => 128 + signal

/-- The state of the running shell. -/
def getShell : Script ShellState := return (← get).shell

/-- Changes the state of the running shell. -/
def modifyShell (f : ShellState → ShellState) : Script Unit :=
  modify fun m => { m with shell := f m.shell }

/-- Sets the status of the last command. -/
def setStatus (status : Nat) : Script Unit := modifyShell fun s => { s with status }

/-- Whether an option is on. -/
def hasOption (letter : Char) : Script Bool := return (← getShell).options.contains letter

/-! ### Writing and taking -/

/-- The content of a file after octets were written at a position. -/
def overwritten (content : Octets) (position : Nat) (octets : Octets) : Octets :=
  let before := content.take position
  before ++ List.replicate (position - before.length) (Char.ofNat 0) ++ octets ++
    content.drop (position + octets.length)

/-- The octets of the file at a place. -/
def Machine.contentAt (m : Machine) (place : Place) : Octets :=
  match m.files.content? place with
  | some content => .ofBytes content.bytes
  | none => []

/-- The machine after octets were written to a handle. -/
def Machine.written (m : Machine) (index : Nat) (octets : Octets) : Machine :=
  match m.handles[index]? with
  | some (.sink written) =>
    { m with handles := m.handles.setIfInBounds index (.sink (octets :: written)) }
  | some (.file place position appends) =>
    let content := m.contentAt place
    let position := if appends then content.length else position
    { m with
      files := m.files.put place (.ofBytes (Octets.bytes (overwritten content position octets)))
      handles := m.handles.setIfInBounds index (.file place (position + octets.length) appends) }
  | _ => m

/-- What can be taken from a handle. -/
def Machine.pending (m : Machine) (index : Nat) : Octets :=
  match m.handles[index]? with
  | some (.source rest) => rest
  | some (.file place position _) => (m.contentAt place).drop position
  | _ => []

/-- The machine after all but the given rest was taken from a handle. -/
def Machine.leaving (m : Machine) (index : Nat) (rest : Octets) : Machine :=
  match m.handles[index]? with
  | some (.source _) => { m with handles := m.handles.setIfInBounds index (.source rest) }
  | some (.file place _ appends) =>
    let position := (m.contentAt place).length - rest.length
    { m with handles := m.handles.setIfInBounds index (.file place position appends) }
  | _ => m

/-- The handle of a channel, if it is open. -/
def handleOf? (channel : Nat) : Script (Option Nat) :=
  return (← getShell).channels.lookup channel

/-- Writes to a channel; nothing is written to one that is closed. -/
def write (channel : Nat) (octets : Octets) : Script Unit := do
  match ← handleOf? channel with
  | some index => if octets.isEmpty then return else modify fun m => m.written index octets
  | none => return

/-- What can be taken from a channel. -/
def pending (channel : Nat) : Script Octets := do
  match ← handleOf? channel with
  | some index => return (← get).pending index
  | none => return []

/-- Takes all but a given rest from a channel. -/
def leave (channel : Nat) (rest : Octets) : Script Unit := do
  match ← handleOf? channel with
  | some index => modify fun m => m.leaving index rest
  | none => return

/-- Makes a new handle. -/
def newHandle (handle : Handle) : Script Nat :=
  modifyGet fun m => (m.handles.size, { m with handles := m.handles.push handle })

/-- The channels with one of them opened or closed. -/
def withChannel (channels : List (Nat × Nat)) (channel : Nat) (handle? : Option Nat) :
    List (Nat × Nat) :=
  let others := channels.filter fun entry => entry.1 != channel
  match handle? with
  | some index => (channel, index) :: others
  | none => others

/-- What a sink has kept. -/
def sinkContent (m : Machine) (index : Nat) : Octets :=
  match m.handles[index]? with
  | some (.sink written) => written.reverse.flatten
  | _ => []

/-! ### Complaints -/

/-- The start of a complaint: the name of the shell, the line and the command of the shell. -/
def complaintStart : Script Octets := do
  let s ← getShell
  return s.name ++ wording ": " ++ decimal s.line ++ wording ": " ++
    (s.builtin.map fun name => name ++ wording ": ").getD []

/-- Complains. -/
def warn (message : Octets) : Script Unit := do
  write 2 ((← complaintStart) ++ message ++ ['\n'])

/-- Writes what a command of the shell has to say, and gives the status of the command. -/
def writeFor (command : String) (status : Nat) (octets : Octets) : Script Nat := do
  if (← handleOf? 1).isNone && !octets.isEmpty then
    warn (wording (command ++ ": I/O error"))
    return 1
  write 1 octets
  return status

/-- Complains and ends the shell, unless that is kept from happening. -/
def fault {α : Type} (message : Octets) : Script α := do
  warn message
  throw .fault

/-- Runs a step and keeps how it went on. -/
def attempt {α : Type} (step : Script α) : Script (Except Jump α) :=
  ExceptT.mk do return .ok (← step.run)

/-! ### Numbers -/

/-- The number that digits spell. -/
def digitsValue (digits : Octets) : Nat :=
  digits.foldl (fun n c => 10 * n + (c.toNat - 48)) 0

/-- The number that a text of digits spells, blanks around it passed over. -/
def number? (text : Octets) : Option Nat :=
  let inner := ((text.dropWhile isSpace).reverse.dropWhile isSpace).reverse
  if inner.isEmpty || !inner.all isDigit || digitsValue inner > 2147483647 then none
  else some (digitsValue inner)

/-- The number that a text spells; another text is an error. -/
def requireNumber (text : Octets) : Script Nat := do
  match number? text with
  | some n => return n
  | none => fault (wording "Illegal number: " ++ text)

/-! ### Variables -/

/-- The variable of a name. -/
def variableOf? (name : Octets) : Script (Option Variable) :=
  return (← getShell).environment.lookup name

/-- The value of a variable. -/
def valueOf? (name : Octets) : Script (Option Octets) := do
  return (← variableOf? name).bind Variable.value

/-- The variables with one of them replaced or added at the end. -/
def replaced (name : Octets) (v : Variable) :
    List (Octets × Variable) → List (Octets × Variable)
  | [] => [(name, v)]
  | entry :: rest => if entry.1 = name then (name, v) :: rest else entry :: replaced name v rest

/-- Puts a variable without asking whether it can change. -/
def putVariable (name : Octets) (v : Variable) : Script Unit :=
  modifyShell fun s => { s with environment := replaced name v s.environment }

/-- Requires that a variable can change. -/
def requireFree (name : Octets) : Script Unit := do
  if ((← variableOf? name).map Variable.isFixed).getD false then
    fault (name ++ wording ": is read only")

/-- Gives a variable a value, whatever depends on it. -/
def putValue (name value : Octets) : Script Unit := do
  requireFree name
  let v := (← variableOf? name).getD { value := none }
  let isExported := v.isExported || (← hasOption 'a')
  putVariable name { v with value := some value, isExported }

/-- The variable with the number of the argument in which the next option is looked for. -/
def optionCounter : Octets := wording "OPTIND"

/-- Looks for options from an argument on. -/
def restartOptions (text : Octets) : Script Unit := do
  let number ← requireNumber text
  modifyShell fun s => { s with nextOption := max number 1, optionOffset := none }

/-- Gives a variable a value. -/
def assign (name value : Octets) : Script Unit := do
  requireFree name
  if name = optionCounter then restartOptions value
  putValue name value

/-- Takes a variable away. -/
def removeVariable (name : Octets) : Script Unit :=
  modifyShell fun s => { s with environment := s.environment.filter fun entry => entry.1 != name }

/-- Puts a variable back as it was. -/
def restoreVariable (entry : Octets × Option Variable) : Script Unit := do
  match entry.2 with
  | some v =>
    if entry.1 = optionCounter then restartOptions (v.value.getD [])
    putVariable entry.1 v
  | none => removeVariable entry.1

/-- The characters at which fields are split. -/
def separators : Script Octets := do
  return (← valueOf? (wording "IFS")).getD [' ', '\t', '\n']

end SchemaTypings.Shell
