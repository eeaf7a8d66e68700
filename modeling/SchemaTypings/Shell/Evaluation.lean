import SchemaTypings.Shell.Builtins

/-!
# Running commands

Simple commands are expanded, redirected and run: by a function, by the shell itself or by a
program.  The others run the commands inside them.  An engine of some depth runs what is inside, so
that every command ends; a script that nests deeper is stopped as by a memory that is used up.

This belongs to the outer layer, which only runs programs; no result depends on it.
-/

namespace SchemaTypings.Shell

open SchemaTypings.Run SchemaTypings.Text SchemaTypings.Tools

/-- The programs that scripts can start, by their names. -/
abbrev Programs := String → Option Tool

/-! ### Redirections -/

/-- What a channel is to lead to. -/
inductive Target where
  | file (opening : Opening) (path : Octets)
  | same (channel : Nat)
  | closed
  | text (octets : Octets)

/-- What a redirection asks for when its words are expanded. -/
def targetOf (engine : Engine) : Redirection → Script (Nat × Target)
  | .file channel opening path => return (channel, .file opening (← expandWhole engine path))
  | .duplicate channel _ source => do
    match ← expandWhole engine source with
    | ['-'] => return (channel, .closed)
    | [c] =>
      if isDigit c then return (channel, .same (c.toNat - 48))
      fault (wording "Syntax error: Bad fd number")
    | _ => fault (wording "Syntax error: Bad fd number")
  | .document channel number => do
    let body := ((← get).documents.lookup number).getD []
    return (channel, .text (textOf (← engine.expand true body)))

/-- The channel that a path of a device stands for. -/
def deviceChannel? (path : Octets) : Option Nat :=
  match String.ofList path with
  | "/dev/stdin" | "/dev/fd/0" => some 0
  | "/dev/stdout" | "/dev/fd/1" => some 1
  | "/dev/stderr" | "/dev/fd/2" => some 2
  | _ => none

/-- The wording of a problem with a path that is opened. -/
def openingProblem (opening : Opening) : PathProblem → String
  | .missing | .notADirectory =>
    if opening = .read then "No such file" else "Directory nonexistent"
  | problem => problem.message

/-- Opens a file and gives its handle. -/
def openFile (opening : Opening) (path : Octets) : Script Nat := do
  let start := if opening = .read then "cannot open " else "cannot create "
  let refuse {α : Type} (problem : PathProblem) : Script α :=
    fault (wording start ++ path ++ wording (": " ++ openingProblem opening problem))
  let fs := (← get).files
  match fs.locate (Octets.text path) with
  | .error problem => refuse problem
  | .ok place =>
    if fs.hasDirectory place then
      if opening = .read then newHandle (.source []) else refuse .isADirectory
    else
      match fs.content? place, opening with
      | none, .read => refuse .missing
      | none, _ | some _, .write => modify fun m => { m with files := m.files.put place (.text "") }
      | some _, _ => pure ()
      newHandle (.file place 0 (opening = .append))

/-- Lets a channel lead to a target. -/
def redirect (entry : Nat × Target) : Script Unit := do
  let (channel, target) := entry
  let handle? ← match target with
    | .closed => pure none
    | .text octets => some <$> newHandle (.source octets)
    | .same other =>
      match ← handleOf? other with
      | some index => pure (some index)
      | none => fault (decimal other ++ wording ": Bad file descriptor")
    | .file opening path =>
      match deviceChannel? path with
      | some other => handleOf? other
      | none => some <$> openFile opening path
  modifyShell fun s => { s with channels := withChannel s.channels channel handle? }

/-- Runs a step after redirections that were expanded; the channels are as before afterwards, unless
they are to stay.  The step is not run if a redirection fails. -/
def withTargets {α : Type} (targets : List (Nat × Target)) (stay : Bool) (failed : Script α)
    (step : Script α) : Script α := do
  let before := (← getShell).channels
  let result ← attempt do
    match ← attempt (targets.forM redirect) with
    | .ok _ => step
    | .error .fault => failed
    | .error jump => throw jump
  unless stay do
    modifyShell fun s => { s with
      channels := targets.foldl
        (fun channels entry => withChannel channels entry.1 (before.lookup entry.1)) s.channels }
  match result with
  | .ok value => return value
  | .error jump => throw jump

/-! ### Programs -/

/-- Runs a program. -/
def runTool (tool : Tool) (arguments : List Octets) : Script Nat := do
  let input ← pending 0
  let outputHandle? ← handleOf? 1
  let m ← get
  let target := match outputHandle?.bind fun index => m.handles[index]? with
    | some (.file place _ _) => some place
    | _ => none
  let (_, session) := (tool arguments).run { input, files := m.files, target }
  modify fun m => { m with files := { session.files with current := m.files.current } }
  leave 0 session.input
  for (stream, octets) in session.written.reverse do
    write (match stream with | .output => 1 | .errors => 2) octets
  return session.status

/-- The name of the program that a command stands for, if it is in a directory of programs. -/
def programName? (command : Octets) : Script (Option String) := do
  if command.contains '/' then
    match Path.steps (Octets.text command) with
    | ["", "bin", name] | ["", "usr", "bin", name] => return some name
    | _ => return none
  else
    let directories := Text.split ':' ((← valueOf? (wording "PATH")).getD [])
    let isFound := directories.any fun d => d == wording "/bin" || d == wording "/usr/bin"
    return if isFound then some (Octets.text command) else none

/-- How a signal that has ended a program is told; some are not told. -/
def signalText? : Nat → Option String
  | 1 => some "Hangup"
  | 3 => some "Quit"
  | 4 => some "Illegal instruction"
  | 5 => some "Trace/breakpoint trap"
  | 6 => some "Aborted"
  | 7 => some "Bus error"
  | 8 => some "Floating point exception"
  | 9 => some "Killed"
  | 10 => some "User defined signal 1"
  | 11 => some "Segmentation fault"
  | 12 => some "User defined signal 2"
  | 14 => some "Alarm clock"
  | 15 => some "Terminated"
  | 16 => some "Stack fault"
  | 24 => some "CPU time limit exceeded"
  | 25 => some "File size limit exceeded"
  | 26 => some "Virtual timer expired"
  | 27 => some "Profiling timer expired"
  | 29 => some "I/O possible"
  | 30 => some "Power failure"
  | 31 => some "Bad system call"
  | n => if 34 ≤ n then some ("Real-time signal " ++ toString (n - 34)) else none

/-- Tells of the signal that has ended a program. -/
def tellEnding (ending : Ending) : Script Unit := do
  if let .signalled signal := ending then
    if let some text := signalText? signal then write 2 (wording (text ++ "\n"))

/-- The number of octets in which a shell takes a script from its input. -/
def scriptBlock : Nat := 8191

/-- Runs the script that is the input of a shell; the octets in the buffer have been taken. -/
def runInput (engine : Engine) : Nat → Octets → Nat → Script Unit
  | 0, _, _ => return
  | n + 1, buffer, line => do
    let more ← pending 0
    let all := buffer ++ more
    let number := (← get).nextDocument
    match nextCommand.run { rest := all, line, next := number } with
    | .error problem =>
      leave 0 []
      Engine.refuseSource problem
    | .ok (none, _) => leave 0 []
    | .ok (some command, after) =>
      let consumed := all.length - after.rest.length
      let taken := scriptBlock * ((consumed - buffer.length + scriptBlock - 1) / scriptBlock)
      leave 0 (more.drop taken)
      modify fun m => { m with
        nextDocument := after.next, documents := after.documents ++ m.documents }
      engine.run false command
      runInput engine n ((buffer ++ more.take taken).drop consumed) after.line

/-- What a shell does with its arguments. -/
def runShell (engine : Engine) (arguments : List Octets) : Script Unit := do
  modifyShell fun s => { s with line := 0 }
  let settings ← readSettings true false arguments
  let started := fun (s : ShellState) => { s with line := 1 }
  let onInput := do
    modifyShell started
    runInput engine ((← pending 0).length + 2) [] 1
  if settings.isCommand then
    match settings.operands with
    | [] => fault (wording "-c requires an argument")
    | script :: rest =>
      modifyShell fun s => started { s with
        name := rest.headD s.name, arguments := rest.drop 1 }
      engine.runText false script
  else if ← hasOption 's' then
    modifyShell fun s => s.withArguments settings.operands
    onInput
  else
    match settings.operands with
    | [] => onInput
    | path :: rest =>
      let fs := (← get).files
      if fs.isDirectory (Octets.text path) then return
      match fs.read (Octets.text path) with
      | .error problem =>
        fault (wording "cannot open " ++ path ++ wording (": " ++ openingProblem .read problem))
      | .ok content =>
        modifyShell fun s => started { s with name := path, arguments := rest }
        engine.runText false (.ofBytes content.bytes)

/-- Starts a shell as a program. -/
def startShell (engine : Engine) (name : Octets) (arguments : List Octets) : Script Nat := do
  let number ← modifyGet fun m => (m.nextNumber, { m with nextNumber := m.nextNumber + 1 })
  let fresh := fun (s : ShellState) =>
    { name, number
      environment := s.environment.filter fun entry => entry.2.isExported && entry.2.value.isSome
      channels := s.channels
      traps := s.traps : ShellState }
  let ending ← engine.fork fresh (runShell engine arguments)
  tellEnding ending
  return endingStatus ending

/-- Runs a program by its name. -/
def runProgram (programs : Programs) (engine : Engine) (command : Octets)
    (arguments : List Octets) : Script Nat := do
  match ← programName? command with
  | some name =>
    if name = "sh" || name = "dash" then return ← startShell engine command arguments
    match programs name with
    | some tool => return ← runTool tool arguments
    | none => pure ()
  | none => pure ()
  let fs := (← get).files
  let path := Octets.text command
  if command.contains '/' && (fs.isDirectory path || (fs.read path).toOption.isSome) then
    warn (command ++ wording ": Permission denied")
    return 126
  warn (command ++ wording ": not found")
  return 127

/-! ### Commands that run commands -/

/-- Runs a command of the shell under its name; an error ends the shell if the command is
special. -/
def runBuiltin (isSpecial : Bool) (name : Octets) (step : Script Nat) : Script Nat := do
  let before := (← getShell).builtin
  modifyShell fun s => { s with builtin := some name }
  let result ← attempt step
  modifyShell fun s => { s with builtin := before }
  match result with
  | .ok status => return status
  | .error .fault => if isSpecial then throw .fault else return 2
  | .error jump => throw jump

/-- Calls a function. -/
def callFunction (engine : Engine) (tested : Bool) (body : Command) (arguments : List Octets) :
    Script Nat := do
  let before ← getShell
  modifyShell fun s => { s.withArguments arguments with loops := 0, hidden := [] :: s.hidden }
  let result ← attempt (engine.run tested body)
  let hidden := (← getShell).hidden.headD []
  modifyShell fun s => { s with
    arguments := before.arguments, nextOption := before.nextOption
    optionOffset := before.optionOffset, loops := before.loops, hidden := before.hidden }
  for entry in hidden do restoreVariable entry
  match result with
  | .ok _ => return (← getShell).status
  | .error (.leave status) => return status
  | .error jump => throw jump

/-- Runs a text as commands of the running shell, and gives the status of the last one. -/
def runWithin (engine : Engine) (tested : Bool) (text : Octets) : Script Nat := do
  let before ← getShell
  let isBlank := text.all fun c => c == ' ' || c == '\t' || c == '\n'
  if isBlank then return 0
  engine.runText tested text
  modifyShell fun s => { s with line := before.line }
  return (← getShell).status

/-- Runs the commands in a file. -/
def runFile (engine : Engine) (tested : Bool) (arguments : List Octets) : Script Nat := do
  match arguments with
  | [] => return 0
  | path :: _ =>
    unless path.contains '/' do fault (path ++ wording ": not found")
    match (← get).files.read (Octets.text path) with
    | .error problem =>
      fault (wording "cannot open " ++ path ++ wording (": " ++ openingProblem .read problem))
    | .ok content =>
      modifyShell fun s => { s with builtin := some path }
      match ← attempt (runWithin engine tested (.ofBytes content.bytes)) with
      | .error (.leave status) => return status
      | .error jump => throw jump
      | .ok status => return status

/-- Whether a name is that of a special command of the shell. -/
def isSpecialName (name : Octets) : Bool := Reader.specialNames.any fun s => s.toList == name

/-- Tells what a name stands for; nothing stands behind an unknown name. -/
def describe? (programs : Programs) (name : Octets) : Script (Option (String × Octets)) := do
  let text := Octets.text name
  if keywords.contains text then return some (" is a shell keyword", name)
  if ((← getShell).functions.lookup name).isSome then return some (" is a shell function", name)
  if isSpecialName name then return some (" is a special shell builtin", name)
  if ordinaryNames.contains text then return some (" is a shell builtin", name)
  match ← programName? name with
  | some program =>
    if program = "sh" || program = "dash" || (programs program).isSome then
      let path := if name.contains '/' then name else wording "/usr/bin/" ++ name
      return some (" is " ++ Octets.text path, path)
    return none
  | none => return none

/-- Tells what names stand for. -/
def describeAll (programs : Programs) (isShort : Bool) : List Octets → Script Nat
  | [] => return 0
  | name :: rest => do
    match ← describe? programs name with
    | some (text, path) =>
      write 1 (if isShort then path ++ ['\n'] else name ++ wording (text ++ "\n"))
      describeAll programs isShort rest
    | none =>
      unless isShort do write (if isShort then 2 else 1) (name ++ wording ": not found\n")
      discard (describeAll programs isShort rest)
      return 127

/-- Runs a command by its name: a function unless functions are passed over, a command of the shell
or a program. -/
def runNamed (programs : Programs) (engine : Engine) (tested passesFunctions : Bool) :
    Nat → Octets → List Octets → Script Nat
  | 0, _, _ => return 127
  | n + 1, name, arguments => do
    let isSpecial := isSpecialName name && !passesFunctions
    let functions := (← getShell).functions
    let function? :=
      if passesFunctions || isSpecialName name then none else functions.lookup name
    if let some body := function? then return ← callFunction engine tested body arguments
    match Octets.text name with
    | "eval" => runBuiltin isSpecial name (runWithin engine tested ([' '].intercalate arguments))
    | "." => runBuiltin isSpecial name (runFile engine tested arguments)
    | "exec" =>
      match if arguments.head? == some ['-', '-'] then arguments.drop 1 else arguments with
      | [] => return 0
      | command :: rest =>
        modifyShell fun s => { s with builtin := some name, traps := s.traps.filter (·.1 != 0) }
        throw (.exit (← runProgram programs engine command rest))
    | "command" =>
      runBuiltin false name do
        let (flags, operands) ← takeFlags [('p', false), ('v', false), ('V', false)] arguments
        modifyShell fun s => { s with builtin := none }
        match operands with
        | [] => return 0
        | command :: rest =>
          match flags.find? fun flag => flag.1 != 'p' with
          | some (flag, _) => describeAll programs (flag = 'v') [command]
          | none => runNamed programs engine tested true n command rest
    | "type" => runBuiltin false name (describeAll programs false arguments)
    | text =>
      match plainBuiltin? engine text with
      | some builtin => runBuiltin isSpecial name (builtin arguments)
      | none => runProgram programs engine name arguments

/-! ### Simple commands -/

/-- The texts of the words of a command; what assigns is not split after a word that declares. -/
def expandCommand (engine : Engine) (words : List Word) : Script (List Octets) := do
  let declares := match words.head?.bind plainText? with
    | some name => ["export", "readonly", "local"].any fun s => s.toList == name
    | none => false
  let texts ← words.mapM fun word => do
    match if declares then assignment? word else none with
    | some (name, value) => return [name ++ '=' :: (← expandWhole engine value)]
    | none => expandWord engine word
  return texts.flatten

/-- Writes a command before it is run, if that is wanted. -/
def trace (handle? : Option Nat) (assigned : List (Octets × Octets)) (texts : List Octets) :
    Script Unit := do
  if ← hasOption 'x' then
    let shown := (assigned.map fun entry => entry.1 ++ '=' :: entry.2) ++ texts
    if let some index := handle? then
      modify fun m => m.written index (wording "+ " ++ [' '].intercalate shown ++ ['\n'])

/-- The values that a command assigns. -/
def assignedValues (engine : Engine) (assignments : List (Octets × Word)) :
    Script (List (Octets × Octets)) :=
  assignments.mapM fun entry => return (entry.1, ← expandWhole engine entry.2)

/-- Runs a step with variables that programs see; they are as before afterwards, unless they are to
stay. -/
def withVariables {α : Type} (assigned : List (Octets × Octets)) (stay : Bool)
    (step : Script α) : Script α := do
  let mut before := []
  for entry in assigned do
    before := (entry.1, ← variableOf? entry.1) :: before
    assign entry.1 entry.2
    unless stay do
      if let some v ← variableOf? entry.1 then putVariable entry.1 { v with isExported := true }
  let result ← attempt step
  unless stay do
    for entry in before do restoreVariable entry
  match result with
  | .ok value => return value
  | .error jump => throw jump

/-- Runs a simple command and gives its status. -/
def runSimple (programs : Programs) (engine : Engine) (tested : Bool)
    (assignments : List (Octets × Word)) (words : List Word) (redirections : List Redirection) :
    Script Nat := do
  modifyShell fun s => { s with substituted := 0 }
  let texts ← expandCommand engine words
  let targets ← redirections.mapM (targetOf engine)
  let traced? ← handleOf? 2
  let isSpecial := (texts.head?.map isSpecialName).getD false
  let stay := texts = [wording "exec"]
  withTargets targets stay (if isSpecial then throw .fault else return 2) do
    match texts with
    | [] =>
      for entry in assignments do
        let value ← expandWhole engine entry.2
        assign entry.1 value
        trace traced? [(entry.1, value)] []
      return (← getShell).substituted
    | name :: arguments =>
      let assigned ← assignedValues engine assignments
      trace traced? assigned texts
      withVariables assigned isSpecial
        (runNamed programs engine tested false (texts.length + 1) name arguments)

/-! ### Commands around commands -/

/-- Ends the shell after a failure that nobody looks at, if that is wanted. -/
def endOnFailure (tested : Bool) : Script Unit := do
  let status := (← getShell).status
  if !tested && status ≠ 0 && (← hasOption 'e') then throw (.exit status)

/-- Runs commands at the same time, each with its own shell; each reads what the one before it
writes. -/
def runPipeline (engine : Engine) (tested : Bool) (input? : Option Nat) :
    List Command → Script Unit
  | [] => return
  | command :: rest => do
    let output? ← if rest.isEmpty then pure none else some <$> newHandle (.sink [])
    let connected := fun (s : ShellState) =>
      let channels := match input? with
        | some index => withChannel s.channels 0 (some index)
        | none => s.channels
      { s with channels := match output? with
          | some index => withChannel channels 1 (some index)
          | none => channels }
    let ending ← engine.fork connected (engine.run tested command)
    setStatus (endingStatus ending)
    match output? with
    | none => return
    | some index =>
      let written := sinkContent (← get) index
      modify fun m => { m with handles := m.handles.setIfInBounds index (.sink []) }
      runPipeline engine tested (some (← newHandle (.source written))) rest

/-- Runs the commands of a chain after its first one. -/
def runLinks (engine : Engine) (tested : Bool) : List (Bool × Command) → Script Unit
  | [] => return
  | (afterSuccess, command) :: rest => do
    if ((← getShell).status = 0) = afterSuccess then
      engine.run (tested || !rest.isEmpty) command
    runLinks engine tested rest

/-- Runs a step inside a loop and tells whether the loop goes on. -/
def insideLoop (step : Script Unit) : Script Bool := do
  modifyShell fun s => { s with loops := s.loops + 1 }
  let result ← attempt step
  modifyShell fun s => { s with loops := s.loops - 1 }
  match result with
  | .ok _ => return true
  | .error (.breaks levels) => if levels > 1 then throw (.breaks (levels - 1)) else return false
  | .error (.continues levels) =>
    if levels > 1 then throw (.continues (levels - 1)) else return true
  | .error jump => throw jump

/-- How often a loop runs at most. -/
def loopLimit : Nat := 10000000

/-- Runs a loop with a test; the status is that of its last round. -/
def runLoop (engine : Engine) (tested untilTrue : Bool) (test body : Command) :
    Nat → Nat → Script Unit
  | 0, status => setStatus status
  | n + 1, status => do
    let (isDue, goesOn) ← do
      let goesOn ← insideLoop (engine.run true test)
      pure (((← getShell).status = 0) != untilTrue, goesOn)
    if !goesOn then setStatus 0
    else if !isDue then setStatus status
    else
      let goesOn ← insideLoop (engine.run tested body)
      if goesOn then runLoop engine tested untilTrue test body n (← getShell).status

/-- Runs commands for each of some values. -/
def runForEach (engine : Engine) (tested : Bool) (name : Octets) (body : Command) :
    List Octets → Script Unit
  | [] => return
  | value :: rest => do
    assign name value
    if ← insideLoop (engine.run tested body) then runForEach engine tested name body rest

/-- Whether one of some patterns matches a text. -/
def matchesSome (engine : Engine) (text : Octets) : List Word → Script Bool
  | [] => return false
  | pattern :: rest => do
    let pieces ← engine.expand false (← expandTilde pattern)
    if matchesAll (itemsOf (markedText pieces)) text then return true
    matchesSome engine text rest

/-- Runs the first branch whose patterns match a text. -/
def runBranches (engine : Engine) (tested : Bool) (text : Octets) :
    List (List Word × Command) → Script Unit
  | [] => setStatus 0
  | (patterns, body) :: rest => do
    if ← matchesSome engine text patterns then
      match body with
      | .sequence [] => setStatus 0
      | _ => engine.run tested body
    else runBranches engine tested text rest

/-- Runs a command. -/
def evaluate (programs : Programs) (engine : Engine) (tested : Bool) : Command → Script Unit
  | .simple line assignments words redirections => do
    modifyShell fun s => { s with line }
    setStatus (← runSimple programs engine tested assignments words redirections)
    endOnFailure tested
  | .redirected line body redirections => do
    modifyShell fun s => { s with line }
    let targets ← redirections.mapM (targetOf engine)
    let isRun ← withTargets targets false (return false) do
      engine.run tested body
      return true
    unless isRun do
      setStatus 2
      endOnFailure tested
  | .subshell line body redirections => do
    modifyShell fun s => { s with line }
    let targets ← redirections.mapM (targetOf engine)
    let ending ← engine.fork id do
      withTargets targets true (throw .fault) (engine.run tested body)
    setStatus (endingStatus ending)
    endOnFailure tested
  | .background body => do
    let number ← modifyGet fun m => (m.nextNumber, { m with nextNumber := m.nextNumber + 1 })
    let input ← newHandle (.source [])
    let ending ← engine.fork
      (fun s => { s with channels := withChannel s.channels 0 (some input) })
      (engine.run false body)
    modify fun m => { m with finished := (number, endingStatus ending) :: m.finished }
    modifyShell fun s => { s with background := some number, status := 0 }
  | .negated body => do
    engine.run true body
    setStatus (if (← getShell).status = 0 then 1 else 0)
  | .pipeline commands => do
    runPipeline engine tested none commands
    endOnFailure tested
  | .chain first rest => do
    engine.run (tested || !rest.isEmpty) first
    runLinks engine tested rest
  | .sequence commands => commands.forM (engine.run tested)
  | .conditional test body otherwise => do
    engine.run true test
    if (← getShell).status = 0 then engine.run tested body
    else match otherwise with
      | some command => engine.run tested command
      | none => setStatus 0
  | .loop untilTrue test body => runLoop engine tested untilTrue test body loopLimit 0
  | .forEach line name words body => do
    modifyShell fun s => { s with line }
    let values := (← words.mapM (expandWord engine)).flatten
    setStatus 0
    runForEach engine tested name body values
  | .select line word branches => do
    modifyShell fun s => { s with line }
    runBranches engine tested (← expandWhole engine word) branches
  | .function _ name body => do
    modifyShell fun s => { s with
      functions := (name, body) :: s.functions.filter fun entry => entry.1 != name }
    setStatus 0

/-- The engine of a given depth; one without depth is stopped by a signal. -/
def engineOf (programs : Programs) : Nat → Engine
  | 0 =>
    { run := fun _ _ => do throw (.killed (← getShell).number 11)
      expand := fun _ _ => do throw (.killed (← getShell).number 11) }
  | n + 1 =>
    { run := fun tested command => do
        unless ← hasOption 'n' do evaluate programs (engineOf programs n) tested command
      expand := fun quoted parts => expandParts (engineOf programs n) quoted [] parts }

/-- How deep commands may nest. -/
def depthLimit : Nat := 600

/-! ### Shells as programs -/

/-- The variables that a shell starts with. -/
def startVariables : List (Octets × Variable) :=
  [(wording "HOME", ⟨some (wording "/root"), true, false⟩),
    (wording "IFS", ⟨some [' ', '\t', '\n'], false, false⟩),
    (wording "OPTIND", ⟨some ['1'], false, false⟩),
    (wording "PATH", ⟨some (wording "/usr/local/sbin:/usr/local/bin:/usr/sbin:/usr/bin:/sbin:/bin"),
      true, false⟩),
    (wording "PPID", ⟨some ['1'], false, false⟩),
    (wording "PS1", ⟨some (wording "# "), false, false⟩),
    (wording "PS2", ⟨some (wording "> "), false, false⟩),
    (wording "PS4", ⟨some (wording "+ "), false, false⟩),
    (wording "PWD", ⟨some startDirectory, true, false⟩)]

/-- A machine with a shell that has not run yet: its channels lead to an input and two streams. -/
def machineOn (name input : Octets) (files : FileSystem) : Machine where
  files := files
  handles := #[.source input, .sink [], .sink []]
  nextNumber := firstNumber + 1
  shell := { name, environment := startVariables, number := firstNumber,
             channels := [(0, 0), (1, 1), (2, 2)] }

/-- The outcome of a shell that is started as a program. -/
def shellOutcome (programs : Programs) (name : Octets) (arguments : List Octets) (input : Octets)
    (files : FileSystem) : Outcome :=
  let engine := engineOf programs depthLimit
  let run : Script Ending := do engine.finish (← attempt (runShell engine arguments))
  let (result, m) := (run.run).run (machineOn name input files)
  let ending := match result with
    | .ok ending => ending
    | .error (.killed _ signal) => .signalled signal
    | .error _ => .exited 2
  let taken := input.length - (m.pending 0).length
  { ending
    output := Octets.bytes (sinkContent m 1)
    errors := Octets.bytes (sinkContent m 2)
    taken
    files := { m.files with current := files.current } }

end SchemaTypings.Shell
