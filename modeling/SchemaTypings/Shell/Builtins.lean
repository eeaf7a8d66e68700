import SchemaTypings.Shell.Condition
import SchemaTypings.Shell.Expansion
import SchemaTypings.Shell.Printing

/-!
# Commands of the shell

What the shell does by itself: variables, arguments and their options, directories, settings,
signals, and reading and writing of lines.  Each command takes its arguments and ends with a status;
an error ends the command, and the shell with it if the command is a special one.

This belongs to the outer layer, which only runs programs; no result depends on it.
-/

namespace SchemaTypings.Shell

open SchemaTypings.Run SchemaTypings.Text SchemaTypings.Tools

/-- A command of the shell. -/
abbrev Builtin := List Octets → Script Nat

/-! ### Flags -/

/-- Reads joined flags: those understood, and one that waits for its value. -/
def readFlagLetters (allowed : List (Char × Bool)) :
    Octets → Script (List (Char × Octets) × Option Char)
  | [] => return ([], none)
  | c :: rest => do
    match allowed.lookup c with
    | none => fault (wording "Illegal option -" ++ [c])
    | some false =>
      let (found, waiting) ← readFlagLetters allowed rest
      return ((c, []) :: found, waiting)
    | some true => return if rest.isEmpty then ([], some c) else ([(c, rest)], none)

/-- Takes the flags off arguments; each flag is given with whether it has a value. -/
def takeFlags (allowed : List (Char × Bool)) :
    List Octets → Script (List (Char × Octets) × List Octets)
  | ['-', '-'] :: rest => return ([], rest)
  | ('-' :: c :: letters) :: rest => do
    let (found, waiting) ← readFlagLetters allowed (c :: letters)
    match waiting with
    | none =>
      let (more, operands) ← takeFlags allowed rest
      return (found ++ more, operands)
    | some flag =>
      match rest with
      | value :: after =>
        let (more, operands) ← takeFlags allowed after
        return (found ++ (flag, value) :: more, operands)
      | [] => fault (wording "No arg for -" ++ [flag] ++ wording " option")
  | arguments => return ([], arguments)

/-- A text in quotes, as it could stand in a script. -/
def scriptQuoted (text : Octets) : Octets :=
  ['\''] ++ text.flatMap (fun c => if c = '\'' then "'\"'\"'".toList else [c]) ++ ['\'']

/-! ### Variables and arguments -/

/-- Lists variables after a word. -/
def listVariables (word : String) (shown : Variable → Bool) : Script Nat := do
  let kept := (← getShell).environment.filter fun entry => shown entry.2
  let sorted := kept.mergeSort fun a b => !(b.1 < a.1)
  for entry in sorted do
    let value := (entry.2.value.map fun v => '=' :: scriptQuoted v).getD []
    write 1 (wording word ++ entry.1 ++ value ++ ['\n'])
  return 0

/-- Cuts an argument at its first equals sign. -/
def cutAssignment (argument : Octets) : Octets × Option Octets :=
  let name := argument.takeWhile (· != '=')
  (name, if name.length < argument.length then some (argument.drop (name.length + 1)) else none)

/-- Requires an argument to be the name of a variable. -/
def requireName (name : Octets) : Script Unit := do
  unless isName name do fault (name ++ wording ": bad variable name")

/-- Marks variables, which may be given values. -/
def markVariables (word : String) (mark : Variable → Variable) (shown : Variable → Bool) :
    Builtin := fun arguments => do
  let (_, names) ← takeFlags [('p', false)] arguments
  if names.isEmpty then return ← listVariables word shown
  for argument in names do
    let (name, value?) := cutAssignment argument
    requireName name
    if let some value := value? then assign name value
    putVariable name (mark ((← variableOf? name).getD { value := none }))
  return 0

/-- Takes variables or functions away. -/
def unset : Builtin := fun arguments => do
  let (flags, names) ← takeFlags [('v', false), ('f', false)] arguments
  for name in names do
    if (flags.getLast?.map Prod.fst) == some 'f' then
      modifyShell fun s => { s with functions := s.functions.filter fun entry => entry.1 != name }
    else
      requireName name
      requireFree name
      if name = optionCounter then restartOptions []
      removeVariable name
  return 0

/-- Makes variables of the function that is running. -/
def makeLocal : Builtin := fun arguments => do
  match (← getShell).hidden with
  | [] => fault (wording "not in a function")
  | _ =>
    for argument in arguments do
      let (name, value?) := cutAssignment argument
      requireName name
      let before ← variableOf? name
      modifyShell fun s => match s.hidden with
        | [] => s
        | frame :: rest => { s with hidden := ((name, before) :: frame) :: rest }
      if let some value := value? then assign name value
  return 0

/-- Takes the first arguments away. -/
def shift : Builtin := fun arguments => do
  let n ← match arguments with
    | [] => pure 1
    | a :: _ => requireNumber a
  if n > (← getShell).arguments.length then fault (wording "can't shift that many")
  modifyShell fun s => s.withArguments (s.arguments.drop n)
  return 0

/-! ### Options of scripts -/

/-- Whether an option has a value, if it is one of those that are listed. -/
def hasValue? (c : Char) : Octets → Option Bool
  | [] => none
  | option :: ':' :: rest => if option = c then some true else hasValue? c rest
  | option :: rest => if option = c then some false else hasValue? c rest

/-- The letters among which the next option is looked for, none at the end of the options, and the
number of the argument after them. -/
def nextLetters (arguments : List Octets) (next : Nat) (offset? : Option Nat) : Octets × Nat :=
  let left := if next ≤ 1 then [] else
    (offset?.map fun offset => (arguments.getD (next - 2) []).drop offset).getD []
  match left, arguments[next - 1]? with
  | [], some ['-', '-'] => ([], next + 1)
  | [], some ('-' :: c :: letters) => (c :: letters, next + 1)
  | [], _ => ([], next)
  | letters, _ => (letters, next)

/-- Finds an option, which letters follow in its argument: the letter that tells what was found, the
number of the next argument, and whether letters may be left. -/
def foundOption (listed : Octets) (arguments : List Octets) (next : Nat) (c : Char)
    (letters : Octets) : Script (Char × Nat × Bool) := do
  let isQuiet := listed.head? = some ':'
  let putArgument := putValue (wording "OPTARG")
  let complain (start ending : String) : Script Unit := do
    if isQuiet then putArgument [c]
    else
      write 2 (wording start ++ [c] ++ wording (ending ++ "\n"))
      requireFree (wording "OPTARG")
      removeVariable (wording "OPTARG")
  match hasValue? c listed, letters, arguments[next - 1]? with
  | none, _, _ =>
    complain "Illegal option -" ""
    return ('?', next, true)
  | some false, _, _ =>
    putArgument []
    return (c, next, true)
  | some true, [], none =>
    complain "No arg for -" " option"
    return (if isQuiet then ':' else '?', next, false)
  | some true, [], some value =>
    putArgument value
    return (c, next + 1, false)
  | some true, value, _ =>
    putArgument value
    return (c, next, false)

/-- Finds the next option of arguments, and puts its letter into a variable. -/
def findOption (listed name : Octets) (arguments : List Octets) : Script Nat := do
  let s ← getShell
  let isPast := s.nextOption > arguments.length + 1
  let before := if isPast then 1 else s.nextOption
  modifyShell fun s => { s with nextOption := 1, optionOffset := none }
  let (found, next) := nextLetters arguments before (if isPast then none else s.optionOffset)
  let (letter, after, isWithin) ← match found with
    | [] => pure ('?', next, false)
    | c :: letters => foundOption listed arguments next c letters
  putValue optionCounter (decimal after)
  requireName name
  assign name [letter]
  let read := (arguments.getD (next - 2) []).length - (found.length - 1)
  modifyShell fun s => { s with
    nextOption := after, optionOffset := if isWithin then some read else none }
  return if found.isEmpty then 1 else 0

/-- Finds the next option of the arguments of the shell, or of arguments that are given. -/
def getOptions : Builtin := fun arguments => do
  match arguments with
  | [listed, name] => findOption listed name (← getShell).arguments
  | listed :: name :: given => findOption listed name given
  | _ => fault (wording "Usage: getopts optstring var [arg...]")

/-! ### Settings -/

/-- The names of the options and their letters. -/
def optionNames : List (String × Char) :=
  [("errexit", 'e'), ("noglob", 'f'), ("ignoreeof", 'I'), ("interactive", 'i'), ("monitor", 'm'),
    ("noexec", 'n'), ("stdin", 's'), ("xtrace", 'x'), ("verbose", 'v'), ("vi", 'V'),
    ("emacs", 'E'), ("noclobber", 'C'), ("allexport", 'a'), ("notify", 'b'), ("nounset", 'u'),
    ("privileged", 'p'), ("nolog", '\x01'), ("debug", '\x02')]

/-- Turns an option on or off. -/
def setOption (isOn : Bool) (letter : Char) : Script Unit := do
  if optionNames.any fun entry => entry.2 == letter then
    modifyShell fun s => { s with
      options := (optionNames.reverse.map Prod.snd).filter fun c =>
        if c = letter then isOn else s.options.contains c }
  else fault (wording "Illegal option -" ++ [letter])

/-- Lists the options. -/
def listOptions (asCommands : Bool) : Script Unit := do
  let options := (← getShell).options
  unless asCommands do write 1 (wording "Current option settings\n")
  for entry in optionNames do
    let isOn := options.contains entry.2
    if asCommands then
      write 1 (wording ("set " ++ (if isOn then "-o " else "+o ") ++ entry.1 ++ "\n"))
    else
      let name := entry.1.toList
      write 1 (name ++ List.replicate (16 - name.length) ' ' ++
        wording (if isOn then "on\n" else "off\n"))

/-- Turns the option of a name on or off, or lists the options. -/
def setNamedOption (isOn : Bool) (name? : Option Octets) : Script Unit := do
  match name? with
  | none => listOptions (!isOn)
  | some name =>
    match optionNames.find? fun entry => entry.1.toList == name with
    | some entry => setOption isOn entry.2
    | none => fault (wording "Illegal option -o " ++ name)

/-- What was found before the operands of a shell or of a change of settings. -/
structure Settings where
  operands : List Octets
  /-- Whether the first operand is a script. -/
  isCommand : Bool := false
  /-- Whether the arguments are replaced even if there are no operands. -/
  replaces : Bool := false

/-- Sets the options of joined letters; the flag tells whether the name of an option is to
follow, and the other one whether the letter of a script was among them. -/
def setLetters (isStart isOn : Bool) : Octets → Script (Bool × Bool)
  | [] => return (false, false)
  | c :: rest => do
    if c = 'c' && isStart then
      return ((← setLetters isStart isOn rest).1, true)
    else if c = 'o' then
      return (true, (← setLetters isStart isOn rest).2)
    else if c = 'l' && isStart then setLetters isStart isOn rest
    else
      setOption isOn c
      setLetters isStart isOn rest

/-- Reads settings up to the first operand. -/
def readSettings (isStart isCommand : Bool) : List Octets → Script Settings
  | [] => return ⟨[], isCommand, false⟩
  | ['-'] :: rest => do
    unless isStart do
      setOption false 'x'
      setOption false 'v'
    return ⟨rest, isCommand, false⟩
  | ['-', '-'] :: rest => return ⟨rest, isCommand, true⟩
  | (sign :: letters) :: rest => do
    if sign = '-' ∨ sign = '+' then
      let (named, hasScript) ← setLetters isStart (sign = '-') letters
      if !named then readSettings isStart (isCommand || hasScript) rest
      else match rest with
        | name :: after =>
          setNamedOption (sign = '-') (some name)
          readSettings isStart (isCommand || hasScript) after
        | [] =>
          setNamedOption (sign = '-') none
          return ⟨[], isCommand || hasScript, false⟩
    else return ⟨(sign :: letters) :: rest, isCommand, false⟩
  | operands => return ⟨operands, isCommand, false⟩

/-- Changes settings and arguments. -/
def changeSettings : Builtin := fun arguments => do
  if arguments.isEmpty then return ← listVariables "" fun v => v.value.isSome
  let settings ← readSettings false false arguments
  if settings.replaces || !settings.operands.isEmpty then
    modifyShell fun s => s.withArguments settings.operands
  return 0

/-! ### Directories -/

/-- The text of a place as an absolute path, by the path of the working directory. -/
def absoluteText (home : Octets) (place : Place) : Octets :=
  let text := Octets.ofText place.text
  if place.absolute then text
  else if text.isEmpty then home
  else (if home = ['/'] then home else home ++ ['/']) ++ text

/-- The path of the directory that a run starts in, as far as it is known. -/
def startDirectory : Octets := wording "/tmp"

/-- The path of the current directory. -/
def currentDirectory : Script Octets :=
  return absoluteText startDirectory (← get).files.current

/-- Goes to a directory. -/
def changeDirectory : Builtin := fun arguments => do
  let (_, operands) ← takeFlags [('L', false), ('P', false)] arguments
  let target ← match operands with
    | [] => return ← go ((← valueOf? (wording "HOME")).getD []) false
    | ['-'] :: _ => return ← go ((← valueOf? (wording "OLDPWD")).getD []) true
    | path :: _ => pure path
  go target false
where
  /-- Goes to the directory of a path, which may be shown. -/
  go (path : Octets) (isShown : Bool) : Script Nat := do
    if path.isEmpty then return 0
    let fs := (← get).files
    match fs.locate? (Octets.text path) with
    | some place =>
      if fs.hasDirectory place then
        let before ← currentDirectory
        modify fun m => { m with files := { m.files with current := place } }
        let now ← currentDirectory
        assign (wording "OLDPWD") before
        assign (wording "PWD") now
        if isShown then write 1 (now ++ ['\n'])
        return 0
      fault (wording "can't cd to " ++ path)
    | none => fault (wording "can't cd to " ++ path)

/-! ### Signals -/

/-- The names of the signals as the shell knows them. -/
def shellSignals : List (Nat × String) :=
  signalNames.map fun entry => if entry.1 = 16 then (16, "16") else entry

/-- The name of a signal. -/
def shellSignalName (signal : Nat) : Octets :=
  match shellSignals.find? fun entry => entry.1 == signal with
  | some entry => wording entry.2
  | none => decimal signal

/-- The greatest number of a signal. -/
def lastSignal : Nat := 64

/-- The signal of a number or a name; the name of the end of the shell counts on request. -/
def signalOf? (withExit : Bool) (text : Octets) : Option Nat :=
  if !text.isEmpty && text.all isDigit then
    if digitsValue text ≤ lastSignal then some (digitsValue text) else none
  else
    let name := text.map raised
    if withExit && name = wording "EXIT" then some 0
    else (shellSignals.find? fun entry => entry.2.toList == name).map Prod.fst

/-- Signals that do nothing to a program that has not asked for them. -/
def harmlessSignals : List Nat := [0, 17, 18, 19, 20, 21, 22, 23, 28]

/-- Sends a signal to a shell. -/
def sendSignal (engine : Engine) (target signal : Nat) : Script Nat := do
  let s ← getShell
  if target < firstNumber || target ≥ (← get).nextNumber then
    warn (wording "No such process\n")
    return 1
  let action? := if target = s.number then s.traps.lookup signal else none
  match action? with
  | some action =>
    if signal ≠ 9 && signal ≠ 0 then
      unless action.isEmpty || s.isCopy do
        let status := s.status
        modifyShell fun s => { s with builtin := none }
        engine.runText false action
        setStatus status
      return 0
  | none => pure ()
  if harmlessSignals.contains signal then return 0
  if s.isCopy && target = s.number then
    modify fun m => { m with doomed := some signal }
    return 0
  throw (.killed target signal)

/-- Sends a signal to shells. -/
def kill (engine : Engine) : Builtin := fun arguments => do
  let usage : Script Nat := fault (wording
    "Usage: kill [-s sigspec | -signum | -sigspec] [pid | job]... or\nkill -l [exitstatus]")
  let (signal?, isList, targets) ← match arguments with
    | [] => pure (none, false, [])
    | ('-' :: name) :: rest =>
      match signalOf? false name with
      | some signal => pure (some signal, false, rest)
      | none =>
        let (flags, operands) ← takeFlags [('l', false), ('s', true)] arguments
        let named := (flags.reverse.find? fun flag => flag.1 == 's').map Prod.snd
        match named with
        | some name =>
          match signalOf? false name with
          | some signal => pure (some signal, flags.any (·.1 == 'l'), operands)
          | none => fault (wording "invalid signal number or name: " ++ name)
        | none => pure (none, flags.any (·.1 == 'l'), operands)
    | _ => pure (none, false, arguments)
  if isList then
    if signal?.isSome then return ← usage
    match targets with
    | [] =>
      write 1 (wording "0\n")
      for signal in List.range lastSignal do
        write 1 (shellSignalName (signal + 1) ++ ['\n'])
      return 0
    | first :: _ =>
      let n ← requireNumber first
      let signal := if n > 128 then n - 128 else n
      if signal = 0 || signal > lastSignal then
        fault (wording "invalid signal number or exit status: " ++ first)
      write 1 (shellSignalName signal ++ ['\n'])
      return 0
  if targets.isEmpty then return ← usage
  let mut status := 0
  for target in targets do
    let number ← match target with
      | '-' :: number =>
        discard (requireNumber number)
        pure 0
      | _ => requireNumber target
    if (← sendSignal engine number (signal?.getD 15)) ≠ 0 then status := 1
  return status

/-- Sets what is done on signals. -/
def setTraps : Builtin := fun arguments => do
  let (_, operands) ← takeFlags [] arguments
  match operands with
  | [] =>
    for entry in (← getShell).traps.mergeSort fun a b => a.1 ≤ b.1 do
      let name := if entry.1 = 0 then wording "EXIT" else shellSignalName entry.1
      write 1 (wording "trap -- " ++ scriptQuoted entry.2 ++ ' ' :: name ++ ['\n'])
    return 0
  | first :: rest =>
    let isNumber := !first.isEmpty && first.all isDigit && digitsValue first ≤ lastSignal
    let (action?, names) :=
      if rest.isEmpty || isNumber then (none, operands)
      else (if first = ['-'] then none else some first, rest)
    setAll action? names
where
  /-- Sets one action for all of some signals. -/
  setAll (action? : Option Octets) : List Octets → Script Nat
    | [] => return 0
    | name :: rest => do
      match signalOf? true name with
      | none =>
        write 2 (wording "trap: " ++ name ++ wording ": bad trap\n")
        return 1
      | some signal =>
        modifyShell fun s =>
          let others := s.traps.filter fun entry => entry.1 != signal
          { s with traps := match action? with
              | some action => (signal, action) :: others
              | none => others }
        setAll action? rest

/-! ### Reading a line -/

/-- A line as it is taken from an input: its characters, those after a backslash marked; whether it
was ended; what is left. -/
def takeLine (isRaw : Bool) : List Marked → Octets → List Marked × Bool × Octets
  | seen, [] => (seen.reverse, false, [])
  | seen, '\\' :: c :: rest =>
    if isRaw then takeLine isRaw (('\\', false) :: seen) (c :: rest)
    else if c = '\n' then takeLine isRaw seen rest
    else takeLine isRaw ((c, true) :: seen) rest
  | seen, c :: rest =>
    if c = '\n' then (seen.reverse, true, rest)
    else if c = '\\' && !isRaw then (seen.reverse, false, rest)
    else if c.toNat = 0 then takeLine isRaw seen rest
    else takeLine isRaw ((c, false) :: seen) rest

/-- Whether a marked character separates fields. -/
def separates (separators : Octets) (m : Marked) : Bool := !m.2 && separators.contains m.1

/-- Whether a marked character is a blank that separates fields. -/
def separatesAsBlank (separators : Octets) (m : Marked) : Bool :=
  separates separators m && (m.1 == ' ' || m.1 == '\t' || m.1 == '\n')

/-- A text without the blank separators at its end. -/
def withoutEnd (separators : Octets) (text : List Marked) : List Marked :=
  (text.reverse.dropWhile (separatesAsBlank separators)).reverse

/-- The first field of a text and the text after the separator that ends it. -/
def firstField (separators : Octets) (text : List Marked) : List Marked × List Marked :=
  let field := text.takeWhile fun m => !separates separators m
  let after := (text.drop field.length).dropWhile (separatesAsBlank separators)
  let rest := match after with
    | m :: more => if separates separators m && !separatesAsBlank separators m then more else after
    | [] => []
  (field, rest.dropWhile (separatesAsBlank separators))

/-- The values that a line gives to a number of variables: the last one takes the rest. -/
def lineValues (separators : Octets) : Nat → List Marked → List Octets
  | 0, _ => []
  | 1, text =>
    let rest := withoutEnd separators text
    let (field, after) := firstField separators rest
    [(if after.isEmpty then field else rest).map Prod.fst]
  | n + 2, text =>
    let (field, rest) := firstField separators text
    field.map Prod.fst :: lineValues separators (n + 1) rest

/-- Reads a line into variables. -/
def readLine : Builtin := fun arguments => do
  let (flags, names) ← takeFlags [('p', true), ('r', false)] arguments
  if names.isEmpty then fault (wording "arg count")
  let isRaw := flags.any fun flag => flag.1 == 'r'
  let (line, isEnded, rest) := takeLine isRaw [] (← pending 0)
  leave 0 rest
  let separators ← separators
  let values := lineValues separators names.length
    (line.dropWhile (separatesAsBlank separators))
  for (name, value) in names.zip values do
    requireName name
    assign name value
  return if isEnded then 0 else 1

/-! ### Other commands -/

/-- Judges a condition. -/
def judgeArguments (isBracket : Bool) : Builtin := fun arguments => do
  if isBracket && arguments.getLast? != some [']'] then fault (wording "missing ]")
  let given := if isBracket then arguments.dropLast else arguments
  match judge (← get).files (given.length + 1) given with
  | .ok truth => return if truth then 0 else 1
  | .error message => fault message

/-- Shows or sets which rights new files lack. -/
def fileMask : Builtin := fun arguments => do
  match arguments with
  | [] => write 1 (wording "0022\n")
  | ['-', 'S'] :: _ => write 1 (wording "u=rwx,g=rx,o=rx\n")
  | mode :: _ =>
    if !mode.all fun c => "01234567ugoarwx=+-,X".toList.contains c then
      fault (wording "Illegal mode: " ++ mode)
  return 0

/-- Waits for commands that were left running. -/
def waitFor : Builtin := fun arguments => do
  let mut status := 0
  for argument in arguments do
    let number ← requireNumber argument
    status := ((← get).finished.lookup number).getD 127
  return status

/-- Ends the shell. -/
def exitShell : Builtin := fun arguments => do
  let status ← match arguments with
    | [] => pure (← getShell).status
    | a :: _ => requireNumber a
  throw (.exit (status % 256))

/-- Leaves a function. -/
def leaveFunction : Builtin := fun arguments => do
  let status ← match arguments with
    | [] => pure (← getShell).status
    | a :: _ => requireNumber a
  throw (.leave status)

/-- Leaves or continues loops. -/
def leaveLoops (jump : Nat → Jump) : Builtin := fun arguments => do
  let levels ← match arguments with
    | [] => pure 1
    | a :: _ =>
      let n ← requireNumber a
      if n = 0 then fault (wording "Illegal number: " ++ a)
      pure n
  let loops := (← getShell).loops
  if loops = 0 then return 0
  throw (jump (min levels loops))

/-- The names of the commands of the shell that are not special. -/
def ordinaryNames : List String :=
  ["[", "alias", "bg", "cd", "chdir", "command", "echo", "false", "fg", "getopts", "hash", "jobs",
    "kill", "printf", "pwd", "read", "test", "true", "type", "ulimit", "umask", "unalias", "wait"]

/-- The command of the shell that a name stands for, if it needs nothing but its arguments. -/
def plainBuiltin? (engine : Engine) : String → Option Builtin
  | ":" | "true" => some fun _ => return 0
  | "false" => some fun _ => return 1
  | "[" => some (judgeArguments true)
  | "test" => some (judgeArguments false)
  | "break" => some (leaveLoops .breaks)
  | "continue" => some (leaveLoops .continues)
  | "cd" | "chdir" => some changeDirectory
  | "echo" => some echoLine
  | "exit" => some exitShell
  | "getopts" => some getOptions
  | "export" =>
    some (markVariables "export " (fun v => { v with isExported := true }) Variable.isExported)
  | "kill" => some (kill engine)
  | "local" => some makeLocal
  | "printf" => some printFormat
  | "pwd" => some fun _ => do
    write 1 ((← currentDirectory) ++ ['\n'])
    return 0
  | "read" => some readLine
  | "readonly" =>
    some (markVariables "readonly " (fun v => { v with isFixed := true }) Variable.isFixed)
  | "return" => some leaveFunction
  | "set" => some changeSettings
  | "shift" => some shift
  | "times" => some fun _ => do
    write 1 (wording "0m0.000000s 0m0.000000s\n0m0.000000s 0m0.000000s\n")
    return 0
  | "trap" => some setTraps
  | "umask" => some fileMask
  | "unset" => some unset
  | "wait" => some waitFor
  | "alias" | "unalias" | "hash" | "jobs" | "ulimit" => some fun _ => return 0
  | _ => none

end SchemaTypings.Shell
