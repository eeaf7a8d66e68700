import SchemaTypings.Run.FileSystem

/-!
# External programs

A run may name programs that compile a model or format a file.  A toolbox says which programs
there are and what each of them does with its arguments, its input and the files: what it writes,
how much it reads, how it ends and which files it leaves behind.
-/

namespace SchemaTypings.Run

open SchemaTypings.Text

/-- How a program ends: with a status of its own, or by a signal. -/
inductive Ending where
  | exited (status : Nat)
  | signalled (signal : Nat)
  deriving DecidableEq, Repr

/-- The names of the signals. -/
def signalNames : List (Nat × String) :=
  [(1, "HUP"), (2, "INT"), (3, "QUIT"), (4, "ILL"), (5, "TRAP"), (6, "ABRT"), (7, "BUS"),
    (8, "FPE"), (9, "KILL"), (10, "USR1"), (11, "SEGV"), (12, "USR2"), (13, "PIPE"), (14, "ALRM"),
    (15, "TERM"), (16, "STKFLT"), (17, "CHLD"), (18, "CONT"), (19, "STOP"), (20, "TSTP"),
    (21, "TTIN"), (22, "TTOU"), (23, "URG"), (24, "XCPU"), (25, "XFSZ"), (26, "VTALRM"),
    (27, "PROF"), (28, "WINCH"), (29, "IO"), (30, "PWR"), (31, "SYS")]

/-- The name of a signal, if it has one. -/
def signalName? (signal : Nat) : Option String :=
  (signalNames.find? fun entry => entry.1 == signal).map Prod.snd

namespace Ending

/-- The wording of an ending. -/
def message : Ending → String
  | exited status => "exit status: " ++ toString status
  | signalled signal =>
    "signal: " ++ toString signal ++
      match signalName? signal with
      | some name => " (SIG" ++ name ++ ")"
      | none => ""

/-- Whether a program that ends so has succeeded. -/
def isSuccess (ending : Ending) : Bool := ending == exited 0

end Ending

/-- What a program leaves behind. -/
structure Outcome where
  ending : Ending
  output : Bytes
  errors : Bytes
  /-- How many bytes of its input the program has taken. -/
  taken : Nat
  files : FileSystem

/-- How many bytes can wait in a pipe. -/
def pipeCapacity : Nat := 65536

/-- The number of bytes in which a pipe is emptied. -/
def pipeBlock : Nat := 4096

/-- Whether a program ends before its input of a given size has been handed over: what it leaves
is more than a pipe holds. -/
def Outcome.refuses (outcome : Outcome) (size : Nat) : Bool :=
  size > pipeCapacity + pipeBlock * (outcome.taken / pipeBlock)

/-- What the installed programs do; a program that is not installed has no outcome. -/
def Toolbox : Type :=
  (program : String) → (arguments : List String) → (input : Bytes) → FileSystem → Option Outcome

namespace Toolbox

/-- The greatest number of bytes of one argument. -/
def argumentLimit : Nat := 131071

/-- Whether a program can be given an argument. -/
def accepts (argument : String) : Bool :=
  !FileSystem.hasZeroByte argument && argument.utf8ByteSize ≤ argumentLimit

/-- The outcome of a program, unless an argument keeps it from being started. -/
def start (tools : Toolbox) (program : String) (arguments : List String) (input : Bytes)
    (fs : FileSystem) : Option Outcome :=
  if (program :: arguments).all accepts then tools program arguments input fs else none

end Toolbox

end SchemaTypings.Run
