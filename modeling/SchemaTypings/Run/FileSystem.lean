import SchemaTypings.Table
import SchemaTypings.Text.Split
import SchemaTypings.Text.Utf8

/-!
# Paths and file systems

A file system has directories and files.  A path is read step by step: every step but the last
has to lead into a directory, `.` stays and `..` goes up.  Files are known by the place that a path
leads to, so two spellings of a path mean one file.  A write replaces the whole content of a file
or does nothing.
-/

namespace SchemaTypings.Run

open SchemaTypings.Text

/-! ### Paths -/

namespace Path

/-- The steps of a path. -/
def steps (path : String) : List String := (Text.split '/' path.toList).map String.ofList

/-- Whether a path starts at the root. -/
def isAbsolute (path : String) : Bool := path.toList.head? == some '/'

/-- A name below a directory; an absolute name stands for itself. -/
def join (directory name : String) : String :=
  if isAbsolute name || directory == "" then name
  else if directory.toList.getLast? == some '/' then directory ++ name
  else directory ++ "/" ++ name

/-- The last step of a path that is a name, unless the path ends by going up. -/
def fileName? (path : String) : Option String :=
  match ((steps path).filter fun step => step != "" && step != ".").getLast? with
  | some ".." => none
  | last => last

/-- What follows the last dot of a file name that does not start with its only dot. -/
def extensionOf? (name : List Char) : Option (List Char) :=
  match (Text.split '.' name).reverse with
  | [] => none
  | [_] => none
  | extension :: before => if before = [[]] then none else some extension

/-- The extension of the file that a path names. -/
def extension? (path : String) : Option String :=
  (fileName? path).bind fun name => (extensionOf? name.toList).map String.ofList

end Path

/-! ### Places -/

/-- Where a path leads: the names on the way, last first, from the root or from the working
directory.  A place above the working directory starts with steps up. -/
structure Place where
  absolute : Bool
  names : List String
  deriving DecidableEq, Repr

namespace Place

/-- The working directory. -/
def here : Place := ⟨false, []⟩

/-- The text by which a place is known. -/
def text (place : Place) : String :=
  (if place.absolute then "/" else "") ++ "/".intercalate place.names.reverse

/-- The place one step up. -/
def up (place : Place) : Place :=
  match place.names with
  | [] => if place.absolute then place else ⟨false, [".."]⟩
  | name :: rest => if name = ".." then ⟨false, ".." :: name :: rest⟩ else ⟨place.absolute, rest⟩

/-- Whether a place lies on the way from the working directory up, or is the root. -/
def isAbove (place : Place) : Bool := place.names.all (· == "..")

/-- The place of a name below a place. -/
def child (place : Place) (name : String) : Place := ⟨place.absolute, name :: place.names⟩

/-- The device that is always empty. -/
def null : Place := ⟨true, ["null", "dev"]⟩

end Place

/-! ### Contents -/

/-- What a file holds: a text, or bytes that spell none. -/
inductive Content where
  | text (text : String)
  | binary (bytes : Bytes)
  deriving DecidableEq, Repr

namespace Content

/-- The content with given bytes. -/
def ofBytes (bytes : Bytes) : Content :=
  match Utf8.decode bytes with
  | .ok s => .text s
  | .error _ => .binary bytes

/-- The bytes of a content. -/
def bytes : Content → Bytes
  | text s => bytesOf s
  | binary b => b

/-- The text of a content that is one. -/
def text? : Content → Option String
  | text s => some s
  | binary _ => none

/-- The text of a content, malformed parts replaced. -/
def shown : Content → String
  | text s => s
  | binary b => Utf8.lossy b

end Content

/-! ### File systems -/

/-- Files and directories, by the texts of their places, and the place that relative paths start
from. -/
structure FileSystem where
  files : Table Content
  directories : List String
  current : Place := .here

/-- Why a path does not lead to what is wanted. -/
inductive PathProblem where
  | missing
  | notADirectory
  | isADirectory
  | nameTooLong
  | zeroByte
  deriving DecidableEq, Repr

/-- The wording of a problem with a path. -/
def PathProblem.message : PathProblem → String
  | missing => "No such file or directory"
  | notADirectory => "Not a directory"
  | isADirectory => "Is a directory"
  | nameTooLong => "File name too long"
  | zeroByte => "file name contained an unexpected NUL byte"

namespace FileSystem

/-- The file system with an empty working directory. -/
def empty : FileSystem := ⟨∅, [], .here⟩

/-- The directories that every system has. -/
def standardDirectories : List String :=
  ["/bin", "/boot", "/dev", "/etc", "/home", "/lib", "/media", "/mnt", "/opt", "/proc", "/root",
    "/run", "/sbin", "/srv", "/sys", "/tmp", "/usr", "/usr/bin", "/usr/lib", "/usr/local",
    "/usr/local/bin", "/usr/sbin", "/usr/share", "/var", "/var/tmp"]

/-- The file system with an empty working directory and the directories that every system has. -/
def standard : FileSystem := ⟨∅, standardDirectories, .here⟩

/-- Whether there is a directory at a place. -/
def hasDirectory (fs : FileSystem) (place : Place) : Bool :=
  place.isAbove || fs.directories.contains place.text

/-- What the file at a place holds. -/
def content? (fs : FileSystem) (place : Place) : Option Content :=
  if place = .null then some (.text "") else fs.files.get? place.text

/-- The place that further steps lead to. -/
def walk (fs : FileSystem) (place : Place) : List String → Except PathProblem Place
  | [] => .ok place
  | step :: rest =>
    if fs.hasDirectory place then
      if step = "" ∨ step = "." then fs.walk place rest
      else if step = ".." then fs.walk place.up rest
      else if step.utf8ByteSize > 255 then .error .nameTooLong
      else fs.walk (place.child step) rest
    else if (fs.content? place).isSome then .error .notADirectory
    else .error .missing

/-- Whether a text has a zero byte, with which it can name neither a file nor a program. -/
def hasZeroByte (s : String) : Bool := s.toList.contains (Char.ofNat 0)

/-- The greatest number of bytes of a path. -/
def pathLimit : Nat := 4095

/-- The place that a path leads to. -/
def locate (fs : FileSystem) (path : String) : Except PathProblem Place :=
  if hasZeroByte path then .error .zeroByte
  else if path = "" then .error .missing
  else if path.utf8ByteSize > pathLimit then .error .nameTooLong
  else fs.walk (if Path.isAbsolute path then ⟨true, []⟩ else fs.current) (Path.steps path)

/-- The place that a path leads to, if it leads to one. -/
def locate? (fs : FileSystem) (path : String) : Option Place := (fs.locate path).toOption

/-- Whether a path leads to a directory. -/
def isDirectory (fs : FileSystem) (path : String) : Bool :=
  ((fs.locate? path).map fs.hasDirectory).getD false

/-- The place of the file that a path may name: one that is no directory. -/
def filePlace (fs : FileSystem) (path : String) : Except PathProblem Place :=
  match fs.locate path with
  | .ok place => if fs.hasDirectory place then .error .isADirectory else .ok place
  | .error problem => .error problem

/-- What the file holds that a path leads to. -/
def read (fs : FileSystem) (path : String) : Except PathProblem Content :=
  match fs.filePlace path with
  | .ok place =>
    match fs.content? place with
    | some content => .ok content
    | none => .error .missing
  | .error problem => .error problem

/-- The text of the file that a path leads to. -/
def read? (fs : FileSystem) (path : String) : Option String :=
  (fs.read path).toOption.bind Content.text?

/-- The file system with a content put at a place; what is put at the empty device is lost. -/
def put (fs : FileSystem) (place : Place) (content : Content) : FileSystem :=
  if place = .null then fs else { fs with files := fs.files.insert place.text content }

/-- The file system after a text was written, if the path leads to where a file may be. -/
def write? (fs : FileSystem) (path text : String) : Option FileSystem :=
  (fs.filePlace path).toOption.map fun place => fs.put place (.text text)

/-- A write puts its text at the place that its path leads to. -/
theorem write?_eq_some_iff {fs after : FileSystem} {path text : String} :
    fs.write? path text = some after ↔
      ∃ place, fs.filePlace path = .ok place ∧ after = fs.put place (.text text) := by
  unfold write?
  cases fs.filePlace path with
  | error problem => simp [Except.toOption]
  | ok place => simp [Except.toOption, eq_comm]

/-- A content that was put is there, and every other place holds what it held. -/
theorem get?_files_put (fs : FileSystem) {place : Place} (content : Content) (key : String)
    (h : place ≠ .null) :
    (fs.put place content).files.get? key =
      if place.text = key then some content else fs.files.get? key := by
  rw [put, if_neg h]
  exact Table.get?_insert _ _ _ _

/-! ### Listing -/

/-- What follows the text of a directory in the text of a place right below it. -/
def nameBelow? (directory text : List Char) : Option String :=
  if directory.isPrefixOf text then
    let name := text.drop directory.length
    if name.isEmpty || name.contains '/' then none else some (String.ofList name)
  else none

/-- The names of the files and directories in the directory at a place. -/
def namesIn (fs : FileSystem) (place : Place) : List String :=
  let start := (place.child "").text.toList
  (fs.files.keys ++ fs.directories).filterMap fun text => nameBelow? start text.toList

/-! ### Building -/

/-- Adds a directory and every directory on the way to it. -/
def addSteps (fs : FileSystem) (place : Place) : List String → FileSystem × Place
  | [] => (fs, place)
  | step :: rest =>
    if step = "" ∨ step = "." then fs.addSteps place rest
    else if step = ".." then fs.addSteps place.up rest
    else
      let next := place.child step
      if fs.hasDirectory next then fs.addSteps next rest
      else addSteps { fs with directories := fs.directories ++ [next.text] } next rest

/-- Adds the directory that a path names, with those on the way. -/
def addDirectory (fs : FileSystem) (path : String) : FileSystem :=
  (fs.addSteps ⟨Path.isAbsolute path, []⟩ (Path.steps path)).1

/-- Adds a file with its content, and the directories on the way. -/
def addFile (fs : FileSystem) (path : String) (content : Content) : FileSystem :=
  let steps := Path.steps path
  let (next, place) := fs.addSteps ⟨Path.isAbsolute path, []⟩ steps.dropLast
  let file : Place := ⟨place.absolute, (steps.getLast?).toList ++ place.names⟩
  { next with files := next.files.insert file.text content }

/-! ### Changes -/

/-- Whether the text of a place is that of one below the working directory. -/
def isBelow (text : String) : Bool :=
  !Path.isAbsolute text && (Path.steps text).head? != some ".."

/-- The files whose content differs from the one in an earlier file system. -/
def changesSince (fs earlier : FileSystem) : List (String × Content) :=
  fs.files.entries.filter fun entry => earlier.files.get? entry.1 != some entry.2

/-- The changed files below the working directory. -/
def changesBelow (fs earlier : FileSystem) : List (String × Content) :=
  (fs.changesSince earlier).filter fun entry => isBelow entry.1

end FileSystem

end SchemaTypings.Run
