import StepLang.Files.Path
import StepLang.Text.Quoted

/-!
# Files

A file system holds files and directories by their places. Reading looks every element of a path up, so each
element on the way has to exist and be a directory. Writing goes to the place that the path names by its
elements alone, and makes the directories that are missing on the way. Names and paths have a greatest length,
counted in bytes.
-/

namespace StepLang

inductive Node where
  | file (content : Text)
  | directory
  deriving DecidableEq

structure FileSystem where
  work : Place
  nodes : List (Place × Node)
  deriving DecidableEq

inductive SystemFault where
  | noEntry
  | isDirectory
  | notDirectory
  | invalidArgument
  | nameTooLong
  deriving DecidableEq

def SystemFault.message : SystemFault → Text
  | noEntry => "no such file or directory"
  | isDirectory => "is a directory"
  | notDirectory => "not a directory"
  | invalidArgument => "invalid argument"
  | nameTooLong => "file name too long"

/-- A refusal: what was asked for, of which path, and why not. -/
structure SystemError where
  request : Text
  path : Text
  fault : SystemFault
  deriving DecidableEq

def SystemError.message (e : SystemError) : Text := e.request ++ " " ++ e.path ++ ": " ++ e.fault.message

inductive FileError where
  | read (path : Text) (e : SystemError)
  | makeDirectory (directory : Text) (e : SystemError)
  | write (path : Text) (e : SystemError)
  deriving DecidableEq

def FileError.message : FileError → Text
  | read path e => "failed to read input file " ++ path.quoted ++ ": " ++ e.message
  | makeDirectory directory e => "failed to create output directory " ++ directory.quoted ++ ": " ++ e.message
  | write path e => "failed to write output file " ++ path.quoted ++ ": " ++ e.message

namespace FileSystem

def fresh (work : Place) : FileSystem :=
  ⟨work, (List.range work.length).map fun n => (work.take (n + 1), .directory)⟩

/-- The root is always a directory. -/
def node? (fs : FileSystem) (place : Place) : Option Node :=
  if place = [] then some .directory else fs.nodes.lookup place

def put (fs : FileSystem) (place : Place) (node : Node) : FileSystem :=
  { fs with nodes := (place, node) :: fs.nodes.filter (·.1 ≠ place) }

def files (fs : FileSystem) : List (Place × Text) :=
  fs.nodes.filterMap fun (place, node) =>
    match node with
    | .file content => some (place, content)
    | .directory => none

def hasNul (t : Text) : Bool := t.contains (.char '\x00')

def longestName : Nat := 255

def longestPath : Nat := 4095

def isLongName (name : Text) : Bool := longestName < name.toBytes.length

/-- What is wrong with a path as it is written, whatever the file system holds. -/
def pathFault? (p : Text) : Option SystemFault :=
  if hasNul p then some .invalidArgument
  else if longestPath < p.toBytes.length then some .nameTooLong
  else none

/-- Goes from a place along the elements of a path, each of them looked up. -/
def walk (fs : FileSystem) (here : Place) : List Text → Except SystemFault Place
  | [] => .ok here
  | element :: rest =>
    if fs.node? here ≠ some .directory then .error .notDirectory
    else if isLongName element then .error .nameTooLong
    else
      let next := Path.advance here element
      if (fs.node? next).isSome then walk fs next rest else .error .noEntry

def locate (fs : FileSystem) (p : Text) : Except SystemFault Place :=
  match pathFault? p with
  | some fault => .error fault
  | none => if p = [] then .error .noEntry else fs.walk (Path.origin fs.work p) (Path.elements p)

def read (fs : FileSystem) (p : Text) : Except FileError Text :=
  match fs.locate p with
  | .error e => .error (.read p ⟨"open", p, e⟩)
  | .ok place =>
    match fs.node? place with
    | some (.file content) => .ok content
    | some .directory => .error (.read p ⟨"read", p, .isDirectory⟩)
    | none => .error (.read p ⟨"open", p, .noEntry⟩)

/-- Why nothing new can be put at a place, going by its path alone. -/
def placeFault? (place : Place) : Option SystemFault :=
  match pathFault? (Path.ofPlace place) with
  | some fault => some fault
  | none => if (place.getLast?.map isLongName).getD false then some .nameTooLong else none

/-- Makes the directories along the names that are missing, starting below a place. -/
def makeDirectories (fs : FileSystem) (here : Place) : List Text → FileSystem × Except SystemError Unit
  | [] => (fs, .ok ())
  | name :: rest =>
    let next := here ++ [name]
    match fs.node? next with
    | some .directory => makeDirectories fs next rest
    | some (.file _) => (fs, .error ⟨"mkdir", Path.ofPlace next, .notDirectory⟩)
    | none =>
      match placeFault? next with
      | some fault => (fs, .error ⟨"mkdir", Path.ofPlace next, fault⟩)
      | none => makeDirectories (fs.put next .directory) next rest

def writeAt (fs : FileSystem) (place : Place) (content : Text) : Except SystemFault FileSystem :=
  match placeFault? place with
  | some fault => .error fault
  | none =>
    if fs.node? place = some .directory then .error .isDirectory
    else .ok (fs.put place (.file content))

def write (fs : FileSystem) (p content : Text) : FileSystem × Except FileError Unit :=
  let place := Path.resolve fs.work p
  let directory := Path.parent place
  match fs.makeDirectories [] directory with
  | (fs, .error e) => (fs, .error (.makeDirectory (Path.ofPlace directory) e))
  | (fs, .ok ()) =>
    match fs.writeAt place content with
    | .error e => (fs, .error (.write p ⟨"open", Path.ofPlace place, e⟩))
    | .ok fs => (fs, .ok ())

end FileSystem

end StepLang
