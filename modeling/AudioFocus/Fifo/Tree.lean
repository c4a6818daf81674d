import AudioFocus.Channel.Path
import AudioFocus.Text.SystemError
import AudioFocus.Text.Utf8

/-!
The tree of names that FIFOs live in, what its names stand for, and how a path leads through it.
Names are apart from nodes: a node outlives its name while somebody holds it.
-/
namespace AudioFocus

inductive Node
  /-- `readers` counts the ends that octets can be read from. -/
  | fifo (mode : Nat) (queue : List UInt8) (readers : Nat)
  | file (content : List UInt8)
  | directory
  | symlink
deriving DecidableEq

/-- Where something is: the names that lead to it from the top of the tree, which is `[]`. -/
abbrev Place := List String

structure FileSystem where
  /-- The directory where relative paths start. -/
  home : Place
  /-- The places that are taken, and the numbers of their nodes. -/
  entries : List (Place × Nat) := []
  nodes : List Node := []

/-- The components of a path. Any number of slashes separates two. -/
def pathComponents (path : String) : List String :=
  ((path.toList.splitOn '/').filter (· ≠ [])).map String.ofList

/-- The path of a name that is looked up in a directory; one that starts at the top is the same
everywhere. -/
def pathFrom (dir name : String) : String :=
  if name.startsWith "/" then name else joinPath dir name

/-- Longest name, in octets. -/
def maxName : Nat := 255

/-- Longest path, in octets. -/
def maxPath : Nat := 4095

/-- Refuses what cannot be a path, whatever is in the tree. -/
def checkPath (path : String) : Except SystemError Unit :=
  let octets := Utf8.encode path.toList
  match octets.findIdx? (· = 0) with
  | some position => .error (.zeroOctet position)
  | none => if maxPath < octets.length then .error .nameTooLong else .ok ()

namespace FileSystem

def find? (fs : FileSystem) (place : Place) : Option (Nat × Node) := do
  let i ← fs.entries.lookup place
  let node ← fs.nodes[i]?
  return (i, node)

def setNode (fs : FileSystem) (i : Nat) (node : Node) : FileSystem :=
  { fs with nodes := fs.nodes.set i node }

def add (fs : FileSystem) (place : Place) (node : Node) : FileSystem :=
  { fs with entries := fs.entries ++ [(place, fs.nodes.length)], nodes := fs.nodes ++ [node] }

/-- Frees a place. The node stays for those who hold it. -/
def removePlace (fs : FileSystem) (place : Place) : FileSystem :=
  { fs with entries := fs.entries.filter (·.1 ≠ place) }

/-- What is directly in a directory: names and the numbers of their nodes. -/
def inside (fs : FileSystem) (dir : Place) : List (String × Nat) :=
  fs.entries.filterMap fun (place, i) =>
    match place.getLast? with
    | some name => if place.dropLast = dir then some (name, i) else none
    | none => none

def nameIn (dir : Place) (name : String) : Except SystemError Place :=
  if maxName < name.utf8ByteSize then .error .nameTooLong else .ok (dir ++ [name])

/-- The directory that one component leads to. The one above the top is the top. -/
def step (fs : FileSystem) (dir : Place) : String → Except SystemError Place
  | "." => .ok dir
  | ".." => .ok dir.dropLast
  | name => do
    let place ← nameIn dir name
    match fs.find? place with
    | some (_, .directory) => return place
    | some (_, .symlink) | none => throw .noEntry
    | some _ => throw .notDirectory

/-- The directory that components lead to, each through the one before it. -/
def walk (fs : FileSystem) (dir : Place) (components : List String) : Except SystemError Place :=
  components.foldlM fs.step dir

def origin (fs : FileSystem) (path : String) : Place :=
  if path.startsWith "/" then [] else fs.home

/-- The place of a directory, by its path. In front of a name an empty path means `home`. -/
def directory (fs : FileSystem) (dir : String) : Except SystemError Place :=
  fs.walk (fs.origin dir) (pathComponents dir)

/-- The place of a name, which is a single component, in the directory of a path. -/
def entry (fs : FileSystem) (dir name : String) : Except SystemError Place := do
  checkPath (joinPath dir name)
  nameIn (← fs.directory dir) name

end FileSystem

/-- What a path comes to once all components but the last have been followed. -/
inductive PathEnd
  | top
  /-- The directory that was reached, by the name `.` -/
  | itself
  /-- The directory above that, by the name `..` -/
  | above
  /-- A name in that directory. A slash after it means that it should be a directory's. -/
  | name (dir : Place) (name : String) (slash : Bool)

def FileSystem.approach (fs : FileSystem) (path : String) : Except SystemError PathEnd := do
  checkPath path
  let components := pathComponents path
  let dir ← fs.walk (fs.origin path) components.dropLast
  match components.getLast? with
  | none => if path = "" then throw .noEntry else return .top
  | some "." => return .itself
  | some ".." => return .above
  | some name => return .name dir name (path.endsWith "/")

end AudioFocus
