import AudioFocus.Fifo.Tree

/-!
What can be done in the tree: FIFOs are made, opened, read and written, and others make and remove
entries of any kind. The octets in a FIFO are lost with its last reader.

Everything in the tree belongs to the one user, nothing moves while a call is under way, and the
system never runs short of open files or of room in a FIFO. So what there is can always be given a
mode, and a FIFO that has just been made can be opened.
-/
namespace AudioFocus
namespace FileSystem

/-- Permissions of notification FIFOs: the arbiter runs as some other user. -/
def sharedMode : Nat := 0o666

/-- Makes a FIFO, or takes the one that is there, and opens it to everybody. Giving it the mode cannot
fail, since no FIFO is another user's. -/
def makeFifo (fs : FileSystem) (dir name : String) : Except SystemError FileSystem := do
  let place ← fs.entry dir name
  match fs.find? place with
  | none => return fs.add place (.fifo sharedMode [] 0)
  | some (i, .fifo _ queue readers) => return fs.setNode i (.fifo sharedMode queue readers)
  | some _ => throw (.notFifo (joinPath dir name))

/-- Removes a name that is not a directory's. A name that is missing is no error. -/
def unlink (fs : FileSystem) (dir name : String) : Except SystemError FileSystem := do
  let place ← fs.entry dir name
  match fs.find? place with
  | some (_, .directory) => throw .isDirectory
  | _ => return fs.removePlace place

def discard (fs : FileSystem) (dir name : String) : FileSystem :=
  match fs.unlink dir name with
  | .ok fs => fs
  | .error _ => fs

/-- Opens a FIFO for reading and writing: such an end never sees the last writer leave. -/
def openHeld (fs : FileSystem) (dir name : String) : Except SystemError (Nat × FileSystem) := do
  match fs.find? (← fs.entry dir name) with
  | some (i, .fifo mode queue readers) => return (i, fs.setNode i (.fifo mode queue (readers + 1)))
  | some (_, .file _) => throw (.notFifo (joinPath dir name))
  | some (_, .directory) => throw .isDirectory
  | some (_, .symlink) => throw .noEntry
  | none => throw .noEntry

def openRead (fs : FileSystem) (dir name : String) : Except SystemError (Nat × FileSystem) := do
  match fs.find? (← fs.entry dir name) with
  | some (i, .fifo mode queue readers) => return (i, fs.setNode i (.fifo mode queue (readers + 1)))
  | some (_, .symlink) => throw .noEntry
  | some (i, _) => return (i, fs)
  | none => throw .noEntry

def closeEnd (fs : FileSystem) (i : Nat) : FileSystem :=
  match fs.nodes[i]? with
  | some (.fifo mode queue readers) =>
    fs.setNode i (.fifo mode (if readers ≤ 1 then [] else queue) (readers - 1))
  | _ => fs

/-- Opens a name for writing, writes and closes it. A FIFO needs a reader; a file is written over
from its start. -/
def write (fs : FileSystem) (dir name : String) (octets : List UInt8) :
    Except SystemError FileSystem := do
  match fs.find? (← fs.entry dir name) with
  | some (i, .fifo mode queue readers) =>
    if readers = 0 then throw .noReader
    return fs.setNode i (.fifo mode (queue ++ octets) readers)
  | some (i, .file content) => return fs.setNode i (.file (octets ++ content.drop octets.length))
  | some (_, .directory) => throw .isDirectory
  | some (_, .symlink) => throw .noEntry
  | none => throw .noEntry

def waiting (fs : FileSystem) (i : Nat) : List UInt8 :=
  match fs.nodes[i]? with
  | some (.fifo _ queue _) => queue
  | _ => []

def readFifo (fs : FileSystem) (i n : Nat) : List UInt8 × FileSystem :=
  match fs.nodes[i]? with
  | some (.fifo mode queue readers) =>
    (queue.take n, fs.setNode i (.fifo mode (queue.drop n) readers))
  | _ => ([], fs)

/-- Makes a node under a name that is free. A name with a slash after it can only become a
directory's, and whoever makes a file is told so first. -/
def create (fs : FileSystem) (path : String) (node : Node) : Except SystemError FileSystem := do
  match node, ← fs.approach path with
  | .file _, .name _ _ true => throw .isDirectory
  | node, .name dir name slash =>
    let place ← nameIn dir name
    if (fs.find? place).isSome then throw .alreadyExists
    if slash ∧ node ≠ .directory then throw .noEntry
    return fs.add place node
  | _, _ => throw .alreadyExists

/-- Removes a name; a directory's only if there is nothing in it. The top is in use always. -/
def remove (fs : FileSystem) (path : String) : Except SystemError FileSystem := do
  match ← fs.approach path with
  | .top => throw .busy
  | .itself => throw .invalidArgument
  | .above => throw .notEmpty
  | .name dir name slash =>
    let place ← nameIn dir name
    match fs.find? place with
    | none => throw .noEntry
    | some (_, .directory) =>
      if fs.inside place ≠ [] then throw .notEmpty
      return fs.removePlace place
    | some _ =>
      if slash then throw .notDirectory
      return fs.removePlace place

/-- The names in a directory and what they stand for, in order. An empty path is no directory's,
though a name may follow it. -/
def list (fs : FileSystem) (dir : String) : List (String × Node) :=
  match fs.directory dir with
  | .ok place =>
    if dir = "" then []
    else
      let found := (fs.inside place).filterMap fun (name, i) => (fs.nodes[i]?).map (name, ·)
      found.mergeSort fun a b => a.1 ≤ b.1
  | .error _ => []

end FileSystem

/-- What a listing says about a node: FIFOs with their permissions, files with their size. -/
def Node.describe : Node → String
  | fifo mode _ _ => "fifo " ++ String.ofList (Nat.toDigits 8 mode)
  | file content => "file " ++ toString content.length
  | directory => "dir"
  | symlink => "symlink"

end AudioFocus
