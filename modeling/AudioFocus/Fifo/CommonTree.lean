import AudioFocus.Fifo.Tree

/-!
What is in the tree before anybody makes an entry: the directories and files that every system
has, the directory where relative paths start, and one for notification FIFOs.
-/
namespace AudioFocus

/-- Directories that every system has, besides those that lead to `commonFiles`. -/
def commonDirectories : List String :=
  ["/bin", "/boot", "/dev/pts", "/dev/shm", "/home", "/lib", "/media", "/mnt", "/opt", "/root",
    "/run", "/sbin", "/srv", "/tmp", "/usr/include", "/usr/lib", "/usr/local/bin",
    "/usr/local/lib", "/usr/local/share", "/usr/sbin", "/usr/share", "/usr/src", "/var/cache",
    "/var/lib", "/var/log", "/var/tmp"]

def commonFiles : List String :=
  ["/dev/full", "/dev/null", "/dev/random", "/dev/stderr", "/dev/stdin", "/dev/stdout", "/dev/tty",
    "/dev/urandom", "/dev/zero", "/etc/group", "/etc/hosts", "/etc/passwd", "/usr/bin/env"]

namespace FileSystem

/-- Makes the directories that components lead to from a place on, where they are missing. -/
def addDirectories (fs : FileSystem) (dir : Place) : List String → FileSystem
  | [] => fs
  | name :: rest =>
    let place := dir ++ [name]
    let fs := if (fs.find? place).isSome then fs else fs.add place .directory
    fs.addDirectories place rest

/-- Adds a file, and the directories on the way to it. -/
def addFile (fs : FileSystem) (path : String) : FileSystem :=
  let place := pathComponents path
  (fs.addDirectories [] place.dropLast).add place (.file [])

/-- The tree at first: `home` is where relative paths start, and `dir` is empty. -/
def initial (home dir : String) : FileSystem :=
  let fs := commonFiles.foldl addFile { home := pathComponents home }
  let directories := commonDirectories ++ [home, dir]
  directories.foldl (fun fs path => fs.addDirectories [] (pathComponents path)) fs

end FileSystem
end AudioFocus
