import AudioFocus.Error

/-!
Fatal signals of the process. A guard handles them all while it is installed, and at most one is.
A signal that it has handled goes back to what it did before the guard, and so do all signals when
the guard is removed.
-/
namespace AudioFocus

inductive FatalSignal
  | interrupt
  | abort
  | segmentationFault
  | terminate
  | badSystemCall
  | cpuLimit
deriving DecidableEq

def FatalSignal.all : List FatalSignal :=
  [interrupt, abort, segmentationFault, terminate, badSystemCall, cpuLimit]

inductive Disposition
  /-- The guard's handler runs. -/
  | handler
  /-- Some other handler runs, and returns. -/
  | calls (other : Nat)
  | ignored
  | terminates
deriving DecidableEq

/-- Whether the process goes on after it. -/
def Disposition.returns : Disposition → Bool
  | calls _ | ignored => true
  | handler | terminates => false

structure Signals where
  current : FatalSignal → Disposition
  /-- A guard is installed, or is being installed. -/
  installed : Bool := false
  /-- While a guard is installed: what the signals did before. -/
  saved : Option (List (FatalSignal × Disposition)) := none

namespace Signals

/-- All signals do the same, and no guard is installed. -/
def uniform (d : Disposition) : Signals := { current := fun _ => d }

def set (s : Signals) (signal : FatalSignal) (d : Disposition) : Signals :=
  { s with current := fun other => if other = signal then d else s.current other }

def putBack (s : Signals) (entries : List (FatalSignal × Disposition)) : Signals :=
  entries.foldl (fun s e => s.set e.1 e.2) s

/-- Gives signals to the guard, one after the other, and tells what they did before. When one of
them cannot be given, those before it are put back. -/
def takeOver (s : Signals) (refusals : FatalSignal → Option Int32)
    (taken : List (FatalSignal × Disposition)) :
    List FatalSignal → Except Int32 (List (FatalSignal × Disposition)) × Signals
  | [] => (.ok taken, s)
  | signal :: rest =>
    match refusals signal with
    | some n => (.error n, s.putBack taken)
    | none =>
      (s.set signal .handler).takeOver refusals (taken ++ [(signal, s.current signal)]) rest

def remove (s : Signals) : Signals :=
  match s.saved with
  | some entries => { s.putBack entries with installed := false, saved := none }
  | none => { s with installed := false }

/-- Installs a guard, which takes a thread first. -/
def install (s : Signals) (threads : Option Int32) (refusals : FatalSignal → Option Int32) :
    Result Unit × Signals :=
  if s.installed then (refuse .guardInstalled, s)
  else
    match threads with
    | some n => (.error (.system (.code n)), s)
    | none =>
      match { s with installed := true }.takeOver refusals [] FatalSignal.all with
      | (.ok saved, s) => (.ok (), { s with saved := some saved })
      | (.error n, s) => (.error (.system (.code n)), s.remove)

/-- Lets a signal do what it did before the guard. -/
def restore (s : Signals) (signal : FatalSignal) : Signals :=
  match s.saved.bind (·.find? (·.1 = signal)) with
  | some e => s.set signal e.2
  | none => s.set signal .terminates

end Signals
end AudioFocus
