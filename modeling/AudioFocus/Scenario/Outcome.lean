import AudioFocus.Client.Call

/-!
What the operations of a scenario give.
-/
namespace AudioFocus.Scenario

inductive GuardView
  | empty
  | held
  | bound (id : Int32) (space : IdSpace)

inductive Answer
  | unit
  | id (n : Int32)
  | count (n : Nat)
  | countOrNone (n : Option Nat)
  | flag (b : Bool)
  | flagOrNone (b : Option Bool)
  /-- Whether the loop is running, and whether this is its thread. -/
  | loop (running own : Bool)
  | channel (key : ChannelKey)
  | ack (a : Option (ChannelKey × Int32))
  | event (e : Option (ChannelKey × Event))
  | events (l : List (ChannelKey × Event))
  | registration (r : Option Registration)
  | registrations (l : List (Nat × Registration))
  | guard (g : GuardView)
  | acquired (focus : AcquiredFocus)
  | config (c : Config)
  | dispositions (l : List Disposition)
  | directory (path : String)

def Answer.ofValue : Value → Answer
  | .unit => unit
  | .id n => id n
  | .flag b => flag b
  | .acquired focus => acquired focus

/-- Why a scenario does not let an operation through. -/
inductive Refusal
  | dropped
  | noPeer
  | notRunning
  /-- Pumping, while an operation is under way or a guard is held. -/
  | pumping
  /-- Finalizing the client, on the main thread that a callback waits for. -/
  | finalizing
  /-- Giving the client up, there. -/
  | dropping
  /-- Stopping the loop, there. -/
  | stopping
  /-- The operation is not for channels of this kind. -/
  | otherChannels
  /-- The operation would not end. -/
  | endless
deriving DecidableEq

inductive Outcome
  | ok (a : Answer)
  | failed (e : FocusError)
  | refused (why : Refusal)
  /-- The slot that a registration was made for, if one was, what it got, and the outcomes of
  what was done while it was being entered. -/
  | allocated (slot : Option Nat) (result : Result Nat) (during : List Outcome)

namespace Outcome

def ofResult {α : Type} (f : α → Answer) : Result α → Outcome
  | .ok a => ok (f a)
  | .error e => failed e

end Outcome
end AudioFocus.Scenario
