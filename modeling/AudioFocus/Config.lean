import AudioFocus.Text.Duration

/-!
What can be tuned about a client.
-/
namespace AudioFocus

structure Config where
  /-- Directory of the notification FIFOs, which the arbiter must agree on. -/
  fifoDir : String := "/tmp"
  /-- Registrations that can be live at once. -/
  maxHandles : Nat := 512
  /-- How long a teardown waits for a running callback before it goes on. -/
  unregisterWait : Duration := .ofMilliseconds 2500
  dispatchPoll : Duration := .ofMilliseconds 500
  /-- How long a fatal signal waits for the arbiter to be told. -/
  crashNotifyTimeout : Duration := .ofMilliseconds 1000
  installCrashGuard : Bool := true
deriving DecidableEq

namespace Config

inductive Setting
  | fifoDir (dir : String)
  | maxHandles (n : Nat)
  | unregisterWait (wait : Duration)
  | dispatchPoll (wait : Duration)
  | crashNotifyTimeout (wait : Duration)
  | crashGuard (install : Bool)

def set (c : Config) : Setting → Config
  | .fifoDir dir => { c with fifoDir := dir }
  | .maxHandles n => { c with maxHandles := n }
  | .unregisterWait wait => { c with unregisterWait := wait }
  | .dispatchPoll wait => { c with dispatchPoll := wait }
  | .crashNotifyTimeout wait => { c with crashNotifyTimeout := wait }
  | .crashGuard install => { c with installCrashGuard := install }

end Config
end AudioFocus
