import AudioFocus.Arbiter.Request
import AudioFocus.Channel.Backend
import AudioFocus.CrashGuard
import AudioFocus.Registry

/-!
The registry, the channels and the loop that takes events from the channels and runs the
callbacks in the registry, one at a time. For each event: find the handle, take its guard, look at
the binding, run the callback, let go of the guard, acknowledge.
-/
namespace AudioFocus

/-- Failures that the system has in store, by error number: one for each of the next calls. -/
structure Faults where
  opens : List Int32 := []
  acks : List Int32 := []
  waits : List Int32 := []
  /-- Why no thread can be started, while that is so. -/
  threads : Option Int32 := none
  /-- Why a signal cannot be given a handler, while that is so. -/
  handlers : FatalSignal → Option Int32 := fun _ => none

/-- What is done to the arbiter and the channels. -/
inductive Action
  | request (r : Request)
  | opened (key : ChannelKey)
  | openFailed (key : ChannelKey)
  | closed (key : ChannelKey)
  | acked (key : ChannelKey) (handle : Int32)
  | ackFailed (key : ChannelKey) (handle : Int32)
deriving DecidableEq

/-- An event that the loop has taken from the channels, and the handle that it names: in which slot,
and the registration as it was when the loop looked. -/
structure Errand where
  key : ChannelKey
  event : Event
  slot : Nat
  reg : Registration

structure Dispatcher (κ : Type) where
  registry : Registry κ
  channels : Channels
  running : Bool := false
  faults : Faults := {}
  /-- What has been done, oldest first. -/
  trace : List Action := []

namespace Dispatcher

variable {κ : Type}

def note (d : Dispatcher κ) (a : Action) : Dispatcher κ := { d with trace := d.trace ++ [a] }

def openChannel (d : Dispatcher κ) (key : ChannelKey) : Result Unit × Dispatcher κ :=
  match d.faults.opens with
  | n :: rest =>
    (.error (.system (.code n)),
      { d with faults := { d.faults with opens := rest } }.note (.openFailed key))
  | [] =>
    match d.channels.openChannel key with
    | (.ok (), channels) => (.ok (), { d with channels }.note (.opened key))
    | (.error e, channels) => (.error e, { d with channels }.note (.openFailed key))

def closeChannel (d : Dispatcher κ) (key : ChannelKey) : Dispatcher κ :=
  let d := d.note (.closed key)
  { d with channels := d.channels.closeChannel key }

def sendAck (d : Dispatcher κ) (key : ChannelKey) (handle : Int32) :
    Result Unit × Dispatcher κ :=
  match d.faults.acks with
  | n :: rest =>
    (.error (.system (.code n)),
      { d with faults := { d.faults with acks := rest } }.note (.ackFailed key handle))
  | [] =>
    match d.channels.sendAck key handle with
    | (.ok (), channels) => (.ok (), { d with channels }.note (.acked key handle))
    | (.error e, channels) => (.error e, { d with channels }.note (.ackFailed key handle))

/-- Waits for an event. A wait that fails brings none. -/
def nextEvent (d : Dispatcher κ) : Option (ChannelKey × Event) × Dispatcher κ :=
  match d.faults.waits with
  | _ :: rest => (none, { d with faults := { d.faults with waits := rest } })
  | [] =>
    let (e, channels) := d.channels.nextEvent
    (e, { d with channels })

def start (d : Dispatcher κ) : Result Unit × Dispatcher κ :=
  if d.running then (.ok (), d)
  else
    match d.faults.threads with
    | some n => (.error (.system (.code n)), d)
    | none => (.ok (), { d with running := true })

/-- Stops the loop. Any caller but the loop's own thread waits for the loop to end, which is done
with the event that it has in hand by then; this is the state after the wait. -/
def stop (d : Dispatcher κ) : Dispatcher κ :=
  if d.running then { d with running := false, channels := d.channels.wake } else d

inductive Delivery (κ : Type)
  /-- Nobody has the handle: no callback, and no acknowledgement. -/
  | dropped
  /-- The watch is not told of such changes: the event is only acknowledged. -/
  | skipped
  /-- The callback runs, and the slot's guard is held while it does. -/
  | running (slot : Nat) (callback : κ)
  /-- Somebody holds the guard, and the loop waits for it with the event in hand. -/
  | waiting (errand : Errand)

/-- Finds the handle that an event names. -/
def address? (d : Dispatcher κ) (key : ChannelKey) (e : Event) : Option Errand := do
  let slot ← d.registry.find? e.handle key.space
  let reg ← d.registry.registration? slot
  return { key, event := e, slot, reg }

/-- Goes on with an event whose handle was found. If somebody holds the guard, the loop waits for
it. All that is looked at again after the wait is the binding, which must be for the handle still;
what the event is shown to is the registration as it was found. -/
def enter (d : Dispatcher κ) (x : Errand) : Delivery κ × Dispatcher κ :=
  if d.registry.isGuarded x.slot then (.waiting x, d)
  else
    match d.registry.binding? x.slot with
    | some b =>
      if b.id = x.event.handle ∧ b.space = x.key.space then
        if x.key.space = .watch ∧ !x.reg.filter.covers x.event.focusType then
          (.skipped, (d.sendAck x.key x.event.handle).2)
        else (.running x.slot b.callback, { d with registry := d.registry.guard x.slot })
      else (.dropped, d)
    | none => (.dropped, d)

def deliver (d : Dispatcher κ) (key : ChannelKey) (e : Event) : Delivery κ × Dispatcher κ :=
  match d.address? key e with
  | some x => d.enter x
  | none => (.dropped, d)

/-- Ends a delivery whose callback has returned, or panicked. -/
def finish (d : Dispatcher κ) (slot : Nat) (key : ChannelKey) (handle : Int32) : Dispatcher κ :=
  ({ d with registry := d.registry.unguard slot }.sendAck key handle).2

end Dispatcher
end AudioFocus
