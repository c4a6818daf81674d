import AudioFocus.Channel.Map
import AudioFocus.Event

/-!
Notification channels inside the process: one queue of events for all channels, one of
acknowledgements. An acknowledgement goes out only to an arbiter that waits for one.
-/
namespace AudioFocus

structure MemoryChannel where
  /-- Opens that no close has answered. -/
  refs : Nat
  /-- Events sent on the channel and not acknowledged. -/
  outstanding : Nat
deriving DecidableEq

inductive QueueItem
  | event (key : ChannelKey) (e : Event)
  /-- Ends one wait for events and brings none. -/
  | wake
deriving DecidableEq

structure MemoryChannels where
  channels : ChannelMap MemoryChannel := {}
  queue : List QueueItem := []
  /-- Acknowledgements that the arbiter has not taken. -/
  acks : List (ChannelKey × Int32) := []

namespace MemoryChannels

def isOpen (m : MemoryChannels) (key : ChannelKey) : Bool := m.channels.contains key

def wake (m : MemoryChannels) : MemoryChannels := { m with queue := m.queue ++ [.wake] }

def openChannel (m : MemoryChannels) (key : ChannelKey) : MemoryChannels :=
  match m.channels.get? key with
  | some _ =>
    { m with channels := m.channels.modify key fun c => { c with refs := c.refs + 1 } }
  | none => { m with channels := m.channels.insert key ⟨1, 0⟩ }

/-- The last close of a channel acknowledges an event that still waits. -/
def closeChannel (m : MemoryChannels) (key : ChannelKey) : MemoryChannels :=
  match m.channels.get? key with
  | none => m
  | some c =>
    if 1 < c.refs then
      { m with channels := m.channels.modify key fun c => { c with refs := c.refs - 1 } }
    else
      let m := { m with channels := m.channels.erase key }.wake
      if 0 < c.outstanding then { m with acks := m.acks ++ [(key, key.finalAck)] } else m

def push (m : MemoryChannels) (key : ChannelKey) (e : Event) : Result MemoryChannels :=
  if m.isOpen key then
    .ok { m with
      channels := m.channels.modify key fun c => { c with outstanding := c.outstanding + 1 }
      queue := m.queue ++ [.event key e] }
  else refuse (.channelClosed key)

def sendAck (m : MemoryChannels) (key : ChannelKey) (handle : Int32) : MemoryChannels :=
  match m.channels.get? key with
  | none => m
  | some c =>
    if 0 < c.outstanding then
      { m with
        channels := m.channels.modify key fun c => { c with outstanding := c.outstanding - 1 }
        acks := m.acks ++ [(key, handle)] }
    else m

/-- Takes one entry from the queue. The event of a channel that is closed by now is lost. -/
def nextEvent (m : MemoryChannels) : Option (ChannelKey × Event) × MemoryChannels :=
  match m.queue with
  | [] => (none, m)
  | .wake :: rest => (none, { m with queue := rest })
  | .event key e :: rest =>
    (if m.isOpen key then some (key, e) else none, { m with queue := rest })

def receiveAck (m : MemoryChannels) : Option (ChannelKey × Int32) × MemoryChannels :=
  match m.acks with
  | [] => (none, m)
  | ack :: rest => (some ack, { m with acks := rest })

end MemoryChannels
end AudioFocus
