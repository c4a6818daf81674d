import AudioFocus.Channel.Memory
import AudioFocus.Fifo.Channels

/-!
The channels of a client, of either kind, behind one set of operations.
-/
namespace AudioFocus

inductive Channels
  | memory (m : MemoryChannels)
  | fifo (c : FifoChannels) (fs : FileSystem)

namespace Channels

def isOpen : Channels → ChannelKey → Bool
  | memory m, key => m.isOpen key
  | fifo c _, key => c.isOpen key

/-- How often a channel is open. -/
def refs : Channels → ChannelKey → Nat
  | memory m, key => ((m.channels.get? key).map (·.refs)).getD 0
  | fifo c _, key => ((c.channels.get? key).map (·.refs)).getD 0

def openChannel : Channels → ChannelKey → Result Unit × Channels
  | memory m, key => (.ok (), memory (m.openChannel key))
  | fifo c fs, key =>
    let (r, c, fs) := c.openChannel fs key
    (r.mapError .system, fifo c fs)

def closeChannel : Channels → ChannelKey → Channels
  | memory m, key => memory (m.closeChannel key)
  | fifo c fs, key =>
    let (c, fs) := c.closeChannel fs key
    fifo c fs

def sendAck : Channels → ChannelKey → Int32 → Result Unit × Channels
  | memory m, key, handle => (.ok (), memory (m.sendAck key handle))
  | fifo c fs, key, handle =>
    match c.sendAck fs key handle with
    | .ok fs => (.ok (), fifo c fs)
    | .error e => (.error (.system e), fifo c fs)

def nextEvent : Channels → Option (ChannelKey × Event) × Channels
  | memory m =>
    let (e, m) := m.nextEvent
    (e, memory m)
  | fifo c fs =>
    let (e, c, fs) := c.nextEvent fs
    (e, fifo c fs)

/-- Whether a wait for events would find something. -/
def pending : Channels → Bool
  | memory m => !m.queue.isEmpty
  | fifo c fs => c.readable fs

/-- Ends a wait for events. Over FIFOs that leaves no trace. -/
def wake : Channels → Channels
  | memory m => memory m.wake
  | fifo c fs => fifo c fs

end Channels
end AudioFocus
