import AudioFocus.Channel.Map
import AudioFocus.Event.Record
import AudioFocus.Fifo.FileSystem

/-!
Notification channels over named FIFOs, from the client's side. A channel has an event FIFO,
which the client holds open, and an acknowledgement FIFO, which it opens to write one record.
-/
namespace AudioFocus

/-- An open channel: the node of its event FIFO, and the opens that no close has answered. -/
structure FifoChannel where
  node : Nat
  refs : Nat
deriving DecidableEq

structure FifoChannels where
  dir : String
  channels : ChannelMap FifoChannel := {}
  /-- Where the next scan starts, so that a busy channel does not keep the others waiting. -/
  cursor : Nat := 0

namespace FifoChannels

def isOpen (c : FifoChannels) (key : ChannelKey) : Bool := c.channels.contains key

/-- Makes both FIFOs and holds the event FIFO. What was made before a failure is removed. The last
step finds the FIFO that the first one has made, so it is never what fails. -/
def makePair (dir : String) (fs : FileSystem) (key : ChannelKey) :
    Except SystemError Nat × FileSystem :=
  match fs.makeFifo dir key.eventName with
  | .error e => (.error e, fs)
  | .ok fs =>
    match fs.makeFifo dir key.ackName with
    | .error e => (.error e, fs.discard dir key.eventName)
    | .ok fs =>
      match fs.openHeld dir key.eventName with
      | .error e => (.error e, (fs.discard dir key.eventName).discard dir key.ackName)
      | .ok (node, fs) => (.ok node, fs)

def openChannel (c : FifoChannels) (fs : FileSystem) (key : ChannelKey) :
    Except SystemError Unit × FifoChannels × FileSystem :=
  match c.channels.get? key with
  | some _ =>
    let channels := c.channels.modify key fun ch => { ch with refs := ch.refs + 1 }
    (.ok (), { c with channels }, fs)
  | none =>
    match makePair c.dir fs key with
    | (.error e, fs) => (.error e, c, fs)
    | (.ok node, fs) => (.ok (), { c with channels := c.channels.insert key ⟨node, 1⟩ }, fs)

/-- An arbiter that has stopped listening, or a FIFO that is gone, is no error. -/
def sendAck (c : FifoChannels) (fs : FileSystem) (key : ChannelKey) (handle : Int32) :
    Except SystemError FileSystem :=
  match fs.write c.dir key.ackName (Ack.toRecord handle) with
  | .ok fs => .ok fs
  | .error e => if e = .noReader ∨ e = .noEntry then .ok fs else .error e

def removeFiles (c : FifoChannels) (fs : FileSystem) (key : ChannelKey) : FileSystem :=
  (fs.discard c.dir key.eventName).discard c.dir key.ackName

/-- The last close tells a listening arbiter and removes the FIFOs. -/
def closeChannel (c : FifoChannels) (fs : FileSystem) (key : ChannelKey) :
    FifoChannels × FileSystem :=
  match c.channels.get? key with
  | none => (c, fs)
  | some ch =>
    if 1 < ch.refs then
      ({ c with channels := c.channels.modify key fun ch => { ch with refs := ch.refs - 1 } }, fs)
    else
      let c := { c with channels := c.channels.erase key }
      let fs := fs.closeEnd ch.node
      let fs := match c.sendAck fs key key.finalAck with
        | .ok fs => fs
        | .error _ => fs
      (c, c.removeFiles fs key)

/-- One read from each channel in turn, up to the first that brings an event. A read that brings
less than a record, or a malformed one, is lost. -/
def scan (fs : FileSystem) :
    List ((ChannelKey × FifoChannel) × Nat) → Option (ChannelKey × Event × Nat) × FileSystem
  | [] => (none, fs)
  | ((key, ch), i) :: rest =>
    let (chunk, fs) := fs.readFifo ch.node Event.recordSize
    match Event.ofChunk? chunk with
    | some e => (some (key, e, i), fs)
    | none => scan fs rest

/-- The channels in the order of the next scan, each with its place. -/
def scanOrder (c : FifoChannels) : List ((ChannelKey × FifoChannel) × Nat) :=
  c.channels.entries.zipIdx.rotateLeft c.cursor

def nextEvent (c : FifoChannels) (fs : FileSystem) :
    Option (ChannelKey × Event) × FifoChannels × FileSystem :=
  match scan fs c.scanOrder with
  | (some (key, e, i), fs) => (some (key, e), { c with cursor := i + 1 }, fs)
  | (none, fs) => (none, c, fs)

/-- Whether some channel has octets to read. -/
def readable (c : FifoChannels) (fs : FileSystem) : Bool :=
  c.channels.entries.any fun (_, ch) => !(fs.waiting ch.node).isEmpty

/-- Gives up all channels: their FIFOs are removed and nobody is told. -/
def drop (c : FifoChannels) (fs : FileSystem) : FileSystem :=
  c.channels.entries.foldl (fun fs (key, ch) => c.removeFiles (fs.closeEnd ch.node) key) fs

end FifoChannels
end AudioFocus
