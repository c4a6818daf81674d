import AudioFocus.Channel.Key
import AudioFocus.Event.Record
import AudioFocus.Fifo.FileSystem

/-!
The arbiter's side of a channel over FIFOs.
-/
namespace AudioFocus

/-- A connection of the arbiter to a channel: it listens for acknowledgements. -/
structure Peer where
  dir : String
  key : ChannelKey
  /-- What it reads acknowledgements from. -/
  node : Nat
  /-- How much of it has been read, where it is a file. -/
  offset : Nat := 0

namespace Peer

/-- Fails unless the client has made the channel. -/
def connect (dir : String) (key : ChannelKey) (fs : FileSystem) :
    Except SystemError (Peer × FileSystem) := do
  let (node, fs) ← fs.openRead dir key.ackName
  return ({ dir, key, node }, fs)

def disconnect (p : Peer) (fs : FileSystem) : FileSystem := fs.closeEnd p.node

def post (p : Peer) (e : Event) (fs : FileSystem) : Except SystemError FileSystem :=
  fs.write p.dir p.key.eventName e.toRecord

/-- Reads once, as much as an acknowledgement takes. -/
def read (p : Peer) (fs : FileSystem) : Except SystemError (List UInt8) × Peer × FileSystem :=
  match fs.nodes[p.node]? with
  | some (.file content) =>
    let chunk := (content.drop p.offset).take Ack.recordSize
    (.ok chunk, { p with offset := p.offset + chunk.length }, fs)
  | some .directory => (.error .isDirectory, p, fs)
  | _ =>
    let (chunk, fs) := fs.readFifo p.node Ack.recordSize
    (.ok chunk, p, fs)

/-- Waits for an acknowledgement. Nothing arrives while the arbiter waits, so the wait ends with
what is there: a whole record, or in vain. A part of a record is lost. -/
def waitAck (p : Peer) (wait : Duration) (fs : FileSystem) : Result Int32 × Peer × FileSystem :=
  if wait.nanoseconds = 0 then (.error (.timedOut wait), p, fs)
  else
    match p.read fs with
    | (.error e, p, fs) => (.error (.system e), p, fs)
    | (.ok chunk, p, fs) =>
      if chunk.length = Ack.recordSize then (.ok (Ack.ofRecord chunk), p, fs)
      else (.error (.timedOut wait), p, fs)

end Peer
end AudioFocus
