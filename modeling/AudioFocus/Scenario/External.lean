import AudioFocus.Fifo.Peer
import AudioFocus.Scenario.Outcome

/-!
What others do to the FIFOs of a scenario: the arbiter, by name of its connections, and whoever
makes and removes files.
-/
namespace AudioFocus.Scenario

inductive ExternalOp
  | connect (peer : String) (key : ChannelKey)
  | disconnect (peer : String)
  /-- The event, or why there is none. -/
  | post (peer : String) (e : Result Event)
  | waitAck (peer : String) (wait : Duration)
  | deliver (key : ChannelKey) (e : Event) (wait : Duration)
  | writeEvents (key : ChannelKey) (octets : List UInt8)
  | writeAcks (key : ChannelKey) (octets : List UInt8)
  | make (name : String) (node : Node)
  | remove (name : String)

abbrev Peers := List (String × Peer)

namespace Peers

def set (peers : Peers) (name : String) (p : Peer) : Peers :=
  peers.filter (·.1 ≠ name) ++ [(name, p)]

def hangUp (peers : Peers) (name : String) (fs : FileSystem) : Peers × FileSystem :=
  match peers.lookup name with
  | some p => (peers.filter (·.1 ≠ name), p.disconnect fs)
  | none => (peers, fs)

end Peers

def connectAndPost (dir : String) (key : ChannelKey) (e : Event) (fs : FileSystem) :
    Except SystemError (Peer × FileSystem) := do
  let (p, fs) ← Peer.connect dir key fs
  return (p, ← p.post e fs)

def collect (p : Peer) (wait : Duration) (fs : FileSystem) : FileSystem × Outcome :=
  let (r, p, fs) := p.waitAck wait fs
  (p.disconnect fs, .ofResult .id r)

/-- The outcome of a change of the file system, which stays as it was if that fails. -/
def changing (peers : Peers) (fs : FileSystem) (r : Except SystemError FileSystem) :
    Peers × FileSystem × Outcome :=
  match r with
  | .ok fs => (peers, fs, .ok .unit)
  | .error e => (peers, fs, .failed (.system e))

/-- The outcome of a change by whoever handles files in general, and is not told where in a name a
zero octet is. -/
def changingFile (peers : Peers) (fs : FileSystem) (r : Except SystemError FileSystem) :
    Peers × FileSystem × Outcome :=
  changing peers fs (r.mapError .unplaced)

def ExternalOp.run (dir : String) (peers : Peers) (fs : FileSystem) :
    ExternalOp → Peers × FileSystem × Outcome
  | connect name key =>
    match Peer.connect dir key fs with
    | .ok (p, fs) =>
      let (peers, fs) := peers.hangUp name fs
      (peers.set name p, fs, .ok (.channel key))
    | .error e => (peers, fs, .failed (.system e))
  | disconnect name =>
    let known := (peers.lookup name).isSome
    let (peers, fs) := peers.hangUp name fs
    (peers, fs, .ok (.flag known))
  | post name e =>
    match peers.lookup name, e with
    | some p, .ok e => changing peers fs (p.post e fs)
    | some _, .error e => (peers, fs, .failed e)
    | none, _ => (peers, fs, .refused .noPeer)
  | waitAck name wait =>
    match peers.lookup name with
    | some p =>
      let (r, p, fs) := p.waitAck wait fs
      (peers.set name p, fs, .ofResult .id r)
    | none => (peers, fs, .refused .noPeer)
  | deliver key e wait =>
    match connectAndPost dir key e fs with
    | .ok (p, fs) => (peers, collect p wait fs)
    | .error e => (peers, fs, .failed (.system e))
  | writeEvents key octets => changingFile peers fs (fs.write dir key.eventName octets)
  | writeAcks key octets => changingFile peers fs (fs.write dir key.ackName octets)
  | make name (.fifo mode queue readers) =>
    changing peers fs (fs.create (pathFrom dir name) (.fifo mode queue readers))
  | make name node => changingFile peers fs (fs.create (pathFrom dir name) node)
  | remove name => changingFile peers fs (fs.remove (pathFrom dir name))

end AudioFocus.Scenario
