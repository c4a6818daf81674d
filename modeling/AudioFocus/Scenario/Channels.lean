import AudioFocus.Scenario.External

/-!
Scenarios on channels alone, of either kind, with no client around them.
-/
namespace AudioFocus.Scenario

inductive ChannelOp
  | openChannel (key : ChannelKey)
  | closeChannel (key : ChannelKey)
  | sendAck (key : ChannelKey) (handle : Int32)
  | isOpen (key : ChannelKey)
  | wake

def ChannelOp.run (c : Channels) : ChannelOp → Channels × Outcome
  | openChannel key =>
    let (r, c) := c.openChannel key
    (c, .ofResult (fun _ => .unit) r)
  | closeChannel key => (c.closeChannel key, .ok .unit)
  | sendAck key handle =>
    let (r, c) := c.sendAck key handle
    (c, .ofResult (fun _ => .unit) r)
  | isOpen key => (c, .ok (.flag (c.isOpen key)))
  | wake => (c.wake, .ok .unit)

/-- Waits for events so many times, and gives those that came. -/
def drain (c : Channels) : Nat → List (ChannelKey × Event) × Channels
  | 0 => ([], c)
  | n + 1 =>
    let (e, c) := c.nextEvent
    let (events, c) := drain c n
    (e.toList ++ events, c)

/-- Events by channel; those of one channel stay in order. -/
def sortByChannel (events : List (ChannelKey × Event)) : List (ChannelKey × Event) :=
  events.mergeSort fun a b => a.1.listedBefore b.1

namespace Memory

inductive Op
  | channel (o : ChannelOp)
  | nextEvent
  | drain (calls : Nat)
  | push (key : ChannelKey) (e : Event)
  | receiveAck
  | openChannels
  /-- An operation whose arguments alone settle what it gives. -/
  | settled (outcome : Outcome)

def Op.run (m : MemoryChannels) : Op → MemoryChannels × Outcome
  | channel o =>
    match o.run (.memory m) with
    | (.memory m, outcome) => (m, outcome)
    | (_, outcome) => (m, outcome)
  | nextEvent =>
    let (e, m) := m.nextEvent
    (m, .ok (.event e))
  | drain calls =>
    match Scenario.drain (.memory m) calls with
    | (events, .memory m) => (m, .ok (.events (sortByChannel events)))
    | (events, _) => (m, .ok (.events (sortByChannel events)))
  | push key e =>
    match m.push key e with
    | .ok m => (m, .ok .unit)
    | .error e => (m, .failed e)
  | receiveAck =>
    let (a, m) := m.receiveAck
    (m, .ok (.ack a))
  | openChannels => (m, .ok (.count m.channels.size))
  | settled outcome => (m, outcome)

/-- The outcomes of a scenario, each with the number of channels that are open after it. -/
def run (m : MemoryChannels) : List Op → List (Outcome × Nat)
  | [] => []
  | o :: rest =>
    let (m, outcome) := o.run m
    (outcome, m.channels.size) :: run m rest

end Memory

namespace Fifo

/-- Several clients over one directory: the main one, and others by name. -/
structure State where
  dir : String
  fs : FileSystem
  main : FifoChannels
  others : List (String × FifoChannels) := []
  peers : Peers := []

/-- The channels of the client of that name; all names that are not known are the main one's. -/
def State.client (s : State) (name : String) : FifoChannels :=
  (s.others.lookup name).getD s.main

def State.setClient (s : State) (name : String) (c : FifoChannels) : State :=
  if (s.others.lookup name).isSome then
    { s with others := s.others.map fun e => if e.1 = name then (name, c) else e }
  else { s with main := c }

inductive Op
  /-- On the channels of the client of that name. -/
  | channel (client : String) (o : ChannelOp)
  | nextEvent (client : String)
  | drain (client : String) (calls : Nat)
  | newClient (name : String)
  | dropClient (name : String)
  | external (o : ExternalOp)
  /-- An operation whose arguments alone settle what it gives. -/
  | settled (outcome : Outcome)

/-- Puts the channels of a client back, with the file system that they left. -/
def State.update (s : State) (name : String) : Channels → State
  | .fifo c fs => { s.setClient name c with fs }
  | .memory _ => s

def State.run (s : State) : Op → State × Outcome
  | .channel name o =>
    let (c, outcome) := o.run (.fifo (s.client name) s.fs)
    (s.update name c, outcome)
  | .nextEvent name =>
    let (e, c) := Channels.nextEvent (.fifo (s.client name) s.fs)
    (s.update name c, .ok (.event e))
  | .drain name calls =>
    let (events, c) := Scenario.drain (.fifo (s.client name) s.fs) calls
    (s.update name c, .ok (.events (sortByChannel events)))
  | .newClient name =>
    let s := match s.others.lookup name with
      | some c => { s with fs := c.drop s.fs, others := s.others.filter (·.1 ≠ name) }
      | none => s
    ({ s with others := s.others ++ [(name, { dir := s.dir })] }, .ok (.directory s.dir))
  | .dropClient name =>
    match s.others.lookup name with
    | some c =>
      ({ s with fs := c.drop s.fs, others := s.others.filter (·.1 ≠ name) }, .ok (.flag true))
    | none => (s, .ok (.flag false))
  | .external o =>
    let (peers, fs, outcome) := o.run s.dir s.peers s.fs
    ({ s with peers, fs }, outcome)
  | .settled outcome => (s, outcome)

/-- The outcomes of a scenario, each with the names in the directory after it. -/
def runAll (s : State) : List Op → List (Outcome × List (String × Node))
  | [] => []
  | o :: rest =>
    let (s, outcome) := s.run o
    (outcome, s.fs.list s.dir) :: runAll s rest

end Fifo
end AudioFocus.Scenario
