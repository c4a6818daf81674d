import AudioFocus.Scenario.State

/-!
Whole scenarios: one report for each operation, of its result, of what happened meanwhile and of
what can be seen after it.
-/
namespace AudioFocus.Scenario

inductive ChannelView
  /-- How many are open, and the acknowledgements that came. -/
  | memory (openChannels : Nat) (acks : List (ChannelKey × Int32))
  | fifo (listing : List (String × Node))

structure Report where
  outcome : Outcome
  log : List Entry
  /-- Live registrations, unless the client has been given up. -/
  live : Option Nat
  channels : ChannelView

namespace State

/-- Runs of callbacks that make work for each other need not end: no operation takes more steps
than this. -/
def stepLimit : Nat := 1000000

/-- What can be seen of the channels; the arbiter takes all acknowledgements. -/
def observe (s : State) : ChannelView × State :=
  match s.client.channels with
  | .memory m =>
    (.memory m.channels.size m.acks,
      { s with client := { s.client with channels := .memory { m with acks := [] } } })
  | .fifo c fs => (.fifo (fs.list c.dir), s)

/-- Runs one operation. A loop that runs by itself has read everything when it ends. -/
def perform (s : State) (o : Op) : Report × State :=
  let s := { s with work := .op .top o :: s.meanwhile, log := [], outcome := none }
  let s := { s.steps stepLimit with work := [], threads := [] }
  let (channels, s) := s.observe
  ({ outcome := s.outcome.getD (.refused .endless), log := s.log
     live := if s.dropped then none else some s.client.liveHandles, channels }, s)

def run (s : State) : List Op → List Report
  | [] => []
  | o :: rest =>
    let (report, s) := s.perform o
    report :: run s rest

/-- A scenario on a registry, with memory channels, a loop and no client. -/
def ofRegistry (capacity : Nat) : State where
  client := {
    registry := .ofCapacity capacity
    channels := .memory {}
    config := {}
    pid := 0
    signals := .uniform .ignored }

/-- A scenario on a client; it begins with all fatal signals ignored. -/
def ofClient (config : Config) (pid : Int32) (channels : Channels) (faults : Faults)
    (freeRunning : Bool) : Result State := do
  let client ← Client.create config pid channels (.uniform .ignored) faults
  return { client, freeRunning }

end State
end AudioFocus.Scenario
