import AudioFocus.Client.Operation
import AudioFocus.Config
import AudioFocus.Dispatcher

/-!
A client of the arbiter: what it consists of, and the parts that its operations are made of.

A registration takes its slot, its channel, the arbiter and the loop, in this order. When one of
them fails, what was taken before is given back. A teardown takes the slot's guard if nobody holds
it, then asks the arbiter, closes the channel and frees the slot, whatever the arbiter replies.
-/
namespace AudioFocus

structure Client (κ : Type) extends Dispatcher κ where
  config : Config
  /-- The process of the client, which owns whatever no session does. -/
  pid : Int32
  signals : Signals
  /-- Whether the crash guard is this client's. -/
  guarding : Bool := false
  /-- Each arrival of a fatal signal, oldest first, with what the signal did then. -/
  met : List (FatalSignal × Disposition) := []

namespace Client

variable {κ : Type}

def create (config : Config) (pid : Int32) (channels : Channels) (signals : Signals)
    (faults : Faults) : Result (Client κ) :=
  if config.maxHandles = 0 then refuse .noHandles
  else do
    let signals ←
      if config.installCrashGuard then
        let (installed, signals) := signals.install faults.threads faults.handlers
        installed.map fun () => signals
      else .ok signals
    return {
      registry := .ofCapacity config.maxHandles
      channels, faults, config, pid, signals
      guarding := config.installCrashGuard }

def liveHandles (c : Client κ) : Nat := c.registry.liveCount

def withRegistry (c : Client κ) (r : Registry κ) : Client κ := { c with registry := r }

def withDispatcher (c : Client κ) (d : Dispatcher κ) : Client κ := { c with toDispatcher := d }

def closeChannel (c : Client κ) (key : ChannelKey) : Client κ :=
  c.withDispatcher (c.toDispatcher.closeChannel key)

def stop (c : Client κ) : Client κ := c.withDispatcher c.toDispatcher.stop

def ask (c : Client κ) (request : Request) (pending : Pending) : Client κ × Progress :=
  (c.withDispatcher (c.note (.request request)), .asking request pending)

/-- Gives the slot of a failed registration back, which takes its guard. -/
def giveBack (c : Client κ) (slot : Nat) (reg : Registration) (cause : FocusError) :
    Client κ × Progress :=
  if c.registry.isGuarded slot then (c, .stuck slot)
  else (c.withRegistry (c.registry.vacate slot reg.id reg.space), .finished (.error cause))

/-- Opens the channel of a registration that has just got its slot, and announces it. -/
def activate (c : Client κ) (slot : Nat) (reg : Registration) : Client κ × Progress :=
  match c.openChannel reg.channel with
  | (.ok (), d) => (c.withDispatcher d).ask reg.announcement (.registering slot reg)
  | (.error e, d) =>
    let c := c.withDispatcher d
    match c.registry.claim? slot reg.id reg.space with
    | none => (c, .finished (.error e))
    | some r => (c.withRegistry r).giveBack slot reg e

/-- What a registration gives: a watch gives its id. -/
def registered (reg : Registration) : Value :=
  match reg.space with
  | .focus => .unit
  | .watch => .id reg.id

/-- The arbiter has replied to the announcement. A registration that failed is taken apart, unless
some teardown has claimed it meanwhile. -/
def announced (c : Client κ) (slot : Nat) (reg : Registration) (reply : Result Reply) :
    Client κ × Progress :=
  match Reply.expectDone reg.announcement.method reply with
  | .error e =>
    match c.registry.claim? slot reg.id reg.space with
    | none => (c, .finished (.error e))
    | some r => ((c.withRegistry r).closeChannel reg.channel).giveBack slot reg e
  | .ok () =>
    match c.start with
    | (.ok (), d) => (c.withDispatcher d, .finished (.ok (registered reg)))
    | (.error e, d) =>
      let c := c.withDispatcher d
      match c.registry.claim? slot reg.id reg.space with
      | none => (c, .finished (.error e))
      | some r =>
        let c := c.withRegistry r
        match c.registry.registration? slot with
        | some current => c.ask current.withdrawal (.undoing slot reg e)
        | none => (c.closeChannel reg.channel).giveBack slot reg e

/-- Claims a registration for its teardown and takes its guard, if nobody holds it. -/
def beginTeardown (c : Client κ) (slot : Nat) (reg : Registration) : Option (Client κ × Bool) :=
  match c.registry.claim? slot reg.id reg.space with
  | none => none
  | some r =>
    if r.isGuarded slot then some (c.withRegistry r, false)
    else some (c.withRegistry (r.guard slot), true)

/-- The arbiter has replied to the withdrawal. The callback is cleared if the guard was taken. -/
def endTeardown (c : Client κ) (slot : Nat) (reg : Registration) (guarded : Bool) : Client κ :=
  let c := c.closeChannel reg.channel
  let r := c.registry.release slot reg.id reg.space
  c.withRegistry (if guarded then (r.unbind slot reg.id reg.space).unguard slot else r)

/-- A signal arrives, and does what it does at present. -/
def meet (c : Client κ) (signal : FatalSignal) : Client κ :=
  { c with met := c.met ++ [(signal, c.signals.current signal)] }

/-- The end of the guard's handler: the signal gets back what it did before the guard, and is raised
again. -/
def reraise (c : Client κ) (signal : FatalSignal) : Client κ :=
  { c with signals := c.signals.restore signal }.meet signal

def removeGuard (c : Client κ) : Client κ :=
  if c.guarding then { c with signals := c.signals.remove, guarding := false } else c

/-- Tears down the registrations one after the other, and what is left of the client after them.
Those that some other teardown has claimed are left to it. -/
def teardownAll (c : Client κ) : List (Nat × Registration) → Client κ × Progress
  | [] => (c.removeGuard, .finished (.ok .unit))
  | (slot, reg) :: rest =>
    match c.beginTeardown slot reg with
    | none => c.teardownAll rest
    | some (c, guarded) => c.ask reg.withdrawal (.tearingDown slot reg guarded (some rest))

def teardown (c : Client κ) (slot : Nat) (reg : Registration) : Client κ × Progress :=
  match c.beginTeardown slot reg with
  | none => (c, .finished (refuse (.unregistered reg.id)))
  | some (c, guarded) => c.ask reg.withdrawal (.tearingDown slot reg guarded none)

def owner (c : Client κ) (session : Bool) (pid : Int32) : Result Int32 :=
  if !session then .ok c.pid
  else if pid ≤ 0 then refuse (.sessionOwner pid)
  else .ok pid

def focus (c : Client κ) (id : Int32) : Result (Nat × Registration) :=
  match c.registry.find? id .focus with
  | none => refuse (.unknownFocus id)
  | some slot =>
    match c.registry.registration? slot with
    | some reg => .ok (slot, reg)
    | none => refuse (.unknownFocus id)

/-- The live registration of a watch, which is in the slot that its id tells. -/
def watch (c : Client κ) (id : Int32) : Result (Nat × Registration) := do
  let slot ← watchSlot id
  match c.registry.registration? slot with
  | some reg =>
    if reg.space = .watch ∧ reg.id = id then return (slot, reg)
    else refuse (.unknownWatch id)
  | none => refuse (.unknownWatch id)

end Client
end AudioFocus
