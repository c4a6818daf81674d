import AudioFocus.Scenario.Arbiter

/-!
A scenario around a client or a registry. What is left to do is a stack of work: an operation that
asks the arbiter puts there what the arbiter does first, and then the answer; a callback puts there
what it does, and then its return. One step takes the top of the stack.
-/
namespace AudioFocus.Scenario

/-- Where the result of an operation goes. -/
inductive Label
  /-- It is the result of the scenario's own operation. -/
  | top
  /-- It is logged, with the operation. -/
  | nested (o : Op)
  /-- It is collected for the registration that is being entered. -/
  | during
  /-- Nobody asked for it. -/
  | unheard

inductive Work
  | op (label : Label) (o : Op)
  /-- The arbiter answers, and the operation that asked goes on. -/
  | answer (label : Label) (request : Request) (pending : Pending)
  | callbackReturns (slot : Nat) (key : ChannelKey) (handle : Int32)
  /-- The current thread goes back to what it was. -/
  | leaveThread
  | report (label : Label) (outcome : Outcome)
  /-- The loop goes on, if it can; `count` events have been delivered. -/
  | pump (label : Option Label) (count : Nat)
  /-- The arbiter waits for an acknowledgement. -/
  | collect (label : Label) (peer : Peer) (wait : Duration)
  /-- A registration is being entered in a slot. -/
  | enter (label : Label) (slot : Nat) (draft : Draft) (callback : Callback)
      (inquiries : List Inquiry)
  /-- A client that was given up, and that nobody uses any more, is finalized. -/
  | part

/-- Whether this is the rest of an operation of the client, which keeps the client in use. -/
def Work.usesClient : Work → Bool
  | .answer _ _ (.reportingExit _) | .answer _ _ .notifyingExit => false
  | .answer .. => true
  | _ => false

/-- Which thread runs, inside a callback or a handler. The crash guard's own thread holds fatal
signals back, so that they find some other thread; threads that it starts do so too. -/
inductive Thread
  /-- The loop's, which may hold fatal signals back. -/
  | dispatch (holding : Bool)
  /-- The main thread, while a callback waits for it. -/
  | main
  | crashGuard
deriving DecidableEq

def Thread.isDispatch : Thread → Bool
  | dispatch _ => true
  | _ => false

def Thread.isHolding : Thread → Bool
  | dispatch holding => holding
  | main => false
  | crashGuard => true

inductive Activity
  | reading
  | inCallback
  /-- It has an event in hand, and waits for the guard of the slot that it has found. -/
  | waiting (errand : Errand)

def Activity.isWaiting : Activity → Bool
  | waiting _ => true
  | _ => false

/-- What comes after the end of a callback. A loop that was started inside it is at something
else. -/
def Activity.afterCallback : Activity → Activity
  | inCallback => reading
  | a => a

structure State where
  client : Client Callback
  dropped : Bool := false
  /-- Whether it was given up with operations under way. The last of them finalizes it. -/
  parting : Bool := false
  /-- Whether the loop runs by itself, with no pumping. Channels are then neither logged nor made
  to fail. -/
  freeRunning : Bool := false
  /-- Whether the loop's thread holds fatal signals back, as the thread did that started it. -/
  loopHolding : Bool := false
  activity : Activity := .reading
  arbiter : Arbiter := {}
  held : List Nat := []
  peers : Peers := []
  /-- The current thread and those that wait for it; at the bottom is always the main thread. -/
  threads : List Thread := []
  work : List Work := []
  log : List Entry := []
  outcome : Option Outcome := none
  during : List Outcome := []

namespace State

def onDispatchThread (s : State) : Bool := s.threads.head?.any (·.isDispatch)

def onLentMain (s : State) : Bool := s.threads.head? = some .main

/-- Whether a callback is running and the main thread is there to do something for it. -/
def canLendMain (s : State) : Bool :=
  s.threads.any (·.isDispatch) && !s.threads.contains .main && !s.freeRunning

def holdsSignals (s : State) : Bool := s.threads.head?.any (·.isHolding)

def push (s : State) (work : List Work) : State := { s with work := work ++ s.work }

/-- What a loop that runs by itself does between two operations. -/
def meanwhile (s : State) : List Work := if s.freeRunning then [.pump none 0] else []

/-- Puts the operations of a body on the stack, each to be logged when it ends, and more work below
them. -/
def pushBody (s : State) (body : List Op) (work : List Work) : State :=
  s.push (body.flatMap (fun o => .op (.nested o) o :: s.meanwhile) ++ work)

def inUse (s : State) : Bool := s.work.any (·.usesClient)

/-- Goes on with some work when an operation of the client has ended. A client that was given up
meanwhile is finalized first, unless another operation is under way. -/
def leave (s : State) (work : List Work) : State :=
  if s.parting && !s.inUse then { s with parting := false }.push (.part :: work) else s.push work

def note (s : State) (e : Entry) : State := { s with log := s.log ++ [e] }

/-- Takes over a client and logs what it has done. A loop that it has started is the child of the
current thread. -/
def absorb (s : State) (c : Client Callback) : State :=
  let started := c.running && !s.client.running
  let shown := c.trace.filter fun
    | .request _ => true
    | _ => !s.freeRunning
  { s with
    client := { c with trace := [] }
    loopHolding := if started then s.holdsSignals else s.loopHolding
    activity := if started then .reading else s.activity
    log := s.log ++ shown.map .action }

def report (s : State) (label : Label) (outcome : Outcome) : State :=
  match label with
  | .top => { s with outcome := some outcome }
  | .nested o => s.note (.nested o outcome)
  | .during => { s with during := s.during ++ [outcome] }
  | .unheard => s

/-- Goes on with an operation of the client: reports its result, or has the arbiter answer. -/
def proceed (s : State) (label : Label) (r : Client Callback × Progress) : State :=
  let s := s.absorb r.1
  match r.2 with
  | .finished result => s.leave [.report label (.ofResult .ofValue result)]
  | .asking request pending =>
    let (body, arbiter) := s.arbiter.takeHook request.method
    { s with arbiter }.pushBody body [.answer label request pending]
  | .stuck _ => s.report label (.refused .endless)

/-- The loop hands an event on, with this result. If it runs by itself it can wait for a guard. -/
def handOn (s : State) (label : Option Label) (count : Nat) (key : ChannelKey) (e : Event)
    (delivered : Dispatcher.Delivery Callback × Client Callback) : State :=
  let s := { s.absorb delivered.2 with activity := .reading }
  match delivered.1, label with
  | .dropped, _ | .skipped, _ => s.push [.pump label (count + 1)]
  | .running slot callback, _ =>
    let threads := .dispatch s.loopHolding :: s.threads
    let s := s.note (.callback callback.tag e (!s.dropped))
    { s with threads, activity := .inCallback }.pushBody callback.body
      [.callbackReturns slot key e.handle, .pump label (count + 1)]
  | .waiting x, none => { s with activity := .waiting x }
  | .waiting _, some label => s.report label (.refused .endless)

/-- One round of the loop, which ends when it has stopped, when nothing is there to read, or when
its thread is inside a callback. -/
def pumpOnce (s : State) (label : Option Label) (count : Nat) : State :=
  let ended := match label with
    | some label => s.report label (.ok (.count count))
    | none => s
  if !s.client.running then ended
  else
    match s.activity with
    | .inCallback => ended
    | .waiting x => s.handOn label count x.key x.event (s.client.enter x)
    | .reading =>
      if !s.client.channels.pending then ended
      else
        match s.client.nextEvent with
        | (none, d) => (s.absorb (s.client.withDispatcher d)).push [.pump label count]
        | (some (key, e), d) =>
          let s := s.absorb (s.client.withDispatcher d)
          s.handOn label count key e (s.client.deliver key e)

def withRegistry (s : State) (r : Registry Callback) : State :=
  { s with client := s.client.withRegistry r }

def abandon (s : State) : Work → State
  | .answer _ _ (.tearingDown slot _ true _) =>
    s.withRegistry (s.client.registry.unguard slot)
  | .enter .. => s.withRegistry { s.client.registry with busy := false }
  | _ => s

/-- The callback ends at once; what it had left to do is not done. -/
def unwind (s : State) : State :=
  let ending : Work → Bool
    | .callbackReturns .. => true
    | _ => false
  let s := (s.work.takeWhile (!ending ·)).foldl abandon (s.note .panicked)
  { s with
    work := s.work.dropWhile (!ending ·)
    threads := s.threads.dropWhile (!·.isDispatch) }.leave []

def view (s : State) (slot : Nat) : GuardView :=
  match s.client.registry.slots[slot]? with
  | none => .empty
  | some found =>
    if found.guarded then .held
    else
      match found.binding with
      | some b => .bound b.id b.space
      | none => .empty

def setBinding (s : State) (slot : Nat) (b : Option (Binding Callback)) : State × Outcome :=
  if s.client.registry.isGuarded slot then (s, .ok (.guard .held))
  else (s.withRegistry (s.client.registry.bind slot b), .ok .unit)

def runRegistry (s : State) : RegistryOp → State × Outcome
  | .find id space => (s, .ok (.countOrNone (s.client.registry.find? id space)))
  | .get slot => (s, .ok (.registration (s.client.registry.registration? slot)))
  | .claim slot id space =>
    match s.client.registry.claim? slot id space with
    | some r => (s.withRegistry r, .ok (.flag true))
    | none => (s, .ok (.flag false))
  | .release slot id space =>
    match s.client.registry.release? slot id space with
    | some (reg, r) => (s.withRegistry r, .ok (.registration (some reg)))
    | none => (s, .ok (.registration none))
  | .capacity => (s, .ok (.count s.client.registry.capacity))
  | .handles => (s, .ok (.registrations s.client.registry.live))
  | .ownedBy pid => (s, .ok (.countOrNone (s.client.registry.ownedBy? pid)))
  | .hold slot =>
    if s.client.registry.capacity ≤ slot then (s, .ok (.flagOrNone none))
    else if s.client.registry.isGuarded slot then (s, .ok (.flag false))
    else
      ({ s.withRegistry (s.client.registry.guard slot) with held := slot :: s.held },
        .ok (.flag true))
  | .unhold slot =>
    if slot ∈ s.held then
      ({ s.withRegistry (s.client.registry.unguard slot) with held := s.held.erase slot },
        .ok (.flag true))
    else (s, .ok (.flag false))
  | .binding slot => (s, .ok (.guard (s.view slot)))
  | .unbind slot => s.setBinding slot none

/-- What the client's own threads do to its channels. -/
def runChannel (s : State) : ChannelOp → State × Outcome
  | .openChannel key =>
    let (r, d) := s.client.openChannel key
    (s.absorb (s.client.withDispatcher d), .ofResult (fun _ => .unit) r)
  | .closeChannel key => (s.absorb (s.client.closeChannel key), .ok .unit)
  | .sendAck key handle =>
    let (r, d) := s.client.sendAck key handle
    (s.absorb (s.client.withDispatcher d), .ofResult (fun _ => .unit) r)
  | o =>
    let (channels, outcome) := o.run s.client.channels
    ({ s with client := { s.client with channels } }, outcome)

def runExternal (s : State) (label : Label) (o : ExternalOp) : State :=
  match s.client.channels with
  | .memory _ => s.report label (.refused .otherChannels)
  | .fifo c fs =>
    let update (s : State) (peers : Peers) (fs : FileSystem) : State :=
      { s with peers, client := { s.client with channels := .fifo c fs } }
    match o, s.freeRunning with
    | .deliver key e wait, true =>
      match connectAndPost c.dir key e fs with
      | .ok (p, fs) => (update s s.peers fs).push [.pump none 0, .collect label p wait]
      | .error e => s.report label (.failed (.system e))
    | o, _ =>
      let (peers, fs, outcome) := o.run c.dir s.peers fs
      (update s peers fs).report label outcome

def runCollect (s : State) (label : Label) (p : Peer) (wait : Duration) : State :=
  match s.client.channels with
  | .memory _ => s.report label (.refused .noPeer)
  | .fifo c fs =>
    let (fs, outcome) := collect p wait fs
    { s with client := { s.client with channels := .fifo c fs } }.report label outcome

/-- Creates another client, on memory channels, and gives it up. -/
def runOtherClient (s : State) (maxHandles : Nat) (crashGuard : Bool) : State × Outcome :=
  let config := { s.client.config with maxHandles, installCrashGuard := crashGuard }
  let other : Result (Client Callback) :=
    Client.create config s.client.pid (.memory {}) s.client.signals s.client.faults
  match other with
  | .error e => (s, .failed e)
  | .ok other =>
    let (gone, _) := other.call .finalize
    ({ s with client := { s.client with signals := gone.signals } },
      .ok (.count other.liveHandles))

def runEnter (s : State) (label : Label) (slot : Nat) (draft : Draft) (callback : Callback) :
    List Inquiry → State
  | [] =>
    let entered :=
      { s.client.registry with busy := false }.enter slot (draft.registration slot) callback
    let r := match entered with
      | .ok r => r
      | .error _ => { s.client.registry with busy := false }
    { s.withRegistry r with during := [] }.report label
      (.allocated (some slot) (entered.map fun _ => slot) s.during)
  | .ownedBy pid :: rest =>
    (s.report .during (.ok (.countOrNone (s.client.registry.ownedBy? pid)))).push
      [.enter label slot draft callback rest]
  | .notifyExit pid :: rest =>
    (s.push [.enter label slot draft callback rest]).proceed .during (s.client.notifyExit pid)

/-- Whether who stops the loop waits for ever: the loop waits for a guard that is held by what is
under way beneath. -/
def stopsInVain (s : State) : Bool := s.client.running && s.activity.isWaiting

def enact (s : State) (label : Label) : Op → State
  | .client o =>
    match o, s.onLentMain with
    | .finalize, true => s.report label (.refused .finalizing)
    | o, _ =>
      if s.dropped then s.report label (.refused .dropped)
      else if o.stops && s.stopsInVain then s.report label (.refused .endless)
      else s.proceed label (s.client.call o)
  | .misused _ why =>
    if s.dropped then s.report label (.refused .dropped) else s.report label (.failed why)
  | .dropClient =>
    if s.onLentMain then s.report label (.refused .dropping)
    else if s.dropped then s.report label (.ok .unit)
    else if s.inUse then { s with dropped := true, parting := true }.report label (.ok .unit)
    else if s.stopsInVain then s.report label (.refused .endless)
    else { s with dropped := true }.proceed label (s.client.call .finalize)
  | .otherClient maxHandles crashGuard =>
    if s.dropped then s.report label (.refused .dropped)
    else
      let (s, outcome) := s.runOtherClient maxHandles crashGuard
      s.report label outcome
  | .onDispatchThread =>
    if s.dropped then s.report label (.refused .dropped)
    else s.report label (.ok (.flag s.onDispatchThread))
  | .config =>
    if s.dropped then s.report label (.refused .dropped)
    else s.report label (.ok (.config s.client.config))
  | .raise signal =>
    if s.holdsSignals then s.report label (.ok .unit)
    else
      match s.client.raise signal with
      | (c, .asking request pending) =>
        ({ s with threads := .crashGuard :: s.threads }.push [.leaveThread]).proceed label
          (c, .asking request pending)
      | r => s.proceed label r
  | .dispositions =>
    s.report label (.ok (.dispositions (FatalSignal.all.map s.client.signals.current)))
  | .registry o =>
    let (s, outcome) := s.runRegistry o
    s.report label outcome
  | .allocate draft during callback =>
    match s.client.registry.vacancy? with
    | none =>
      s.report label (.allocated none (.error (.exhausted s.client.registry.capacity)) [])
    | some slot =>
      (s.withRegistry { s.client.registry with busy := true }).push
        [.enter label slot draft callback during]
  | .bind slot id space callback =>
    let (s, outcome) := s.setBinding slot (some ⟨id, space, callback⟩)
    s.report label outcome
  | .notifyExit pid => s.proceed label (s.client.notifyExit pid)
  | .start =>
    let (r, d) := s.client.start
    (s.absorb (s.client.withDispatcher d)).report label (.ofResult (fun _ => .unit) r)
  | .stop =>
    if s.onLentMain then s.report label (.refused .stopping)
    else if s.stopsInVain then s.report label (.refused .endless)
    else (s.absorb s.client.stop).report label (.ok .unit)
  | .isRunning => s.report label (.ok (.loop s.client.running s.onDispatchThread))
  | .channel o =>
    let (s, outcome) := s.runChannel o
    s.report label outcome
  | .push key e =>
    match s.client.channels with
    | .memory m =>
      match m.push key e with
      | .ok m =>
        { s with client := { s.client with channels := .memory m } }.report label (.ok .unit)
      | .error e => s.report label (.failed e)
    | .fifo .. => s.report label (.refused .otherChannels)
  | .external o => s.runExternal label o
  | .pump =>
    match label with
    | .top =>
      if s.held ≠ [] then s.report label (.refused .pumping)
      else if !s.client.running then s.report label (.refused .notRunning)
      else s.push [.pump (some label) 0]
    | _ => s.report label (.refused .pumping)
  | .reply method answer => { s with arbiter := s.arbiter.setReply method answer }.report label
      (.ok .unit)
  | .hook method body => { s with arbiter := s.arbiter.setHook method body }.report label
      (.ok .unit)
  | .onMain body =>
    let ended : Work := .report label (.ok .unit)
    if s.canLendMain then
      { s with threads := .main :: s.threads }.pushBody body [.leaveThread, ended]
    else s.pushBody body [ended]
  | .inject point codes =>
    let faults := match point with
      | .opens => { s.client.faults with opens := codes }
      | .acks => { s.client.faults with acks := codes }
      | .waits => { s.client.faults with waits := codes }
    let s := if s.freeRunning then s else { s with client := { s.client with faults } }
    s.report label (.ok .unit)
  | .panic => s.unwind
  | .settled _ outcome => s.report label outcome

def step (s : State) : State :=
  match s.work with
  | [] => s
  | w :: rest =>
    let s := { s with work := rest }
    match w with
    | .op label o => s.enact label o
    | .answer label request pending =>
      let (reply, arbiter) := s.arbiter.answer request.method
      { s with arbiter }.proceed label (s.client.resume pending reply)
    | .callbackReturns slot key handle =>
      { s.absorb (s.client.finish slot key handle) with
        threads := s.threads.tail, activity := s.activity.afterCallback }
    | .leaveThread => { s with threads := s.threads.tail }
    | .report label outcome => s.report label outcome
    | .pump label count => s.pumpOnce label count
    | .collect label p wait => s.runCollect label p wait
    | .enter label slot draft callback inquiries => s.runEnter label slot draft callback inquiries
    | .part => s.proceed .unheard (s.client.call .finalize)

def steps : Nat → State → State
  | 0, s => s
  | n + 1, s => if s.work.isEmpty then s else steps n s.step

end State
end AudioFocus.Scenario
