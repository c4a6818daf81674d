import AudioFocus.Client.Basic

/-!
The operations of a client. `call` runs one as far as its first request, `resume` from the reply
to the next request. A client that is told of the end of a process, its own or another, asks the
arbiter likewise.
-/
namespace AudioFocus.Client

variable {κ : Type}

/-- Ends an operation that was refused before anything was done. -/
def orRefuse (c : Client κ) {α : Type} (r : Result α) (next : α → Client κ × Progress) :
    Client κ × Progress :=
  match r with
  | .ok a => next a
  | .error e => (c, .finished (.error e))

def checkOption (option : Int32) : Result Unit :=
  if option < 0 then refuse (.negativeOption option) else .ok ()

/-- Takes a slot for a new registration and activates it. -/
def enrol (c : Client κ) (init : Nat → Registration) (callback : κ) : Client κ × Progress :=
  c.orRefuse (c.registry.allocate fun slot => (init slot, callback)) fun (slot, r) =>
    (c.withRegistry r).activate slot (init slot)

def checkRegister (c : Client κ) (id owner : Int32) (streamType : String) (session : Bool) :
    Result Int32 :=
  if id < 0 then refuse (.negativeId id)
  else if streamType = "" then refuse .emptyStreamType
  else c.owner session owner

def call (c : Client κ) : Operation κ → Client κ × Progress
  | .uniqueId => c.ask .uniqueId (.query .uniqueId)
  | .acquired focusType =>
    if focusType = .both then (c, .finished (refuse .bothTypes))
    else c.ask (.getAcquired focusType) (.query .acquired)
  | .register id owner streamType session callback =>
    c.orRefuse (c.checkRegister id owner streamType session) fun owner =>
      c.enrol (fun _ => .ofFocus owner id session streamType) callback
  | .unregister id => c.orRefuse (c.focus id) fun (slot, reg) => c.teardown slot reg
  | .acquire id focusType option info =>
    c.orRefuse (c.focus id) fun (_, reg) => c.orRefuse (checkOption option) fun () =>
      c.ask (.acquireFocus reg.owner id focusType option info reg.session)
        (.query (.plain .acquireFocus))
  | .release id focusType option info =>
    c.orRefuse (c.focus id) fun (_, reg) => c.orRefuse (checkOption option) fun () =>
      c.ask (.releaseFocus reg.owner id focusType option info reg.session)
        (.query (.plain .releaseFocus))
  | .setReacquisition id reacquire =>
    c.orRefuse (c.focus id) fun (_, reg) =>
      c.ask (.setReacquisition reg.owner id reacquire) (.query (.plain .setReacquisition))
  | .getReacquisition id =>
    c.orRefuse (c.focus id) fun (_, reg) =>
      c.ask (.getReacquisition reg.owner id) (.query .reacquisition)
  | .watch owner filter session callback =>
    c.orRefuse (c.owner session owner) fun owner =>
      c.enrol (fun slot => .ofWatch owner filter session slot) callback
  | .requestUnwatch id =>
    c.orRefuse (c.watch id) fun (_, reg) =>
      c.ask (.requestUnsetWatch reg.owner id) (.query (.plain .requestUnsetWatch))
  | .unwatch id => c.orRefuse (c.watch id) fun (slot, reg) => c.teardown slot reg
  | .finalize =>
    let c := c.stop
    c.teardownAll c.registry.live

def resume (c : Client κ) (p : Pending) (reply : Result Reply) : Client κ × Progress :=
  match p with
  | .query q => (c, .finished (q.read reply))
  | .registering slot reg => c.announced slot reg reply
  | .undoing slot reg cause => (c.closeChannel reg.channel).giveBack slot reg cause
  | .tearingDown slot reg guarded rest =>
    let c := c.endTeardown slot reg guarded
    match rest with
    | none =>
      (c, .finished ((Reply.expectDone reg.withdrawal.method reply).map fun _ => .unit))
    | some rest => c.teardownAll rest
  | .reportingExit signal => (c.reraise signal, .finished (.ok .unit))
  | .notifyingExit =>
    (c, .finished ((Reply.expectDone .emergentExit reply).map fun _ => .flag true))

/-- Tells the arbiter that a process is ending, if that owns a live registration or nobody can
look. Gives whether the arbiter was told. -/
def notifyExit (c : Client κ) (pid : Int32) : Client κ × Progress :=
  if c.registry.ownedBy? pid = some 0 then (c, .finished (.ok (.flag false)))
  else c.ask (.emergentExit pid) .notifyingExit

/-- A fatal signal arrives. The guard reports it, unless nothing is owned, and raises it again as
what it was before; one that the guard does not handle goes unreported. -/
def raise (c : Client κ) (signal : FatalSignal) : Client κ × Progress :=
  if c.signals.current signal = .handler then
    if c.registry.ownedBy? c.pid = some 0 then
      ((c.meet signal).reraise signal, .finished (.ok .unit))
    else (c.meet signal).ask (.emergentExit c.pid) (.reportingExit signal)
  else (c.meet signal, .finished (.ok .unit))

def deliver (c : Client κ) (key : ChannelKey) (e : Event) :
    Dispatcher.Delivery κ × Client κ :=
  let (delivery, d) := c.toDispatcher.deliver key e
  (delivery, c.withDispatcher d)

def enter (c : Client κ) (x : Errand) : Dispatcher.Delivery κ × Client κ :=
  let (delivery, d) := c.toDispatcher.enter x
  (delivery, c.withDispatcher d)

def finish (c : Client κ) (slot : Nat) (key : ChannelKey) (handle : Int32) : Client κ :=
  c.withDispatcher (c.toDispatcher.finish slot key handle)

end AudioFocus.Client
