import AudioFocus.Proofs.History
import AudioFocus.Proofs.Moves

/-!
What each move does to the channels, and what the client notes of it. The parts of an operation
send requests, open channels and close them, and acknowledge nothing; deliveries do that. What a
client notes, and the few calls that it does not note, tell what becomes of channels in memory.
-/
namespace AudioFocus

namespace Action

/-- The event that an acknowledgement is for, be it sent or not. -/
def ack? : Action → Option (ChannelKey × Int32)
  | acked key handle | ackFailed key handle => some (key, handle)
  | _ => none

def call? : Action → Option MemoryCall
  | opened key => some (.openChannel key)
  | closed key => some (.closeChannel key)
  | acked key handle => some (.sendAck key handle)
  | _ => none

def calls (actions : List Action) : List MemoryCall := actions.filterMap call?

@[simp] theorem calls_append (actions more : List Action) :
    calls (actions ++ more) = calls actions ++ calls more := List.filterMap_append

end Action

def MemoryChannels.replay (m : MemoryChannels) (calls : List MemoryCall) : MemoryChannels :=
  calls.foldl after m

theorem MemoryChannels.replay_append (m : MemoryChannels) (calls more : List MemoryCall) :
    m.replay (calls ++ more) = (m.replay calls).replay more := List.foldl_append

namespace Dispatcher

variable {κ : Type} {d d' d'' : Dispatcher κ}

/-- A loop that is stopped is woken. -/
def wakes (d d' : Dispatcher κ) : List MemoryCall :=
  if d.running && !d'.running then [.wake] else []

@[simp] theorem wakes_of_running (same : d'.running = d.running) : d.wakes d' = [] := by
  simp [wakes, same]

/-- From one state to the next these actions were noted, and they tell the channels. -/
structure Did (d d' : Dispatcher κ) (actions : List Action) : Prop where
  trace : d'.trace = d.trace ++ actions
  memory : ∀ m, d.channels = .memory m →
    d'.channels = .memory (m.replay (d.wakes d' ++ Action.calls actions))

/-- The same, and nothing was acknowledged. -/
def Works (d d' : Dispatcher κ) : Prop :=
  ∃ actions, d.Did d' actions ∧ ∀ a ∈ actions, a.ack? = none

theorem Did.trans {actions more : List Action} (first : d.Did d' actions)
    (second : d'.Did d'' more) (same : d''.running = d'.running) :
    d.Did d'' (actions ++ more) where
  trace := by rw [second.trace, first.trace, List.append_assoc]
  memory m here := by
    have both : d.wakes d'' = d.wakes d' := by simp [wakes, same]
    rw [second.memory _ (first.memory m here), wakes_of_running same, both, List.nil_append,
      Action.calls_append, ← List.append_assoc, MemoryChannels.replay_append _ (_ ++ _)]

theorem Works.trans (first : d.Works d') (second : d'.Works d'')
    (same : d''.running = d'.running) : d.Works d'' := by
  obtain ⟨actions, did, silent⟩ := first
  obtain ⟨more, did', silent'⟩ := second
  refine ⟨actions ++ more, did.trans did' same, fun a member => ?_⟩
  rcases List.mem_append.mp member with before | after
  · exact silent a before
  · exact silent' a after

theorem Works.of_eq (trace : d'.trace = d.trace) (channels : d'.channels = d.channels)
    (running : d.running = true → d'.running = true) : d.Works d' := by
  refine ⟨[], ⟨by simp [trace], fun m here => ?_⟩, by simp⟩
  have silent : d.wakes d' = [] := by
    unfold wakes
    cases was : d.running with
    | false => rfl
    | true => simp [running was]
  rw [channels, here, silent]
  rfl

theorem Did.one {a : Action} (trace : d'.trace = d.trace ++ [a]) (running : d'.running = d.running)
    (memory : ∀ m, d.channels = .memory m → d'.channels = .memory (m.replay (Action.calls [a]))) :
    d.Did d' [a] := by
  refine ⟨trace, fun m here => ?_⟩
  rw [wakes_of_running running]
  exact memory m here

theorem Did.works {a : Action} (did : d.Did d' [a]) (silent : a.ack? = none) : d.Works d' :=
  ⟨[a], did, by simpa using silent⟩

theorem works_request (d : Dispatcher κ) (r : Request) : d.Works (d.note (.request r)) :=
  Did.works (a := .request r) (.one rfl rfl fun _ here => here) rfl

theorem works_openChannel {key : ChannelKey} {r : Result Unit}
    (opened : d.openChannel key = (r, d')) : d.Works d' := by
  obtain rfl : (d.openChannel key).2 = d' := congrArg Prod.snd opened
  unfold openChannel
  split
  · exact Did.works (a := .openFailed key) (.one rfl rfl fun _ here => here) rfl
  · split
    · rename_i channels opened
      refine Did.works (a := .opened key) (.one rfl rfl fun m here => ?_) rfl
      rw [here] at opened
      exact (Prod.mk.inj opened).2.symm
    · rename_i e channels opened
      refine Did.works (a := .openFailed key) (.one rfl rfl fun m here => ?_) rfl
      rw [here] at opened
      cases (Prod.mk.inj opened).1

theorem works_closeChannel (d : Dispatcher κ) (key : ChannelKey) :
    d.Works (d.closeChannel key) := by
  refine Did.works (a := .closed key) (.one rfl rfl fun m here => ?_) rfl
  change d.channels.closeChannel key = _
  rw [here]
  rfl

theorem works_stop (d : Dispatcher κ) : d.Works d.stop := by
  unfold stop
  split
  · rename_i running
    refine ⟨[], ⟨by simp, fun m here => ?_⟩, by simp⟩
    simp only [wakes, running, here]
    rfl
  · exact .of_eq rfl rfl id

/-- Each acknowledgement is noted, be it sent or not. -/
theorem sendAck_did (d : Dispatcher κ) (key : ChannelKey) (handle : Int32) :
    ∃ a, d.Did (d.sendAck key handle).2 [a] ∧ a.ack? = some (key, handle) := by
  unfold sendAck
  split
  · exact ⟨.ackFailed key handle, .one rfl rfl fun _ here => here, rfl⟩
  · split
    · rename_i channels sent
      refine ⟨.acked key handle, .one rfl rfl fun m here => ?_, rfl⟩
      rw [here] at sent
      exact (Prod.mk.inj sent).2.symm
    · rename_i e channels sent
      refine ⟨.ackFailed key handle, .one rfl rfl fun m here => ?_, rfl⟩
      rw [here] at sent
      cases (Prod.mk.inj sent).1

end Dispatcher

namespace Client

variable {κ : Type} {c : Client κ}

abbrev Works (c : Client κ) (result : Client κ × Progress) : Prop :=
  c.toDispatcher.Works result.1.toDispatcher

theorem works_withRegistry (c : Client κ) (r : Registry κ) :
    c.toDispatcher.Works (c.withRegistry r).toDispatcher := .of_eq rfl rfl id

theorem works_ask (c : Client κ) (request : Request) (pending : Pending) :
    c.Works (c.ask request pending) := c.toDispatcher.works_request request

theorem works_giveBack (c : Client κ) (slot : Nat) (reg : Registration) (cause : FocusError) :
    c.Works (c.giveBack slot reg cause) := by
  unfold giveBack
  split <;> exact .of_eq rfl rfl id

theorem running_giveBack (c : Client κ) (slot : Nat) (reg : Registration) (cause : FocusError) :
    (c.giveBack slot reg cause).1.running = c.running := by
  unfold giveBack
  split <;> rfl

theorem works_beginTeardown {c' : Client κ} {slot : Nat} {reg : Registration} {guarded : Bool}
    (begun : c.beginTeardown slot reg = some (c', guarded)) (request : Request)
    (pending : Pending) : c.Works (c'.ask request pending) := by
  obtain ⟨-, -, -, rfl⟩ := beginTeardown_eq_some begun
  exact (works_withRegistry c _).trans (works_ask _ request pending) rfl

theorem works_torn {entries : List (Nat × Registration)} {result : Client κ × Progress}
    (torn : Torn c entries result) : c.Works result := by
  cases torn with
  | none =>
    change c.toDispatcher.Works c.removeGuard.toDispatcher
    rw [removeGuard_dispatcher]
    exact .of_eq rfl rfl id
  | next _ _ _ begun => exact works_beginTeardown begun _ _

theorem running_torn {entries : List (Nat × Registration)} {result : Client κ × Progress}
    (torn : Torn c entries result) : result.1.running = c.running := by
  cases torn with
  | none => exact congrArg Dispatcher.running (removeGuard_dispatcher c)
  | next _ _ _ begun =>
    obtain ⟨-, -, -, rfl⟩ := beginTeardown_eq_some begun
    rfl

theorem works_call (c : Client κ) (o : Operation κ) : c.Works (c.call o) := by
  have called := call_called c o
  generalize c.call o = result at called
  cases called with
  | ended => exact .of_eq rfl rfl id
  | asked request q => exact works_ask c request _
  | entered _ _ _ opened =>
    have same := (Dispatcher.openChannel_kept opened).2
    exact ((works_withRegistry c _).trans (Dispatcher.works_openChannel opened) same).trans
      (works_ask (c.withDispatcher _) _ _) rfl
  | unopened _ _ _ failed =>
    have same := (Dispatcher.openChannel_kept failed).2
    exact ((works_withRegistry c _).trans (Dispatcher.works_openChannel failed) same).trans
      (works_withRegistry (c.withDispatcher _) _) rfl
  | torn _ _ begun => exact works_beginTeardown begun _ _
  | finalized _ torn =>
    exact c.toDispatcher.works_stop.trans (works_torn torn) (running_torn torn)

theorem works_raise (c : Client κ) (signal : FatalSignal) : c.Works (c.raise signal) := by
  unfold raise
  split
  · split
    · exact .of_eq rfl rfl id
    · exact works_ask (c.meet signal) _ (.reportingExit signal)
  · exact .of_eq rfl rfl id

/-- Only a `finalize` stops the loop. -/
theorem running_call (c : Client κ) {o : Operation κ} (goesOn : o.stops = false) :
    (c.call o).1.running = c.running := by
  have called := call_called c o
  generalize c.call o = result at called
  cases called with
  | ended | asked => rfl
  | entered _ _ _ opened => exact (Dispatcher.openChannel_kept opened).2
  | unopened _ _ _ failed => exact (Dispatcher.openChannel_kept failed).2
  | torn _ _ begun =>
    obtain ⟨-, -, -, rfl⟩ := beginTeardown_eq_some begun
    rfl
  | finalized final =>
    subst final
    contradiction

theorem running_raise (c : Client κ) (signal : FatalSignal) :
    (c.raise signal).1.running = c.running := by
  unfold raise
  split
  · split <;> rfl
  · rfl

theorem running_resume (c : Client κ) (p : Pending) (reply : Result Reply)
    (running : c.running = true) : (c.resume p reply).1.running = true := by
  cases p with
  | query | reportingExit | notifyingExit => exact running
  | registering slot reg =>
    have announced := announced_announced c slot reg reply
    change (c.announced slot reg reply).1.running = true
    generalize c.announced slot reg reply = result at announced
    cases announced with
    | served => rfl
    | left | unstarted => exact running
    | refused =>
      rw [running_giveBack]
      exact running
  | undoing slot reg cause =>
    exact (running_giveBack (c.closeChannel reg.channel) slot reg cause).trans running
  | tearingDown slot reg guarded rest =>
    cases rest with
    | none => exact running
    | some entries => exact (running_torn (teardownAll_torn _ entries)).trans running

theorem works_announced (c : Client κ) (slot : Nat) (reg : Registration) (reply : Result Reply) :
    c.Works (c.announced slot reg reply) := by
  have announced := announced_announced c slot reg reply
  generalize c.announced slot reg reply = result at announced
  cases announced with
  | served => exact .of_eq rfl rfl fun _ => rfl
  | left => exact .of_eq rfl rfl id
  | @refused e =>
    let claimed := c.withRegistry (c.registry.claimed slot)
    have closed : c.toDispatcher.Works (claimed.closeChannel reg.channel).toDispatcher :=
      (works_withRegistry c _).trans (claimed.toDispatcher.works_closeChannel reg.channel) rfl
    exact closed.trans (works_giveBack (claimed.closeChannel reg.channel) slot reg e)
      (running_giveBack ..)
  | unstarted => exact (works_withRegistry c _).trans (works_ask _ _ _) rfl

theorem works_endTeardown (c : Client κ) (slot : Nat) (reg : Registration) (guarded : Bool) :
    c.toDispatcher.Works (c.endTeardown slot reg guarded).toDispatcher :=
  (c.toDispatcher.works_closeChannel reg.channel).trans
    (works_withRegistry (c.closeChannel reg.channel) _) rfl

theorem works_resume (c : Client κ) (p : Pending) (reply : Result Reply) :
    c.Works (c.resume p reply) := by
  cases p with
  | query | reportingExit | notifyingExit => exact .of_eq rfl rfl id
  | registering slot reg => exact works_announced c slot reg reply
  | undoing slot reg cause =>
    exact (c.toDispatcher.works_closeChannel reg.channel).trans
      (works_giveBack (c.closeChannel reg.channel) slot reg cause) (running_giveBack _ _ _ _)
  | tearingDown slot reg guarded rest =>
    have ended := works_endTeardown c slot reg guarded
    cases rest with
    | none => exact ended
    | some entries =>
      have torn := teardownAll_torn (c.endTeardown slot reg guarded) entries
      exact ended.trans (works_torn torn) (running_torn torn)

end Client

/-- Whether a move is part of a delivery. -/
def Move.delivers : Move → Bool
  | take | enter | returns => true
  | _ => false

namespace Session

/-- What the client notes from one state to a later one. -/
def notes (s t : Session) : List Action := t.client.trace.drop s.client.trace.length

/-- What a move does to channels in memory that the client does not note. -/
def unnoted (s : Session) (m : Move) (t : Session) : List MemoryCall :=
  match m with
  | .push key e => [.push key e]
  | .takeAck => [.receiveAck]
  | .take => if s.client.faults.waits.isEmpty then [.nextEvent] else []
  | _ => s.client.toDispatcher.wakes t.client.toDispatcher

def calls (s : Session) (m : Move) (t : Session) : List MemoryCall :=
  s.unnoted m t ++ Action.calls (s.notes t)

/-- The client notes each acknowledgement that it sends. -/
theorem sendAck_not_mem_unnoted (s : Session) (m : Move) (t : Session) (key : ChannelKey)
    (handle : Int32) : .sendAck key handle ∉ s.unnoted m t := by
  unfold unnoted
  split
  · simp
  · simp
  · split <;> simp
  · unfold Dispatcher.wakes
    split <;> simp

end Session
end AudioFocus
