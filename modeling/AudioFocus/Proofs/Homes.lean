import AudioFocus.Proofs.Locks
import AudioFocus.Proofs.Rollback
import AudioFocus.Scenario.Run

/-!
Every live registration listens on a channel of its own making: a focus handle on that of its owner
and id, a watch on that of its owner. This holds in all runs of a client, and in all scenarios, be
they on a client or on a registry, since nothing else than a new registration sets the channel.
-/
namespace AudioFocus

/-- The channel that is a registration's own: that of the focus handle, or of its owner's
watches. -/
def Registration.home (reg : Registration) : ChannelKey :=
  match reg.space with
  | .focus => .focus reg.owner reg.id
  | .watch => .watch reg.owner

namespace Registry

variable {κ : Type} {r r' : Registry κ}

/-- Whoever is live listens on the channel of its own. -/
def Homed (r : Registry κ) : Prop :=
  ∀ slot reg, r.registration? slot = some reg → reg.channel = reg.home

theorem homed_ofCapacity (n : Nat) : (ofCapacity n : Registry κ).Homed := by
  intro slot reg live
  simp at live

theorem Homed.of_undisturbed (homed : r.Homed) (undisturbed : ∀ i, r.Undisturbed r' i False) :
    r'.Homed :=
  fun slot reg live => homed slot reg ((undisturbed slot).resident reg live)

theorem Homed.entered (homed : r.Homed) {reg : Registration} (home : reg.channel = reg.home)
    (slot : Nat) (callback : κ) : (r.entered slot reg callback).Homed := by
  intro i other live
  rw [Registry.entered, registration?_modify] at live
  split at live
  · obtain ⟨x, -, moved⟩ := Option.bind_eq_some_iff.mp live
    obtain rfl := Option.some.inj moved
    exact home
  · exact homed i other live

theorem Homed.enter (homed : r.Homed) {slot : Nat} {reg : Registration} {callback : κ}
    (home : reg.channel = reg.home) (got : r.enter slot reg callback = .ok r') : r'.Homed := by
  unfold Registry.enter at got
  split at got
  · contradiction
  · obtain rfl := Except.ok.inj got
    exact homed.entered home slot callback

end Registry

namespace Client

variable {κ : Type} {c : Client κ}

theorem home_of_draft {o : Operation κ} {init : Nat → Registration}
    (drafted : c.draft o = some (.ok init)) (slot : Nat) :
    (init slot).channel = (init slot).home := by
  rcases draft_cases drafted with
    ⟨id, owner, streamType, session, callback, pid, -, -, rfl⟩ |
      ⟨owner, filter, session, callback, pid, -, rfl⟩
  · rfl
  · rfl

theorem homed_enrol {init : Nat → Registration} (homed : c.registry.Homed)
    (home : ∀ slot, (init slot).channel = (init slot).home) (callback : κ) :
    (c.enrol init callback).1.registry.Homed := by
  have enrolled := enrol_enrolled c init callback
  generalize c.enrol init callback = result at enrolled
  cases enrolled with
  | exhausted | duplicate => exact homed
  | @unopened slot d e vacant fresh failed =>
    have filled := homed.entered (home slot) slot callback
    refine filled.of_undisturbed fun i => ?_
    refine .trans (.claimed _ slot) (.trans (.freed _ slot) (.bind False.elim none))
  | @entered slot d vacant fresh opened =>
    have same : d.registry = c.registry.entered slot (init slot) callback :=
      (Dispatcher.openChannel_kept opened).1
    change d.registry.Homed
    rw [same]
    exact homed.entered (home slot) slot callback

theorem homed_call (homed : c.registry.Homed) (o : Operation κ) :
    (c.call o).1.registry.Homed := by
  cases brought : o.callback? with
  | some callback =>
    obtain ⟨drafted, makes, call⟩ := call_eq_draft (c := c) brought
    rw [call]
    cases drafted with
    | error e => exact homed
    | ok init => exact homed_enrol homed (home_of_draft makes) callback
  | none =>
    refine homed.of_undisturbed fun i => undisturbed_call fun callback brings => ?_
    cases brought.symm.trans brings

theorem homed_raise (homed : c.registry.Homed) (signal : FatalSignal) :
    (c.raise signal).1.registry.Homed :=
  homed.of_undisturbed fun _ => undisturbed_raise signal

theorem homed_notifyExit (homed : c.registry.Homed) (pid : Int32) :
    (c.notifyExit pid).1.registry.Homed := by
  unfold notifyExit
  split <;> exact homed

theorem homed_resume (homed : c.registry.Homed) (p : Pending) (reply : Result Reply) :
    (c.resume p reply).1.registry.Homed :=
  homed.of_undisturbed fun _ => undisturbed_resume False.elim reply

theorem homed_enter (homed : c.registry.Homed) (x : Errand) :
    (c.enter x).2.registry.Homed := by
  cases entered : c.toDispatcher.enter x with
  | mk delivery d =>
    have after : (c.enter x).2.registry = d.registry := by
      simp [Client.enter, entered, withDispatcher]
    rw [after]
    by_cases runs : ∃ slot callback, delivery = .running slot callback
    · obtain ⟨slot, callback, rfl⟩ := runs
      obtain ⟨-, -, -, -, rfl⟩ := Dispatcher.enter_running entered
      exact homed.of_undisturbed fun _ => .guard c.registry slot
    · have quiet : ∀ slot callback, delivery ≠ .running slot callback :=
        fun slot callback same => runs ⟨slot, callback, same⟩
      rcases Dispatcher.enter_quiet entered quiet with rfl | rfl
      · exact homed
      · rwa [Dispatcher.sendAck_registry]

theorem homed_deliver (homed : c.registry.Homed) (key : ChannelKey) (e : Event) :
    (c.deliver key e).2.registry.Homed := by
  unfold Client.deliver Dispatcher.deliver
  cases c.toDispatcher.address? key e with
  | none => exact homed
  | some x => exact homed_enter homed x

theorem homed_finish (homed : c.registry.Homed) (slot : Nat) (key : ChannelKey) (handle : Int32) :
    (c.finish slot key handle).registry.Homed := by
  have same : (c.finish slot key handle).registry = c.registry.unguard slot :=
    Dispatcher.sendAck_registry ..
  rw [same]
  exact homed.of_undisturbed fun _ => .unguard c.registry slot

end Client

namespace Session

theorem Happened.homed {s t : Session} {m : Move} (happened : s.Happened m t)
    (homed : s.client.registry.Homed) : t.client.registry.Homed := by
  cases happened with
  | called o =>
    rw [client_advance]
    exact Client.homed_call homed o
  | raised signal =>
    rw [client_advance]
    exact Client.homed_raise homed signal
  | @replied op place pending frames reply =>
    rw [client_advance]
    exact Client.homed_resume homed pending reply
  | @started x callback c _ _ _ guarded =>
    change c.registry.Homed
    rw [guarded]
    exact homed.of_undisturbed fun _ => .guard s.client.registry x.slot
  | returned => exact Client.homed_finish homed _ _ _
  | @took _ c _ _ _ _ registry | @aside _ c _ registry =>
    change c.registry.Homed
    rwa [registry]

theorem homed_of_reach {n : Nesting} {s : Session} (reach : Reach n s) :
    s.client.registry.Homed := by
  refine reach.induct (P := fun s => s.client.registry.Homed) ?_ ?_
  · intro config pid channels signals faults client created unused
    obtain ⟨-, registry, -⟩ := Client.create_eq_ok created
    change client.registry.Homed
    rw [registry]
    exact Registry.homed_ofCapacity config.maxHandles
  · intro s m t reach homed allowed moved
    exact (step_happened moved).homed homed

end Session

namespace Scenario

theorem Draft.home_registration (d : Draft) (slot : Nat) :
    (d.registration slot).channel = (d.registration slot).home := by
  cases space : d.space <;> simp [registration, Registration.home, space]

namespace State

variable {s : State}

theorem client_report (s : State) (label : Label) (outcome : Outcome) :
    (s.report label outcome).client = s.client := by
  cases label <;> rfl

theorem client_leave (s : State) (work : List Work) : (s.leave work).client = s.client := by
  unfold leave
  split <;> rfl

theorem registry_proceed (s : State) (label : Label) (r : Client Callback × Progress) :
    (s.proceed label r).client.registry = r.1.registry := by
  obtain ⟨c, p⟩ := r
  cases p with
  | finished result => rw [proceed, client_leave]; rfl
  | asking request pending => rfl
  | stuck slot => rw [proceed, client_report]; rfl

theorem registry_handOn (s : State) (label : Option Label) (count : Nat) (key : ChannelKey)
    (e : Event) (delivered : Dispatcher.Delivery Callback × Client Callback) :
    (s.handOn label count key e delivered).client.registry = delivered.2.registry := by
  obtain ⟨delivery, c⟩ := delivered
  cases delivery with
  | dropped | skipped | running => rfl
  | waiting x =>
    cases label with
    | none => rfl
    | some label => exact congrArg (·.registry) (client_report ..)

abbrev Homed (s : State) : Prop := s.client.registry.Homed

theorem Homed.report (homed : s.Homed) (label : Label) (outcome : Outcome) :
    (s.report label outcome).Homed := by
  rwa [Homed, client_report]

theorem Homed.proceed {r : Client Callback × Progress} (homed : r.1.registry.Homed) (s : State)
    (label : Label) : (s.proceed label r).Homed := by
  rwa [Homed, registry_proceed]

theorem Homed.handOn {delivered : Dispatcher.Delivery Callback × Client Callback}
    (homed : delivered.2.registry.Homed) (s : State) (label : Option Label) (count : Nat)
    (key : ChannelKey) (e : Event) : (s.handOn label count key e delivered).Homed := by
  rwa [Homed, registry_handOn]

theorem Homed.pumpOnce (homed : s.Homed) (label : Option Label) (count : Nat) :
    (s.pumpOnce label count).Homed := by
  unfold State.pumpOnce
  extract_lets final
  have ended : final.Homed := by
    cases label with
    | none => exact homed
    | some label => exact homed.report label (.ok (.count count))
  by_cases stopped : (!s.client.running) = true
  · rw [if_pos stopped]
    exact ended
  rw [if_neg stopped]
  cases s.activity with
  | inCallback => exact ended
  | waiting x => exact Homed.handOn (Client.homed_enter homed x) s label count x.key x.event
  | reading =>
    dsimp only
    by_cases empty : (!s.client.channels.pending) = true
    · rw [if_pos empty]
      exact ended
    rw [if_neg empty]
    have registry := s.client.toDispatcher.nextEvent_registry
    generalize s.client.nextEvent = result at registry
    obtain ⟨next, d⟩ := result
    have still : (s.absorb (s.client.withDispatcher d)).Homed := by
      change d.registry.Homed
      rwa [show d.registry = s.client.registry from registry]
    cases next with
    | none => exact still
    | some x => exact Homed.handOn (Client.homed_deliver still x.1 x.2) _ label count x.1 x.2

theorem Homed.abandon (homed : s.Homed) (w : Work) : (s.abandon w).Homed := by
  unfold State.abandon
  split
  · exact homed.of_undisturbed fun _ => .unguard s.client.registry _
  · exact homed
  · exact homed

theorem Homed.foldl_abandon (homed : s.Homed) (work : List Work) :
    (work.foldl State.abandon s).Homed := by
  induction work generalizing s with
  | nil => exact homed
  | cons w work ih => exact ih (homed.abandon w)

theorem Homed.unwind (homed : s.Homed) : s.unwind.Homed := by
  have panicked : (s.note .panicked).Homed := homed
  unfold State.unwind
  rw [Homed, client_leave]
  exact panicked.foldl_abandon _

theorem Homed.setBinding (homed : s.Homed) (slot : Nat) (b : Option (Binding Callback)) :
    (s.setBinding slot b).1.Homed := by
  unfold State.setBinding
  split
  · exact homed
  · exact homed.of_undisturbed fun _ => .bind False.elim b

theorem Homed.runRegistry (homed : s.Homed) (o : RegistryOp) : (s.runRegistry o).1.Homed := by
  cases o with
  | find | get | capacity | handles | ownedBy | binding => exact homed
  | claim slot id space =>
    simp only [State.runRegistry]
    split
    · rename_i r claimed
      obtain ⟨-, -, rfl⟩ := Registry.claim?_eq_some.mp claimed
      exact homed.of_undisturbed fun _ => .claimed s.client.registry slot
    · exact homed
  | release slot id space =>
    simp only [State.runRegistry]
    split
    · rename_i reg r released
      obtain rfl := Registry.release?_eq_some released
      exact homed.of_undisturbed fun _ => .freed s.client.registry slot
    · exact homed
  | hold slot =>
    simp only [State.runRegistry]
    split
    · exact homed
    split
    · exact homed
    · exact homed.of_undisturbed fun _ => .guard s.client.registry slot
  | unhold slot =>
    simp only [State.runRegistry]
    split
    · exact homed.of_undisturbed fun _ => .unguard s.client.registry slot
    · exact homed
  | unbind slot => exact homed.setBinding slot none

theorem Homed.runChannel (homed : s.Homed) (o : ChannelOp) : (s.runChannel o).1.Homed := by
  cases o with
  | openChannel key =>
    have registry : (s.client.openChannel key).2.registry = s.client.registry :=
      (Dispatcher.openChannel_kept rfl).1
    change (s.client.openChannel key).2.registry.Homed
    rwa [registry]
  | sendAck key handle =>
    change (s.client.sendAck key handle).2.registry.Homed
    rwa [Dispatcher.sendAck_registry]
  | _ => exact homed

theorem Homed.runExternal (homed : s.Homed) (label : Label) (o : ExternalOp) :
    (s.runExternal label o).Homed := by
  unfold State.runExternal
  split
  · exact homed.report label _
  · dsimp only
    split
    · split
      · exact homed
      · exact homed.report label _
    · rw [Homed, client_report]
      exact homed

theorem Homed.runCollect (homed : s.Homed) (label : Label) (p : Peer) (wait : Duration) :
    (s.runCollect label p wait).Homed := by
  unfold State.runCollect
  split
  · exact homed.report label _
  · dsimp only
    rw [Homed, client_report]
    exact homed

theorem Homed.runOtherClient (homed : s.Homed) (maxHandles : Nat) (crashGuard : Bool) :
    (s.runOtherClient maxHandles crashGuard).1.Homed := by
  simp only [State.runOtherClient]
  split <;> exact homed

theorem Homed.runEnter (homed : s.Homed) (label : Label) (slot : Nat) (draft : Draft)
    (callback : Callback) (inquiries : List Inquiry) :
    (s.runEnter label slot draft callback inquiries).Homed := by
  have idle : Registry.Homed { s.client.registry with busy := false } := homed
  cases inquiries with
  | nil =>
    simp only [State.runEnter]
    rw [Homed, client_report]
    split
    · rename_i r entered
      exact idle.enter (draft.home_registration slot) entered
    · exact idle
  | cons inquiry rest =>
    cases inquiry with
    | ownedBy pid =>
      exact homed.report .during (.ok (.countOrNone (s.client.registry.ownedBy? pid)))
    | notifyExit pid =>
      exact Homed.proceed (Client.homed_notifyExit homed pid) (s.push _) .during

theorem Homed.enact (homed : s.Homed) (label : Label) (o : Op) : (s.enact label o).Homed := by
  have reported (outcome : Outcome) : (s.report label outcome).Homed := homed.report label outcome
  cases o with
  | client o =>
    simp only [State.enact]
    split
    · exact reported _
    split
    · exact reported _
    split
    · exact reported _
    · exact Homed.proceed (Client.homed_call homed _) s label
  | misused | onDispatchThread | config =>
    simp only [State.enact]
    split <;> exact reported _
  | dropClient =>
    simp only [State.enact]
    split
    · exact reported _
    split
    · exact reported _
    split
    · rwa [Homed, client_report]
    split
    · exact reported _
    · exact Homed.proceed (Client.homed_call homed .finalize) _ label
  | otherClient maxHandles crashGuard =>
    simp only [State.enact]
    split
    · exact reported _
    · exact (homed.runOtherClient maxHandles crashGuard).report label _
  | raise signal =>
    simp only [State.enact]
    split
    · exact reported _
    have raised := Client.homed_raise homed signal
    split
    · rename_i c request pending asks
      rw [asks] at raised
      exact Homed.proceed raised _ label
    · exact Homed.proceed raised s label
  | registry o => exact (homed.runRegistry o).report label _
  | allocate draft during callback =>
    simp only [State.enact]
    split
    · exact reported _
    · exact homed
  | bind slot id space callback => exact (homed.setBinding slot _).report label _
  | notifyExit pid => exact Homed.proceed (Client.homed_notifyExit homed pid) s label
  | start =>
    have registry : s.client.start.2.registry = s.client.registry := by
      unfold Dispatcher.start
      split
      · rfl
      · split <;> rfl
    simp only [State.enact]
    rw [Homed, client_report]
    change s.client.start.2.registry.Homed
    rwa [registry]
  | stop =>
    simp only [State.enact]
    split
    · exact reported _
    split
    · exact reported _
    · rw [Homed, client_report]
      change s.client.stop.registry.Homed
      rwa [Client.stop_registry]
  | channel o => exact (homed.runChannel o).report label _
  | push key e =>
    simp only [State.enact]
    split
    · split
      · rwa [Homed, client_report]
      · exact reported _
    · exact reported _
  | external o => exact homed.runExternal label o
  | pump =>
    simp only [State.enact]
    split
    · split
      · exact reported _
      split
      · exact reported _
      · exact homed
    · exact reported _
  | onMain body =>
    simp only [State.enact]
    split <;> exact homed
  | inject point codes =>
    simp only [State.enact]
    rw [Homed, client_report]
    split <;> exact homed
  | panic => exact homed.unwind
  | dispositions | isRunning | settled => exact reported _
  | reply | hook =>
    simp only [State.enact]
    rwa [Homed, client_report]

theorem Homed.step (homed : s.Homed) : s.step.Homed := by
  unfold State.step
  split
  · exact homed
  rename_i w rest _
  have left : Homed { s with work := rest } := homed
  cases w with
  | op label o => exact left.enact label o
  | answer label request pending =>
    exact Homed.proceed (Client.homed_resume homed pending _) _ label
  | callbackReturns slot key handle => exact Client.homed_finish homed slot key handle
  | leaveThread => exact homed
  | report label outcome => exact left.report label outcome
  | pump label count => exact left.pumpOnce label count
  | collect label p wait => exact left.runCollect label p wait
  | enter label slot draft callback inquiries =>
    exact left.runEnter label slot draft callback inquiries
  | part => exact Homed.proceed (Client.homed_call homed .finalize) _ .unheard

/-- The states that scenarios come to: a new registry or client, and then one operation after the
other, each of them step by step. -/
inductive Reached : State → Prop
  | ofRegistry (capacity : Nat) : Reached (ofRegistry capacity)
  | ofClient {config : Config} {pid : Int32} {channels : Channels} {faults : Faults}
      {freeRunning : Bool} {s : State}
      (created : ofClient config pid channels faults freeRunning = .ok s) : Reached s
  | asked {s : State} (o : Op) (before : Reached s) :
    Reached { s with work := .op .top o :: s.meanwhile, log := [], outcome := none }
  | step {s : State} (before : Reached s) : Reached s.step
  | ended {s : State} (before : Reached s) : Reached { s with work := [], threads := [] }
  | observed {s : State} (before : Reached s) : Reached s.observe.2

theorem Reached.steps (reached : s.Reached) (n : Nat) : (s.steps n).Reached := by
  induction n generalizing s with
  | zero => exact reached
  | succ n ih =>
    unfold State.steps
    split
    · exact reached
    · exact ih reached.step

theorem Reached.perform (reached : s.Reached) (o : Op) : (s.perform o).2.Reached :=
  (((reached.asked o).steps stepLimit).ended).observed

theorem Reached.homed (reached : s.Reached) : s.Homed := by
  induction reached with
  | ofRegistry capacity => exact Registry.homed_ofCapacity capacity
  | @ofClient config pid channels faults freeRunning s created =>
    obtain ⟨client, made, same⟩ := bind_eq_ok.mp created
    obtain rfl := Except.ok.inj same
    obtain ⟨-, registry, -⟩ := Client.create_eq_ok made
    change client.registry.Homed
    rw [registry]
    exact Registry.homed_ofCapacity config.maxHandles
  | asked o before homed => exact homed
  | step before homed => exact homed.step
  | ended before homed => exact homed
  | @observed s before homed =>
    unfold State.observe
    split <;> exact homed

end State
end Scenario

end AudioFocus
