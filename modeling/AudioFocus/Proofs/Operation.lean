import AudioFocus.Proofs.Registry
import AudioFocus.Proofs.Session

/-!
What the parts of an operation can do. `Called` lists what an operation does up to its first
request, with `Enrolled` for how a registration begins and `Torn` for how several teardowns follow
each other; `Announced` is how a registration goes on when the arbiter has replied. Later modules
argue from these lists and leave the operations themselves closed.
-/
namespace AudioFocus

namespace Request

/-- The handle that a request announces. -/
def announces : Request → Option (IdSpace × Int32)
  | registerFocus _ id _ _ => some (.focus, id)
  | setWatch _ id _ _ => some (.watch, id)
  | _ => none

def withdraws : Request → Option (IdSpace × Int32)
  | unregisterFocus _ id _ => some (.focus, id)
  | unsetWatch _ id _ => some (.watch, id)
  | _ => none

/-- What takes an announcement back: the same owner, id and session flag. -/
def undo : Request → Option Request
  | registerFocus owner id _ session => some (.unregisterFocus owner id session)
  | setWatch owner id _ session => some (.unsetWatch owner id session)
  | _ => none

end Request

namespace Registration

@[simp] theorem announces_announcement (reg : Registration) :
    reg.announcement.announces = some (reg.space, reg.id) := by
  cases h : reg.space <;> simp [announcement, Request.announces, h]

@[simp] theorem withdraws_announcement (reg : Registration) :
    reg.announcement.withdraws = none := by
  cases h : reg.space <;> simp [announcement, Request.withdraws, h]

@[simp] theorem announces_withdrawal (reg : Registration) : reg.withdrawal.announces = none := by
  cases h : reg.space <;> simp [withdrawal, Request.announces, h]

@[simp] theorem withdraws_withdrawal (reg : Registration) :
    reg.withdrawal.withdraws = some (reg.space, reg.id) := by
  cases h : reg.space <;> simp [withdrawal, Request.withdraws, h]

@[simp] theorem undo_announcement (reg : Registration) :
    reg.announcement.undo = some reg.withdrawal := by
  cases h : reg.space <;> simp [announcement, withdrawal, Request.undo, h]

end Registration

namespace Dispatcher

variable {κ : Type}

theorem openChannel_kept {d d' : Dispatcher κ} {key : ChannelKey} {r : Result Unit}
    (opened : d.openChannel key = (r, d')) :
    d'.registry = d.registry ∧ d'.running = d.running := by
  obtain rfl : (d.openChannel key).2 = d' := congrArg Prod.snd opened
  unfold openChannel
  split
  · exact ⟨rfl, rfl⟩
  · split <;> exact ⟨rfl, rfl⟩

@[simp] theorem sendAck_registry (d : Dispatcher κ) (key : ChannelKey) (handle : Int32) :
    (d.sendAck key handle).2.registry = d.registry := by
  unfold sendAck
  split
  · rfl
  · split <;> rfl

@[simp] theorem sendAck_running (d : Dispatcher κ) (key : ChannelKey) (handle : Int32) :
    (d.sendAck key handle).2.running = d.running := by
  unfold sendAck
  split
  · rfl
  · split <;> rfl

@[simp] theorem nextEvent_registry (d : Dispatcher κ) :
    d.nextEvent.2.registry = d.registry := by
  unfold nextEvent
  split <;> rfl

@[simp] theorem nextEvent_running (d : Dispatcher κ) : d.nextEvent.2.running = d.running := by
  unfold nextEvent
  split <;> rfl

theorem start_error {d d' : Dispatcher κ} {e : FocusError} (failed : d.start = (.error e, d')) :
    d' = d ∧ d.running = false ∧ ∃ n, d.faults.threads = some n ∧ e = .system (.code n) := by
  unfold start at failed
  split at failed
  · simp at failed
  · rename_i stopped
    split at failed
    · rename_i n failing
      obtain ⟨cause, same⟩ := Prod.mk.inj failed
      exact ⟨same.symm, by simpa using stopped, n, failing, (Except.error.inj cause).symm⟩
    · simp at failed

theorem start_ok {d d' : Dispatcher κ} (started : d.start = (.ok (), d')) :
    d' = { d with running := true } := by
  unfold start at started
  split at started
  · rename_i running
    obtain rfl := (Prod.mk.inj started).2
    cases d
    simp_all
  · split at started
    · simp at started
    · exact (Prod.mk.inj started).2.symm

@[simp] theorem stop_registry (d : Dispatcher κ) : d.stop.registry = d.registry := by
  unfold stop
  split <;> rfl

end Dispatcher

namespace Client

variable {κ : Type}

theorem create_eq_ok {config : Config} {pid : Int32} {channels : Channels} {signals : Signals}
    {faults : Faults} {c : Client κ} (created : create config pid channels signals faults = .ok c) :
    0 < config.maxHandles ∧ c.registry = .ofCapacity config.maxHandles ∧ c.channels = channels ∧
      c.running = false := by
  unfold create at created
  split at created
  · contradiction
  · rename_i some_
    refine ⟨Nat.pos_of_ne_zero some_, ?_⟩
    split at created
    · generalize signals.install faults.threads faults.handlers = result at created
      obtain ⟨_ | _, signals⟩ := result
      · simp [Except.map, bind, Except.bind] at created
      · obtain rfl := Except.ok.inj created
        exact ⟨rfl, rfl, rfl⟩
    · obtain rfl := Except.ok.inj created
      exact ⟨rfl, rfl, rfl⟩

theorem beginTeardown_eq_some {c c' : Client κ} {slot : Nat} {reg : Registration} {guarded : Bool}
    (begun : c.beginTeardown slot reg = some (c', guarded)) :
    c.registry.Holds slot reg.id reg.space ∧ c.registry.isClosing slot = false ∧
      guarded = !c.registry.isGuarded slot ∧
      c' = c.withRegistry (if guarded then (c.registry.claimed slot).guard slot
        else c.registry.claimed slot) := by
  unfold beginTeardown at begun
  cases claim : c.registry.claim? slot reg.id reg.space with
  | none => simp [claim] at begun
  | some r =>
    obtain ⟨held, unclaimed, rfl⟩ := Registry.claim?_eq_some.mp claim
    refine ⟨held, unclaimed, ?_⟩
    cases guard : c.registry.isGuarded slot <;>
      · simp only [claim, Registry.isGuarded_claimed, guard, Bool.false_eq_true, if_false, if_true,
          Option.some.injEq, Prod.mk.injEq] at begun
        obtain ⟨rfl, rfl⟩ := begun
        exact ⟨rfl, rfl⟩

theorem beginTeardown_eq_none {c : Client κ} {slot : Nat} {reg : Registration} :
    c.beginTeardown slot reg = none ↔ c.registry.claim? slot reg.id reg.space = none := by
  unfold beginTeardown
  cases c.registry.claim? slot reg.id reg.space with
  | none => simp
  | some r => cases guard : r.isGuarded slot <;> simp [guard]

/-- Nobody stands in the way of a teardown but another one. -/
theorem exists_beginTeardown {c : Client κ} {slot : Nat} {reg : Registration}
    (live : c.registry.registration? slot = some reg)
    (unclaimed : c.registry.isClosing slot = false) :
    ∃ c' guarded, c.beginTeardown slot reg = some (c', guarded) := by
  cases begun : c.beginTeardown slot reg with
  | none =>
    have free := Registry.claim?_eq_some.mpr ⟨⟨reg, live, rfl, rfl⟩, unclaimed, rfl⟩
    cases free.symm.trans (beginTeardown_eq_none.mp begun)
  | some result => exact ⟨result.1, result.2, rfl⟩

theorem alike_beginTeardown {c c' : Client κ} {slot : Nat} {reg : Registration} {guarded : Bool}
    (begun : c.beginTeardown slot reg = some (c', guarded)) :
    c'.registry.Alike (c.registry.claimed slot) := by
  obtain ⟨-, -, -, rfl⟩ := beginTeardown_eq_some begun
  cases guarded
  · exact .refl _
  · exact .guard slot _

theorem registration?_beginTeardown {c c' : Client κ} {slot : Nat} {reg : Registration}
    {guarded : Bool} (begun : c.beginTeardown slot reg = some (c', guarded)) (i : Nat) :
    c'.registry.registration? i = c.registry.registration? i := by
  rw [(alike_beginTeardown begun).registration, Registry.registration?_claimed]

theorem alike_endTeardown {c : Client κ} {slot : Nat} {reg : Registration}
    (held : c.registry.Holds slot reg.id reg.space) (guarded : Bool) :
    (c.endTeardown slot reg guarded).registry.Alike (c.registry.freed slot) := by
  change Registry.Alike (if guarded then ((c.registry.release slot reg.id reg.space).unbind slot
    reg.id reg.space).unguard slot else c.registry.release slot reg.id reg.space) _
  rw [Registry.release_of_holds held]
  cases guarded
  · exact .refl _
  · exact .trans (.unguard slot _)
      (.unbind slot _ _ (by simp [Registry.registration?_freed]))

theorem registration?_endTeardown {c : Client κ} {slot : Nat} {reg : Registration}
    (held : c.registry.Holds slot reg.id reg.space) (guarded : Bool) (i : Nat) :
    (c.endTeardown slot reg guarded).registry.registration? i =
      if slot = i then none else c.registry.registration? i := by
  rw [(alike_endTeardown held guarded).registration, Registry.registration?_freed]

theorem giveBack_cases {c : Client κ} {slot : Nat} {reg : Registration}
    (held : c.registry.Holds slot reg.id reg.space) (cause : FocusError) :
    c.giveBack slot reg cause = (c, .stuck slot) ∨
      ∃ c', c.giveBack slot reg cause = (c', .finished (.error cause)) ∧
        c'.registry.Alike (c.registry.freed slot) := by
  unfold giveBack
  split
  · exact .inl rfl
  · refine .inr ⟨_, rfl, ?_⟩
    change (c.registry.vacate slot reg.id reg.space).Alike _
    rw [Registry.vacate_of_holds held]
    exact .bind slot none (by simp [Registry.registration?_freed])

@[simp] theorem registry_withRegistry (c : Client κ) (r : Registry κ) :
    (c.withRegistry r).registry = r := rfl

@[simp] theorem stop_registry (c : Client κ) : c.stop.registry = c.registry :=
  c.toDispatcher.stop_registry

@[simp] theorem removeGuard_dispatcher (c : Client κ) :
    c.removeGuard.toDispatcher = c.toDispatcher := by
  unfold removeGuard
  split <;> rfl

/-- How several teardowns begin: those that cannot claim their handle are passed over. -/
inductive Torn (c : Client κ) (entries : List (Nat × Registration)) : Client κ × Progress → Prop
  | none (all : ∀ e ∈ entries, c.registry.claim? e.1 e.2.id e.2.space = none) :
    Torn c entries (c.removeGuard, .finished (.ok .unit))
  | next (passed : List (Nat × Registration)) {rest : List (Nat × Registration)} {slot : Nat}
      {reg : Registration} {c' : Client κ} {guarded : Bool}
      (split : entries = passed ++ (slot, reg) :: rest)
      (refused : ∀ e ∈ passed, c.registry.claim? e.1 e.2.id e.2.space = Option.none)
      (begun : c.beginTeardown slot reg = some (c', guarded)) :
    Torn c entries (c'.ask reg.withdrawal (.tearingDown slot reg guarded (some rest)))

theorem teardownAll_torn (c : Client κ) (entries : List (Nat × Registration)) :
    Torn c entries (c.teardownAll entries) := by
  induction entries with
  | nil => exact .none (by simp)
  | cons e entries ih =>
    obtain ⟨slot, reg⟩ := e
    cases begun : c.beginTeardown slot reg with
    | none =>
      have refused := beginTeardown_eq_none.mp begun
      have skip : c.teardownAll ((slot, reg) :: entries) = c.teardownAll entries := by
        simp only [teardownAll, begun]
      rw [skip]
      generalize c.teardownAll entries = result at ih
      cases ih with
      | none all => exact .none (List.forall_mem_cons.mpr ⟨refused, all⟩)
      | @next passed rest i other c' guarded split others begun' =>
        exact .next ((slot, reg) :: passed) (by rw [split]; rfl)
          (List.forall_mem_cons.mpr ⟨refused, others⟩) begun'
    | some begun' =>
      simp only [teardownAll, begun]
      exact .next [] rfl (by simp) begun

theorem registration?_torn {c : Client κ} {entries : List (Nat × Registration)}
    {result : Client κ × Progress} (torn : Torn c entries result) (i : Nat) :
    result.1.registry.registration? i = c.registry.registration? i := by
  cases torn with
  | none => simp
  | next _ _ _ begun => exact registration?_beginTeardown begun i

/-- How a registration begins, which `init` makes for the slot that it gets. -/
inductive Enrolled (c : Client κ) (init : Nat → Registration) (callback : κ) :
    Client κ × Progress → Prop
  | exhausted (full : c.registry.vacancy? = none) :
    Enrolled c init callback (c, .finished (.error (.exhausted c.registry.capacity)))
  | duplicate {slot : Nat} (vacant : c.registry.vacancy? = some slot)
      (taken : c.registry.has (init slot).id (init slot).space = true) :
    Enrolled c init callback (c, .finished (refuse (.registered (init slot).id)))
  /-- Its slot is given back, since the channel did not open. -/
  | unopened {slot : Nat} {d : Dispatcher κ} {e : FocusError}
      (vacant : c.registry.vacancy? = some slot)
      (fresh : c.registry.has (init slot).id (init slot).space = false)
      (failed : (c.withRegistry (c.registry.entered slot (init slot) callback)).openChannel
        (init slot).channel = (.error e, d)) :
    Enrolled c init callback ((c.withDispatcher d).withRegistry
      ((((c.registry.entered slot (init slot) callback).claimed slot).freed slot).bind slot none),
      .finished (.error e))
  | entered {slot : Nat} {d : Dispatcher κ} (vacant : c.registry.vacancy? = some slot)
      (fresh : c.registry.has (init slot).id (init slot).space = false)
      (opened : (c.withRegistry (c.registry.entered slot (init slot) callback)).openChannel
        (init slot).channel = (.ok (), d)) :
    Enrolled c init callback
      ((c.withDispatcher d).ask (init slot).announcement (.registering slot (init slot)))

theorem enrol_enrolled (c : Client κ) (init : Nat → Registration) (callback : κ) :
    Enrolled c init callback (c.enrol init callback) := by
  unfold enrol
  cases got : c.registry.allocate fun slot => (init slot, callback) with
  | error e =>
    rcases Registry.allocate_eq_error got with ⟨full, rfl⟩ | ⟨slot, vacant, taken, rfl⟩
    · exact .exhausted full
    · exact .duplicate vacant taken
  | ok result =>
    obtain ⟨slot, r⟩ := result
    obtain ⟨vacant, fresh, rfl⟩ := Registry.allocate_eq_ok got
    obtain ⟨room, -, unguarded⟩ := Registry.vacancy?_spec vacant
    dsimp only [orRefuse] at fresh ⊢
    unfold activate
    generalize opening : (c.withRegistry
      (c.registry.entered slot (init slot) callback)).openChannel (init slot).channel = result
    obtain ⟨_ | _, d⟩ := result
    · -- The slot has just been filled, so the claim and the guard are free for the taking.
      rename_i e
      have kept : d.registry = c.registry.entered slot (init slot) callback :=
        (Dispatcher.openChannel_kept opening).1
      have held : d.registry.Holds slot (init slot).id (init slot).space :=
        ⟨init slot, by simp [kept, Registry.registration?_entered _ _ _ room], rfl, rfl⟩
      have unclaimed : d.registry.isClosing slot = false := by
        simp [kept, Registry.isClosing_entered]
      have same : (c.withRegistry (c.registry.entered slot (init slot) callback)).withDispatcher d =
          c.withDispatcher d := rfl
      have claim : (c.withDispatcher d).registry.claim? slot (init slot).id (init slot).space =
          some (d.registry.claimed slot) := Registry.claim?_eq_some.mpr ⟨held, unclaimed, rfl⟩
      have free : (d.registry.claimed slot).isGuarded slot = false := by simp [kept, unguarded]
      have still : ((c.registry.entered slot (init slot) callback).claimed slot).Holds slot
          (init slot).id (init slot).space := by simpa [Registry.Holds, kept] using held
      dsimp only
      rw [same]
      simp only [claim]
      dsimp only [giveBack, withRegistry]
      rw [if_neg (by simp [free]), kept, Registry.vacate_of_holds still]
      exact .unopened vacant fresh opening
    · exact .entered vacant fresh opening

/-- What an operation does up to its first request. -/
inductive Called (c : Client κ) (o : Operation κ) : Client κ × Progress → Prop
  | ended (result : Result Value) : Called c o (c, .finished result)
  /-- It asks for something that is of no account to the registrations. -/
  | asked (request : Request) (q : Query) (announces : request.announces = none)
      (withdraws : request.withdraws = none) : Called c o (c.ask request (.query q))
  | entered {slot : Nat} {reg : Registration} {callback : κ} {d : Dispatcher κ}
      (brought : o.callback? = some callback) (vacant : c.registry.vacancy? = some slot)
      (fresh : c.registry.has reg.id reg.space = false)
      (opened : (c.withRegistry (c.registry.entered slot reg callback)).openChannel reg.channel =
        (.ok (), d)) :
    Called c o ((c.withDispatcher d).ask reg.announcement (.registering slot reg))
  /-- It has entered a registration, and given its slot back, since the channel did not open. -/
  | unopened {slot : Nat} {reg : Registration} {callback : κ} {d : Dispatcher κ} {e : FocusError}
      (brought : o.callback? = some callback) (vacant : c.registry.vacancy? = some slot)
      (fresh : c.registry.has reg.id reg.space = false)
      (failed : (c.withRegistry (c.registry.entered slot reg callback)).openChannel reg.channel =
        (.error e, d)) :
    Called c o ((c.withDispatcher d).withRegistry
      ((((c.registry.entered slot reg callback).claimed slot).freed slot).bind slot none),
      .finished (.error e))
  | torn {slot : Nat} {reg : Registration} {c' : Client κ} {guarded : Bool}
      (bringsNone : o.callback? = none) (live : c.registry.registration? slot = some reg)
      (begun : c.beginTeardown slot reg = some (c', guarded)) :
    Called c o (c'.ask reg.withdrawal (.tearingDown slot reg guarded none))
  | finalized {result : Client κ × Progress} (final : o = .finalize)
      (torn : Torn c.stop c.registry.live result) : Called c o result

theorem called_orRefuse {c : Client κ} {o : Operation κ} {α : Type} {r : Result α}
    {next : α → Client κ × Progress} (each : ∀ a, r = .ok a → Called c o (next a)) :
    Called c o (c.orRefuse r next) := by
  cases r with
  | error e => exact .ended _
  | ok a => exact each a rfl

theorem called_enrol {c : Client κ} {o : Operation κ} (init : Nat → Registration) {callback : κ}
    (brought : o.callback? = some callback) : Called c o (c.enrol init callback) := by
  have enrolled := enrol_enrolled c init callback
  generalize c.enrol init callback = result at enrolled
  cases enrolled with
  | exhausted | duplicate => exact .ended _
  | unopened vacant fresh failed => exact .unopened brought vacant fresh failed
  | entered vacant fresh opened => exact .entered brought vacant fresh opened

theorem called_teardown {c : Client κ} {o : Operation κ} {slot : Nat} {reg : Registration}
    (bringsNone : o.callback? = none) (live : c.registry.registration? slot = some reg) :
    Called c o (c.teardown slot reg) := by
  unfold teardown
  cases begun : c.beginTeardown slot reg with
  | none => exact .ended _
  | some result => exact .torn bringsNone live begun

theorem focus_live {c : Client κ} {id : Int32} {slot : Nat} {reg : Registration}
    (found : c.focus id = .ok (slot, reg)) :
    c.registry.registration? slot = some reg ∧ reg.id = id ∧ reg.space = .focus := by
  unfold focus at found
  split at found
  · contradiction
  · rename_i i taken
    split at found
    · rename_i other live
      obtain ⟨rfl, rfl⟩ : i = slot ∧ other = reg := by simpa using found
      obtain ⟨_, same, held⟩ := Registry.holds_of_find? taken
      cases live.symm.trans same
      exact ⟨live, held⟩
    · contradiction

theorem watch_live {c : Client κ} {id : Int32} {slot : Nat} {reg : Registration}
    (found : c.watch id = .ok (slot, reg)) :
    c.registry.registration? slot = some reg ∧ reg.id = id ∧ reg.space = .watch := by
  unfold watch at found
  cases place : watchSlot id with
  | error e => simp [place, bind, Except.bind] at found
  | ok i =>
    simp only [place, bind, Except.bind] at found
    split at found
    · rename_i other live
      split at found
      · rename_i held
        obtain ⟨rfl, rfl⟩ : i = slot ∧ other = reg := by simpa [pure, Except.pure] using found
        exact ⟨live, held.2, held.1⟩
      · contradiction
    · contradiction

theorem call_called (c : Client κ) (o : Operation κ) : Called c o (c.call o) := by
  cases o with
  | uniqueId => exact .asked _ _ rfl rfl
  | acquired focusType =>
    by_cases both : focusType = .both
    · simp only [call, if_pos both]
      exact .ended _
    · simp only [call, if_neg both]
      exact .asked _ _ rfl rfl
  | register id owner streamType session callback =>
    exact called_orRefuse fun owner _ => called_enrol _ rfl
  | unregister id =>
    exact called_orRefuse fun _ found => called_teardown rfl (focus_live found).1
  | acquire id focusType option info =>
    exact called_orRefuse fun _ _ => called_orRefuse fun _ _ => .asked _ _ rfl rfl
  | release id focusType option info =>
    exact called_orRefuse fun _ _ => called_orRefuse fun _ _ => .asked _ _ rfl rfl
  | setReacquisition id reacquire => exact called_orRefuse fun _ _ => .asked _ _ rfl rfl
  | getReacquisition id => exact called_orRefuse fun _ _ => .asked _ _ rfl rfl
  | watch owner filter session callback =>
    exact called_orRefuse fun owner _ => called_enrol _ rfl
  | requestUnwatch id => exact called_orRefuse fun _ _ => .asked _ _ rfl rfl
  | unwatch id =>
    exact called_orRefuse fun _ found => called_teardown rfl (watch_live found).1
  | finalize =>
    refine .finalized rfl ?_
    change Torn c.stop c.registry.live (c.stop.teardownAll c.stop.registry.live)
    rw [stop_registry]
    exact teardownAll_torn c.stop c.registry.live

/-- How a registration goes on when the arbiter has replied to its announcement. -/
inductive Announced (c : Client κ) (slot : Nat) (reg : Registration) (reply : Result Reply) :
    Client κ × Progress → Prop
  | served (done : reply = .ok .done) :
    Announced c slot reg reply
      (c.withDispatcher { c.toDispatcher with running := true }, .finished (.ok (registered reg)))
  /-- It has failed, and what has its slot and id now, if anything, is another teardown's. -/
  | left (e : FocusError) (refused : c.registry.claim? slot reg.id reg.space = none) :
    Announced c slot reg reply (c, .finished (.error e))
  /-- The arbiter has refused: what has the slot and id is taken back. -/
  | refused {e : FocusError}
      (outcome : Reply.expectDone reg.announcement.method reply = .error e)
      (held : c.registry.Holds slot reg.id reg.space)
      (unclaimed : c.registry.isClosing slot = false) :
    Announced c slot reg reply
      (((c.withRegistry (c.registry.claimed slot)).closeChannel reg.channel).giveBack slot reg e)
  /-- The loop does not start: what has the slot and id is withdrawn. -/
  | unstarted {n : Int32} {current : Registration} (done : reply = .ok .done)
      (stopped : c.running = false) (failing : c.faults.threads = some n)
      (live : c.registry.registration? slot = some current)
      (same : current.id = reg.id ∧ current.space = reg.space)
      (unclaimed : c.registry.isClosing slot = false) :
    Announced c slot reg reply
      ((c.withRegistry (c.registry.claimed slot)).ask current.withdrawal
        (.undoing slot reg (.system (.code n))))

theorem expectDone_eq_ok {method : Method} {reply : Result Reply} :
    Reply.expectDone method reply = .ok () ↔ reply = .ok .done := by
  unfold Reply.expectDone
  split <;> simp_all

theorem not_done_of_expectDone {method : Method} {reply : Result Reply} {e : FocusError}
    (outcome : Reply.expectDone method reply = .error e) : reply ≠ .ok .done := by
  intro done
  cases outcome.symm.trans (expectDone_eq_ok.mpr done)

theorem announced_announced (c : Client κ) (slot : Nat) (reg : Registration)
    (reply : Result Reply) : Announced c slot reg reply (c.announced slot reg reply) := by
  unfold announced
  cases outcome : Reply.expectDone reg.announcement.method reply with
  | error e =>
    cases claim : c.registry.claim? slot reg.id reg.space with
    | none => exact .left e claim
    | some r =>
      obtain ⟨held, unclaimed, rfl⟩ := Registry.claim?_eq_some.mp claim
      exact .refused outcome held unclaimed
  | ok u =>
    have done := expectDone_eq_ok.mp outcome
    dsimp only
    generalize starting : c.start = result
    obtain ⟨_ | _, d⟩ := result
    · obtain ⟨rfl, stopped, n, failing, rfl⟩ := Dispatcher.start_error starting
      have same : c.withDispatcher c.toDispatcher = c := rfl
      dsimp only
      rw [same]
      cases claim : c.registry.claim? slot reg.id reg.space with
      | none => exact .left _ claim
      | some r =>
        obtain ⟨⟨current, live, same⟩, unclaimed, rfl⟩ := Registry.claim?_eq_some.mp claim
        have found : (c.withRegistry (c.registry.claimed slot)).registry.registration? slot =
            some current := by simpa [withRegistry] using live
        simp only [found]
        exact .unstarted done stopped failing live same unclaimed
    · obtain rfl := Dispatcher.start_ok starting
      exact .served done

end Client
end AudioFocus
