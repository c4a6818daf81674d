import AudioFocus.Proofs.Locks
import AudioFocus.Proofs.Owners
import AudioFocus.Proofs.RoundTrip

/-!
Ending a registration takes that one out of the client, whatever the arbiter replies, and leaves all
else as it was: the other slots with their guards and callbacks, the references of the other
channels, and the loop. If the callback of the registration is running, it keeps the guard and
stays behind it; otherwise it is gone as well.
-/
namespace AudioFocus

/-- The operation that ends a registration. -/
def Registration.ending {κ : Type} (reg : Registration) : Operation κ :=
  match reg.space with
  | .focus => .unregister reg.id
  | .watch => .unwatch reg.id

/-- What the end of a registration leaves in its slot. -/
def Slot.vacated {κ : Type} (s : Slot κ) : Slot κ := { s with
  registration := none
  closing := false
  binding := if s.guarded then s.binding else none }

namespace Client

variable {κ : Type} {c c₀ c₁ c' : Client κ} {slot : Nat} {reg : Registration} {guarded : Bool}

/-- A registration was taken out of its slot, and what else the client has is as it was before. -/
structure Removed (c : Client κ) (slot : Nat) (reg : Registration) (c' : Client κ) : Prop where
  registry : c'.registry = c.registry.modify slot Slot.vacated
  reference : c'.channels.refs reg.channel + 1 = c.channels.refs reg.channel
  references : ∀ key, key ≠ reg.channel → c'.channels.refs key = c.channels.refs key
  running : c'.running = c.running
  trace : c'.trace = c.trace ++ [.request reg.withdrawal, .closed reg.channel]
  signals : c'.signals = c.signals
  guarding : c'.guarding = c.guarding
  pid : c'.pid = c.pid

theorem registry_endTeardown (live : c.registry.registration? slot = some reg) {callback : κ}
    (bound : c.registry.binding? slot = some ⟨reg.id, reg.space, callback⟩)
    (begun : c.beginTeardown slot reg = some (c₀, guarded))
    (same : c₁.registry = c₀.registry) :
    (c₁.endTeardown slot reg guarded).registry = c.registry.modify slot Slot.vacated := by
  obtain ⟨-, -, taken, rfl⟩ := beginTeardown_eq_some begun
  change (if guarded then ((c₁.registry.release slot reg.id reg.space).unbind slot reg.id
    reg.space).unguard slot else c₁.registry.release slot reg.id reg.space) = _
  change c₁.registry = if guarded then (c.registry.claimed slot).guard slot
    else c.registry.claimed slot at same
  have held : c₁.registry.Holds slot reg.id reg.space := by
    refine ⟨reg, ?_, rfl, rfl⟩
    rw [same]
    split <;> simp [live]
  rw [Registry.release_of_holds held, same]
  cases guarded with
  | false =>
    simp only [Bool.false_eq_true, if_false, Registry.claimed, Registry.freed,
      Registry.modify_modify]
    apply Registry.modify_congr
    intro s found
    have kept : s.guarded = true := by simpa [Registry.isGuarded, found] using taken
    simp [Slot.vacated, kept]
  | true =>
    simp only [if_true, Registry.claimed, Registry.guard, Registry.freed, Registry.unbind,
      Registry.unguard, Registry.modify_modify]
    apply Registry.modify_congr
    intro s found
    have free : s.guarded = false := by simpa [Registry.isGuarded, found] using taken
    have own : s.binding = some ⟨reg.id, reg.space, callback⟩ := by
      simpa [Registry.binding?, found] using bound
    simp [Slot.vacated, Slot.bindsTo, free, own]

theorem removed_of_begun (balanced : c.Balanced)
    (live : c.registry.registration? slot = some reg) {callback : κ}
    (bound : c.registry.binding? slot = some ⟨reg.id, reg.space, callback⟩)
    (begun : c.beginTeardown slot reg = some (c₀, guarded))
    (beside : (c₀.withDispatcher (c₀.note (.request reg.withdrawal))).Beside c₁) :
    c.Removed slot reg (c₁.endTeardown slot reg guarded) := by
  have registry := registry_endTeardown live bound begun beside.registry
  obtain ⟨-, -, -, rfl⟩ := beginTeardown_eq_some begun
  have before (key : ChannelKey) : c₁.channels.refs key = c.channels.refs key :=
    beside.channels.refs key
  have used : 0 < c₁.channels.refs reg.channel := by
    rw [before, balanced.refs, Registry.users, List.countP_pos_iff]
    exact ⟨(slot, reg), Registry.mem_live.mpr live, by simp⟩
  have after (key : ChannelKey) := Channels.refs_closeChannel used key
  have sent : (c₁.endTeardown slot reg guarded).trace =
      (c.trace ++ [.request reg.withdrawal]) ++ [.closed reg.channel] :=
    congrArg (· ++ [Action.closed reg.channel]) beside.trace
  refine ⟨registry, ?_, fun key other => ?_, beside.running, ?_, beside.signals, beside.guarding,
    beside.pid⟩
  · have dropped := after reg.channel
    rw [if_pos rfl, before] at dropped
    exact dropped
  · have kept := after key
    rw [if_neg other, before] at kept
    exact kept
  · rw [sent]
    simp

theorem call_ending (c : Client κ) (reg : Registration) :
    c.call reg.ending = c.orRefuse (c.lookup reg.space reg.id) fun found =>
      c.teardown found.1 found.2 := by
  unfold Registration.ending lookup
  cases reg.space <;> rfl

/-- The end of a registration that is not found is refused. -/
theorem call_ending_of_missing
    (missing : ∀ found, c.lookup reg.space reg.id ≠ .ok found) :
    ∃ why, c.call reg.ending = (c, .finished (refuse why)) := by
  rw [call_ending]
  cases looked : c.lookup reg.space reg.id with
  | ok found => exact absurd looked (missing found)
  | error e =>
    obtain ⟨why, rfl⟩ := lookup_error looked
    exact ⟨why, rfl⟩

theorem Removed.not_holds (removed : c.Removed slot reg c') (distinct : c.registry.Distinct)
    (live : c.registry.registration? slot = some reg) (i : Nat) :
    ¬ c'.registry.Holds i reg.id reg.space := by
  rintro ⟨other, live', same⟩
  rw [removed.registry, Registry.registration?_modify] at live'
  split at live'
  · simp [Slot.vacated] at live'
  · rename_i apart
    exact apart (distinct slot i reg.id reg.space ⟨reg, live, rfl, rfl⟩ ⟨other, live', same⟩)

/-- What was removed cannot be ended again. -/
theorem Removed.again (removed : c.Removed slot reg c') (distinct : c.registry.Distinct)
    (live : c.registry.registration? slot = some reg) :
    ∃ why, c'.call reg.ending = (c', .finished (refuse why)) := by
  apply call_ending_of_missing
  rintro ⟨i, other⟩ found
  obtain ⟨live', same⟩ := lookup_live found
  exact removed.not_holds distinct live i ⟨other, live', same⟩

end Client

namespace Session

variable {s : Session} {slot : Nat} {reg : Registration}

/-- Between operations, the guard of a slot is held just while its callback runs. -/
theorem guarded_iff_running (reach : Reach .none s) (idle : s.waits = false) (slot : Nat) :
    s.client.registry.isGuarded slot = true ↔ ∃ key e n, .callback slot key e n ∈ s.frames := by
  rw [(gripped_of_reach reach).held_iff]
  constructor
  · rintro ⟨f, member, holds⟩
    have callback := (accounted_of_reach reach).orderly.idle_of_not_waits idle f member
    cases f with
    | callback i key e n =>
      obtain rfl : i = slot := holds
      exact ⟨key, e, n, member⟩
    | asking | blocked => contradiction
  · rintro ⟨key, e, n, member⟩
    exact ⟨_, member, rfl⟩

/-- Ending a registration, with or without its callback running, makes one request, with the owner
and the session flag of the registration. Whatever the arbiter replies is the outcome, and the
registration is gone: its slot is free, its channel has one reference less, and its callback is
gone unless it is running. All else stays, and the same operation again is refused. A watch in a
slot which 32 bits cannot count is not found by its id, so that its end is refused, and it stays. -/
theorem ending_removes_one (reach : Reach .none s) (idle : s.waits = false)
    (live : s.client.registry.registration? slot = some reg) :
    (s.client.registry.isGuarded slot = true ↔ ∃ key e n, .callback slot key e n ∈ s.frames) ∧
    (reg.space = .watch → watchLimit ≤ slot →
      ∃ why, s.client.call reg.ending = (s.client, .finished (refuse why))) ∧
    ((reg.space = .watch → slot < watchLimit) →
      (∀ reply, ∃ c result,
        Client.Serves Client.Beside (s.client.call reg.ending) [(reg.withdrawal, reply)] c result) ∧
      ∀ exchanges c result,
        Client.Serves Client.Beside (s.client.call reg.ending) exchanges c result →
        ∃ reply, exchanges = [(reg.withdrawal, reply)] ∧
          (reply = .ok .done → result = .ok .unit) ∧
          (∀ other, reply = .ok other → other ≠ .done →
            result = .error (.unexpectedReply reg.withdrawal.method)) ∧
          (∀ e, reply = .error e → result = .error e) ∧
          s.client.Removed slot reg c ∧
          ∃ why, c.call reg.ending = (c, .finished (refuse why))) := by
  have distinct := distinct_of_reach reach
  refine ⟨guarded_iff_running reach idle slot, fun watch large => ?_, fun small => ?_⟩
  · apply Client.call_ending_of_missing
    rintro ⟨i, other⟩ found
    obtain ⟨live', same⟩ := Client.lookup_live found
    obtain rfl := distinct slot i reg.id reg.space ⟨reg, live, rfl, rfl⟩ ⟨other, live', same⟩
    rw [watch] at found
    have bound := small_of_watchSlot (Client.watchSlot_of_watch found)
    omega
  · obtain ⟨balanced, orderly⟩ := accounted_of_reach reach
    have unclaimed : s.client.registry.isClosing slot = false :=
      unclaimed_of_idle (consistent_of_reach reach) (orderly.idle_of_not_waits idle)
        (occupant?_live live)
    obtain ⟨n, -, bound⟩ := tenant_of_live reach live
    obtain ⟨c₀, guarded, begun⟩ := Client.exists_beginTeardown live unclaimed
    have called : s.client.call reg.ending = s.client.teardown slot reg := by
      obtain ⟨i, found⟩ := lookup_of_knows reach ⟨slot, live, rfl, rfl, small⟩
      obtain ⟨live', same⟩ := Client.lookup_live found
      obtain rfl := distinct slot i reg.id reg.space ⟨reg, live, rfl, rfl⟩ ⟨reg, live', same⟩
      rw [Client.call_ending, found]
      rfl
    rw [called]
    constructor
    · intro reply
      exact ⟨_, _, (Client.serves_begun_iff begun).mpr ⟨_, reply, .refl _, rfl, rfl, rfl⟩⟩
    · intro exchanges c result serves
      obtain ⟨c₁, reply, beside, rfl, rfl, rfl⟩ := (Client.serves_begun_iff begun).mp serves
      have removed := Client.removed_of_begun balanced live bound begun beside
      refine ⟨reply, rfl, ?_, ?_, ?_, removed, removed.again distinct live⟩
      · rintro rfl
        rfl
      · rintro other rfl wrong
        cases other with
        | done => contradiction
        | uniqueId | reacquisition | acquired => rfl
      · rintro e rfl
        rfl

/-- The callback of a watch ends it, and the arbiter refuses. A focus handle has the same number,
and another watch is on the same channel. -/
theorem ending_removes_one_of_running_watch :
    let s := played .none 3 [.call (.watch 0 .both false 0), .reply (.ok .done),
      .call (.register 1 0 "media" false 1), .reply (.ok .done),
      .call (.watch 0 .playback false 2), .reply (.ok .done),
      .push (.watch 7) ⟨9, 1, .playback, .acquired, "", "", ""⟩, .take, .enter]
    Reach .none s ∧ s.waits = false ∧ s.client.registry.isGuarded 0 = true ∧
      s.client.registry.Holds 0 1 .watch ∧ ∃ c,
      Client.Serves Client.Beside (s.client.call (.unwatch 1))
        [(.unsetWatch 7 1 false, .error (.rejected 3))] c (.error (.rejected 3)) ∧
      c.registry.registration? 0 = none ∧ c.registry.binding? 0 = some ⟨1, .watch, 0⟩ ∧
      c.registry.Holds 1 1 .focus ∧ c.registry.Holds 2 3 .watch ∧
      c.channels.refs (.watch 7) = 1 ∧ c.channels.refs (.focus 7 1) = 1 ∧
      ∃ why, c.call (.unwatch 1) = (c, .finished (refuse why)) := by
  intro s
  let reg : Registration := .ofWatch 7 .both false 0
  have reach : Reach .none s := reach_played (by decide) (by decide +kernel)
  have idle : s.waits = false := by decide +kernel
  have live : s.client.registry.registration? 0 = some reg := by decide +kernel
  obtain ⟨-, -, small⟩ := ending_removes_one reach idle live
  obtain ⟨completes, all⟩ := small (by decide)
  obtain ⟨c, result, serves⟩ := completes (.error (.rejected 3))
  obtain ⟨reply, exchanged, -, -, error, removed, again⟩ := all _ c result serves
  obtain rfl : .error (.rejected 3) = reply := by simpa using exchanged
  obtain rfl := error _ rfl
  have freed : c.registry.registration? 0 = none := by
    rw [removed.registry]
    decide +kernel
  have focus : c.registry.registration? 1 = some (.ofFocus 7 1 false "media") := by
    rw [removed.registry]
    decide +kernel
  have watch : c.registry.registration? 2 = some (.ofWatch 7 .playback false 2) := by
    rw [removed.registry]
    decide +kernel
  have bound : c.registry.binding? 0 = some ⟨1, .watch, 0⟩ := by
    rw [removed.registry]
    rfl
  have shared : c.channels.refs (.watch 7) + 1 = 2 := removed.reference
  have other : c.channels.refs (.focus 7 1) = 1 := removed.references _ (by decide)
  exact ⟨reach, idle, by decide +kernel, ⟨reg, live, rfl, rfl⟩, c, serves, freed, bound,
    ⟨_, focus, rfl, rfl⟩, ⟨_, watch, rfl, rfl⟩, Nat.succ.inj shared, other, again⟩

/-- A watch is in slot 2147483648. Its end is refused without a request, and it stays. -/
theorem watch_kept_by_unset :
    ∃ s : Session, Reach .none s ∧ s.waits = false ∧
      s.client.registry.capacity = 2147483649 ∧ ∃ reg : Registration, reg.space = .watch ∧
        s.client.registry.registration? 2147483648 = some reg ∧
        ∃ e, s.client.call reg.ending = (s.client, .finished (.error e)) := by
  obtain ⟨-, t, -, -, -, -, reach, idle, capacity, live, -, -, e, -, -, refused⟩ :=
    exists_watch_without_end (n := 2147483649) (by decide)
  exact ⟨t, reach, by simp [waits, idle], capacity, _, rfl, live, e, refused⟩

end Session
end AudioFocus
