import AudioFocus.Proofs.Actions
import AudioFocus.Proofs.Callbacks
import AudioFocus.Proofs.Withdrawal

/-!
Deliveries. `Taken` lists what becomes of an event that the loop takes: nobody has the handle that
it names, or one live registration has it, and then the loop has the event in hand. `Handled` lists
what becomes of it when the loop has got the guard: if the callback of the handle is there still, it
starts or the event is only acknowledged, else the event is dropped. `Noted` says of every move what
the client notes of it and what it does to channels in memory.
-/
namespace AudioFocus

namespace Dispatcher

variable {κ : Type} {d : Dispatcher κ} {key : ChannelKey} {e : Event}

theorem nextEvent_trace (d : Dispatcher κ) : d.nextEvent.2.trace = d.trace := by
  unfold nextEvent
  split <;> rfl

theorem nextEvent_memory {m : MemoryChannels} (memory : d.channels = .memory m) :
    d.nextEvent.1 = (if d.faults.waits.isEmpty then m.nextEvent.1 else none) ∧
      d.nextEvent.2.channels =
        .memory (m.replay (if d.faults.waits.isEmpty then [.nextEvent] else [])) := by
  unfold nextEvent
  split
  · rename_i failing
    simpa [failing, MemoryChannels.replay] using memory
  · rename_i working
    simp [working, memory, Channels.nextEvent, MemoryChannels.replay, MemoryChannels.after]

end Dispatcher

/-- A focus handle is told of every change, a watch of those that its filter covers. -/
def Registration.Told (reg : Registration) (e : Event) : Prop :=
  reg.space = .watch → reg.filter.covers e.focusType = true

instance (reg : Registration) (e : Event) : Decidable (reg.Told e) :=
  inferInstanceAs (Decidable (_ → _))

namespace Session

/-- The live registration that has the handle which an event names: its id, in the id space of the
channel that the event came from. -/
structure Addressed (s : Session) (key : ChannelKey) (e : Event) (slot : Nat) (reg : Registration)
    (n : Nat) : Prop where
  live : s.client.registry.registration? slot = some reg
  named : reg.id = e.handle ∧ reg.space = key.space
  brought : s.tenants slot = some n
  used : e.handle ≠ Registry.freeId

section Addressed

variable {k : Nesting} {s t : Session} {key : ChannelKey} {e : Event} {slot n : Nat}
  {reg : Registration}

theorem find?_of_live (reach : Reach k s)
    (live : s.client.registry.registration? slot = some reg) (used : reg.id ≠ Registry.freeId) :
    s.client.registry.find? reg.id reg.space = some slot := by
  have known := Registry.has_iff.mpr ⟨slot, reg, live, rfl, rfl⟩
  unfold Registry.find?
  rw [if_neg used]
  cases found : s.client.registry.slots.findIdx? (·.holds reg.id reg.space) with
  | none =>
    rw [List.findIdx?_eq_none_iff] at found
    obtain ⟨x, member, held⟩ := List.any_eq_true.mp known
    cases (found x member).symm.trans held
  | some i =>
    obtain ⟨other, live', same⟩ : s.client.registry.Holds i reg.id reg.space :=
      Registry.holds_of_find? (by rw [Registry.find?, if_neg used, found])
    have distinct := (recorded_of_reach reach).handles_distinct
      (consistent_of_reach reach).tenanted (occupant?_live live') (occupant?_live live)
      ⟨same.2, same.1⟩
    rw [distinct]

theorem Addressed.found (addressed : s.Addressed key e slot reg n) (reach : Reach k s) :
    s.client.registry.find? e.handle key.space = some slot := by
  obtain ⟨live, ⟨id, space⟩, -, used⟩ := addressed
  rw [← id, ← space]
  exact find?_of_live reach live (id ▸ used)

theorem Addressed.unique (addressed : s.Addressed key e slot reg n) (reach : Reach k s)
    {slot' n' : Nat} {reg' : Registration} (other : s.Addressed key e slot' reg' n') :
    slot' = slot ∧ reg' = reg ∧ n' = n := by
  obtain rfl : slot = slot' :=
    Option.some.inj ((addressed.found reach).symm.trans (other.found reach))
  exact ⟨rfl, Option.some.inj (other.live.symm.trans addressed.live),
    Option.some.inj (other.brought.symm.trans addressed.brought)⟩

theorem addressed_of_find? (reach : Reach k s)
    (found : s.client.registry.find? e.handle key.space = some slot) :
    ∃ reg n, s.Addressed key e slot reg n := by
  obtain ⟨reg, live, named⟩ := Registry.holds_of_find? found
  obtain ⟨n, brought, -⟩ := tenant_of_live reach live
  refine ⟨reg, n, live, named, brought, fun free => ?_⟩
  simp [Registry.find?, free] at found

theorem Addressed.bound (addressed : s.Addressed key e slot reg n) (reach : Reach k s) :
    s.client.registry.binding? slot = some ⟨e.handle, key.space, n⟩ := by
  obtain ⟨m, brought, bound⟩ := tenant_of_live reach addressed.live
  obtain rfl : m = n := Option.some.inj (brought.symm.trans addressed.brought)
  rw [bound, addressed.named.1, addressed.named.2]

end Addressed

/-- What becomes of what the loop takes. -/
inductive Taken (s : Session) : Session → Prop
  /-- There is no event. -/
  | idle {d : Dispatcher Nat} (next : s.client.nextEvent = (none, d)) :
    Taken s { s with client := s.client.withDispatcher d }
  | dropped {key : ChannelKey} {e : Event} {d : Dispatcher Nat}
      (next : s.client.nextEvent = (some (key, e), d))
      (unknown : ∀ slot reg n, ¬ s.Addressed key e slot reg n) :
    Taken s { s with client := s.client.withDispatcher d }
  | found {key : ChannelKey} {e : Event} {d : Dispatcher Nat} {slot n : Nat} {reg : Registration}
      (next : s.client.nextEvent = (some (key, e), d))
      (addressed : s.Addressed key e slot reg n) :
    Taken s { s with
      client := s.client.withDispatcher d, errand := some ⟨key, e, slot, reg⟩ }

/-- The callback behind the guard of the slot that was found is for the handle still. -/
def Binds (s : Session) (x : Errand) (n : Nat) : Prop :=
  s.client.registry.binding? x.slot = some ⟨x.event.handle, x.key.space, n⟩

/-- What becomes of an event that the loop has in hand, when it has got the guard. -/
inductive Handled (s : Session) (x : Errand) : Session → Prop
  | dropped (unbound : ∀ n, ¬ s.Binds x n) : Handled s x { s with errand := none }
  | skipped {n : Nat} (bound : s.Binds x n) (untold : ¬ x.reg.Told x.event) :
    Handled s x { s with
      client := s.client.withDispatcher
        (s.client.toDispatcher.sendAck x.key x.event.handle).2
      errand := none }
  | started {n : Nat} (bound : s.Binds x n) (told : x.reg.Told x.event) :
    Handled s x { s with
      client := s.client.withDispatcher
        { s.client.toDispatcher with registry := s.client.registry.guard x.slot }
      frames := .callback x.slot x.key x.event n :: s.frames
      errand := none }

section Taken

variable {k : Nesting} {s t : Session} {key : ChannelKey} {e : Event} {d : Dispatcher Nat}
  {slot n : Nat} {reg : Registration}

theorem registry_of_next {r : Option (ChannelKey × Event)}
    (next : s.client.nextEvent = (r, d)) : d.registry = s.client.registry := by
  have same := s.client.toDispatcher.nextEvent_registry
  rwa [next] at same

theorem step_take (running : s.client.running = true) (free : s.errand = none)
    (next : s.client.nextEvent = (some (key, e), d)) : s.step .take = some { s with
      client := s.client.withDispatcher d, errand := d.address? key e } := by
  simp [step, running, free, next]

theorem step_unknown (reach : Reach k s) (running : s.client.running = true)
    (free : s.errand = none) (next : s.client.nextEvent = (some (key, e), d))
    (unknown : ∀ slot reg n, ¬ s.Addressed key e slot reg n) :
    s.step .take = some { s with client := s.client.withDispatcher d } := by
  have missing : d.address? key e = none := by
    rw [Dispatcher.address?_eq_none, registry_of_next next]
    cases found : s.client.registry.find? e.handle key.space with
    | none => rfl
    | some slot =>
      obtain ⟨reg, n, addressed⟩ := addressed_of_find? reach found
      exact absurd addressed (unknown slot reg n)
  rw [step_take running free next, missing, ← free]

theorem step_addressed (reach : Reach k s) (running : s.client.running = true)
    (free : s.errand = none) (next : s.client.nextEvent = (some (key, e), d))
    (addressed : s.Addressed key e slot reg n) : s.step .take = some { s with
      client := s.client.withDispatcher d, errand := some ⟨key, e, slot, reg⟩ } := by
  have same := registry_of_next next
  rw [step_take running free next, Dispatcher.address?_of_found (same ▸ addressed.found reach)
    (same ▸ addressed.live)]

theorem ready_of_take (moved : s.step .take = some t) :
    s.client.running = true ∧ s.errand = none := by
  simp only [step] at moved
  split at moved
  · rename_i ready
    have taken : s.step .take = some t := by
      simp only [step, ready]
      exact moved
    exact ⟨(Bool.and_eq_true_iff.mp ready).1, idle_of_take taken⟩
  · contradiction

theorem taken_of_step (reach : Reach k s) (moved : s.step .take = some t) : s.Taken t := by
  obtain ⟨running, free⟩ := ready_of_take moved
  cases next : s.client.nextEvent with
  | mk r d =>
    cases r with
    | none =>
      simp only [step, running, free, next] at moved
      obtain rfl := Option.some.inj moved
      rw [← free]
      exact .idle next
    | some x =>
      obtain ⟨key, e⟩ := x
      by_cases known : ∃ slot reg n, s.Addressed key e slot reg n
      · obtain ⟨slot, reg, n, addressed⟩ := known
        rw [step_addressed reach running free next addressed] at moved
        obtain rfl := Option.some.inj moved
        exact .found next addressed
      · have unknown : ∀ slot reg n, ¬ s.Addressed key e slot reg n :=
          fun slot reg n addressed => known ⟨slot, reg, n, addressed⟩
        rw [step_unknown reach running free next unknown] at moved
        obtain rfl := Option.some.inj moved
        exact .dropped next unknown

end Taken

section Handled

variable {k : Nesting} {s t : Session} {x : Errand} {n : Nat}

theorem Binds.unique (bound : s.Binds x n) {m : Nat} (other : s.Binds x m) : m = n :=
  (Binding.mk.inj (Option.some.inj (other.symm.trans bound))).2.2

theorem step_guarded (inHand : s.errand = some x)
    (held : s.client.registry.isGuarded x.slot = true) : s.step .enter = none := by
  simp [step, inHand, Client.enter, Dispatcher.enter, held]

theorem step_unbound (inHand : s.errand = some x)
    (free : s.client.registry.isGuarded x.slot = false) (unbound : ∀ n, ¬ s.Binds x n) :
    s.step .enter = some { s with errand := none } := by
  have entered : s.client.toDispatcher.enter x = (.dropped, s.client.toDispatcher) := by
    unfold Dispatcher.enter
    rw [if_neg (by simp [free])]
    split
    · rename_i b bound
      refine if_neg fun names => unbound b.callback ?_
      rw [Binds, bound, ← names.1, ← names.2]
    · rfl
  simp only [step, inHand, Client.enter, entered]
  rfl

theorem enter_of_bound (reach : Reach k s) (inHand : s.errand = some x)
    (free : s.client.registry.isGuarded x.slot = false) (bound : s.Binds x n) :
    s.client.toDispatcher.enter x =
      if x.reg.Told x.event then
        (.running x.slot n,
          { s.client.toDispatcher with registry := s.client.registry.guard x.slot })
      else (.skipped, (s.client.toDispatcher.sendAck x.key x.event.handle).2) := by
  obtain ⟨-, -, space⟩ := named_of_errand reach inHand
  rw [Binds] at bound
  unfold Dispatcher.enter
  rw [if_neg (by simp [free]), bound]
  by_cases told : x.reg.Told x.event
  · have shown : x.key.space = .watch → x.reg.filter.covers x.event.focusType = true :=
      fun watch => told (space.trans watch)
    simpa [told] using shown
  · have hidden : x.key.space = .watch ∧ (!x.reg.filter.covers x.event.focusType) = true := by
      unfold Registration.Told at told
      rw [space] at told
      simpa using told
    simp [hidden, told]

theorem step_told (reach : Reach k s) (inHand : s.errand = some x)
    (free : s.client.registry.isGuarded x.slot = false) (bound : s.Binds x n)
    (told : x.reg.Told x.event) : s.step .enter = some { s with
      client := s.client.withDispatcher
        { s.client.toDispatcher with registry := s.client.registry.guard x.slot }
      frames := .callback x.slot x.key x.event n :: s.frames
      errand := none } := by
  simp only [step, inHand, Client.enter, enter_of_bound reach inHand free bound, told, if_true]

theorem step_untold (reach : Reach k s) (inHand : s.errand = some x)
    (free : s.client.registry.isGuarded x.slot = false) (bound : s.Binds x n)
    (untold : ¬ x.reg.Told x.event) : s.step .enter = some { s with
      client := s.client.withDispatcher
        (s.client.toDispatcher.sendAck x.key x.event.handle).2
      errand := none } := by
  simp only [step, inHand, Client.enter, enter_of_bound reach inHand free bound, untold, if_false]

theorem handled_of_step (reach : Reach k s) (moved : s.step .enter = some t) :
    ∃ x, s.errand = some x ∧ s.client.registry.isGuarded x.slot = false ∧ s.Handled x t := by
  cases inHand : s.errand with
  | none => simp [step, inHand] at moved
  | some x =>
    cases free : s.client.registry.isGuarded x.slot with
    | true => simp [step_guarded inHand free] at moved
    | false =>
      refine ⟨x, rfl, free, ?_⟩
      by_cases known : ∃ n, s.Binds x n
      · obtain ⟨n, bound⟩ := known
        by_cases told : x.reg.Told x.event
        · rw [step_told reach inHand free bound told] at moved
          obtain rfl := Option.some.inj moved
          exact .started bound told
        · rw [step_untold reach inHand free bound told] at moved
          obtain rfl := Option.some.inj moved
          exact .skipped bound told
      · have unbound : ∀ n, ¬ s.Binds x n := fun n bound => known ⟨n, bound⟩
        rw [step_unbound inHand free unbound] at moved
        obtain rfl := Option.some.inj moved
        exact .dropped unbound

end Handled

/-- What the client notes of a move is all that it adds to its trace, and tells its channels in
memory. -/
structure Noted (s : Session) (m : Move) (t : Session) : Prop where
  trace : t.client.trace = s.client.trace ++ s.notes t
  memory : ∀ c, s.client.channels = .memory c →
    t.client.channels = .memory (c.replay (s.calls m t))

section Noted

variable {k : Nesting} {s t : Session}

theorem notes_eq {actions : List Action} (trace : t.client.trace = s.client.trace ++ actions) :
    s.notes t = actions := by
  rw [notes, trace, List.drop_left]

theorem Noted.of_did {m : Move} {actions : List Action}
    (did : s.client.toDispatcher.Did t.client.toDispatcher actions)
    (unnoted : s.calls m t = s.client.toDispatcher.wakes t.client.toDispatcher ++
      Action.calls (s.notes t)) : s.Noted m t := by
  have same := notes_eq did.trace
  exact ⟨same.symm ▸ did.trace, fun c here => by rw [unnoted, same]; exact did.memory c here⟩

/-- The client notes nothing of what it takes. -/
theorem taken_noted {d : Dispatcher Nat} {r : Option (ChannelKey × Event)}
    (next : s.client.nextEvent = (r, d)) (errand : Option Errand) :
    let t := { s with client := s.client.withDispatcher d, errand }
    s.Noted .take t ∧ s.notes t = [] := by
  intro t
  have trace : t.client.trace = s.client.trace := by
    have same := s.client.toDispatcher.nextEvent_trace
    rwa [next] at same
  have silent : s.notes t = [] := notes_eq (by rw [trace, List.append_nil])
  refine ⟨⟨by rw [silent, trace, List.append_nil], fun c here => ?_⟩, silent⟩
  have after := (s.client.toDispatcher.nextEvent_memory here).2
  rw [next] at after
  change d.channels = _
  rw [calls, silent]
  simpa [unnoted, Action.calls] using after

theorem Taken.noted (taken : s.Taken t) : s.Noted .take t ∧ s.notes t = [] := by
  cases taken with
  | idle next | dropped next => exact taken_noted next s.errand
  | found next => exact taken_noted next _

theorem silent_noted {m : Move} (trace : t.client.trace = s.client.trace)
    (channels : t.client.channels = s.client.channels)
    (running : t.client.running = s.client.running)
    (unnoted : s.unnoted m t = s.client.toDispatcher.wakes t.client.toDispatcher) :
    s.Noted m t ∧ s.notes t = [] := by
  have did : s.client.toDispatcher.Did t.client.toDispatcher [] := by
    refine ⟨by simp [trace], fun c here => ?_⟩
    rw [channels, here, Dispatcher.wakes_of_running running]
    rfl
  have silent := notes_eq did.trace
  exact ⟨.of_did did (by rw [calls, unnoted]), silent⟩

/-- Only an event that nobody is told of is acknowledged at once. -/
theorem Handled.noted {x : Errand} (handled : s.Handled x t) : s.Noted .enter t ∧
    (s.notes t = [] ∨ ¬ x.reg.Told x.event ∧ ∃ a, s.notes t = [a] ∧
      a.ack? = some (x.key, x.event.handle)) := by
  cases handled with
  | dropped =>
    have noted := silent_noted (s := s) (m := .enter) (t := { s with errand := none })
      rfl rfl rfl rfl
    exact ⟨noted.1, .inl noted.2⟩
  | @started n =>
    let d := { s.client.toDispatcher with registry := s.client.registry.guard x.slot }
    have noted := silent_noted (s := s) (m := .enter) (t := { s with
      client := s.client.withDispatcher d
      frames := .callback x.slot x.key x.event n :: s.frames
      errand := none }) rfl rfl rfl rfl
    exact ⟨noted.1, .inl noted.2⟩
  | skipped _ untold =>
    obtain ⟨a, did, ack⟩ := s.client.toDispatcher.sendAck_did x.key x.event.handle
    exact ⟨.of_did did rfl, .inr ⟨untold, a, notes_eq did.trace, ack⟩⟩

theorem returned_noted (s : Session) (slot : Nat) (key : ChannelKey) (e : Event)
    (frames : List Frame) :
    let t := { s with client := s.client.finish slot key e.handle, frames }
    s.Noted .returns t ∧ ∃ a, s.notes t = [a] ∧ a.ack? = some (key, e.handle) := by
  intro t
  let d := { s.client.toDispatcher with registry := s.client.registry.unguard slot }
  obtain ⟨a, did, ack⟩ := d.sendAck_did key e.handle
  have same : s.client.toDispatcher.Did t.client.toDispatcher [a] := ⟨did.trace, did.memory⟩
  exact ⟨.of_did same rfl, a, notes_eq did.trace, ack⟩

/-- What the parts of an operation do, with all that they note of it. -/
theorem operation_noted {m : Move} (works : s.client.toDispatcher.Works t.client.toDispatcher)
    (unnoted : s.calls m t = s.client.toDispatcher.wakes t.client.toDispatcher ++
      Action.calls (s.notes t)) : s.Noted m t ∧ ∀ a ∈ s.notes t, a.ack? = none := by
  obtain ⟨actions, did, silent⟩ := works
  exact ⟨.of_did did unnoted, notes_eq did.trace ▸ silent⟩

/-- What others do to channels in memory is what the history has of it. -/
theorem Outside.noted {m : Move} (outside : s.Outside m t) :
    s.Noted m t ∧ ∀ a ∈ s.notes t, a.ack? = none := by
  have trace : t.client.trace = s.client.trace := by
    cases outside with
    | injected | pushed | received | rewritten => rfl
  have silent : s.notes t = [] := notes_eq (by simp [trace])
  refine ⟨⟨by simp [trace, silent], fun c here => ?_⟩, by simp [silent]⟩
  rw [calls, silent]
  cases outside with
  | injected faults => simpa [unnoted, Action.calls, MemoryChannels.replay] using here
  | pushed memory sent =>
    obtain rfl := Channels.memory.inj (memory.symm.trans here)
    simp [unnoted, Action.calls, MemoryChannels.replay, MemoryChannels.after, sent]
  | received memory =>
    obtain rfl := Channels.memory.inj (memory.symm.trans here)
    simp [unnoted, Action.calls, MemoryChannels.replay, MemoryChannels.after]
  | rewritten fifo => simp [fifo] at here

theorem noted_of_step (reach : Reach k s) {m : Move} (moved : s.step m = some t) :
    s.Noted m t ∧ (m.delivers = false → ∀ a ∈ s.notes t, a.ack? = none) := by
  cases m with
  | take => exact ⟨(taken_of_step reach moved).noted.1, by simp [Move.delivers]⟩
  | enter =>
    obtain ⟨x, -, -, handled⟩ := handled_of_step reach moved
    exact ⟨handled.noted.1, by simp [Move.delivers]⟩
  | returns =>
    simp only [step] at moved
    split at moved
    · obtain rfl := Option.some.inj moved
      exact ⟨(s.returned_noted ..).1, by simp [Move.delivers]⟩
    · contradiction
  | call o =>
    simp only [step] at moved
    split at moved
    · obtain rfl := Option.some.inj moved
      have noted := operation_noted (s := s) (m := .call o)
        (t := s.numbered.advance s.begun (s.client.call o))
        (by rw [client_advance]; exact s.client.works_call o) rfl
      exact ⟨noted.1, fun _ => noted.2⟩
    · contradiction
  | raise signal =>
    obtain rfl := Option.some.inj moved
    have noted := operation_noted (s := s) (m := .raise signal)
      (t := s.numbered.advance s.begun (s.client.raise signal))
      (by rw [client_advance]; exact s.client.works_raise signal) rfl
    exact ⟨noted.1, fun _ => noted.2⟩
  | reply reply =>
    simp only [step] at moved
    split at moved
    · rename_i op place pending frames top
      obtain rfl := Option.some.inj moved
      have noted := operation_noted (s := s) (m := .reply reply)
        (t := (s.answered op place pending frames reply).advance op
          (s.client.resume pending reply))
        (by rw [client_advance]; exact s.client.works_resume pending reply) rfl
      exact ⟨noted.1, fun _ => noted.2⟩
    · contradiction
  | inject | push | takeAck | files =>
    have noted := (outside_of_step rfl moved).noted
    exact ⟨noted.1, fun _ => noted.2⟩

end Noted

end Session
end AudioFocus
