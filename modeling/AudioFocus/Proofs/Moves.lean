import AudioFocus.Proofs.Channels
import AudioFocus.Proofs.Operation

/-!
What each move of a session can do. `Happened` lists it: a part of an operation, an event that the
loop takes in hand, the start of a callback, its return, or something on the side that leaves the
registry and the references of channels as they are. The invariants of later modules are proved from
this list.
-/
namespace AudioFocus

namespace Dispatcher

variable {κ : Type}

theorem address?_eq_some {d : Dispatcher κ} {key : ChannelKey} {e : Event} {x : Errand}
    (found : d.address? key e = some x) : x.key = key ∧ x.event = e ∧
      d.registry.find? e.handle key.space = some x.slot ∧
      d.registry.registration? x.slot = some x.reg ∧
      x.reg.id = e.handle ∧ x.reg.space = key.space := by
  obtain ⟨slot, taken, rest⟩ := Option.bind_eq_some_iff.mp found
  obtain ⟨reg, live, same⟩ := Option.bind_eq_some_iff.mp rest
  obtain rfl := Option.some.inj same
  obtain ⟨other, live', named⟩ := Registry.holds_of_find? taken
  obtain rfl : reg = other := Option.some.inj (live.symm.trans live')
  exact ⟨rfl, rfl, taken, live, named⟩

theorem address?_of_found {d : Dispatcher κ} {key : ChannelKey} {e : Event} {slot : Nat}
    {reg : Registration} (found : d.registry.find? e.handle key.space = some slot)
    (live : d.registry.registration? slot = some reg) :
    d.address? key e = some { key, event := e, slot, reg } := by
  simp [address?, found, live]

/-- A handle that is found has a registration, so an event finds nobody only where no slot is
found. -/
theorem address?_eq_none {d : Dispatcher κ} {key : ChannelKey} {e : Event} :
    d.address? key e = none ↔ d.registry.find? e.handle key.space = none := by
  cases taken : d.registry.find? e.handle key.space with
  | none => simp [address?, taken]
  | some slot =>
    obtain ⟨reg, live, -⟩ := Registry.holds_of_find? taken
    simp [address?_of_found taken live]

/-- A callback starts only where nobody holds the guard, and only what is bound there for the handle
that the event names. -/
theorem enter_running {d d' : Dispatcher κ} {x : Errand} {slot : Nat} {callback : κ}
    (entered : d.enter x = (.running slot callback, d')) : slot = x.slot ∧
      (x.key.space = .watch → x.reg.filter.covers x.event.focusType = true) ∧
      d.registry.binding? slot = some ⟨x.event.handle, x.key.space, callback⟩ ∧
      d.registry.isGuarded slot = false ∧
      d' = { d with registry := d.registry.guard slot } := by
  unfold enter at entered
  split at entered
  · simp at entered
  · rename_i free
    split at entered
    · rename_i b bound
      split at entered
      · rename_i names
        split at entered
        · simp at entered
        · rename_i shown
          obtain ⟨⟨rfl, rfl⟩, rfl⟩ := by simpa using entered
          obtain ⟨id, space, callback⟩ := b
          obtain ⟨rfl, rfl⟩ := names
          exact ⟨rfl, fun watch => by simpa [watch] using shown, bound, by simpa using free, rfl⟩
      · simp at entered
    · simp at entered

/-- Without a callback, an event in hand changes nothing but the acknowledgements. -/
theorem enter_quiet {d d' : Dispatcher κ} {x : Errand} {delivery : Delivery κ}
    (entered : d.enter x = (delivery, d'))
    (quiet : ∀ slot callback, delivery ≠ .running slot callback) :
    d' = d ∨ d' = (d.sendAck x.key x.event.handle).2 := by
  unfold enter at entered
  split at entered
  · exact .inl (Prod.mk.inj entered).2.symm
  · split at entered
    · split at entered
      · split at entered
        · exact .inr (Prod.mk.inj entered).2.symm
        · exact absurd (Prod.mk.inj entered).1.symm (quiet _ _)
      · exact .inl (Prod.mk.inj entered).2.symm
    · exact .inl (Prod.mk.inj entered).2.symm

theorem kept_sendAck (d : Dispatcher κ) (key : ChannelKey) (handle : Int32) :
    d.channels.Kept (d.sendAck key handle).2.channels := by
  have kept := Channels.kept_sendAck d.channels key handle
  unfold sendAck
  split
  · exact .refl _
  · split <;> (rename_i sent; rw [sent] at kept; exact kept)

theorem kept_nextEvent (d : Dispatcher κ) : d.channels.Kept d.nextEvent.2.channels := by
  unfold nextEvent
  split
  · exact .refl _
  · exact Channels.kept_nextEvent d.channels

end Dispatcher

/-- What is not the client's doing, and no reply. -/
def Move.outside : Move → Bool
  | inject _ | push .. | takeAck | files _ => true
  | _ => false

namespace Session

/-- System calls begin to fail, or others do something to the channels. -/
inductive Outside (s : Session) : Move → Session → Prop
  | injected (faults : Faults) :
    Outside s (.inject faults) { s with client := { s.client with faults } }
  | pushed {key : ChannelKey} {e : Event} {c c' : MemoryChannels}
      (memory : s.client.channels = .memory c) (sent : c.push key e = .ok c') :
    Outside s (.push key e) { s with client := { s.client with channels := .memory c' } }
  | received {c : MemoryChannels} (memory : s.client.channels = .memory c) :
    Outside s .takeAck { s with client := { s.client with channels := .memory c.receiveAck.2 } }
  | rewritten {c : FifoChannels} {fs fs' : FileSystem} (fifo : s.client.channels = .fifo c fs)
      (sound : fs'.Sound) :
    Outside s (.files fs') { s with client := { s.client with channels := .fifo c fs' } }

theorem outside_of_step {s t : Session} {m : Move} (outside : m.outside = true)
    (moved : s.step m = some t) : s.Outside m t := by
  cases m with
  | call | reply | raise | take | enter | returns => contradiction
  | inject faults =>
    obtain rfl := Option.some.inj moved
    exact .injected faults
  | push key e =>
    simp only [step] at moved
    split at moved
    · rename_i c memory
      split at moved
      · rename_i c' sent
        obtain rfl := Option.some.inj moved
        exact .pushed memory sent
      · contradiction
    · contradiction
  | takeAck =>
    simp only [step] at moved
    split at moved
    · rename_i c memory
      obtain rfl := Option.some.inj moved
      exact .received memory
    · contradiction
  | files fs' =>
    simp only [step] at moved
    split at moved
    · contradiction
    · rename_i c fs fifo
      split at moved
      · rename_i sound
        obtain rfl := Option.some.inj moved
        exact .rewritten fifo sound
      · contradiction

inductive Happened (s : Session) : Move → Session → Prop
  | called (o : Operation Nat) (named : o.callback?.all (· = s.begun) = true)
      (settled : o.stops = true → s.errand = none) :
    Happened s (.call o) (s.numbered.advance s.begun (s.client.call o))
  | raised (signal : FatalSignal) :
    Happened s (.raise signal) (s.numbered.advance s.begun (s.client.raise signal))
  | replied {op place : Nat} {pending : Pending} {frames : List Frame} (reply : Result Reply)
      (top : s.frames = .asking op place pending :: frames) :
    Happened s (.reply reply)
      ((s.answered op place pending frames reply).advance op (s.client.resume pending reply))
  /-- The loop takes an event whose handle somebody has. -/
  | took {x : Errand} {c : Client Nat} (idle : s.errand = none)
      (alive : s.client.running = true)
      (found : s.client.registry.find? x.event.handle x.key.space = some x.slot)
      (live : s.client.registry.registration? x.slot = some x.reg)
      (registry : c.registry = s.client.registry)
      (kept : s.client.channels.Kept c.channels) (running : c.running = s.client.running) :
    Happened s .take { s with client := c, errand := some x }
  | started {x : Errand} {callback : Nat} {c : Client Nat} (errand : s.errand = some x)
      (shown : x.key.space = .watch → x.reg.filter.covers x.event.focusType = true)
      (bound : s.client.registry.binding? x.slot =
        some ⟨x.event.handle, x.key.space, callback⟩)
      (guarded : c.registry = s.client.registry.guard x.slot)
      (kept : s.client.channels.Kept c.channels) (running : c.running = s.client.running)
      (free : s.client.registry.isGuarded x.slot = false) :
    Happened s .enter { s with
      client := c
      frames := .callback x.slot x.key x.event callback :: s.frames
      errand := none }
  | returned {slot callback : Nat} {key : ChannelKey} {e : Event} {frames : List Frame}
      (top : s.frames = .callback slot key e callback :: frames) :
    Happened s .returns { s with client := s.client.finish slot key e.handle, frames }
  /-- Nothing happens to registrations, and the loop has in hand what it had, or nothing now. -/
  | aside {m : Move} {c : Client Nat} {errand : Option Errand}
      (registry : c.registry = s.client.registry)
      (kept : s.client.channels.Kept c.channels) (running : c.running = s.client.running)
      (left : errand = s.errand ∨ m = .enter ∧ errand = none) :
    Happened s m { s with client := c, errand }

theorem happened_take {s t : Session} (moved : s.step .take = some t) : s.Happened .take t := by
  have registry := s.client.toDispatcher.nextEvent_registry
  have running := s.client.toDispatcher.nextEvent_running
  have kept := s.client.toDispatcher.kept_nextEvent
  simp only [step] at moved
  split at moved
  · rename_i ready
    obtain ⟨alive, idle⟩ : s.client.running = true ∧ s.errand = none := by simpa using ready
    generalize s.client.nextEvent = result at *
    obtain ⟨_ | ⟨key, e⟩, d⟩ := result
    · obtain rfl := Option.some.inj moved
      exact .aside registry kept running (.inl rfl)
    · obtain rfl := Option.some.inj moved
      dsimp only at registry
      cases found : d.address? key e with
      | none => exact .aside registry kept running (.inl idle.symm)
      | some x =>
        obtain ⟨rfl, rfl, taken, live, -⟩ := Dispatcher.address?_eq_some found
        rw [registry] at taken live
        exact .took idle alive taken live registry kept running
  · contradiction

theorem happened_enter {s t : Session} (moved : s.step .enter = some t) :
    s.Happened .enter t := by
  simp only [step] at moved
  split at moved
  · contradiction
  · rename_i x errand
    simp only [Client.enter] at moved
    generalize entering : s.client.toDispatcher.enter x = result at moved
    obtain ⟨delivery, d⟩ := result
    dsimp only [Client.withDispatcher] at moved
    have quiet : (∀ slot callback, delivery ≠ .running slot callback) →
        s.Happened .enter
          { s with client := s.client.withDispatcher d, errand := none } := by
      intro silent
      rcases Dispatcher.enter_quiet entering silent with rfl | rfl
      · exact .aside rfl (.refl _) rfl (.inr ⟨rfl, rfl⟩)
      · exact .aside (by simp [Client.withDispatcher])
          (s.client.toDispatcher.kept_sendAck x.key x.event.handle)
          (by simp [Client.withDispatcher]) (.inr ⟨rfl, rfl⟩)
    cases delivery with
    | waiting => contradiction
    | dropped =>
      obtain rfl := Option.some.inj moved
      exact quiet (by simp)
    | skipped =>
      obtain rfl := Option.some.inj moved
      exact quiet (by simp)
    | running slot callback =>
      obtain rfl := Option.some.inj moved
      obtain ⟨rfl, shown, bound, free, rfl⟩ := Dispatcher.enter_running entering
      exact .started errand shown bound rfl (.refl _) rfl free

/-- Others do not open or close channels. -/
theorem Outside.happened {s t : Session} {m : Move} (outside : s.Outside m t) :
    s.Happened m t := by
  cases outside with
  | injected faults => exact .aside rfl (.refl _) rfl (.inl rfl)
  | @pushed key e c c' memory sent =>
    refine .aside rfl ⟨fun other => ?_, fun _ => trivial⟩ rfl (.inl rfl)
    simp only [memory, Channels.counts?, Option.map_map]
    unfold MemoryChannels.push at sent
    split at sent
    · obtain rfl := Except.ok.inj sent
      by_cases h : other = key <;> simp [h, Function.comp_def]
    · contradiction
  | received memory =>
    refine .aside rfl ⟨fun other => ?_, fun _ => trivial⟩ rfl (.inl rfl)
    simp only [memory, Channels.counts?, MemoryChannels.receiveAck]
    split <;> rfl
  | rewritten fifo sound =>
    refine .aside rfl ⟨fun other => ?_, fun _ => sound⟩ rfl (.inl rfl)
    simp only [fifo, Channels.counts?]

/-- Every move does one of these things. -/
theorem step_happened {s t : Session} {m : Move} (moved : s.step m = some t) :
    s.Happened m t := by
  cases m with
  | call o =>
    simp only [step] at moved
    split at moved
    · rename_i possible
      obtain ⟨named, settled⟩ := Bool.and_eq_true_iff.mp possible
      obtain rfl := Option.some.inj moved
      exact .called o named fun stops => by simpa [stops] using settled
    · contradiction
  | raise signal =>
    obtain rfl := Option.some.inj moved
    exact .raised signal
  | reply reply =>
    simp only [step] at moved
    split at moved
    · rename_i op place pending frames top
      obtain rfl := Option.some.inj moved
      exact .replied reply top
    · contradiction
  | take => exact happened_take moved
  | enter => exact happened_enter moved
  | returns =>
    simp only [step] at moved
    split at moved
    · rename_i slot key e callback frames top
      obtain rfl := Option.some.inj moved
      exact .returned top
    · contradiction
  | inject | push | takeAck | files => exact (outside_of_step rfl moved).happened

@[simp] theorem client_advance (s : Session) (op : Nat) (r : Client Nat × Progress) :
    (s.advance op r).client = r.1 := by
  obtain ⟨c, p⟩ := r
  cases p <;> rfl

@[simp] theorem begun_advance (s : Session) (op : Nat) (r : Client Nat × Progress) :
    (s.advance op r).begun = s.begun := by
  obtain ⟨c, p⟩ := r
  cases p <;> rfl

@[simp] theorem errand_advance (s : Session) (op : Nat) (r : Client Nat × Progress) :
    (s.advance op r).errand = s.errand := by
  obtain ⟨c, p⟩ := r
  cases p <;> rfl

theorem frames_advance (s : Session) (op : Nat) (r : Client Nat × Progress) :
    ∃ above, (s.advance op r).frames = above ++ s.frames := by
  obtain ⟨c, p⟩ := r
  cases p with
  | finished => exact ⟨[], rfl⟩
  | asking | stuck => exact ⟨[_], rfl⟩

theorem frames_advance_asking {s : Session} {op : Nat} {r : Client Nat × Progress}
    {request : Request} {pending : Pending} (asks : r.2 = .asking request pending) :
    (s.advance op r).frames = .asking op s.book.length pending :: s.frames := by
  obtain ⟨c, p⟩ := r
  obtain rfl : p = .asking request pending := asks
  rfl

theorem Happened.frames {s t : Session} {m : Move} (happened : s.Happened m t) :
    (∃ above, t.frames = above ++ s.frames) ∨
      ∃ f rest above, s.frames = f :: rest ∧ t.frames = above ++ rest ∧
        (f.isCallback = true ∨ ∃ op place pending reply, f = .asking op place pending ∧
          t = (s.answered op place pending rest reply).advance op
            (s.client.resume pending reply)) := by
  cases happened with
  | called o => exact .inl (frames_advance s.numbered s.begun _)
  | raised signal => exact .inl (frames_advance s.numbered s.begun _)
  | replied reply top =>
    obtain ⟨above, more⟩ := frames_advance (s.answered _ _ _ _ reply) _ (s.client.resume _ reply)
    exact .inr ⟨_, _, above, top, more, .inr ⟨_, _, _, reply, rfl, rfl⟩⟩
  | started => exact .inl ⟨[_], rfl⟩
  | returned top => exact .inr ⟨_, _, [], top, rfl, .inl rfl⟩
  | took | aside => exact .inl ⟨[], rfl⟩

end Session

theorem Runs.keeps {n : Nesting} {P : Session → Prop} {s t : Session} (runs : Runs n s t)
    (reach : Reach n s) (now : P s)
    (next : ∀ s t m, Reach n s → P s → s.Happened m t → P t) : P t := by
  induction runs with
  | refl => exact now
  | step m before allowed moved ih =>
    exact next _ _ m (reach.next before) ih (Session.step_happened moved)

end AudioFocus
