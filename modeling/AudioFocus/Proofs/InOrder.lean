import AudioFocus.Proofs.Fate
import AudioFocus.Proofs.Loop

/-!
Deliveries in order. Callbacks get the events in the order in which these were sent, each at most
once, and if its registration stays live and its channel open, each is given to its callback by the
time the queue is empty and the loop has nothing in hand. A queue of such events is delivered one
after the other, with each event acknowledged before the next one is taken.
-/
namespace AudioFocus

@[simp] theorem MemoryChannels.queue_sendAck (m : MemoryChannels) (key : ChannelKey)
    (handle : Int32) : (m.sendAck key handle).queue = m.queue := by
  unfold sendAck
  split
  · rfl
  · split <;> rfl

namespace Dispatcher

variable {κ : Type} {d : Dispatcher κ} {m : MemoryChannels} {key : ChannelKey} {e : Event}

theorem nextEvent_of_queue {rest : List QueueItem} (working : d.faults.waits = [])
    (memory : d.channels = .memory m) (queue : m.queue = .event key e :: rest)
    (opened : m.isOpen key = true) : d.nextEvent =
      (some (key, e), { d with channels := .memory { m with queue := rest } }) := by
  simp [nextEvent, working, memory, Channels.nextEvent, MemoryChannels.nextEvent, queue, opened]

theorem sendAck_of_memory (working : d.faults.acks = []) (memory : d.channels = .memory m)
    (key : ChannelKey) (handle : Int32) : (d.sendAck key handle).2 = { d with
      channels := .memory (m.sendAck key handle)
      trace := d.trace ++ [.acked key handle] } := by
  simp [sendAck, working, memory, Channels.sendAck, note]

end Dispatcher

namespace Session

variable {k : Nesting} {s r t w : Session} {key : ChannelKey} {e : Event} {slot n : Nat}
  {reg : Registration} {m : MemoryChannels}

/-- One event is taken and given to its callback, which returns. -/
structure Delivered (s r t w : Session) (slot : Nat) (key : ChannelKey) (e : Event) (n : Nat)
    (m : MemoryChannels) : Prop where
  taken : s.step .take = some r
  calm : r.frames = s.frames ∧ s.notes r = []
  entered : r.step .enter = some t
  started : t.frames = .callback slot key e n :: r.frames
  silent : r.notes t = []
  alive : r.client.running = s.client.running
  running : t.client.running = r.client.running
  returned : t.step .returns = some w
  acked : t.notes w = [.acked key e.handle]
  client : w.client = { s.client with
    registry := (s.client.registry.guard slot).unguard slot
    channels := .memory (m.sendAck key e.handle)
    trace := s.client.trace ++ [.acked key e.handle] }
  frames : w.frames = s.frames
  tenants : w.tenants = s.tenants
  free : w.errand = none

theorem allows_of_frames (same : t.frames = s.frames) (allowed : k.Allows s .take) (m : Move) :
    k.Allows t m := by
  have waits : t.waits = s.waits := by rw [Session.waits, same, Session.waits]
  cases k with
  | none => exact fun _ => waits.trans (allowed rfl)
  | full => trivial

theorem delivered_of_queue {rest : List QueueItem} (reach : Reach k s)
    (running : s.client.running = true) (idle : s.errand = none)
    (waits : s.client.faults.waits = []) (acks : s.client.faults.acks = [])
    (memory : s.client.channels = .memory m)
    (queue : m.queue = .event key e :: rest) (opened : m.isOpen key = true)
    (addressed : s.Addressed key e slot reg n) (allowed : k.Allows s .take)
    (free : s.client.registry.isGuarded slot = false) (told : reg.Told e) :
    ∃ r t w, s.Delivered r t w slot key e n { m with queue := rest } := by
  have next := Dispatcher.nextEvent_of_queue waits memory queue opened
  let r : Session := { s with
    client := s.client.withDispatcher { s.client.toDispatcher with
      channels := .memory { m with queue := rest } }
    errand := some ⟨key, e, slot, reg⟩ }
  let t : Session := { r with
    client := r.client.withDispatcher { r.client.toDispatcher with
      registry := r.client.registry.guard slot }
    frames := .callback slot key e n :: r.frames
    errand := none }
  let w : Session := { t with client := t.client.finish slot key e.handle, frames := s.frames }
  have finished : t.client.finish slot key e.handle = { s.client with
      registry := (s.client.registry.guard slot).unguard slot
      channels := .memory (MemoryChannels.sendAck { m with queue := rest } key e.handle)
      trace := s.client.trace ++ [.acked key e.handle] } := by
    have sent := Dispatcher.sendAck_of_memory (m := { m with queue := rest })
      (d := { t.client.toDispatcher with registry := t.client.registry.unguard slot }) acks rfl
      key e.handle
    rw [Client.finish, Dispatcher.finish, sent]
    rfl
  have taken : s.step .take = some r := step_addressed reach running idle next addressed
  have entered : r.step .enter = some t :=
    step_told (reach.next (.step .take .refl allowed taken)) rfl free (addressed.bound reach) told
  refine ⟨r, t, w, taken, ⟨rfl, (taken_noted next _).2⟩, entered, rfl,
    notes_eq (List.append_nil _).symm, rfl, rfl, rfl, notes_eq ?_, finished, rfl, rfl, rfl⟩
  rw [show w.client = _ from finished]
  rfl

end Session

namespace Chronicle

variable {k : Nesting} {c d u : Chronicle}

/-- The entries that deliveries leave in the log, from one number on. -/
def transcript (taken : Nat) : List (ChannelKey × Event × Nat) → List Entry
  | [] => []
  | (key, e, n) :: rest =>
    .callback taken key e n :: .action (.acked key e.handle) :: transcript (taken + 1) rest

/-- The loop waits for events, and the queue holds just these, each sent to a live registration that
is told of it. No wait and no acknowledgement will fail. -/
structure Queued (k : Nesting) (c : Chronicle) (es : List (ChannelKey × Event × Nat)) : Prop where
  reading : c.reading = true
  allowed : k.Allows c.session .take
  working : c.session.client.faults.waits = [] ∧ c.session.client.faults.acks = []
  queue : ∃ m, c.session.client.channels = .memory m ∧
    m.queue = es.map fun x => .event x.1 x.2.1
  heard : ∀ key e n, (key, e, n) ∈ es → ∃ slot reg, c.session.Addressed key e slot reg n ∧
    reg.channel = key ∧ reg.Told e ∧ c.session.client.registry.isGuarded slot = false
  opened : k = .full → ∀ x ∈ es, c.session.client.channels.isOpen x.1 = true

section Queued

variable {es : List (ChannelKey × Event × Nat)} {key : ChannelKey} {e : Event} {slot n : Nat}
  {r t w : Session} {m : MemoryChannels}

theorem Queued.isOpen (queued : c.Queued k es) (reach : c.Reach k (.memory {}))
    (member : (key, e, n) ∈ es) : c.session.client.channels.isOpen key = true := by
  cases k with
  | full => exact queued.opened rfl _ member
  | none =>
    obtain ⟨slot, reg, addressed, rfl, -⟩ := queued.heard key e n member
    exact Session.isOpen_of_live reach.session addressed.live

/-- The chronicle after an event has been delivered. -/
def through (c : Chronicle) (r t w : Session) : Chronicle :=
  ((c.after .take r).after .enter t).after .returns w

theorem history_of_delivered (working : c.session.client.faults.waits = [])
    (delivered : c.session.Delivered r t w slot key e n m) :
    (c.after .take r).history = c.history.after .nextEvent ∧
      ((c.after .take r).after .enter t).history = c.history.after .nextEvent := by
  have taken : (c.after .take r).history = c.history.after .nextEvent := by
    rw [history_after, calls_take (by simp [working]) delivered.calm.2]
    rfl
  have entered := history_of_enter (c := c.after .take r) (t := t)
    (by rw [session_after]; exact delivered.running)
  rw [session_after, delivered.silent] at entered
  exact ⟨taken, entered.trans taken⟩

theorem taken_of_delivered (working : c.session.client.faults.waits = [])
    (head : c.history.channels.turn? = some (key, e))
    (delivered : c.session.Delivered r t w slot key e n m) :
    (c.through r t w).history.taken = c.history.taken + 1 := by
  rw [through, history_after,
    History.taken_run_of_untaken (Session.untaken_of_other _ (by simp)),
    (history_of_delivered working delivered).2, History.taken_after_turn head]

theorem log_of_delivered (working : c.session.client.faults.waits = [])
    (head : c.history.channels.turn? = some (key, e))
    (delivered : c.session.Delivered r t w slot key e n m) : (c.through r t w).log =
      c.log ++ [.callback c.history.taken key e n, .action (.acked key e.handle)] := by
  have log : (c.through r t w).log = ((c.after .take r).after .enter t).log ++
      (((c.after .take r).after .enter t).session.notes w).map .action := rfl
  have taken : (c.after .take r).log = c.log := by
    rw [after_take.2.2, delivered.calm.2, List.map_nil, List.append_nil]
  have last : (c.after .take r).last = c.history.taken := by
    rw [Chronicle.last, (history_of_delivered working delivered).1, History.taken_after_turn head,
      Nat.add_sub_cancel]
  have started := log_of_started (c := c.after .take r) (t := t)
    (by rw [session_after]; exact delivered.started)
  rw [session_after, delivered.silent, taken, last] at started
  rw [log, started, session_after, delivered.acked]
  simp

theorem inside_of_delivered (delivered : c.session.Delivered r t w slot key e n m) :
    (c.through r t w).inside = c.inside := by
  change ((c.after .take r).after .enter t).inside.tail = c.inside
  rw [inside_of_started (by rw [session_after]; exact delivered.started)]
  rfl

theorem reading_of_delivered (reading : c.reading = true)
    (delivered : c.session.Delivered r t w slot key e n m) :
    (c.through r t w).reading = true := by
  have running := running_of_reading reading
  have after : w.client.running = true := by rw [delivered.client]; exact running
  have starts : (c.through r t w).starts = c.starts := by
    simp [through, starts_after, delivered.running, delivered.alive, running]
  refine reading_of (by rw [through, session_after, after])
    (by rw [through, session_after, delivered.free]) ?_
  rw [idle, inside_of_delivered delivered, starts]
  exact idle_of_reading reading

theorem play_of_delivered (reading : c.reading = true) (allowed : k.Allows c.session .take)
    (delivered : c.session.Delivered r t w slot key e n m) :
    c.play k [.take, .enter, .returns] = some (c.through r t w) := by
  have entered : (c.after .take r).step .enter = some ((c.after .take r).after .enter t) := by
    simp [step, delivered.entered]
  have returned : ((c.after .take r).after .enter t).step .returns = some (c.through r t w) := by
    simp [step, through, delivered.returned]
  have allowed' : k.Allows r .enter := Session.allows_of_frames delivered.calm.1 allowed _
  have allowed'' : k.Allows t .returns := by
    cases k with
    | none => exact fun begins => by contradiction
    | full => trivial
  simp [play, allowed, step_take reading delivered.taken, allowed', entered, allowed'', returned]

/-- The first event is given to its callback, and acknowledged when that returns. -/
theorem Queued.next (queued : c.Queued k ((key, e, n) :: es)) (reach : c.Reach k (.memory {})) :
    ∃ d, c.play k [.take, .enter, .returns] = some d ∧ d.Queued k es ∧
      d.log = c.log ++ [.callback c.history.taken key e n, .action (.acked key e.handle)] ∧
      d.history.taken = c.history.taken + 1 := by
  have faithful := faithful_of_reach reach
  have opened := queued.isOpen reach List.mem_cons_self
  obtain ⟨slot, reg, addressed, -, told, free⟩ := queued.heard key e n List.mem_cons_self
  obtain ⟨reading, allowed, ⟨waits, acks⟩, ⟨m, memory, queue⟩, heard, opens⟩ := queued
  obtain rfl : m = c.history.channels := Channels.memory.inj (memory.symm.trans faithful.memory)
  rw [memory] at opened
  obtain ⟨r, t, w, delivered⟩ := Session.delivered_of_queue reach.session
    (running_of_reading reading) (free_of_reading reading) waits acks memory queue opened addressed
    allowed free told
  have head : c.history.channels.turn? = some (key, e) := by
    simp [MemoryChannels.turn?, queue, QueueItem.letter?]
  refine ⟨_, play_of_delivered reading allowed delivered, ?_, log_of_delivered waits head delivered,
    taken_of_delivered waits head delivered⟩
  have session : (c.through r t w).session = w := session_after ..
  refine ⟨reading_of_delivered reading delivered, ?_, ?_, ?_, ?_, ?_⟩ <;> rw [session]
  · exact Session.allows_of_frames delivered.frames allowed _
  · rw [delivered.client]
    exact ⟨waits, acks⟩
  · rw [delivered.client]
    exact ⟨_, rfl, MemoryChannels.queue_sendAck ..⟩
  · intro key' e' n' member
    obtain ⟨slot', reg', addressed', channel, told', free'⟩ :=
      heard key' e' n' (List.mem_cons_of_mem _ member)
    refine ⟨slot', reg', addressed'.of_same ?_ (by rw [delivered.tenants]), channel, told', ?_⟩
    · rw [delivered.client]
      simp
    · rw [delivered.client, Registry.isGuarded_unguard,
        Registry.isGuarded_guard_of_live (by simp [addressed.live])]
      split
      · rfl
      · exact free'
  · intro full x member
    have opened := opens full x (List.mem_cons_of_mem _ member)
    rw [memory] at opened
    rw [delivered.client]
    change (MemoryChannels.sendAck _ key e.handle).isOpen x.1 = true
    rw [MemoryChannels.isOpen_sendAck]
    exact opened

theorem Queued.played (queued : c.Queued k es) (reach : c.Reach k (.memory {})) :
    ∃ u, c.play k (List.replicate es.length [.take, .enter, .returns]).flatten = some u ∧
      u.log = c.log ++ transcript c.history.taken es ∧
      u.session.client.channels.pending = false := by
  -- After each event, the rest of the queue is as the whole was before.
  induction es generalizing c with
  | nil =>
    obtain ⟨m, memory, queue⟩ := queued.queue
    refine ⟨c, rfl, by simp [transcript], ?_⟩
    simp [memory, Channels.pending, queue]
  | cons x es ih =>
    obtain ⟨key, e, n⟩ := x
    obtain ⟨d, played, queued', log, taken⟩ := queued.next reach
    obtain ⟨u, rest, log', empty⟩ := ih queued' (reach.next (.of_play played))
    refine ⟨u, ?_, ?_, empty⟩
    · rw [List.length_cons, List.replicate_succ, List.flatten_cons, play_append, played]
      exact rest
    · rw [log', log, taken, List.append_assoc]
      rfl

end Queued

/-- Callbacks get events in the order in which these were sent, each at most once. An event that is
sent to a registration which stays live, and is told of it, has reached its callback, once, when the
queue is empty and the loop has nothing in hand; it can only be lost if the channel is closed when
its turn comes, and that takes an arbiter that lets other operations run while it serves a request.
A queue of such events is delivered one after the other, each acknowledged before the next, if the
callbacks do nothing. -/
theorem delivered_in_order (reach : c.Reach k (.memory {})) :
    c.given.Sublist c.history.sent ∧
    (∀ key e slot reg n d u, c.session.Addressed key e slot reg n → reg.Told e →
      reg.channel = key → c.step (.push key e) = some d → Runs k d u →
      u.session.Addressed key e slot reg n → u.session.client.channels.pending = false →
      u.session.errand = none →
      u.receivers c.history.posts.length = [(key, e, n)] ∨
        k = .full ∧ ∃ v, Runs k d v ∧ Runs k v u ∧ v.session.Addressed key e slot reg n ∧
          v.history.Turn c.history.posts.length ∧
          v.session.client.channels.isOpen key = false) ∧
    ∀ es, c.Queued k es → ∃ u,
      c.play k (List.replicate es.length [.take, .enter, .returns]).flatten = some u ∧
        u.log = c.log ++ transcript c.history.taken es ∧
        u.session.client.channels.pending = false :=
  ⟨(given_of_reach reach).trans (List.take_sublist _ _),
    fun _ _ _ _ _ _ _ addressed told channel pushed runs still empty free =>
      reached_or_lost reach addressed told channel pushed runs still empty free,
    fun _ queued => queued.played reach⟩

/-- A watch and a focus handle, on two channels, are sent an event each. -/
theorem delivered_in_order_of_two_channels :
    let watched : Event := ⟨7, 2, .playback, .acquired, "", "", ""⟩
    let focused : Event := ⟨7, 5, .playback, .released, "", "", ""⟩
    let before : List Move := [.call (.register 5 0 "media" false 0), .reply (.ok .done),
      .call (.watch 0 .playback false 1), .reply (.ok .done), .push (.watch 7) watched]
    let push : Move := .push (.focus 7 5) focused
    let es := [(.watch 7, watched, 1), (.focus 7 5, focused, 0)]
    let c := played .none 2 before
    let d := played .none 2 (before ++ [push])
    let u := played .none 2 (before ++ [push] ++ [.take, .enter, .returns, .take, .enter, .returns])
    c.Reach .none (.memory {}) ∧ c.step push = some d ∧ d.Queued .none es ∧
      u.receivers 1 = [(.focus 7 5, focused, 0)] ∧ u.given.Sublist u.history.sent ∧
      d.play .none [.take, .enter, .returns, .take, .enter, .returns] = some u ∧
      u.log = d.log ++ transcript 0 es := by
  intro watched focused before push es c d u
  have reach : c.Reach .none (.memory {}) := reach_played (by decide) (by decide +kernel)
  have reach' : d.Reach .none (.memory {}) := reach_played (by decide) (by decide +kernel)
  have pushed : c.step push = some d := step_played (by decide +kernel)
  have runs : Runs .none d u := runs_played (by decide +kernel)
  have once := (delivered_in_order reach).2.1 (.focus 7 5) focused 0
    (.ofFocus 7 5 false "media") 0 d u
    ⟨by decide +kernel, by decide, by decide +kernel, by decide⟩ (by decide) rfl pushed runs
    ⟨by decide +kernel, by decide, by decide +kernel, by decide⟩ (by decide +kernel)
    (Option.isNone_iff_eq_none.mp (by decide +kernel))
  have queued : d.Queued .none es := by
    refine ⟨by decide +kernel, by decide +kernel, by decide +kernel,
      ⟨_, (faithful_of_reach reach').memory, by decide +kernel⟩, fun key e n member => ?_, by simp⟩
    rcases List.mem_cons.mp member with same | member
    · obtain ⟨rfl, rfl, rfl⟩ : key = .watch 7 ∧ e = watched ∧ n = 1 := by simpa using same
      exact ⟨1, .ofWatch 7 .playback false 1,
        ⟨by decide +kernel, by decide, by decide +kernel, by decide⟩, rfl, by decide,
        by decide +kernel⟩
    · obtain ⟨rfl, rfl, rfl⟩ : key = .focus 7 5 ∧ e = focused ∧ n = 0 := by simpa using member
      exact ⟨0, .ofFocus 7 5 false "media",
        ⟨by decide +kernel, by decide, by decide +kernel, by decide⟩, rfl, by decide,
        by decide +kernel⟩
  obtain ⟨v, went, log, -⟩ := (delivered_in_order reach').2.2 es queued
  have all : d.play .none [.take, .enter, .returns, .take, .enter, .returns] = some u :=
    play_played (by decide +kernel)
  obtain rfl : u = v := Option.some.inj (all.symm.trans went)
  rw [show d.history.taken = 0 by decide +kernel] at log
  refine ⟨reach, pushed, queued, ?_, (delivered_in_order (reach'.next runs)).1, all, log⟩
  rcases once with once | ⟨full, -⟩
  · exact once
  · contradiction

end Chronicle
end AudioFocus
