import AudioFocus.Proofs.Chronicle

/-!
What a step of a chronicle does to the deliveries. An event leaves the queue only when the loop
takes it, and then it goes to nobody, or is in hand until its callback starts, or it is acknowledged
without, or it is dropped; an acknowledgement is sent only when a delivery ends.
-/
namespace AudioFocus
namespace Chronicle

inductive Advanced (c d : Chronicle) : Prop
  | aside {calls : List MemoryCall} {notes : List Action} (inside : d.inside = c.inside)
      (ended : d.ended = c.ended) (log : d.log = c.log ++ notes.map .action)
      (history : d.history = c.history.run calls)
      (silent : ∀ key handle, .sendAck key handle ∉ calls) (untaken : .nextEvent ∉ calls)
      (errand : d.session.errand = c.session.errand)
  /-- The loop takes what is next in the queue, and finds no event or nobody to give it to. -/
  | passed (inside : d.inside = c.inside) (ended : d.ended = c.ended) (log : d.log = c.log)
      (history : d.history = c.history.after .nextEvent)
      (astray : ∀ key e slot reg n, c.history.channels.nextEvent.1 = some (key, e) →
        ¬ c.session.Addressed key e slot reg n)
      (idle : c.session.errand = none) (errand : d.session.errand = none)
  /-- The loop takes an event, and has it in hand. -/
  | took {post : Post} {slot n : Nat} {reg : Registration} (idle : c.session.errand = none)
      (found : c.history.posts[c.history.taken]? = some post)
      (addressed : c.session.Addressed post.key post.event slot reg n)
      (errand : d.session.errand = some ⟨post.key, post.event, slot, reg⟩)
      (inside : d.inside = c.inside) (ended : d.ended = c.ended) (log : d.log = c.log)
      (history : d.history = c.history.after .nextEvent)
      (turn : d.history.taken = c.history.taken + 1)
  /-- The callback of what the loop has in hand starts. -/
  | began {x : Errand} {p n : Nat} {post : Post} (inHand : c.InHand x p post)
      (bound : c.session.Binds x n) (told : x.reg.Told x.event)
      (inside : d.inside = ⟨c.starts, p⟩ :: c.inside) (ended : d.ended = c.ended)
      (log : d.log = c.log ++ [.callback p post.key post.event n])
      (history : d.history = c.history) (errand : d.session.errand = none)
  /-- What the loop has in hand is acknowledged without a callback. -/
  | skipped {x : Errand} {p n : Nat} {post : Post} {a : Action} (inHand : c.InHand x p post)
      (bound : c.session.Binds x n) (untold : ¬ x.reg.Told x.event) (inside : d.inside = c.inside)
      (ended : d.ended = c.ended ++ [⟨p, c.history.openings post.key⟩])
      (log : d.log = c.log ++ [.action a]) (history : d.history = c.history.run (Action.calls [a]))
      (ack : a.ack? = some (post.key, post.event.handle)) (errand : d.session.errand = none)
  /-- What the loop has in hand is dropped. -/
  | dropped {x : Errand} {p : Nat} {post : Post} (inHand : c.InHand x p post)
      (unbound : ∀ n, ¬ c.session.Binds x n) (inside : d.inside = c.inside)
      (ended : d.ended = c.ended) (log : d.log = c.log) (history : d.history = c.history)
      (errand : d.session.errand = none)
  | returned {x : Dispatch} {post : Post} {a : Action}
      (found : c.history.posts[x.event]? = some post) (inside : c.inside = x :: d.inside)
      (ended : d.ended = c.ended ++ [⟨x.event, c.history.openings post.key⟩])
      (log : d.log = c.log ++ [.action a]) (history : d.history = c.history.run (Action.calls [a]))
      (ack : a.ack? = some (post.key, post.event.handle))
      (errand : d.session.errand = c.session.errand)

variable {k : Nesting} {c d : Chronicle} {m : Move} {t : Session}

theorem calls_of_ack {a : Action} {key : ChannelKey} {handle : Int32}
    (ack : a.ack? = some (key, handle)) :
    Action.calls [a] = [.sendAck key handle] ∨ Action.calls [a] = [] := by
  cases a with
  | acked key' handle' =>
    obtain ⟨rfl, rfl⟩ := Prod.mk.inj (Option.some.inj ack)
    exact .inl rfl
  | ackFailed => exact .inr rfl
  | _ => contradiction

/-- An acknowledgement changes nothing but the channels and what is acknowledged. -/
theorem run_ack {a : Action} {key : ChannelKey} {handle : Int32} (ack : a.ack? = some (key, handle))
    (h : History) : (h.run (Action.calls [a])).posts = h.posts ∧
      (h.run (Action.calls [a])).openings = h.openings ∧
      (h.run (Action.calls [a])).taken = h.taken := by
  rcases calls_of_ack ack with sent | failed
  · rw [sent]
    exact ⟨rfl, rfl, rfl⟩
  · rw [failed]
    exact ⟨rfl, rfl, rfl⟩

theorem taken_of_ack {a : Action} {key : ChannelKey} {handle : Int32}
    (history : d.history = c.history.run (Action.calls [a]))
    (ack : a.ack? = some (key, handle)) : d.history.taken = c.history.taken := by
  rw [history, (run_ack ack _).2.2]

theorem taken_of_untaken {calls : List MemoryCall} (history : d.history = c.history.run calls)
    (untaken : .nextEvent ∉ calls) : d.history.taken = c.history.taken := by
  rw [history, History.taken_run_of_untaken untaken]

theorem silent_of_unacked {actions : List Action} (unacked : ∀ a ∈ actions, a.ack? = none)
    (key : ChannelKey) (handle : Int32) : .sendAck key handle ∉ Action.calls actions := by
  intro member
  obtain ⟨a, within, call⟩ := List.mem_filterMap.mp member
  have none_ := unacked a within
  cases a with
  | acked => cases none_
  | _ => simp [Action.call?] at call

theorem advanced_apart (reach : c.Reach k (.memory {})) (went : c.session.step m = some t)
    (apart : m.delivers = false) : c.Advanced (c.after m t) := by
  have unacked := (Session.noted_of_step reach.session went).2 apart
  obtain ⟨inside, ended, log⟩ := after_apart (c := c) (t := t) apart
  refine .aside inside ended log (history_after c m t) (fun key handle member => ?_)
    (c.session.untaken_of_other fun same => by simp [same, Move.delivers] at apart) ?_
  · rcases List.mem_append.mp member with unnoted | noted
    · exact c.session.sendAck_not_mem_unnoted m t key handle unnoted
    · exact silent_of_unacked unacked key handle noted
  · rw [session_after]
    exact (Session.step_happened went).errand_of_apart apart

theorem log_of_same (same : t.frames = c.session.frames) :
    (c.after .enter t).log = c.log ++ (c.session.notes t).map .action := by
  simp only [after, begun?_of_same same]

theorem log_of_started {slot n : Nat} {key : ChannelKey} {e : Event}
    (started : t.frames = .callback slot key e n :: c.session.frames) :
    (c.after .enter t).log = c.log ++ (c.session.notes t).map .action ++
      [.callback c.last key e n] := by
  simp only [after, begun?_of_started started]

theorem history_of_enter (running : t.client.running = c.session.client.running) :
    (c.after .enter t).history = c.history.run (Action.calls (c.session.notes t)) := by
  rw [history_after]
  change c.history.run (c.session.client.toDispatcher.wakes t.client.toDispatcher ++
    Action.calls (c.session.notes t)) = _
  rw [Dispatcher.wakes_of_running running, List.nil_append]

theorem Faithful.nextEvent_eq (faithful : c.Faithful)
    (working : c.session.client.faults.waits.isEmpty = true) :
    c.session.client.nextEvent.1 = c.history.channels.nextEvent.1 := by
  have next := (c.session.client.toDispatcher.nextEvent_memory faithful.memory).1
  rwa [if_pos working] at next

/-- The loop takes no event, or one that nobody is found for. -/
theorem Faithful.advanced_passed (faithful : c.Faithful) (silent : c.session.notes t = [])
    (astray : ∀ key e slot reg n, c.session.client.nextEvent.1 = some (key, e) →
      ¬ c.session.Addressed key e slot reg n) (idle : c.session.errand = none)
    (errand : t.errand = none) : c.Advanced (c.after .take t) := by
  obtain ⟨inside, ended, log⟩ := after_take (c := c) (t := t)
  rw [silent] at log
  cases working : c.session.client.faults.waits.isEmpty with
  | true =>
    refine .passed inside ended (by simpa using log) ?_ ?_ idle (by rwa [session_after])
    · rw [history_after, calls_take working silent]
      rfl
    · rw [← faithful.nextEvent_eq working]
      exact astray
  | false =>
    have history : (c.after .take t).history = c.history.run [] := by
      rw [history_after, Session.calls, Session.unnoted, working, silent]
      rfl
    exact .aside inside ended log history (by simp) (by simp) (by rw [session_after, errand, idle])

theorem Faithful.advanced_took (faithful : c.Faithful) (silent : c.session.notes t = [])
    {key : ChannelKey} {e : Event} {d : Dispatcher Nat}
    (next : c.session.client.nextEvent = (some (key, e), d)) {slot n : Nat} {reg : Registration}
    (addressed : c.session.Addressed key e slot reg n) (idle : c.session.errand = none)
    (errand : t.errand = some ⟨key, e, slot, reg⟩) : c.Advanced (c.after .take t) := by
  obtain ⟨working, turn, -, post, found, letter⟩ := faithful.taken next
  obtain ⟨rfl, rfl⟩ := Prod.mk.inj letter
  obtain ⟨inside, ended, log⟩ := after_take (c := c) (t := t)
  rw [silent] at log
  have history := history_after c .take t
  rw [calls_take working silent] at history
  refine .took idle found addressed (by rw [session_after, errand]) inside ended
    (by simpa using log) history ?_
  rw [history]
  exact History.taken_after_turn turn

theorem Faithful.advanced_take (faithful : c.Faithful) (reach : c.Reach k (.memory {}))
    (went : c.session.step .take = some t) : c.Advanced (c.after .take t) := by
  have taken := Session.taken_of_step reach.session went
  have silent := taken.noted.2
  have idle := Session.idle_of_take went
  cases taken with
  | idle next =>
    exact faithful.advanced_passed silent
      (fun key e slot reg n some_ => by simp [next] at some_) idle idle
  | dropped next unknown =>
    refine faithful.advanced_passed silent (fun key e slot reg n some_ => ?_) idle idle
    rw [next] at some_
    obtain ⟨rfl, rfl⟩ := Prod.mk.inj (Option.some.inj some_)
    exact unknown slot reg n
  | found next addressed => exact faithful.advanced_took silent next addressed idle rfl

section InHand

variable {x : Errand} {p n : Nat} {post : Post}

theorem InHand.advanced_dropped (inHand : c.InHand x p post)
    (unbound : ∀ n, ¬ c.session.Binds x n) (same : t.frames = c.session.frames)
    (silent : c.session.notes t = []) (running : t.client.running = c.session.client.running)
    (done : t.errand = none) : c.Advanced (c.after .enter t) := by
  have history := history_of_enter running
  have log := log_of_same same
  rw [silent] at history log
  exact .dropped inHand unbound (inside_of_same same) (by simp [after, begun?_of_same same, silent])
    (by simpa using log) history (by rw [session_after, done])

theorem InHand.advanced_skipped (inHand : c.InHand x p post) (bound : c.session.Binds x n)
    (untold : ¬ x.reg.Told x.event) (same : t.frames = c.session.frames) {a : Action}
    (notes : c.session.notes t = [a]) (ack : a.ack? = some (x.key, x.event.handle))
    (running : t.client.running = c.session.client.running) (done : t.errand = none) :
    c.Advanced (c.after .enter t) := by
  have history := history_of_enter running
  have log := log_of_same same
  rw [notes] at history log
  obtain ⟨key, event⟩ := Prod.mk.inj inHand.letter
  rw [← key, ← event] at ack
  obtain ⟨posts, openings, -⟩ := run_ack ack c.history
  have ended : (c.after .enter t).ended = c.ended ++
      (((c.after .enter t).history.posts[c.last]?).map fun post =>
        ⟨c.last, (c.after .enter t).history.openings post.key⟩).toList := by
    simp [after, begun?_of_same same, notes]
  rw [history, posts, openings, inHand.last, inHand.found] at ended
  exact .skipped inHand bound untold (inside_of_same same) ended log history ack
    (by rw [session_after, done])

theorem InHand.advanced_began (inHand : c.InHand x p post) (bound : c.session.Binds x n)
    (told : x.reg.Told x.event) (started : t.frames = .callback x.slot x.key x.event n ::
      c.session.frames) (silent : c.session.notes t = [])
    (running : t.client.running = c.session.client.running) (done : t.errand = none) :
    c.Advanced (c.after .enter t) := by
  have history := history_of_enter running
  have log := log_of_started started
  have inside := inside_of_started started
  rw [inHand.last] at inside log
  rw [silent] at history log
  obtain ⟨key, event⟩ := Prod.mk.inj inHand.letter
  refine .began inHand bound told inside ?_ (by simpa [key, event] using log) history
    (by rw [session_after, done])
  simp only [after, begun?_of_started started]

end InHand

theorem Faithful.advanced_enter (faithful : c.Faithful) (reach : c.Reach k (.memory {}))
    (went : c.session.step .enter = some t) : c.Advanced (c.after .enter t) := by
  obtain ⟨x, errand, -, handled⟩ := Session.handled_of_step reach.session went
  obtain ⟨p, post, inHand⟩ := faithful.hand x errand
  obtain ⟨-, done, running⟩ := handled.frames
  cases handled with
  | dropped unbound =>
    exact inHand.advanced_dropped unbound rfl (Session.notes_eq (by simp)) running done
  | skipped bound untold =>
    obtain ⟨a, did, ack⟩ := c.session.client.toDispatcher.sendAck_did x.key x.event.handle
    exact inHand.advanced_skipped bound untold rfl (Session.notes_eq did.trace) ack running done
  | started bound told =>
    refine inHand.advanced_began bound told rfl (Session.notes_eq ?_) running done
    exact (List.append_nil _).symm

theorem Faithful.advanced_returned (faithful : c.Faithful) {slot n : Nat} {key : ChannelKey}
    {e : Event} {frames : List Frame} (top : c.session.frames = .callback slot key e n :: frames)
    {a : Action} (notes : c.session.notes t = [a]) (ack : a.ack? = some (key, e.handle))
    (running : t.client.running = c.session.client.running)
    (errand : t.errand = c.session.errand) : c.Advanced (c.after .returns t) := by
  have even := faithful.inside
  rw [top] at even
  obtain ⟨x, rest, inside, here, -⟩ := List.map_eq_cons_iff.mp even
  obtain ⟨post, found, letter⟩ := Option.map_eq_some_iff.mp here
  obtain ⟨rfl, rfl⟩ := Prod.mk.inj letter
  have history : (c.after .returns t).history = c.history.run (Action.calls [a]) := by
    rw [history_after]
    change c.history.run (c.session.client.toDispatcher.wakes t.client.toDispatcher ++
      Action.calls (c.session.notes t)) = _
    rw [Dispatcher.wakes_of_running running, notes, List.nil_append]
  obtain ⟨posts, openings, -⟩ := run_ack ack c.history
  have left : (c.after .returns t).inside = rest := by
    change c.inside.tail = rest
    rw [inside]
    rfl
  have log : (c.after .returns t).log = c.log ++ (c.session.notes t).map .action := rfl
  refine .returned found (left ▸ inside) ?_ (by rw [log, notes, List.map_singleton]) history ack
    (by rw [session_after, errand])
  have ended : (c.after .returns t).ended = c.ended ++
      c.inside.head?.toList.flatMap fun x => (((c.after .returns t).history.posts[x.event]?).map
        fun post => ⟨x.event, (c.after .returns t).history.openings post.key⟩).toList := rfl
  rw [ended, history, posts, openings, inside]
  simp [found]

theorem Faithful.advanced (faithful : c.Faithful) (reach : c.Reach k (.memory {}))
    (moved : c.step m = some d) : c.Advanced d := by
  obtain ⟨t, went, rfl, -⟩ := step_eq_some moved
  cases apart : m.delivers with
  | false => exact advanced_apart reach went apart
  | true =>
    cases m with
    | take => exact faithful.advanced_take reach went
    | enter => exact faithful.advanced_enter reach went
    | returns =>
      simp only [Session.step] at went
      split at went
      · rename_i slot key e n frames top
        obtain rfl := Option.some.inj went
        obtain ⟨-, a, notes, ack⟩ := c.session.returned_noted slot key e frames
        exact faithful.advanced_returned top notes ack (Dispatcher.sendAck_running ..) rfl
      · contradiction
    | _ => contradiction

theorem Advanced.taken_le (advanced : c.Advanced d) : c.history.taken ≤ d.history.taken := by
  cases advanced with
  | aside _ _ _ history _ untaken =>
    exact Nat.le_of_eq (taken_of_untaken history untaken).symm
  | passed _ _ _ history =>
    rw [history]
    exact History.taken_le_after _ _
  | took _ _ _ _ _ _ _ _ turn => exact turn ▸ Nat.le_succ _
  | began _ _ _ _ _ _ history | dropped _ _ _ _ _ history => exact Nat.le_of_eq (by rw [history])
  | skipped _ _ _ _ _ _ history ack | returned _ _ _ _ history ack =>
    exact Nat.le_of_eq (taken_of_ack history ack).symm

end Chronicle
end AudioFocus
