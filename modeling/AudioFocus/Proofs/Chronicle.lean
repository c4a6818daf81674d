import AudioFocus.Proofs.Deliveries

/-!
A session with what an onlooker writes down beside it: the history of channels in memory, a log of
the callbacks that start and of what the client notes, and for each callback under way its event
and the loop that runs it. A loop takes no event while it has one in hand or runs a callback. One
that is started after the last was stopped is another loop, also if that one has a callback under
way still.
-/
namespace AudioFocus

inductive Entry
  /-- A callback starts, for the event of this number. -/
  | callback (number : Nat) (key : ChannelKey) (e : Event) (callback : Nat)
  /-- The client notes what it does. -/
  | action (a : Action)

def Entry.given? : Entry → Option (Nat × ChannelKey × Event)
  | callback number key e _ => some (number, key, e)
  | action _ => none

structure Dispatch where
  /-- The loop that runs it, by how often one was started. -/
  loop : Nat
  /-- The number of its event. -/
  event : Nat

/-- A delivery that has ended with an acknowledgement. -/
structure Ended where
  event : Nat
  /-- The opening of its channel at the end, or the last one if the channel is closed. -/
  opening : Nat

structure Chronicle where
  session : Session
  /-- Of no account over FIFOs. -/
  history : History := {}
  /-- How often the loop was started. -/
  starts : Nat := 0
  /-- The callbacks under way, the innermost first. -/
  inside : List Dispatch := []
  log : List Entry := []
  ended : List Ended := []

def Frame.letter? : Frame → Option (ChannelKey × Event)
  | callback _ key e _ => some (key, e)
  | _ => none

namespace Session

theorem above_advance (s : Session) (op : Nat) (r : Client Nat × Progress) :
    ∃ more, (s.advance op r).frames = more ++ s.frames ∧ ∀ f ∈ more, f.isCallback = false := by
  obtain ⟨c, p⟩ := r
  cases p with
  | finished => exact ⟨[], rfl, by simp⟩
  | asking request pending =>
    exact ⟨[.asking op s.book.length pending], rfl, by simp [Frame.isCallback]⟩
  | stuck slot => exact ⟨[.blocked op slot], rfl, by simp [Frame.isCallback]⟩

/-- Callbacks start and return by deliveries only. -/
theorem frames_of_step {s t : Session} {m : Move} (moved : s.step m = some t)
    (apart : m.delivers = false) : ∃ gone kept more, s.frames = gone ++ kept ∧
      t.frames = more ++ kept ∧ ∀ f ∈ gone ++ more, f.isCallback = false := by
  cases step_happened moved with
  | called o =>
    obtain ⟨more, frames, plain⟩ := s.numbered.above_advance s.begun (s.client.call o)
    exact ⟨[], s.frames, more, rfl, frames, plain⟩
  | raised signal =>
    obtain ⟨more, frames, plain⟩ := s.numbered.above_advance s.begun (s.client.raise signal)
    exact ⟨[], s.frames, more, rfl, frames, plain⟩
  | @replied op place pending below reply top =>
    obtain ⟨more, frames, plain⟩ := (s.answered op place pending below reply).above_advance op
      (s.client.resume pending reply)
    exact ⟨[.asking op place pending], below, more, top, frames,
      List.forall_mem_cons.mpr ⟨rfl, plain⟩⟩
  | started | returned => contradiction
  | took | aside => exact ⟨[], s.frames, [], rfl, rfl, by simp⟩

/-- A move that is no part of a delivery leaves alone what the loop has in hand. -/
theorem Happened.errand_of_apart {s t : Session} {m : Move} (happened : s.Happened m t)
    (apart : m.delivers = false) :
    t.errand = s.errand := by
  cases happened with
  | called | raised | replied => exact errand_advance ..
  | took | started | returned => contradiction
  | aside _ _ _ left =>
    rcases left with same | ⟨rfl, -⟩
    · exact same
    · contradiction

/-- Nobody stops the loop while it has an event in hand. -/
theorem Happened.running_of_errand {s t : Session} {m : Move} {x : Errand}
    (happened : s.Happened m t) (inHand : s.errand = some x)
    (running : s.client.running = true) : t.client.running = true := by
  cases happened with
  | called o _ settled =>
    have goesOn : o.stops = false := by
      cases stops : o.stops with
      | false => rfl
      | true => cases (settled stops).symm.trans inHand
    rw [client_advance]
    exact (s.client.running_call goesOn).trans running
  | raised signal =>
    rw [client_advance]
    exact (s.client.running_raise signal).trans running
  | @replied op place pending frames reply =>
    rw [client_advance]
    exact s.client.running_resume pending reply running
  | took _ _ _ _ _ _ same | started _ _ _ _ _ same | aside _ _ same => exact same.trans running
  | returned => exact (Dispatcher.sendAck_running ..).trans running

/-- What the loop takes leaves what is under way as it is. -/
theorem Taken.frames {s t : Session} (taken : s.Taken t) :
    t.frames = s.frames ∧ t.client.running = s.client.running := by
  have same := s.client.toDispatcher.nextEvent_running
  cases taken with
  | idle next | dropped next | found next => exact ⟨rfl, by rwa [next] at same⟩

/-- An event in hand leaves what is under way as it is, or starts a callback. -/
theorem Handled.frames {s t : Session} {x : Errand} (handled : s.Handled x t) :
    (t.frames = s.frames ∨ ∃ n, s.Binds x n ∧
      t.frames = .callback x.slot x.key x.event n :: s.frames) ∧
    t.errand = none ∧ t.client.running = s.client.running := by
  cases handled with
  | dropped => exact ⟨.inl rfl, rfl, rfl⟩
  | skipped => exact ⟨.inl rfl, rfl, s.client.toDispatcher.sendAck_running ..⟩
  | started bound => exact ⟨.inr ⟨_, bound, rfl⟩, rfl, rfl⟩

end Session

namespace Chronicle

/-- Whether the loop that was started last has no callback under way. -/
def idle (c : Chronicle) : Bool := c.inside.all (·.loop ≠ c.starts)

/-- Whether the loop waits for an event: it runs, and has neither one in hand nor a callback under
way. -/
def reading (c : Chronicle) : Bool :=
  c.session.client.running && c.session.errand.isNone && c.idle

/-- The number of the event that was taken last. -/
def last (c : Chronicle) : Nat := c.history.taken - 1

/-- The events that were given to callbacks, oldest first. -/
def given (c : Chronicle) : List (Nat × ChannelKey × Event) := c.log.filterMap Entry.given?

/-- The callback that starts when the loop goes on with an event. -/
def begun? (s t : Session) : Option (ChannelKey × Event × Nat) :=
  if s.frames.length < t.frames.length then
    match t.frames with
    | .callback _ key e n :: _ => some (key, e, n)
    | _ => none
  else none

/-- What is written down of a move. -/
def after (c : Chronicle) (m : Move) (t : Session) : Chronicle :=
  let history := c.history.run (c.session.calls m t)
  let notes := c.session.notes t
  let ends (p : Nat) : List Ended :=
    ((history.posts[p]?).map fun post => ⟨p, history.openings post.key⟩).toList
  let next : Chronicle := { c with
    session := t
    history
    starts := c.starts + if !c.session.client.running && t.client.running then 1 else 0
    log := c.log ++ notes.map .action }
  match m with
  | .enter =>
    match begun? c.session t with
    | some (key, e, n) => { next with
        inside := ⟨c.starts, c.last⟩ :: c.inside
        log := next.log ++ [.callback c.last key e n] }
    | none => { next with ended := c.ended ++ if notes = [] then [] else ends c.last }
  | .returns => { next with
      inside := c.inside.tail
      ended := c.ended ++ c.inside.head?.toList.flatMap fun d => ends d.event }
  | _ => next

def step (c : Chronicle) : Move → Option Chronicle
  | .take => if c.reading then (c.session.step .take).map (c.after .take) else none
  | m => (c.session.step m).map (c.after m)

inductive Runs (k : Nesting) (c : Chronicle) : Chronicle → Prop
  | refl : Runs k c c
  | step {d u : Chronicle} (m : Move) : Runs k c d → k.Allows d.session m → d.step m = some u →
    Runs k c u

/-- What can become of a new client with these channels. -/
def Reach (k : Nesting) (channels : Channels) (c : Chronicle) : Prop :=
  ∃ config pid signals faults client,
    Client.create config pid channels signals faults = .ok client ∧ channels.Unused ∧
      Runs k { session := { client } } c

section Runs

variable {k : Nesting} {channels : Channels} {c d u : Chronicle} {m : Move}

theorem step_eq_some (moved : c.step m = some d) :
    ∃ t, c.session.step m = some t ∧ d = c.after m t ∧ (m = .take → c.reading = true) := by
  have taken : (c.session.step m).map (c.after m) = some d ∧ (m = .take → c.reading = true) := by
    cases m with
    | take =>
      simp only [step] at moved
      split at moved
      · rename_i reading
        exact ⟨moved, fun _ => reading⟩
      · contradiction
    | _ => exact ⟨moved, by simp⟩
  obtain ⟨t, went, same⟩ := Option.map_eq_some_iff.mp taken.1
  exact ⟨t, went, same.symm, taken.2⟩

@[simp] theorem session_after (c : Chronicle) (m : Move) (t : Session) :
    (c.after m t).session = t := by
  unfold after
  cases m with
  | enter => dsimp only; split <;> rfl
  | _ => rfl

theorem session_step (moved : c.step m = some d) : c.session.step m = some d.session := by
  obtain ⟨t, went, rfl, -⟩ := step_eq_some moved
  rw [session_after, went]

theorem Runs.session (runs : Runs k c d) : AudioFocus.Runs k c.session d.session := by
  induction runs with
  | refl => exact .refl
  | step m _ allowed moved ih => exact ih.step m allowed (session_step moved)

protected theorem Runs.trans (first : Runs k c d) (second : Runs k d u) : Runs k c u := by
  induction second with
  | refl => exact first
  | step m _ allowed moved ih => exact ih.step m allowed moved

theorem Reach.session (reach : c.Reach k channels) : AudioFocus.Reach k c.session := by
  obtain ⟨config, pid, signals, faults, client, created, unused, runs⟩ := reach
  exact ⟨config, pid, channels, signals, faults, client, created, unused, runs.session⟩

theorem Reach.next (reach : c.Reach k channels) (runs : Runs k c d) : d.Reach k channels := by
  obtain ⟨config, pid, signals, faults, client, created, unused, before⟩ := reach
  exact ⟨config, pid, signals, faults, client, created, unused, before.trans runs⟩

theorem Reach.step (reach : c.Reach k channels) (allowed : k.Allows c.session m)
    (moved : c.step m = some d) : d.Reach k channels :=
  reach.next (.step m .refl allowed moved)

theorem Runs.keeps {P : Chronicle → Prop} (runs : Runs k c d) (reach : c.Reach k channels)
    (now : P c) (next : ∀ c m d, c.Reach k channels → P c → k.Allows c.session m →
      c.step m = some d → P d) : P d := by
  induction runs with
  | refl => exact now
  | step m before allowed moved ih => exact next _ m _ (reach.next before) ih allowed moved

theorem Reach.induct {P : Chronicle → Prop} (reach : c.Reach k channels)
    (new : ∀ client : Client Nat, client.channels = channels → channels.Unused →
      P { session := { client } })
    (next : ∀ c m d, c.Reach k channels → P c → k.Allows c.session m → c.step m = some d → P d) :
    P c := by
  obtain ⟨config, pid, signals, faults, client, created, unused, runs⟩ := reach
  exact runs.keeps ⟨config, pid, signals, faults, client, created, unused, .refl⟩
    (new client (Client.create_eq_ok created).2.2.1 unused) next

end Runs

/-- A new client of process 7, with memory channels. -/
def fresh (capacity : Nat) : Chronicle := { session := .fresh capacity }

def play (k : Nesting) (c : Chronicle) (moves : List Move) : Option Chronicle :=
  moves.foldlM (fun c m => if k.Allows c.session m then c.step m else none) c

def played (k : Nesting) (capacity : Nat) (moves : List Move) : Chronicle :=
  ((fresh capacity).play k moves).getD (fresh capacity)

section Played

variable {k : Nesting} {capacity : Nat} {moves more : List Move}

theorem Runs.of_play {c d : Chronicle} (played : c.play k moves = some d) : Runs k c d := by
  induction moves generalizing c with
  | nil => exact Option.some.inj played ▸ .refl
  | cons m moves ih =>
    obtain ⟨v, moved, rest⟩ := Option.bind_eq_some_iff.mp played
    dsimp only at moved
    split at moved
    · rename_i allowed
      exact Runs.trans (.step m .refl allowed moved) (ih rest)
    · contradiction

theorem play_append (c : Chronicle) :
    c.play k (moves ++ more) = (c.play k moves).bind (·.play k more) :=
  List.foldlM_append

theorem play_played (possible : ((fresh capacity).play k (moves ++ more)).isSome) :
    (played k capacity moves).play k more = some (played k capacity (moves ++ more)) := by
  obtain ⟨d, all⟩ := Option.isSome_iff_exists.mp possible
  have split := all
  rw [play_append] at split
  obtain ⟨c, first, rest⟩ := Option.bind_eq_some_iff.mp split
  rw [played, first, played, all]
  exact rest

theorem runs_played (possible : ((fresh capacity).play k (moves ++ more)).isSome) :
    Runs k (played k capacity moves) (played k capacity (moves ++ more)) :=
  .of_play (play_played possible)

theorem step_played {m : Move} (possible : ((fresh capacity).play k (moves ++ [m])).isSome) :
    (played k capacity moves).step m = some (played k capacity (moves ++ [m])) := by
  have one := play_played possible
  simp only [play, List.foldlM_cons, List.foldlM_nil, bind_pure] at one
  split at one
  · exact one
  · contradiction

theorem reach_played (some_ : capacity ≠ 0) (possible : ((fresh capacity).play k moves).isSome) :
    (played k capacity moves).Reach k (.memory {}) := by
  have new : Client.create { maxHandles := capacity, installCrashGuard := false } 7 (.memory {})
      (.uniform .ignored) {} = .ok (fresh capacity).session.client := by
    simp only [Client.create, some_, if_false]
    rfl
  have runs : Runs k (played k capacity []) (played k capacity ([] ++ moves)) :=
    runs_played possible
  exact ⟨_, _, _, _, _, new, rfl, runs⟩

end Played

section After

variable {c : Chronicle} {m : Move} {t : Session}

theorem after_apart (apart : m.delivers = false) :
    (c.after m t).inside = c.inside ∧ (c.after m t).ended = c.ended ∧
      (c.after m t).log = c.log ++ (c.session.notes t).map .action := by
  cases m with
  | take | enter | returns => contradiction
  | _ => exact ⟨rfl, rfl, rfl⟩

/-- All that is written down of an event that the loop takes is in the history. -/
theorem after_take : (c.after .take t).inside = c.inside ∧ (c.after .take t).ended = c.ended ∧
    (c.after .take t).log = c.log ++ (c.session.notes t).map .action := ⟨rfl, rfl, rfl⟩

theorem begun?_of_same (same : t.frames = c.session.frames) : begun? c.session t = none := by
  simp [begun?, same]

theorem begun?_of_started {slot n : Nat} {key : ChannelKey} {e : Event}
    (started : t.frames = .callback slot key e n :: c.session.frames) :
    begun? c.session t = some (key, e, n) := by
  simp [begun?, started]

theorem inside_of_same (same : t.frames = c.session.frames) :
    (c.after .enter t).inside = c.inside := by
  simp only [after, begun?_of_same same]

theorem inside_of_started {slot n : Nat} {key : ChannelKey} {e : Event}
    (started : t.frames = .callback slot key e n :: c.session.frames) :
    (c.after .enter t).inside = ⟨c.starts, c.last⟩ :: c.inside := by
  simp only [after, begun?_of_started started]

theorem starts_after (c : Chronicle) (m : Move) (t : Session) : (c.after m t).starts =
    c.starts + if !c.session.client.running && t.client.running then 1 else 0 := by
  unfold after
  cases m with
  | enter => dsimp only; split <;> rfl
  | _ => rfl

theorem history_after (c : Chronicle) (m : Move) (t : Session) :
    (c.after m t).history = c.history.run (c.session.calls m t) := by
  unfold after
  cases m with
  | enter => dsimp only; split <;> rfl
  | _ => rfl

end After
end Chronicle

namespace History

variable {h : History}

theorem Faithful.run (faithful : h.Faithful) (calls : List MemoryCall) : (h.run calls).Faithful :=
  run_induct faithful (fun _ call faithful => faithful.after call) calls

theorem posts_run {p : Nat} {post : Post} (found : h.posts[p]? = some post)
    (calls : List MemoryCall) : (h.run calls).posts[p]? = some post :=
  run_induct (P := fun h => h.posts[p]? = some post) found
    (fun _ call found => posts_after found call) calls

theorem taken_run_of_untaken {calls : List MemoryCall} (untaken : .nextEvent ∉ calls) :
    (h.run calls).taken = h.taken := by
  induction calls generalizing h with
  | nil => rfl
  | cons call calls ih =>
    rw [List.mem_cons, not_or] at untaken
    have same : (h.after call).taken = h.taken := by
      cases call with
      | nextEvent => exact absurd rfl untaken.1
      | _ => rfl
    exact (ih untaken.2).trans same

theorem Faithful.post_of_turn (faithful : h.Faithful) {x : ChannelKey × Event}
    (turn : h.channels.turn? = some x) :
    ∃ post, h.posts[h.taken]? = some post ∧ post.letter = x := by
  have letters := faithful.letters
  rw [MemoryChannels.letters_of_turn turn] at letters
  have inside : h.taken < h.posts.length := by
    rcases Nat.lt_or_eq_of_le faithful.taken_le with inside | all
    · exact inside
    · simp [all] at letters
  rw [List.drop_eq_getElem_cons inside, List.map_cons] at letters
  exact ⟨_, List.getElem?_eq_getElem inside, (List.cons.inj letters).1.symm⟩

end History

/-- The client notes no event that it takes. -/
theorem Action.nextEvent_not_mem (actions : List Action) : .nextEvent ∉ Action.calls actions := by
  intro member
  obtain ⟨a, -, call⟩ := List.mem_filterMap.mp member
  cases a <;> simp [Action.call?] at call

/-- Only the move that takes an event takes one from the queue. -/
theorem Session.untaken_of_other (s : Session) {m : Move} {t : Session} (other : m ≠ .take) :
    .nextEvent ∉ s.calls m t := by
  intro member
  rcases List.mem_append.mp member with unnoted | noted
  · cases m with
    | take => contradiction
    | push | takeAck => simp [Session.unnoted] at unnoted
    | _ =>
      simp only [Session.unnoted, Dispatcher.wakes] at unnoted
      split at unnoted <;> simp at unnoted
  · exact Action.nextEvent_not_mem _ noted

theorem History.taken_after_turn {h : History} {x : ChannelKey × Event}
    (turn : h.channels.turn? = some x) : (h.after .nextEvent).taken = h.taken + 1 := by
  simp [History.after, turn]

namespace Chronicle

/-- The loop has an event in hand: the one that was taken last, under its number. -/
structure InHand (c : Chronicle) (x : Errand) (p : Nat) (post : Post) : Prop where
  errand : c.session.errand = some x
  now : c.history.taken = p + 1
  found : c.history.posts[p]? = some post
  letter : post.letter = (x.key, x.event)

/-- What is written down is so, for channels in memory. -/
structure Faithful (c : Chronicle) : Prop where
  memory : c.session.client.channels = .memory c.history.channels
  history : c.history.Faithful
  inside : c.inside.map (fun x => (c.history.posts[x.event]?).map Post.letter) =
    (c.session.frames.filterMap Frame.letter?).map some
  hand : ∀ x, c.session.errand = some x → ∃ p post, c.InHand x p post

section Faithful

variable {k : Nesting} {c d : Chronicle} {m : Move} {t : Session}

theorem InHand.last {x : Errand} {p : Nat} {post : Post} (inHand : c.InHand x p post) :
    c.last = p := by
  rw [Chronicle.last, inHand.now, Nat.add_sub_cancel]

/-- An event that the loop takes is the next one that was sent, and its channel is open. -/
theorem Faithful.taken (faithful : c.Faithful) {key : ChannelKey} {e : Event} {d : Dispatcher Nat}
    (next : c.session.client.nextEvent = (some (key, e), d)) :
    c.session.client.faults.waits.isEmpty = true ∧ c.history.channels.turn? = some (key, e) ∧
      c.history.channels.isOpen key = true ∧
      ∃ post, c.history.posts[c.history.taken]? = some post ∧ post.letter = (key, e) := by
  have memory := (c.session.client.toDispatcher.nextEvent_memory faithful.memory).1
  rw [next] at memory
  cases working : c.session.client.faults.waits.isEmpty with
  | false => simp [working] at memory
  | true =>
    rw [working, if_pos rfl, MemoryChannels.nextEvent_eq] at memory
    obtain ⟨turn, opened⟩ := Option.filter_eq_some_iff.mp memory.symm
    exact ⟨rfl, turn, opened, faithful.history.post_of_turn turn⟩

theorem letters_apart {s : Session} (moved : s.step m = some t) (apart : m.delivers = false) :
    t.frames.filterMap Frame.letter? = s.frames.filterMap Frame.letter? := by
  obtain ⟨gone, kept, more, before, after, plain⟩ := Session.frames_of_step moved apart
  have none_ : ∀ f ∈ gone ++ more, f.letter? = none := fun f member => by
    have other := plain f member
    cases f with
    | callback => contradiction
    | _ => rfl
  rw [List.forall_mem_append] at none_
  rw [before, after, List.filterMap_append, List.filterMap_append,
    List.filterMap_eq_nil_iff.mpr none_.1, List.filterMap_eq_nil_iff.mpr none_.2]

theorem inside_of_posts {inside : List Dispatch} {letters : List (ChannelKey × Event)}
    (even : inside.map (fun x => (c.history.posts[x.event]?).map Post.letter) = letters.map some)
    (calls : List MemoryCall) :
    inside.map (fun x => ((c.history.run calls).posts[x.event]?).map Post.letter) =
      letters.map some := by
  rw [← even]
  refine List.map_congr_left fun x member => ?_
  have known : (c.history.posts[x.event]?).map Post.letter ∈ letters.map some :=
    even ▸ List.mem_map_of_mem member
  obtain ⟨letter, -, found⟩ := List.mem_map.mp known
  obtain ⟨post, found, -⟩ := Option.map_eq_some_iff.mp found.symm
  rw [found, History.posts_run found calls]

theorem Faithful.inside_step (faithful : c.Faithful) (reach : c.Reach k (.memory {}))
    (went : c.session.step m = some t) :
    (c.after m t).inside.map
        (fun x => ((c.after m t).history.posts[x.event]?).map Post.letter) =
      (t.frames.filterMap Frame.letter?).map some := by
  have even := inside_of_posts faithful.inside (c.session.calls m t)
  rw [history_after]
  cases apart : m.delivers with
  | false => rw [(after_apart apart).1, letters_apart went apart, even]
  | true =>
    cases m with
    | take => rw [after_take.1, (Session.taken_of_step reach.session went).frames.1, even]
    | enter =>
      obtain ⟨x, errand, -, handled⟩ := Session.handled_of_step reach.session went
      obtain ⟨p, post, inHand⟩ := faithful.hand x errand
      rcases handled.frames.1 with same | ⟨n, -, started⟩
      · rw [inside_of_same same, same, even]
      · rw [inside_of_started started, List.map_cons, inHand.last,
          History.posts_run inHand.found, even, started, Option.map_some, inHand.letter]
        rfl
    | returns =>
      simp only [Session.step] at went
      split at went
      · rename_i slot key e n frames top
        obtain rfl := Option.some.inj went
        rw [top] at even
        change c.inside.tail.map _ = _
        rw [List.map_tail, even]
        rfl
      · contradiction
    | _ => contradiction

theorem calls_take {s : Session} (working : s.client.faults.waits.isEmpty = true)
    (silent : s.notes t = []) : s.calls .take t = [.nextEvent] := by
  simp [Session.calls, Session.unnoted, working, silent, Action.calls]

theorem Faithful.hand_step (faithful : c.Faithful) (reach : c.Reach k (.memory {}))
    (went : c.session.step m = some t) (x : Errand) (errand : t.errand = some x) :
    ∃ p post, (c.after m t).InHand x p post := by
  rcases (Session.step_happened went).errand errand with before | ⟨rfl, idle, -⟩
  · obtain ⟨p, post, inHand⟩ := faithful.hand x before
    have other : m ≠ .take := by
      rintro rfl
      cases (Session.idle_of_take went).symm.trans before
    refine ⟨p, post, by rw [session_after, errand], ?_, ?_, inHand.letter⟩ <;> rw [history_after]
    · rw [History.taken_run_of_untaken (c.session.untaken_of_other other), inHand.now]
    · exact History.posts_run inHand.found _
  · have taken := Session.taken_of_step reach.session went
    have silent := taken.noted.2
    cases taken with
    | idle | dropped => cases idle.symm.trans errand
    | found next =>
      obtain rfl := Option.some.inj errand
      obtain ⟨working, turn, -, post, found, letter⟩ := faithful.taken next
      refine ⟨c.history.taken, post, by rw [session_after], ?_, ?_, letter⟩ <;>
        rw [history_after, calls_take working silent]
      · exact History.taken_after_turn turn
      · exact History.posts_run found _

theorem Faithful.step (faithful : c.Faithful) (reach : c.Reach k (.memory {}))
    (moved : c.step m = some d) : d.Faithful := by
  obtain ⟨t, went, rfl, -⟩ := step_eq_some moved
  have noted := (Session.noted_of_step reach.session went).1
  refine ⟨?_, ?_, ?_, ?_⟩
  · rw [session_after, history_after, noted.memory _ faithful.memory, History.channels_run]
    rfl
  · rw [history_after]
    exact faithful.history.run _
  · rw [session_after]
    exact faithful.inside_step reach went
  · rw [session_after]
    exact faithful.hand_step reach went

theorem faithful_of_reach (reach : c.Reach k (.memory {})) : c.Faithful := by
  refine reach.induct (fun client memory _ => ?_) fun c m d reach faithful _ moved =>
    faithful.step reach moved
  exact ⟨memory, .new, rfl, fun x errand => by contradiction⟩

end Faithful

end Chronicle
end AudioFocus
