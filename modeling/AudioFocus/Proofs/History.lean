import AudioFocus.Proofs.Channels

/-!
The history of channels in memory: which events were sent, each in which opening of its channel,
how many have left the queue and which of them were returned. Events leave the queue in the order
in which they were sent, each once, and an event is returned when its turn comes exactly if its
channel is open then: also if the channel was closed since and has been opened again.
-/
namespace AudioFocus

/-- What the client and the arbiter do to channels in memory. -/
inductive MemoryCall
  | openChannel (key : ChannelKey)
  | closeChannel (key : ChannelKey)
  | push (key : ChannelKey) (e : Event)
  | sendAck (key : ChannelKey) (handle : Int32)
  | wake
  | nextEvent
  | receiveAck

def QueueItem.letter? : QueueItem → Option (ChannelKey × Event)
  | event key e => some (key, e)
  | wake => none

namespace MemoryChannels

variable (m : MemoryChannels) (key : ChannelKey)

/-- A call that is refused changes nothing. -/
def after (m : MemoryChannels) : MemoryCall → MemoryChannels
  | .openChannel key => m.openChannel key
  | .closeChannel key => m.closeChannel key
  | .push key e =>
    match m.push key e with
    | .ok m => m
    | .error _ => m
  | .sendAck key handle => m.sendAck key handle
  | .wake => m.wake
  | .nextEvent => m.nextEvent.2
  | .receiveAck => m.receiveAck.2

/-- The events in the queue, the next one first. -/
def letters (m : MemoryChannels) : List (ChannelKey × Event) := m.queue.filterMap QueueItem.letter?

/-- The event at the head of the queue. There is none if the head is an entry that brings none. -/
def turn? (m : MemoryChannels) : Option (ChannelKey × Event) := m.queue.head?.bind QueueItem.letter?

@[simp] theorem letters_openChannel : (m.openChannel key).letters = m.letters := by
  unfold openChannel
  split <;> rfl

@[simp] theorem letters_wake : m.wake.letters = m.letters := by
  simp [letters, wake, QueueItem.letter?]

@[simp] theorem letters_closeChannel : (m.closeChannel key).letters = m.letters := by
  unfold closeChannel
  split
  · rfl
  · split
    · rfl
    · dsimp only
      split <;> exact letters_wake _

@[simp] theorem letters_sendAck (handle : Int32) : (m.sendAck key handle).letters = m.letters := by
  unfold sendAck
  split
  · rfl
  · split <;> rfl

@[simp] theorem letters_receiveAck : m.receiveAck.2.letters = m.letters := by
  unfold receiveAck
  split <;> rfl

variable {m key}

theorem push_of_open (opened : m.isOpen key = true) (e : Event) :
    m.push key e = .ok { m with
      channels := m.channels.modify key fun c => { c with outstanding := c.outstanding + 1 }
      queue := m.queue ++ [.event key e] } := by
  rw [push, if_pos opened]

theorem after_push_of_closed (closed : m.isOpen key = false) (e : Event) :
    m.after (.push key e) = m := by
  simp [after, push, closed]

theorem letters_push (opened : m.isOpen key = true) (e : Event) :
    (m.after (.push key e)).letters = m.letters ++ [(key, e)] := by
  simp [after, push_of_open opened, letters, QueueItem.letter?]

theorem letters_of_turn {x : ChannelKey × Event} (turn : m.turn? = some x) :
    m.letters = x :: m.nextEvent.2.letters := by
  obtain ⟨channels, queue, acks⟩ := m
  match queue with
  | [] | .wake :: _ => contradiction
  | .event key e :: rest =>
    obtain rfl := Option.some.inj turn
    rfl

theorem letters_of_no_turn (turn : m.turn? = none) : m.nextEvent.2.letters = m.letters := by
  obtain ⟨channels, queue, acks⟩ := m
  match queue with
  | [] | .wake :: _ => rfl
  | .event key e :: rest => contradiction

/-- A call returns the event whose turn it is, if the channel of that is open. -/
theorem nextEvent_eq (m : MemoryChannels) :
    m.nextEvent.1 = m.turn?.filter fun x => m.isOpen x.1 := by
  obtain ⟨channels, queue, acks⟩ := m
  match queue with
  | [] | .wake :: _ => rfl
  | .event key e :: rest => simp [nextEvent, turn?, QueueItem.letter?, Option.filter, isOpen]

@[simp] theorem isOpen_nextEvent (m : MemoryChannels) : m.nextEvent.2.isOpen = m.isOpen := by
  unfold nextEvent
  split <;> rfl

@[simp] theorem isOpen_sendAck (m : MemoryChannels) (key : ChannelKey) (handle : Int32) :
    (m.sendAck key handle).isOpen = m.isOpen := by
  funext other
  have same := congrArg Option.isSome ((Channels.memory m).references_sendAck key handle other)
  rw [Option.isSome_map, Option.isSome_map, ← Channels.isOpen_eq_isSome,
    ← Channels.isOpen_eq_isSome] at same
  exact same

@[simp] theorem isOpen_receiveAck (m : MemoryChannels) : m.receiveAck.2.isOpen = m.isOpen := by
  unfold receiveAck
  split <;> rfl

theorem isOpen_openChannel (m : MemoryChannels) (key other : ChannelKey) :
    (m.openChannel key).isOpen other = (decide (other = key) || m.isOpen other) := by
  have counts : (Channels.memory (m.openChannel key)).counts? other = _ :=
    Channels.counts?_openChannel (c := .memory m) rfl other
  have opened := congrArg Option.isSome counts
  rw [← Channels.isOpen_eq_isSome] at opened
  refine opened.trans ?_
  by_cases h : other = key
  · simp [h]
  · rw [if_neg h, ← Channels.isOpen_eq_isSome]
    simp [h, Channels.isOpen]

theorem isOpen_of_closeChannel {other : ChannelKey}
    (opened : (m.closeChannel key).isOpen other = true) : m.isOpen other = true := by
  change (Channels.memory m).isOpen other = true
  have counts := Channels.counts?_closeChannel (.memory m) key other
  change (Channels.memory (m.closeChannel key)).isOpen other = true at opened
  rw [Channels.isOpen_eq_isSome] at opened ⊢
  change ((Channels.memory (m.closeChannel key)).counts? other).isSome = true at opened
  rw [show (Channels.memory (m.closeChannel key)).counts? other = _ from counts] at opened
  split at opened
  · rename_i same
    cases found : (Channels.memory m).counts? key with
    | none => simp [found, Channels.afterClose] at opened
    | some x => simp [same, found]
  · exact opened

theorem isOpen_after_push (m : MemoryChannels) (key other : ChannelKey) (e : Event) :
    (m.after (.push key e)).isOpen other = m.isOpen other := by
  cases opened : m.isOpen key with
  | false => rw [after_push_of_closed opened]
  | true =>
    simp only [after, push_of_open opened, isOpen, ChannelMap.contains, ChannelMap.get?_modify]
    split <;> simp

/-- Only an open opens a channel. -/
theorem isOpen_of_after {call : MemoryCall} (other : call ≠ .openChannel key)
    (opened : (m.after call).isOpen key = true) : m.isOpen key = true := by
  cases call with
  | openChannel key' =>
    have apart : key ≠ key' := fun same => other (by rw [same])
    simpa [after, isOpen_openChannel, apart] using opened
  | closeChannel key' => exact isOpen_of_closeChannel opened
  | push key' e => rwa [isOpen_after_push] at opened
  | sendAck key' handle => rwa [after, isOpen_sendAck] at opened
  | wake => exact opened
  | nextEvent => rwa [after, isOpen_nextEvent] at opened
  | receiveAck => rwa [after, isOpen_receiveAck] at opened

theorem opens_of_after {call : MemoryCall} (closed : m.isOpen key = false)
    (opened : (m.after call).isOpen key = true) : call = .openChannel key := by
  refine Classical.byContradiction fun other => ?_
  cases closed.symm.trans (isOpen_of_after other opened)

theorem counted_after (counted : (Channels.memory m).Counted) (call : MemoryCall) :
    (Channels.memory (m.after call)).Counted := by
  cases call with
  | openChannel key => exact Channels.counted_openChannel counted rfl
  | closeChannel key => exact Channels.counted_closeChannel counted key
  | push key e =>
    cases opened : m.isOpen key with
    | false => rwa [after_push_of_closed opened]
    | true =>
      refine Channels.counted_of_eq counted fun other => ?_
      simp only [after, push_of_open opened, Channels.counts?, ChannelMap.get?_modify]
      split <;> simp [Function.comp_def]
  | sendAck key handle =>
    exact Channels.counted_of_eq counted ((Channels.memory m).references_sendAck key handle)
  | wake => exact counted
  | nextEvent =>
    refine Channels.counted_of_eq counted fun other => ?_
    exact congrArg (Option.map Prod.fst) (congrFun (Channels.counts?_nextEvent (.memory m)) other)
  | receiveAck =>
    refine Channels.counted_of_eq counted fun other => ?_
    simp only [after, receiveAck]
    split <;> rfl

end MemoryChannels

/-- An event that was sent, and in which opening of its channel. -/
structure Post where
  key : ChannelKey
  event : Event
  opening : Nat

def Post.letter (post : Post) : ChannelKey × Event := (post.key, post.event)

structure History where
  channels : MemoryChannels := {}
  /-- How often each channel was opened while it was closed. -/
  openings : ChannelKey → Nat := fun _ => 0
  /-- The events that were sent, oldest first. The number of an event is its place here. -/
  posts : List Post := []
  /-- How many of them have left the queue. -/
  taken : Nat := 0
  /-- Which of them were returned. -/
  returned : List Nat := []
  /-- The acknowledgements queued for the arbiter, each with the opening of its channel. -/
  acks : List (ChannelKey × Nat) := []

namespace History

def after (h : History) (call : MemoryCall) : History :=
  let channels := h.channels.after call
  let queued := (channels.acks.drop h.channels.acks.length).map fun a => (a.1, h.openings a.1)
  match call with
  | .openChannel key => { h with
      channels
      openings := fun k => h.openings k + if k = key ∧ h.channels.isOpen key = false then 1 else 0 }
  | .push key e => { h with
      channels
      posts := if h.channels.isOpen key then h.posts ++ [⟨key, e, h.openings key⟩] else h.posts }
  | .closeChannel _ | .sendAck _ _ => { h with channels, acks := h.acks ++ queued }
  | .nextEvent => { h with
      channels
      taken := h.taken + if h.channels.turn?.isSome then 1 else 0
      returned := if h.channels.nextEvent.1.isSome then h.returned ++ [h.taken] else h.returned }
  | .wake | .receiveAck => { h with channels }

def run (h : History) (calls : List MemoryCall) : History := calls.foldl after h

/-- What several calls make of channels that nobody has used. -/
def of (calls : List MemoryCall) : History := run {} calls

/-- The history tells the queue, and nothing is returned or acknowledged before its time. -/
structure Faithful (h : History) : Prop where
  counted : (Channels.memory h.channels).Counted
  letters : h.channels.letters = (h.posts.drop h.taken).map Post.letter
  taken_le : h.taken ≤ h.posts.length
  returned : ∀ p ∈ h.returned, p < h.taken
  posts : ∀ post ∈ h.posts, post.opening ≤ h.openings post.key
  acks : ∀ a ∈ h.acks, a.2 ≤ h.openings a.1

@[simp] theorem channels_after (h : History) (call : MemoryCall) :
    (h.after call).channels = h.channels.after call := by
  cases call <;> rfl

theorem channels_run (h : History) (calls : List MemoryCall) :
    (h.run calls).channels = calls.foldl MemoryChannels.after h.channels := by
  induction calls generalizing h with
  | nil => rfl
  | cons call calls ih => exact (ih (h.after call)).trans (by rw [channels_after]; rfl)

theorem run_append (h : History) (calls more : List MemoryCall) :
    h.run (calls ++ more) = (h.run calls).run more := List.foldl_append

section After

variable {h : History} {p : Nat} {post : Post}

theorem openings_le_after (h : History) (call : MemoryCall) (key : ChannelKey) :
    h.openings key ≤ (h.after call).openings key := by
  cases call with
  | openChannel => exact Nat.le_add_right _ _
  | _ => exact Nat.le_refl _

theorem openings_after {key : ChannelKey} (opened : h.channels.isOpen key = true)
    (call : MemoryCall) : (h.after call).openings key = h.openings key := by
  cases call with
  | openChannel k =>
    by_cases here : key = k
    · subst here
      simp [after, opened]
    · simp [after, here]
  | closeChannel | push | sendAck | wake | nextEvent | receiveAck => rfl

theorem openings_opened {key : ChannelKey} (closed : h.channels.isOpen key = false) :
    (h.after (.openChannel key)).openings key = h.openings key + 1 := by
  simp [after, closed]

theorem posts_after (found : h.posts[p]? = some post) (call : MemoryCall) :
    (h.after call).posts[p]? = some post := by
  cases call with
  | push key e =>
    unfold after
    dsimp only
    split
    · rw [List.getElem?_append_left (List.getElem?_eq_some_iff.mp found).1, found]
    · exact found
  | _ => exact found

theorem taken_le_after (h : History) (call : MemoryCall) : h.taken ≤ (h.after call).taken := by
  cases call with
  | nextEvent => exact Nat.le_add_right _ _
  | _ => exact Nat.le_refl _

theorem mem_returned_after (returned : p ∈ (h.after call).returned) :
    p ∈ h.returned ∨ p = h.taken ∧ (h.after call).taken = h.taken + 1 := by
  cases call with
  | nextEvent =>
    unfold after at returned ⊢
    dsimp only at returned ⊢
    split at returned
    · rename_i given
      rw [MemoryChannels.nextEvent_eq] at given
      rcases List.mem_append.mp returned with before | now
      · exact .inl before
      · refine .inr ⟨List.mem_singleton.mp now, ?_⟩
        cases turn : h.channels.turn? with
        | none => simp [turn] at given
        | some x => rfl
    · exact .inl returned
  | _ => exact .inl returned

end After

theorem Faithful.nextEvent {h : History} (faithful : h.Faithful) :
    (h.after .nextEvent).Faithful := by
  obtain ⟨counted, letters, taken_le, returned, posts, acks⟩ := faithful
  have bound : h.taken + (if h.channels.turn?.isSome then 1 else 0) ≤ h.posts.length ∧
      h.channels.nextEvent.2.letters =
        (h.posts.drop (h.taken + if h.channels.turn?.isSome then 1 else 0)).map Post.letter := by
    cases turn : h.channels.turn? with
    | none => exact ⟨taken_le, (MemoryChannels.letters_of_no_turn turn).trans letters⟩
    | some x =>
      rw [MemoryChannels.letters_of_turn turn] at letters
      have inside : h.taken < h.posts.length := by
        rcases Nat.lt_or_eq_of_le taken_le with inside | all
        · exact inside
        · simp [all] at letters
      rw [List.drop_eq_getElem_cons inside, List.map_cons] at letters
      exact ⟨inside, (List.cons.inj letters).2⟩
  refine ⟨MemoryChannels.counted_after counted .nextEvent, bound.2, bound.1, fun p member => ?_,
    posts, acks⟩
  rcases mem_returned_after member with before | ⟨rfl, next⟩
  · exact Nat.lt_of_lt_of_le (returned p before) (Nat.le_add_right _ _)
  · exact next ▸ Nat.lt_succ_self _

theorem Faithful.queued {h : History} (faithful : h.Faithful) {call : MemoryCall}
    (same : (h.channels.after call).letters = h.channels.letters) :
    Faithful { h with
      channels := h.channels.after call
      acks := h.acks ++ ((h.channels.after call).acks.drop h.channels.acks.length).map
        fun a => (a.1, h.openings a.1) } where
  counted := MemoryChannels.counted_after faithful.counted call
  letters := same.trans faithful.letters
  taken_le := faithful.taken_le
  returned := faithful.returned
  posts := faithful.posts
  acks a member := by
    rcases List.mem_append.mp member with before | now
    · exact faithful.acks a before
    · obtain ⟨b, -, rfl⟩ := List.mem_map.mp now
      exact Nat.le_refl _

theorem Faithful.push {h : History} (faithful : h.Faithful) (key : ChannelKey) (e : Event) :
    (h.after (.push key e)).Faithful := by
  obtain ⟨counted, letters, taken_le, returned, posts, acks⟩ := faithful
  cases opened : h.channels.isOpen key with
  | false =>
    have same : h.after (.push key e) = h := by
      simp [after, opened, MemoryChannels.after_push_of_closed opened]
    rw [same]
    exact ⟨counted, letters, taken_le, returned, posts, acks⟩
  | true =>
    have sent : h.after (.push key e) = { h with
        channels := h.channels.after (.push key e)
        posts := h.posts ++ [⟨key, e, h.openings key⟩] } := by simp [after, opened]
    rw [sent]
    refine ⟨MemoryChannels.counted_after counted _, ?_, ?_, returned, fun post member => ?_, acks⟩
    · rw [MemoryChannels.letters_push opened, letters, List.drop_append_of_le_length taken_le,
        List.map_append]
      rfl
    · exact Nat.le_trans taken_le (by simp)
    · rcases List.mem_append.mp member with before | now
      · exact posts post before
      · obtain rfl := List.mem_singleton.mp now
        exact Nat.le_refl _

theorem Faithful.after {h : History} (faithful : h.Faithful) (call : MemoryCall) :
    (h.after call).Faithful := by
  cases call with
  | openChannel key =>
    obtain ⟨counted, letters, taken_le, returned, posts, acks⟩ := faithful
    exact ⟨MemoryChannels.counted_after counted _,
      (MemoryChannels.letters_openChannel ..).trans letters, taken_le, returned,
      fun post member => Nat.le_trans (posts post member) (Nat.le_add_right _ _),
      fun a member => Nat.le_trans (acks a member) (Nat.le_add_right _ _)⟩
  | closeChannel key => exact faithful.queued (MemoryChannels.letters_closeChannel ..)
  | push key e => exact faithful.push key e
  | sendAck key handle => exact faithful.queued (MemoryChannels.letters_sendAck ..)
  | wake =>
    exact ⟨faithful.counted, (MemoryChannels.letters_wake _).trans faithful.letters,
      faithful.taken_le, faithful.returned, faithful.posts, faithful.acks⟩
  | nextEvent => exact faithful.nextEvent
  | receiveAck =>
    exact ⟨MemoryChannels.counted_after faithful.counted .receiveAck,
      (MemoryChannels.letters_receiveAck _).trans faithful.letters, faithful.taken_le,
      faithful.returned, faithful.posts, faithful.acks⟩

theorem Faithful.new : Faithful {} :=
  ⟨by intro key n m found; simp [Channels.counts?] at found, rfl, Nat.le_refl _, by simp, by simp,
    by simp⟩

theorem run_induct {P : History → Prop} {h : History} (now : P h)
    (next : ∀ h call, P h → P (h.after call)) (calls : List MemoryCall) : P (h.run calls) := by
  induction calls generalizing h with
  | nil => exact now
  | cons call calls ih => exact ih (next h call now)

theorem faithful_of (calls : List MemoryCall) : (of calls).Faithful :=
  run_induct .new (fun _ call faithful => faithful.after call) calls

/-- It is the turn of the event of this number: the next call finds it at the head of the queue. -/
def Turn (h : History) (p : Nat) : Prop := h.taken = p ∧ h.channels.turn?.isSome = true

instance (h : History) (p : Nat) : Decidable (h.Turn p) :=
  inferInstanceAs (Decidable (_ ∧ _))

/-- The next call returns the event of this number. -/
def Returns (h : History) (p : Nat) : Prop :=
  p ∈ (h.after .nextEvent).returned ∧ p ∉ h.returned

/-- Among these calls is one that has left a channel without a reference, after the event of this
number was sent. -/
def Dropped (calls : List MemoryCall) (p : Nat) (key : ChannelKey) : Prop :=
  ∃ earlier later, calls = earlier ++ later ∧ p < (of earlier).posts.length ∧
    (Channels.memory (of earlier).channels).refs key = 0

theorem Faithful.letter_of_turn {h : History} (faithful : h.Faithful) {p : Nat} {post : Post}
    (sent : h.posts[p]? = some post) (turn : h.Turn p) : h.channels.turn? = some post.letter := by
  obtain ⟨rfl, head⟩ := turn
  obtain ⟨x, head⟩ := Option.isSome_iff_exists.mp head
  obtain ⟨inside, found⟩ := List.getElem?_eq_some_iff.mp sent
  have letters := faithful.letters
  rw [MemoryChannels.letters_of_turn head, List.drop_eq_getElem_cons inside, List.map_cons,
    found] at letters
  rw [head, (List.cons.inj letters).1]

theorem Faithful.returns_iff {h : History} (faithful : h.Faithful) {p : Nat} {post : Post}
    (sent : h.posts[p]? = some post) :
    h.Returns p ↔ h.Turn p ∧ h.channels.isOpen post.key = true := by
  constructor
  · rintro ⟨returned, before⟩
    rcases mem_returned_after returned with now | ⟨rfl, next⟩
    · exact absurd now before
    · have head : h.channels.turn?.isSome = true := by
        cases head : h.channels.turn? with
        | none => simp [History.after, head] at next
        | some x => rfl
      have turn : h.Turn h.taken := ⟨rfl, head⟩
      refine ⟨turn, ?_⟩
      cases opened : h.channels.isOpen post.key with
      | true => rfl
      | false =>
        simp [History.after, MemoryChannels.nextEvent_eq, faithful.letter_of_turn sent turn,
          Option.filter, Post.letter, opened, before] at returned
  · rintro ⟨turn, opened⟩
    have given : h.channels.nextEvent.1.isSome = true := by
      simp [MemoryChannels.nextEvent_eq, faithful.letter_of_turn sent turn, Option.filter,
        Post.letter, opened]
    refine ⟨?_, fun member => Nat.ne_of_lt (faithful.returned p member) turn.1.symm⟩
    simp [History.after, given, turn.1]

/-- A channel that is closed and open later has been opened once more in between. -/
theorem openings_lt_run {h : History} {key : ChannelKey} {opening : Nat}
    (closed : h.channels.isOpen key = false) (older : opening ≤ h.openings key)
    {calls : List MemoryCall} (opened : (h.run calls).channels.isOpen key = true) :
    opening < (h.run calls).openings key := by
  -- While it is closed its openings are at least as many, and an open makes them more.
  have kept : (h.run calls).channels.isOpen key = false ∧ opening ≤ (h.run calls).openings key ∨
      opening < (h.run calls).openings key := by
    refine run_induct (P := fun h => h.channels.isOpen key = false ∧ opening ≤ h.openings key ∨
      opening < h.openings key) (.inl ⟨closed, older⟩) (fun h call => ?_) calls
    have more := openings_le_after h call key
    rintro (⟨closed, older⟩ | newer)
    · by_cases opens : call = .openChannel key
      · subst opens
        refine .inr (Nat.lt_of_le_of_lt older ?_)
        simp [History.after, closed]
      · refine .inl ⟨?_, Nat.le_trans older more⟩
        have still := mt (MemoryChannels.isOpen_of_after opens) (by simpa using closed)
        simpa using still
    · exact .inr (Nat.lt_of_lt_of_le newer more)
  rcases kept with ⟨closed, -⟩ | newer
  · cases closed.symm.trans opened
  · exact newer

/-- A channel that has had no reference since an event was sent on it is closed, or has been opened
again. -/
theorem reopened_of_dropped {calls : List MemoryCall} {p : Nat} {post : Post}
    (sent : (of calls).posts[p]? = some post) (dropped : Dropped calls p post.key)
    (opened : (of calls).channels.isOpen post.key = true) :
    post.opening < (of calls).openings post.key := by
  obtain ⟨earlier, later, rfl, known, unused⟩ := dropped
  have faithful := faithful_of earlier
  obtain ⟨post', before⟩ : ∃ post', (of earlier).posts[p]? = some post' :=
    ⟨_, List.getElem?_eq_getElem known⟩
  rw [of, run_append] at sent opened ⊢
  have still : ((of earlier).run later).posts[p]? = some post' :=
    run_induct (P := fun h => h.posts[p]? = some post') before
      (fun _ call found => posts_after found call) later
  obtain rfl : post = post' := Option.some.inj (sent.symm.trans still)
  have closed : (of earlier).channels.isOpen post.key = false := by
    have idle := mt (Channels.isOpen_iff_refs faithful.counted post.key).mp (by simp [unused])
    simpa [Channels.isOpen] using idle
  have older := faithful.posts post (List.mem_of_getElem? before)
  exact openings_lt_run closed older opened

/-- An event whose channel has had no reference since it was sent is returned exactly when its turn
comes while the channel is open, which was opened again then. If the channel is closed when its turn
comes, it is never returned. -/
theorem returned_iff_reopened {calls : List MemoryCall} {p : Nat} {post : Post}
    (sent : (of calls).posts[p]? = some post) (dropped : Dropped calls p post.key) :
    ((of calls).Returns p ↔ (of calls).Turn p ∧ (of calls).channels.isOpen post.key = true) ∧
      ((of calls).Returns p → post.opening < (of calls).openings post.key) ∧
      ((of calls).Turn p → (of calls).channels.isOpen post.key = false →
        ∀ more, p ∉ (of (calls ++ .nextEvent :: more)).returned) := by
  have faithful := faithful_of calls
  have returns := faithful.returns_iff sent
  refine ⟨returns, fun now => reopened_of_dropped sent dropped (returns.mp now).2,
    fun turn closed more => ?_⟩
  have lost : p ∉ (of calls).returned := fun member =>
    Nat.ne_of_lt (faithful.returned p member) turn.1.symm
  have passed : p ∉ ((of calls).after .nextEvent).returned ∧
      p < ((of calls).after .nextEvent).taken := by
    refine ⟨fun member => ?_, ?_⟩
    · cases closed.symm.trans (returns.mp ⟨member, lost⟩).2
    · simp [History.after, turn.1, turn.2]
  rw [of, run_append]
  refine (run_induct (P := fun h => p ∉ h.returned ∧ p < h.taken) passed (fun h call => ?_) more).1
  rintro ⟨never, past⟩
  refine ⟨fun member => ?_, Nat.lt_of_lt_of_le past (taken_le_after h call)⟩
  rcases mem_returned_after member with before | ⟨rfl, -⟩
  · exact never before
  · exact Nat.lt_irrefl _ past

/-- The channel is closed after the event was sent, and opened again before its turn. -/
theorem returned_iff_reopened_of_two_openings :
    let key : ChannelKey := .focus 1 5
    let e : Event := ⟨0, 5, .playback, .released, "", "", ""⟩
    let calls : List MemoryCall :=
      [.openChannel key, .push key e, .closeChannel key, .openChannel key]
    Dropped calls 0 key ∧ (of calls).Returns 0 ∧ (of calls).openings key = 2 := by
  intro key e calls
  have sent : (of calls).posts[0]? = some ⟨key, e, 1⟩ := rfl
  have dropped : Dropped calls 0 key :=
    ⟨[.openChannel key, .push key e, .closeChannel key], [.openChannel key], rfl, by decide, rfl⟩
  exact ⟨dropped, (returned_iff_reopened sent dropped).1.mpr ⟨by decide, by decide⟩, by decide⟩

end History
end AudioFocus
