import AudioFocus.Proofs.Acknowledgement
import AudioFocus.Proofs.Fate

/-!
What the arbiter still waits for once the queue is empty. Every event that it sends on an open
channel is outstanding until an acknowledgement comes, and an event whose handle is gone when its
turn comes, or when the loop goes on with it, is dropped without one. The last close of a channel
answers for such an event; a channel of watches stays open as long as there is another watch, and
the arbiter waits as long.
-/
namespace AudioFocus

namespace MemoryChannels

/-- Events of an open channel that are not acknowledged. -/
def outstanding (m : MemoryChannels) (key : ChannelKey) : Nat :=
  ((m.channels.get? key).map (·.outstanding)).getD 0

variable {m : MemoryChannels} {k key : ChannelKey}

theorem outstanding_eq_counts (m : MemoryChannels) (key : ChannelKey) :
    m.outstanding key = (((Channels.memory m).counts? key).map Prod.snd).getD 0 := by
  simp [outstanding, Channels.counts?, Function.comp_def]

theorem outstanding_openChannel (m : MemoryChannels) (k key : ChannelKey) :
    (m.openChannel k).outstanding key = m.outstanding key := by
  have counts : (Channels.memory (m.openChannel k)).counts? key = _ :=
    Channels.counts?_openChannel (c := .memory m) rfl key
  rw [outstanding_eq_counts, outstanding_eq_counts, counts]
  by_cases h : key = k
  · subst h
    cases (Channels.memory m).counts? key <;> simp [Channels.afterOpen]
  · rw [if_neg h]

theorem outstanding_closeChannel (opened : (m.closeChannel k).isOpen key = true) :
    (m.closeChannel k).outstanding key = m.outstanding key := by
  have counts : (Channels.memory (m.closeChannel k)).counts? key = _ :=
    Channels.counts?_closeChannel (.memory m) k key
  change (Channels.memory (m.closeChannel k)).isOpen key = true at opened
  rw [Channels.isOpen_eq_isSome, counts] at opened
  rw [outstanding_eq_counts, outstanding_eq_counts, counts]
  by_cases h : key = k
  · subst h
    rw [if_pos rfl] at opened ⊢
    cases found : (Channels.memory m).counts? key with
    | none => rfl
    | some x =>
      by_cases shared : 1 < x.1
      · simp [Channels.afterClose, shared]
      · simp [found, Channels.afterClose, shared] at opened
  · rw [if_neg h]

theorem outstanding_push (opened : m.isOpen k = true) (e : Event) :
    (m.after (.push k e)).outstanding key = m.outstanding key + if key = k then 1 else 0 := by
  obtain ⟨ch, found⟩ := Option.isSome_iff_exists.mp opened
  simp only [after, push_of_open opened, outstanding, ChannelMap.get?_modify]
  by_cases h : key = k
  · subst h
    simp [found]
  · simp [h]

theorem outstanding_sendAck (m : MemoryChannels) (k key : ChannelKey) (handle : Int32) :
    (m.sendAck k handle).outstanding key = m.outstanding key - if key = k then 1 else 0 := by
  unfold sendAck
  split
  · rename_i closed
    by_cases h : key = k
    · subst h
      simp [outstanding, closed]
    · simp [h]
  · rename_i ch found
    by_cases h : key = k
    · subst h
      split
      · simp [outstanding, found]
      · rename_i answered
        simp [outstanding, found]
        omega
    · split <;> simp [outstanding, h]

end MemoryChannels

theorem length_filter_ne {l : List Nat} (distinct : l.Nodup) (p : Nat) :
    (l.filter (· != p)).length + (if p ∈ l then 1 else 0) = l.length := by
  rw [← distinct.erase_eq_filter]
  by_cases member : p ∈ l
  · have positive := List.length_pos_of_mem member
    rw [List.length_erase_of_mem member, if_pos member]
    omega
  · rw [List.erase_of_not_mem member, if_neg member]
    rfl

namespace History

/-- The event of this number was sent on the channel since that was last opened. -/
def current (h : History) (key : ChannelKey) (p : Nat) : Bool :=
  (h.posts[p]?).any fun post => post.key = key ∧ post.opening = h.openings key

/-- The events sent on a channel since it was last opened whose delivery has not ended. -/
def owed (h : History) (ended : List Ended) (key : ChannelKey) : List Nat :=
  (List.range h.posts.length).filter fun p => h.current key p && p ∉ ended.map (·.event)

/-- The deliveries that have ended since a channel was last opened of events sent before. -/
def strays (h : History) (ended : List Ended) (key : ChannelKey) : Nat :=
  ended.countP fun x => x.opening = h.openings key && (h.posts[x.event]?).any fun post =>
    post.key = key ∧ post.opening < h.openings key

variable {h h' : History} {ended : List Ended} {key : ChannelKey} {p : Nat} {post : Post}

theorem current_iff : h.current key p = true ↔
    ∃ post, h.posts[p]? = some post ∧ post.key = key ∧ post.opening = h.openings key := by
  simp [current, Option.any_eq_true]

theorem current_eq (found : h.posts[p]? = some post) :
    h.current key p = decide (post.key = key ∧ post.opening = h.openings key) := by
  simp [current, found]

theorem mem_owed : p ∈ h.owed ended key ↔ h.current key p = true ∧ p ∉ ended.map (·.event) := by
  have inside (now : h.current key p = true) : p < h.posts.length := by
    obtain ⟨post, found, -⟩ := current_iff.mp now
    exact (List.getElem?_eq_some_iff.mp found).1
  simp only [owed, List.mem_filter, List.mem_range, Bool.and_eq_true, decide_eq_true_eq]
  exact ⟨fun member => member.2, fun member => ⟨inside member.1, member⟩⟩

theorem owed_of_same (posts : h'.posts = h.posts) (openings : h'.openings key = h.openings key) :
    h'.owed ended key = h.owed ended key := by
  simp [owed, current, posts, openings]

theorem strays_of_same (known : ∀ x ∈ ended, h'.posts[x.event]? = h.posts[x.event]?)
    (openings : h'.openings key = h.openings key) : h'.strays ended key = h.strays ended key := by
  apply List.countP_congr
  intro x member
  rw [known x member, openings]

/-- A delivery that ends settles its event, if that was owed. -/
theorem length_owed_ended (found : h.posts[p]? = some post) (fresh : p ∉ ended.map (·.event))
    (opening : Nat) (key : ChannelKey) :
    (h.owed (ended ++ [⟨p, opening⟩]) key).length +
        (if post.key = key ∧ post.opening = h.openings key then 1 else 0) =
      (h.owed ended key).length := by
  have less : h.owed (ended ++ [⟨p, opening⟩]) key = (h.owed ended key).filter (· != p) := by
    simp only [owed, List.filter_filter]
    apply List.filter_congr
    intro q _
    by_cases same : q = p <;> simp [same, Bool.and_comm]
  have member : p ∈ h.owed ended key ↔ post.key = key ∧ post.opening = h.openings key := by
    rw [mem_owed, current_eq found, decide_eq_true_eq]
    exact ⟨fun owes => owes.1, fun owes => ⟨owes, fresh⟩⟩
  have distinct : (h.owed ended key).Nodup := List.nodup_range.filter _
  rw [less, ← length_filter_ne distinct p]
  simp only [member]

theorem strays_ended (found : h.posts[p]? = some post) (ended : List Ended) (key : ChannelKey) :
    h.strays (ended ++ [⟨p, h.openings post.key⟩]) key = h.strays ended key +
      if post.key = key ∧ post.opening < h.openings key then 1 else 0 := by
  unfold strays
  rw [List.countP_append, List.countP_singleton]
  by_cases here : post.key = key <;> simp [found, here]

/-- On each open channel, the arbiter waits for no more events than are owed, as long as no
acknowledgement has failed; and for no less, except that strays have answered some. -/
structure Tallied (h : History) (ended : List Ended) (unfailing : Prop) : Prop where
  due : unfailing → ∀ key, h.channels.isOpen key = true →
    h.channels.outstanding key ≤ (h.owed ended key).length
  owed : ∀ key, h.channels.isOpen key = true →
    (h.owed ended key).length ≤ h.channels.outstanding key + h.strays ended key
  known : ∀ x ∈ ended, x.event < h.posts.length

variable {unfailing : Prop}

theorem Tallied.of_imp (tallied : h.Tallied ended unfailing) {unfailing' : Prop}
    (still : unfailing' → unfailing) : h.Tallied ended unfailing' :=
  ⟨fun now => tallied.due (still now), tallied.owed, tallied.known⟩

/-- What a call that does not acknowledge adds to what is owed, it adds to what is outstanding. An
open of a closed channel makes both anew. -/
theorem tally_after (faithful : h.Faithful) (known : ∀ x ∈ ended, x.event < h.posts.length)
    {call : MemoryCall} (silent : ∀ k handle, call ≠ .sendAck k handle)
    (opened : (h.after call).channels.isOpen key = true) :
    (h.after call).owed ended key = [] ∧ (h.after call).channels.outstanding key = 0 ∨
    h.channels.isOpen key = true ∧ ∃ more,
      ((h.after call).owed ended key).length = (h.owed ended key).length + more ∧
      (h.after call).channels.outstanding key = h.channels.outstanding key + more ∧
      (h.after call).strays ended key = h.strays ended key := by
  rw [channels_after] at opened ⊢
  have same (before : h.channels.isOpen key = true) (posts : (h.after call).posts = h.posts)
      (openings : (h.after call).openings key = h.openings key)
      (outstanding : (h.channels.after call).outstanding key = h.channels.outstanding key) :
      h.channels.isOpen key = true ∧ ∃ more,
        ((h.after call).owed ended key).length = (h.owed ended key).length + more ∧
        (h.channels.after call).outstanding key = h.channels.outstanding key + more ∧
        (h.after call).strays ended key = h.strays ended key :=
    ⟨before, 0, by rw [owed_of_same posts openings]; rfl, outstanding,
      strays_of_same (fun x _ => by rw [posts]) openings⟩
  cases call with
  | sendAck k handle => exact absurd rfl (silent k handle)
  | openChannel k =>
    cases before : h.channels.isOpen key with
    | true =>
      exact .inr (before ▸ same before rfl (openings_after before _)
        (MemoryChannels.outstanding_openChannel ..))
    | false =>
      -- The channel is new, and all events so far are from earlier openings.
      obtain rfl := MemoryCall.openChannel.inj (MemoryChannels.opens_of_after before opened)
      have now := openings_opened before
      left
      constructor
      · apply List.filter_eq_nil_iff.mpr
        intro p _ counted
        rw [Bool.and_eq_true] at counted
        obtain ⟨post, found, rfl, newer⟩ := current_iff.mp counted.1
        have older := faithful.posts post (List.mem_of_getElem? found)
        rw [now] at newer
        omega
      · rw [MemoryChannels.after, MemoryChannels.outstanding_openChannel]
        simp only [MemoryChannels.isOpen, ChannelMap.contains, Option.isSome_eq_false_iff,
          Option.isNone_iff_eq_none] at before
        simp [MemoryChannels.outstanding, before]
  | closeChannel k =>
    exact .inr (same (MemoryChannels.isOpen_of_closeChannel opened) rfl rfl
      (MemoryChannels.outstanding_closeChannel opened))
  | push k e =>
    have before : h.channels.isOpen key = true :=
      MemoryChannels.isOpen_of_after (by simp) opened
    cases carried : h.channels.isOpen k with
    | false =>
      refine .inr (same before (by simp [after, carried]) rfl ?_)
      rw [MemoryChannels.after_push_of_closed carried]
    | true =>
      have posts : (h.after (.push k e)).posts = h.posts ++ [⟨k, e, h.openings k⟩] := by
        simp [after, carried]
      refine .inr ⟨before, if key = k then 1 else 0, ?_, MemoryChannels.outstanding_push carried e,
        strays_of_same (fun x member => ?_) rfl⟩
      · have fresh : h.posts.length ∉ ended.map (·.event) := by
          intro member
          obtain ⟨x, within, same⟩ := List.mem_map.mp member
          have inside := known x within
          omega
        have earlier : ∀ p ∈ List.range h.posts.length,
            (h.after (.push k e)).current key p = h.current key p := by
          intro p member
          rw [current, posts, List.getElem?_append_left (List.mem_range.mp member)]
          rfl
        have latest : (h.after (.push k e)).current key h.posts.length = decide (key = k) := by
          have found : (h.after (.push k e)).posts[h.posts.length]? =
              some ⟨k, e, h.openings k⟩ := by simp [posts]
          rw [current_eq found]
          by_cases here : key = k
          · subst here
            simp [after]
          · simp [here, Ne.symm here]
        have grown : (h.after (.push k e)).owed ended key = h.owed ended key ++
            if key = k then [h.posts.length] else [] := by
          unfold owed
          rw [posts, List.length_append, List.length_singleton, List.range_succ,
            List.filter_append]
          congr 1
          · apply List.filter_congr
            intro p member
            rw [earlier p member]
          · simp only [List.filter_cons, List.filter_nil, latest, fresh]
            by_cases here : key = k <;> simp [here]
        rw [grown, List.length_append]
        by_cases here : key = k <;> simp [here]
      · rw [posts, List.getElem?_append_left (known x member)]
  | wake => exact .inr (same opened rfl rfl rfl)
  | nextEvent =>
    refine .inr (same (MemoryChannels.isOpen_of_after (by simp) opened) rfl rfl ?_)
    simp only [MemoryChannels.after, MemoryChannels.nextEvent]
    split <;> rfl
  | receiveAck =>
    refine .inr (same (MemoryChannels.isOpen_of_after (by simp) opened) rfl rfl ?_)
    simp only [MemoryChannels.after, MemoryChannels.receiveAck]
    split <;> rfl

theorem Tallied.after (tallied : h.Tallied ended unfailing) (faithful : h.Faithful)
    {call : MemoryCall} (silent : ∀ k handle, call ≠ .sendAck k handle) :
    (h.after call).Tallied ended unfailing where
  due now key opened := by
    rcases tally_after faithful tallied.known silent opened with
      ⟨-, none_⟩ | ⟨before, more, owes, outstanding, -⟩
    · rw [none_]
      exact Nat.zero_le _
    · have due := tallied.due now key before
      omega
  owed key opened := by
    rcases tally_after faithful tallied.known silent opened with
      ⟨none_, -⟩ | ⟨before, more, owes, outstanding, strays⟩
    · rw [none_]
      exact Nat.zero_le _
    · have owed := tallied.owed key before
      omega
  known x member := by
    have found := List.getElem?_eq_getElem (tallied.known x member)
    exact (List.getElem?_eq_some_iff.mp (posts_after found call)).1

theorem Tallied.run (tallied : h.Tallied ended unfailing) (faithful : h.Faithful)
    {calls : List MemoryCall} (silent : ∀ k handle, .sendAck k handle ∉ calls) :
    (h.run calls).Tallied ended unfailing := by
  induction calls generalizing h with
  | nil => exact tallied
  | cons call calls ih =>
    apply ih (tallied.after faithful fun k handle same => ?_) (faithful.after call)
    · intro k handle member
      exact silent k handle (List.mem_cons_of_mem _ member)
    · exact silent k handle (same ▸ List.mem_cons_self)

/-- An acknowledgement answers the event whose delivery has ended, or, if that is from an earlier
opening, another one. -/
theorem Tallied.ack (tallied : h.Tallied ended unfailing) (faithful : h.Faithful)
    (found : h.posts[p]? = some post) (fresh : p ∉ ended.map (·.event)) {a : Action}
    {handle : Int32} (ack : a.ack? = some (post.key, handle)) :
    (h.run (Action.calls [a])).Tallied (ended ++ [⟨p, h.openings post.key⟩])
      (unfailing ∧ ∀ key handle, a ≠ .ackFailed key handle) := by
  obtain ⟨posts, openings, -⟩ := Chronicle.run_ack ack h
  have older := faithful.posts post (List.mem_of_getElem? found)
  have owes (key : ChannelKey) := length_owed_ended found fresh (h.openings post.key) key
  have stray (key : ChannelKey) := strays_ended found ended key
  have same (key : ChannelKey) :
      (h.run (Action.calls [a])).owed (ended ++ [⟨p, h.openings post.key⟩]) key =
        h.owed (ended ++ [⟨p, h.openings post.key⟩]) key :=
    owed_of_same posts (congrFun openings key)
  have same' (key : ChannelKey) :
      (h.run (Action.calls [a])).strays (ended ++ [⟨p, h.openings post.key⟩]) key =
        h.strays (ended ++ [⟨p, h.openings post.key⟩]) key :=
    strays_of_same (fun x _ => by rw [posts]) (congrFun openings key)
  have answered (key : ChannelKey) :
      ((h.run (Action.calls [a])).channels.isOpen key = true → h.channels.isOpen key = true) ∧
      (h.channels.outstanding key ≤ (h.run (Action.calls [a])).channels.outstanding key +
        if post.key = key then 1 else 0) ∧
      ((∀ key handle, a ≠ .ackFailed key handle) →
        (h.run (Action.calls [a])).channels.outstanding key =
          h.channels.outstanding key - if post.key = key then 1 else 0) := by
    cases a with
    | acked k handle' =>
      obtain ⟨rfl, rfl⟩ := Prod.mk.inj (Option.some.inj ack)
      have sent : (h.run (Action.calls [.acked post.key handle'])).channels =
          h.channels.sendAck post.key handle' := rfl
      have less := h.channels.outstanding_sendAck post.key key handle'
      rw [sent, MemoryChannels.isOpen_sendAck, less]
      refine ⟨id, ?_, fun _ => ?_⟩
      · by_cases here : key = post.key
        · rw [if_pos here, if_pos here.symm]
          omega
        · rw [if_neg here]
          omega
      · simp only [eq_comm]
    | ackFailed k handle' =>
      exact ⟨id, Nat.le_add_right _ _, fun sent => absurd rfl (sent k handle')⟩
    | _ => contradiction
  refine ⟨fun now key opened => ?_, fun key opened => ?_, fun x member => ?_⟩
  · obtain ⟨before, -, less⟩ := answered key
    have due := tallied.due now.1 key (before opened)
    have owes := owes key
    rw [same, less now.2]
    by_cases here : post.key = key
    · simp only [here, true_and, if_true] at *
      split at owes <;> omega
    · simp only [here, false_and, if_false] at *
      omega
  · obtain ⟨before, most, -⟩ := answered key
    have owed := tallied.owed key (before opened)
    have owes := owes key
    have stray := stray key
    rw [same, same']
    by_cases here : post.key = key
    · subst here
      rcases Nat.lt_or_eq_of_le older with earlier | now
      · simp only [earlier, true_and, if_true, Nat.ne_of_lt earlier, and_false, if_false] at *
        omega
      · simp only [now, true_and, if_true, Nat.lt_irrefl, if_false] at *
        omega
    · simp only [here, false_and, if_false] at *
      omega
  · rw [posts]
    rcases List.mem_append.mp member with before | now
    · exact tallied.known x before
    · obtain rfl := List.mem_singleton.mp now
      exact (List.getElem?_eq_some_iff.mp found).1

end History

/-- An acknowledgement that could not be sent. -/
def Entry.failed : Entry → Bool
  | action (.ackFailed _ _) => true
  | _ => false

namespace Chronicle

variable {k : Nesting} {c d : Chronicle} {key : ChannelKey} {p : Nat}

/-- The events sent on a channel since it was last opened whose delivery has not ended. -/
def owed (c : Chronicle) (key : ChannelKey) : List Nat := c.history.owed c.ended key

/-- No acknowledgement has failed. -/
def Unfailing (c : Chronicle) : Prop := ∀ entry ∈ c.log, entry.failed = false

instance (c : Chronicle) : Decidable c.Unfailing :=
  inferInstanceAs (Decidable (∀ entry ∈ c.log, entry.failed = false))

theorem Unfailing.of_log {more : List Entry} (log : d.log = c.log ++ more)
    (never : d.Unfailing) : c.Unfailing ∧ ∀ entry ∈ more, entry.failed = false := by
  rw [Unfailing, log, List.forall_mem_append] at never
  exact never

theorem Tidy.fresh_hand (tidy : c.Tidy) {x : Errand} {post : Post} (inHand : c.InHand x p post) :
    p ∉ c.numbers := by
  have fresh := tidy.hand (by simp [inHand.errand])
  rwa [inHand.last] at fresh

theorem Tidy.fresh_inside (tidy : c.Tidy) {x : Dispatch} {rest : List Dispatch}
    (inside : c.inside = x :: rest) : x.event ∉ c.ended.map (·.event) := by
  have distinct := tidy.distinct
  rw [numbers, inside, List.map_cons, List.cons_append, List.nodup_cons] at distinct
  intro member
  exact distinct.1 (List.mem_append_right _ member)

theorem tallied_of_advanced (faithful : c.Faithful) (tidy : c.Tidy)
    (tallied : c.history.Tallied c.ended c.Unfailing) (advanced : c.Advanced d) :
    d.history.Tallied d.ended d.Unfailing := by
  cases advanced with
  | aside _ ended log history silent =>
    rw [ended, history]
    exact (tallied.run faithful.history silent).of_imp fun never => (Unfailing.of_log log never).1
  | passed _ ended log history | took _ _ _ _ _ ended log history =>
    rw [ended, history]
    refine (tallied.after faithful.history (by simp)).of_imp fun never => ?_
    rwa [Unfailing, log] at never
  | began _ _ _ _ ended log history =>
    rw [ended, history]
    exact tallied.of_imp fun never => (Unfailing.of_log log never).1
  | dropped _ _ _ ended log history =>
    rw [ended, history]
    refine tallied.of_imp fun never => ?_
    rwa [Unfailing, log] at never
  | skipped inHand _ _ _ ended log history ack =>
    have fresh := fun member => tidy.fresh_hand inHand (List.mem_append_right _ member)
    rw [ended, history]
    apply (tallied.ack faithful.history inHand.found fresh ack).of_imp
    intro never
    obtain ⟨before, sent⟩ := Unfailing.of_log log never
    refine ⟨before, ?_⟩
    rintro key handle rfl
    cases sent _ List.mem_cons_self
  | returned found inside ended log history ack =>
    rw [ended, history]
    apply (tallied.ack faithful.history found (tidy.fresh_inside inside) ack).of_imp
    intro never
    obtain ⟨before, sent⟩ := Unfailing.of_log log never
    refine ⟨before, ?_⟩
    rintro key handle rfl
    cases sent _ List.mem_cons_self

theorem tallied_of_reach (reach : c.Reach k (.memory {})) :
    c.history.Tallied c.ended c.Unfailing := by
  refine reach.induct (P := fun c => c.history.Tallied c.ended c.Unfailing) (fun client _ _ => ?_)
    fun c m d reach tallied _ moved =>
      tallied_of_advanced (faithful_of_reach reach) (tidy_of_reach reach) tallied
        (advanced_of_step reach moved)
  exact ⟨fun _ key opened => by contradiction, fun key opened => by contradiction, by simp⟩

/-- On a run to here, this move was made when the client was as given. -/
structure Since (c : Chronicle) (k : Nesting) (m : Move) (v w : Chronicle) : Prop where
  reach : v.Reach k (.memory {})
  allowed : k.Allows v.session m
  moved : v.step m = some w
  runs : Runs k w c

/-- An event got lost: nobody had the handle that it names when the loop took it, or the callback
that the loop had it in hand for was not there any more when the loop went on. -/
inductive Astray (c : Chronicle) (k : Nesting) (p : Nat) : Prop
  | unknown {v w : Chronicle} {post : Post} (taken : c.Since k .take v w)
      (turn : v.history.Turn p) (past : w.history.taken = p + 1)
      (found : v.history.posts[p]? = some post)
      (unknown : ∀ slot reg n, ¬ v.session.Addressed post.key post.event slot reg n)
  | dropped {v w : Chronicle} {x : Errand} {post : Post} (entered : c.Since k .enter v w)
      (inHand : v.InHand x p post) (unbound : ∀ n, ¬ v.session.Binds x n)

theorem Since.step {m m' : Move} {v w : Chronicle} (since : c.Since k m v w)
    (allowed : k.Allows c.session m') (moved : c.step m' = some d) : d.Since k m v w :=
  ⟨since.reach, since.allowed, since.moved, since.runs.step m' allowed moved⟩

theorem Since.later {m : Move} {v w : Chronicle} (since : c.Since k m v w) : Runs k v c :=
  .trans (.step m .refl since.allowed since.moved) since.runs

/-- What a step does to the events that were delivered or are being delivered: the loop gets done
with none, or passes one over, or gives one away. -/
inductive Settled (c d : Chronicle) : Prop
  | none (numbers : d.numbers.Perm c.numbers) (same : d.handled = c.handled)
  | unknown (numbers : d.numbers.Perm c.numbers) (next : d.handled = c.handled + 1)
      (turn : c.history.Turn c.handled) (taken : d.history.taken = c.handled + 1)
      (astray : ∀ key e slot reg n, c.history.channels.nextEvent.1 = some (key, e) →
        ¬ c.session.Addressed key e slot reg n)
  | dropped {x : Errand} {post : Post} (numbers : d.numbers.Perm c.numbers)
      (next : d.handled = c.handled + 1) (inHand : c.InHand x c.handled post)
      (unbound : ∀ n, ¬ c.session.Binds x n) (done : d.session.errand = Option.none)
  | delivered {x : Errand} {post : Post} {n : Nat}
      (numbers : d.numbers.Perm (c.handled :: c.numbers))
      (next : d.handled = c.handled + 1) (inHand : c.InHand x c.handled post)
      (bound : c.session.Binds x n)

theorem Advanced.settled (advanced : c.Advanced d) : c.Settled d := by
  cases advanced with
  | aside inside ended _ history _ untaken errand =>
    exact .none (by rw [numbers, numbers, inside, ended])
      (handled_of_same errand (taken_of_untaken history untaken))
  | passed inside ended _ history astray idle errand =>
    have same : d.numbers.Perm c.numbers := by rw [numbers, numbers, inside, ended]
    cases head : c.history.channels.turn?.isSome with
    | true =>
      have taken : d.history.taken = c.history.taken + 1 := by simp [history, History.after, head]
      rw [← handled_of_free idle] at taken
      exact .unknown same (by rw [handled_of_free errand, taken])
        ⟨(handled_of_free idle).symm, head⟩ taken astray
    | false =>
      refine .none same ?_
      rw [handled_of_free errand, handled_of_free idle, history]
      simp [History.after, head]
  | took idle _ _ errand inside ended _ _ turn =>
    refine .none (by rw [numbers, numbers, inside, ended]) ?_
    rw [handled_of_free idle, handled, errand, last, turn]
    rfl
  | began inHand bound _ inside ended _ history errand =>
    obtain rfl := inHand.handled
    exact .delivered (by rw [numbers, numbers, inside, ended]; exact .refl _)
      (inHand.handled_of_done (by rw [history]) errand) inHand bound
  | skipped inHand bound _ inside ended _ history ack errand =>
    obtain rfl := inHand.handled
    refine .delivered ?_ (inHand.handled_of_done (taken_of_ack history ack) errand)
      inHand bound
    rw [numbers, inside, ended, List.map_append, ← List.append_assoc]
    exact List.perm_append_singleton _ _
  | dropped inHand unbound inside ended _ history errand =>
    obtain rfl := inHand.handled
    exact .dropped (by rw [numbers, numbers, inside, ended])
      (inHand.handled_of_done (by rw [history]) errand) inHand unbound errand
  | returned _ inside ended _ history ack errand =>
    refine .none ?_ (handled_of_same errand (taken_of_ack history ack))
    rw [numbers, numbers, inside, ended, List.map_append, ← List.append_assoc, List.map_cons]
    exact List.perm_append_singleton _ _

theorem Settled.numbers_subset (settled : c.Settled d) {q : Nat} (member : q ∈ c.numbers) :
    q ∈ d.numbers := by
  cases settled with
  | none same | unknown same | dropped same => exact same.mem_iff.mpr member
  | delivered more => exact more.mem_iff.mpr (List.mem_cons_of_mem _ member)

/-- Only a loop that waits for an event takes one. -/
theorem take_of_taken {m : Move} (moved : c.step m = some d)
    (taken : d.history.taken ≠ c.history.taken) : m = .take := by
  refine Classical.byContradiction fun other => taken ?_
  obtain ⟨t, -, rfl, -⟩ := step_eq_some moved
  rw [history_after, History.taken_run_of_untaken (c.session.untaken_of_other other)]

theorem enter_of_done {m : Move} {x : Errand} (moved : c.step m = some d)
    (inHand : c.session.errand = some x) (done : d.session.errand = none) : m = .enter := by
  rcases (Session.step_happened (session_step moved)).errand_kept inHand with same | entered
  · cases done.symm.trans same
  · exact entered

theorem history_runs (runs : Runs k c d) : ∃ calls, d.history = c.history.run calls := by
  induction runs with
  | refl => exact ⟨[], rfl⟩
  | step m _ _ moved ih =>
    obtain ⟨calls, history⟩ := ih
    obtain ⟨t, -, rfl, -⟩ := step_eq_some moved
    rw [history_after, history, ← History.run_append]
    exact ⟨_, rfl⟩

/-- An event that the loop has done with and that is not delivered was passed over: its channel was
closed when the loop took it, or nobody had the handle, or nobody had it any more. -/
theorem passed_over (reach : c.Reach k (.memory {})) (past : p < c.handled)
    (undelivered : p ∉ c.numbers) :
    (∃ v w, c.Since k .take v w ∧ v.history.Turn p ∧ w.history.taken = p + 1 ∧
      ∀ key e slot reg n, v.history.channels.nextEvent.1 = some (key, e) →
        ¬ v.session.Addressed key e slot reg n) ∨ c.Astray k p := by
  refine reach.induct (P := fun c => p < c.handled → p ∉ c.numbers →
    (∃ v w, c.Since k .take v w ∧ v.history.Turn p ∧ w.history.taken = p + 1 ∧
      ∀ key e slot reg n, v.history.channels.nextEvent.1 = some (key, e) →
        ¬ v.session.Addressed key e slot reg n) ∨ c.Astray k p)
    (fun _ _ _ past _ => absurd past (Nat.not_lt_zero p)) ?_ past undelivered
  intro c m d reach earlier allowed moved past undelivered
  have settled := (advanced_of_step reach moved).settled
  by_cases before : p < c.handled
  · have never : p ∉ c.numbers := fun member => undelivered (settled.numbers_subset member)
    rcases earlier before never with ⟨v, w, since, rest⟩ | astray
    · exact .inl ⟨v, w, since.step allowed moved, rest⟩
    · cases astray with
      | unknown taken turn past found unknown =>
        exact .inr (.unknown (taken.step allowed moved) turn past found unknown)
      | dropped entered inHand unbound =>
        exact .inr (.dropped (entered.step allowed moved) inHand unbound)
  · -- The loop gets done with the event now.
    cases settled with
    | none _ same => omega
    | unknown _ next turn taken astray =>
      obtain rfl : p = c.handled := by omega
      have moves : d.history.taken ≠ c.history.taken := by
        have now := turn.1
        omega
      obtain rfl := take_of_taken moved moves
      exact .inl ⟨c, d, ⟨reach, allowed, moved, .refl⟩, turn, taken, astray⟩
    | dropped _ next inHand unbound done =>
      obtain rfl : p = c.handled := by omega
      obtain rfl := enter_of_done moved inHand.errand done
      exact .inr (.dropped ⟨reach, allowed, moved, .refl⟩ inHand unbound)
    | delivered more next =>
      obtain rfl : p = c.handled := by omega
      exact absurd (more.mem_iff.mpr List.mem_cons_self) undelivered

/-- An event that the loop has done with is not delivered later. -/
theorem undelivered_of_runs (reach : c.Reach k (.memory {})) (runs : Runs k c d)
    (past : p < c.handled) (undelivered : p ∉ c.numbers) : p ∉ d.numbers := by
  refine (runs.keeps (P := fun c => p < c.handled ∧ p ∉ c.numbers) reach
    ⟨past, undelivered⟩ ?_).2
  rintro c m d reach ⟨past, undelivered⟩ _ moved
  have advanced := advanced_of_step reach moved
  refine ⟨Nat.lt_of_lt_of_le past advanced.handled_le, fun member => ?_⟩
  cases advanced.settled with
  | none same | unknown same | dropped same => exact undelivered (same.mem_iff.mp member)
  | delivered more =>
    rcases List.mem_cons.mp (more.mem_iff.mp member) with rfl | before
    · exact Nat.lt_irrefl _ past
    · exact undelivered before

/-- The loop gets done at once with an event that nobody has the handle of. -/
theorem handled_of_unknown {v w : Chronicle} {post : Post} (reach : v.Reach k (.memory {}))
    (moved : v.step .take = some w) (turn : v.history.Turn p) (past : w.history.taken = p + 1)
    (found : v.history.posts[p]? = some post)
    (unknown : ∀ slot reg n, ¬ v.session.Addressed post.key post.event slot reg n) :
    w.handled = p + 1 ∧ w.numbers.Perm v.numbers := by
  have advanced := advanced_of_step reach moved
  have now := turn.1
  have idle := Session.idle_of_take (session_step moved)
  cases advanced with
  | aside _ _ _ history _ untaken =>
    rw [taken_of_untaken history untaken] at past
    omega
  | passed inside ended _ _ _ _ errand =>
    exact ⟨by rw [handled_of_free errand, past], by rw [numbers, numbers, inside, ended]⟩
  | took _ here addressed =>
    rw [now] at here
    obtain rfl := Option.some.inj (here.symm.trans found)
    exact absurd addressed (unknown _ _ _)
  | began inHand | skipped inHand | dropped inHand => cases idle.symm.trans inHand.errand
  | returned _ _ _ _ history ack =>
    rw [taken_of_ack history ack] at past
    omega

/-- The loop gets done with what it has in hand for a callback that is not there any more. -/
theorem handled_of_unbound {v w : Chronicle} {x : Errand} {post : Post}
    (reach : v.Reach k (.memory {})) (moved : v.step .enter = some w) (inHand : v.InHand x p post)
    (unbound : ∀ n, ¬ v.session.Binds x n) : w.handled = p + 1 ∧ w.numbers.Perm v.numbers := by
  have advanced := advanced_of_step reach moved
  have holds := inHand.errand
  obtain ⟨y, -, -, entered⟩ := Session.handled_of_step reach.session (session_step moved)
  have done := entered.frames.2.1
  cases advanced with
  | aside _ _ _ _ _ _ errand | returned _ _ _ _ _ _ errand =>
    cases done.symm.trans (errand.trans holds)
  | passed _ _ _ _ _ idle | took idle => cases idle.symm.trans holds
  | began inHand' bound | skipped inHand' bound =>
    obtain rfl := Option.some.inj (inHand'.errand.symm.trans holds)
    exact absurd bound (unbound _)
  | dropped _ _ inside ended _ history =>
    exact ⟨inHand.handled_of_done (by rw [history]) done, by rw [numbers, numbers, inside, ended]⟩

theorem undelivered_of_astray (astray : c.Astray k p) : p ∉ c.numbers := by
  have later {m : Move} {v w : Chronicle} (since : c.Since k m v w) (before : p ∉ v.numbers)
      (done : w.handled = p + 1 ∧ w.numbers.Perm v.numbers) : p ∉ c.numbers :=
    undelivered_of_runs (since.reach.step since.allowed since.moved) since.runs (by omega)
      fun member => before (done.2.mem_iff.mp member)
  cases astray with
  | unknown since turn past found unknown =>
    refine later since (fun member => ?_)
      (handled_of_unknown since.reach since.moved turn past found unknown)
    have earlier := (tidy_of_reach since.reach).taken p member
    have now := turn.1
    omega
  | dropped since inHand unbound =>
    exact later since ((tidy_of_reach since.reach).fresh_hand inHand)
      (handled_of_unbound since.reach since.moved inHand unbound)

/-- While a channel stays open, only what nobody has the handle of is passed over on it. -/
theorem astray_iff (reach : c.Reach k (.memory {})) (past : p < c.handled)
    (opened : c.history.channels.isOpen key = true) (sent : c.history.current key p = true) :
    c.Astray k p ↔ p ∉ c.numbers := by
  constructor
  · exact undelivered_of_astray
  · intro undelivered
    rcases passed_over reach past undelivered with ⟨v, w, since, turn, taken, unknown⟩ | astray
    · obtain ⟨post, found, rfl, current⟩ := History.current_iff.mp sent
      obtain ⟨calls, history⟩ := history_runs since.later
      have faithful := faithful_of_reach since.reach
      have inside : p < v.history.posts.length := by
        obtain ⟨post', there, -⟩ := faithful.history.post_of_turn
          (Option.some_get turn.2).symm
        rw [turn.1] at there
        exact (List.getElem?_eq_some_iff.mp there).1
      obtain rfl : post = v.history.posts[p] := by
        have still := posts_runs (List.getElem?_eq_getElem inside) since.later
        exact Option.some.inj (found.symm.trans still)
      have before := List.getElem?_eq_getElem inside
      have older := faithful.history.posts _ (List.mem_of_getElem? before)
      -- The channel was open then, or it would have been opened again since.
      have opened' : v.history.channels.isOpen v.history.posts[p].key = true := by
        cases closed : v.history.channels.isOpen v.history.posts[p].key with
        | true => rfl
        | false =>
          rw [history] at opened current
          have newer := History.openings_lt_run closed older opened
          omega
      refine .unknown since turn taken before fun slot reg n => unknown _ _ _ _ _ ?_
      rw [MemoryChannels.nextEvent_eq, faithful.history.letter_of_turn before turn]
      simp [Option.filter, Post.letter, opened']
    · exact astray

/-- Events that are not acknowledged on an open channel. -/
def outstanding (c : Chronicle) (key : ChannelKey) : Nat :=
  ((c.session.client.channels.counts? key).map Prod.snd).getD 0

/-- Once the queue is empty, no callback runs and the loop has nothing in hand, the arbiter still
waits on an open channel for those events at most that got lost; and for all of these, except as
many as were answered by acknowledgements of events from before the channel was opened. In
particular it waits for none where nobody lost the handle before the loop had got the guard. -/
theorem outstanding_of_quiet (reach : c.Reach k (.memory {})) (unfailing : c.Unfailing)
    (empty : c.session.client.channels.pending = false)
    (idle : ∀ f ∈ c.session.frames, f.isCallback = false) (free : c.session.errand = none)
    (opened : c.session.client.channels.isOpen key = true) :
    (∀ p, p ∈ c.owed key ↔ c.history.current key p = true ∧ c.Astray k p) ∧
      c.outstanding key ≤ (c.owed key).length ∧
      (c.owed key).length ≤ c.outstanding key + c.straysSince key ∧
      ((∀ p, c.history.current key p = true → ¬ c.Astray k p) → c.outstanding key = 0) := by
  have faithful := faithful_of_reach reach
  have tallied := tallied_of_reach reach
  have all := taken_of_empty faithful empty
  rw [← handled_of_free free] at all
  have counts : c.outstanding key = c.history.channels.outstanding key := by
    rw [outstanding, faithful.memory, MemoryChannels.outstanding_eq_counts]
  rw [faithful.memory] at opened
  change c.history.channels.isOpen key = true at opened
  have inside : c.inside = [] := by
    have letters : c.session.frames.filterMap Frame.letter? = [] := by
      apply List.filterMap_eq_nil_iff.mpr
      intro f member
      have other := idle f member
      cases f with
      | callback => contradiction
      | _ => rfl
    have even := faithful.inside
    rw [letters] at even
    exact List.map_eq_nil_iff.mp even
  have owed (p : Nat) : p ∈ c.owed key ↔ c.history.current key p = true ∧ c.Astray k p := by
    rw [Chronicle.owed, History.mem_owed]
    refine and_congr_right fun sent => ?_
    obtain ⟨post, found, -⟩ := History.current_iff.mp sent
    have known := (List.getElem?_eq_some_iff.mp found).1
    rw [astray_iff reach (by omega) opened sent, numbers, inside]
    rfl
  have due : c.outstanding key ≤ (c.owed key).length := by
    rw [counts]
    exact tallied.due unfailing key opened
  refine ⟨owed, due, ?_, fun found => ?_⟩
  · rw [counts]
    exact tallied.owed key opened
  · have none_ : c.owed key = [] := by
      apply List.eq_nil_iff_forall_not_mem.mpr
      intro p member
      obtain ⟨sent, astray⟩ := (owed p).mp member
      exact found p sent astray
    rw [none_] at due
    exact Nat.le_zero.mp due

/-- Of two watches one is unset while an event for each waits in the queue. -/
theorem outstanding_of_quiet_of_unset_watch :
    let key : ChannelKey := .watch 7
    let e (id : Int32) : Event := ⟨7, id, .playback, .acquired, "", "", ""⟩
    let c := played .none 2 [.call (.watch 0 .both false 0), .reply (.ok .done),
      .call (.watch 0 .both false 1), .reply (.ok .done), .push key (e 1), .push key (e 2),
      .call (.unwatch 1), .reply (.ok .done), .take, .take, .enter, .returns]
    c.Reach .none (.memory {}) ∧ c.Unfailing ∧ c.session.client.channels.pending = false ∧
      (∀ f ∈ c.session.frames, f.isCallback = false) ∧ c.session.errand = none ∧
      c.session.client.channels.isOpen key = true ∧ c.owed key = [0] ∧ c.Astray .none 0 ∧
      c.outstanding key = 1 ∧ (c.owed key).length ≤ c.outstanding key + c.straysSince key := by
  intro key e c
  have reach : c.Reach .none (.memory {}) := reach_played (by decide) (by decide +kernel)
  have unfailing : c.Unfailing := by decide +kernel
  have empty : c.session.client.channels.pending = false := by decide +kernel
  have idle : ∀ f ∈ c.session.frames, f.isCallback = false := by decide +kernel
  have free : c.session.errand = none := Option.isNone_iff_eq_none.mp (by decide +kernel)
  have opened : c.session.client.channels.isOpen key = true := by decide +kernel
  have owed : c.owed key = [0] := by decide +kernel
  obtain ⟨astray, -, most, -⟩ := outstanding_of_quiet reach unfailing empty idle free opened
  exact ⟨reach, unfailing, empty, idle, free, opened, owed, ((astray 0).mp (by simp [owed])).2,
    by decide +kernel, most⟩

/-- An event for a watch that was live when it was sent, and is unset before the event's turn: the
queue is empty, no callback runs, and the arbiter waits on the channel, which another watch keeps
open. -/
theorem outstanding_after_unset :
    let key : ChannelKey := .watch 7
    let e : Event := ⟨7, 1, .playback, .acquired, "", "", ""⟩
    let before : List Move := [.call (.watch 0 .both false 0), .reply (.ok .done),
      .call (.watch 0 .both false 1), .reply (.ok .done)]
    let after : List Move := [.push key e, .call (.unwatch 1), .reply (.ok .done), .take]
    let s := played .none 2 before
    let c := played .none 2 (before ++ after)
    c.Reach .none (.memory {}) ∧ Runs .none s c ∧
      (∃ reg, s.session.client.registry.registration? 0 = some reg ∧ reg.id = e.handle ∧
        reg.channel = key) ∧
      c.history.posts.map Post.letter = [(key, e)] ∧ c.Unfailing ∧
      c.session.client.channels.pending = false ∧ c.session.frames = [] ∧
      c.session.errand = none ∧ c.session.client.channels.isOpen key = true ∧
      c.outstanding key = 1 := by
  intro key e before after s c
  exact ⟨reach_played (by decide) (by decide +kernel), runs_played (by decide +kernel),
    ⟨.ofWatch 7 .both false 0, by decide +kernel, rfl, rfl⟩, by decide +kernel, by decide +kernel,
    by decide +kernel, List.length_eq_zero_iff.mp (by decide +kernel),
    Option.isNone_iff_eq_none.mp (by decide +kernel), by decide +kernel, by decide +kernel⟩

end Chronicle
end AudioFocus
