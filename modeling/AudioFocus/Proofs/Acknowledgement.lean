import AudioFocus.Proofs.Advances

/-!
How far acknowledgements can run ahead of deliveries. On an open channel the arbiter has never more
acknowledgements since it was opened than deliveries have ended since; but an acknowledgement goes
by the name of the channel. One for an event that was sent before the channel was closed and opened
again counts for an event of the new opening, which may be undelivered still.
-/
namespace AudioFocus

theorem MemoryChannels.acks_sendAck (m : MemoryChannels) (key : ChannelKey) (handle : Int32) :
    (m.sendAck key handle).acks = m.acks ∨
      (m.sendAck key handle).acks = m.acks ++ [(key, handle)] := by
  unfold sendAck
  split
  · exact .inl rfl
  · split
    · exact .inr rfl
    · exact .inl rfl

/-- Only the close that closes a channel acknowledges. -/
theorem MemoryChannels.acks_closeChannel (m : MemoryChannels) (key : ChannelKey) :
    (m.closeChannel key).acks = m.acks ∨ (m.closeChannel key).isOpen key = false ∧
      (m.closeChannel key).acks = m.acks ++ [(key, key.finalAck)] := by
  unfold closeChannel
  split
  · exact .inl rfl
  · split
    · exact .inl rfl
    · dsimp only
      split
      · exact .inr ⟨by simp [isOpen, wake, ChannelMap.contains], rfl⟩
      · exact .inl rfl

theorem countP_le_add {α : Type} {p q r : α → Bool}
    (covers : ∀ a, p a = true → q a = true ∨ r a = true) (l : List α) :
    l.countP p ≤ l.countP q + l.countP r := by
  induction l with
  | nil => simp
  | cons a l ih =>
    have here : (if p a then 1 else 0) ≤ (if q a then 1 else 0) + if r a then 1 else 0 := by
      cases counted : p a with
      | false => simp
      | true => rcases covers a counted with also | also <;> simp [also]
    simp only [List.countP_cons]
    omega

namespace History

variable {h : History} {key : ChannelKey}

/-- The acknowledgements that the arbiter was sent on a channel since that was last opened. -/
def acksSince (h : History) (key : ChannelKey) : Nat :=
  h.acks.countP fun a => a.1 = key ∧ a.2 = h.openings key

/-- Deliveries of events of a channel that ended during one of its openings. -/
def endedIn (h : History) (ended : List Ended) (key : ChannelKey) (opening : Nat) : Nat :=
  ended.countP fun x => x.opening = opening && (h.posts[x.event]?).any (·.key = key)

theorem acks_sendAck (h : History) (k : ChannelKey) (handle : Int32) :
    (h.after (.sendAck k handle)).acks = h.acks ∨
      (h.after (.sendAck k handle)).acks = h.acks ++ [(k, h.openings k)] := by
  rcases h.channels.acks_sendAck k handle with same | more
  · exact .inl (by simp [after, MemoryChannels.after, same])
  · exact .inr (by simp [after, MemoryChannels.after, more])

theorem acksSince_close (h : History) (k : ChannelKey)
    (opened : (h.after (.closeChannel k)).channels.isOpen key = true) :
    (h.after (.closeChannel k)).acksSince key = h.acksSince key := by
  rcases h.channels.acks_closeChannel k with same | ⟨closed, more⟩
  · simp [acksSince, after, MemoryChannels.after, same]
  · have apart : k ≠ key := by
      rintro rfl
      cases closed.symm.trans opened
    simp [acksSince, after, MemoryChannels.after, more, apart]

theorem acksSince_sendAck (h : History) (k : ChannelKey) (handle : Int32) :
    (h.after (.sendAck k handle)).acksSince key ≤ h.acksSince key + if k = key then 1 else 0 := by
  have same : (h.after (.sendAck k handle)).openings = h.openings := rfl
  unfold acksSince
  rw [same]
  rcases h.acks_sendAck k handle with acks | acks <;> rw [acks]
  · exact Nat.le_add_right _ _
  · by_cases here : k = key <;> simp [here]

/-- All acknowledgements before a channel opens are from earlier openings. -/
theorem acksSince_opened (faithful : h.Faithful) (closed : h.channels.isOpen key = false) :
    (h.after (.openChannel key)).acksSince key = 0 := by
  refine List.countP_eq_zero.mpr fun a member => ?_
  have old := faithful.acks a member
  rw [openings_opened closed, decide_eq_true_eq]
  rintro ⟨rfl, newer⟩
  omega

/-- What does not acknowledge leaves what was sent since the channel was opened, or opens it. -/
theorem acksSince_after (faithful : h.Faithful) {call : MemoryCall}
    (other : ∀ k handle, call ≠ .sendAck k handle)
    (opened : (h.after call).channels.isOpen key = true) :
    (h.after call).acksSince key = 0 ∨ h.channels.isOpen key = true ∧
      (h.after call).acksSince key = h.acksSince key ∧
      (h.after call).openings key = h.openings key := by
  cases call with
  | sendAck k handle => exact absurd rfl (other k handle)
  | openChannel k =>
    cases before : h.channels.isOpen key with
    | true =>
      have same := openings_after before (.openChannel k)
      refine .inr ⟨rfl, ?_, same⟩
      unfold acksSince
      rw [same]
      rfl
    | false =>
      rw [channels_after] at opened
      obtain rfl := MemoryCall.openChannel.inj (MemoryChannels.opens_of_after before opened)
      exact .inl (acksSince_opened faithful before)
  | closeChannel k =>
    exact .inr ⟨MemoryChannels.isOpen_of_closeChannel opened, acksSince_close h k opened, rfl⟩
  | push | wake | nextEvent | receiveAck =>
    refine .inr ⟨?_, rfl, rfl⟩
    rw [channels_after] at opened
    exact MemoryChannels.isOpen_of_after (by simp) opened

/-- On each open channel, as many deliveries have ended since it was opened as the arbiter has
acknowledgements. -/
def Covered (h : History) (ended : List Ended) : Prop :=
  ∀ key, h.channels.isOpen key = true → h.acksSince key ≤ h.endedIn ended key (h.openings key)

theorem endedIn_after (h : History) (ended : List Ended) (key : ChannelKey) (opening : Nat)
    (call : MemoryCall) :
    h.endedIn ended key opening ≤ (h.after call).endedIn ended key opening := by
  refine List.countP_mono_left fun x _ counted => ?_
  rw [Bool.and_eq_true] at counted ⊢
  refine ⟨counted.1, ?_⟩
  cases found : h.posts[x.event]? with
  | none => simp [found] at counted
  | some post =>
    rw [posts_after found]
    simpa [found] using counted.2

variable {ended more : List Ended}

theorem Covered.append (covered : h.Covered ended) : h.Covered (ended ++ more) := by
  intro key opened
  refine Nat.le_trans (covered key opened) ?_
  unfold endedIn
  rw [List.countP_append]
  exact Nat.le_add_right _ _

theorem Covered.after (covered : h.Covered ended) (faithful : h.Faithful) {call : MemoryCall}
    (silent : ∀ k handle, call ≠ .sendAck k handle) : (h.after call).Covered ended := by
  intro key opened
  rcases acksSince_after faithful silent opened with none_ | ⟨before, same, opening⟩
  · exact none_ ▸ Nat.zero_le _
  · rw [same, opening]
    exact Nat.le_trans (covered key before) (endedIn_after ..)

theorem Covered.run (covered : h.Covered ended) (faithful : h.Faithful) {calls : List MemoryCall}
    (silent : ∀ k handle, .sendAck k handle ∉ calls) : (h.run calls).Covered ended := by
  induction calls generalizing h with
  | nil => exact covered
  | cons call calls ih =>
    refine ih (covered.after faithful fun k handle same => ?_) (faithful.after call)
      fun k handle member => silent k handle (List.mem_cons_of_mem _ member)
    exact silent k handle (same ▸ List.mem_cons_self)

theorem Covered.sendAck (covered : h.Covered ended) {p : Nat} {post : Post}
    (found : h.posts[p]? = some post) (handle : Int32) :
    (h.after (.sendAck post.key handle)).Covered (ended ++ [⟨p, h.openings post.key⟩]) := by
  intro key opened
  have before : h.channels.isOpen key = true := by
    rw [channels_after] at opened
    exact MemoryChannels.isOpen_of_after (by simp) opened
  have sent : (h.after (.sendAck post.key handle)).acksSince key ≤ _ :=
    h.acksSince_sendAck post.key handle
  have known := covered key before
  have counted : (h.after (.sendAck post.key handle)).endedIn
      (ended ++ [⟨p, h.openings post.key⟩]) key (h.openings key) =
        h.endedIn ended key (h.openings key) + if post.key = key then 1 else 0 := by
    have posts : (h.after (.sendAck post.key handle)).posts = h.posts := rfl
    unfold endedIn
    rw [posts, List.countP_append, List.countP_singleton]
    by_cases here : post.key = key <;> simp [found, here]
  have same : (h.after (.sendAck post.key handle)).openings key = h.openings key := rfl
  rw [same, counted]
  omega

theorem Covered.ack (covered : h.Covered ended) {p : Nat} {post : Post}
    (found : h.posts[p]? = some post) {a : Action} {handle : Int32}
    (ack : a.ack? = some (post.key, handle)) :
    (h.run (Action.calls [a])).Covered (ended ++ [⟨p, h.openings post.key⟩]) := by
  rcases Chronicle.calls_of_ack ack with sent | failed
  · rw [sent]
    exact covered.sendAck found handle
  · rw [failed]
    exact covered.append

end History

namespace Chronicle

variable {k : Nesting} {c d : Chronicle} {key : ChannelKey}

def acksSince (c : Chronicle) (key : ChannelKey) : Nat := c.history.acksSince key

/-- The events sent on a channel since it was last opened whose delivery has ended. -/
def processedSince (c : Chronicle) (key : ChannelKey) : Nat :=
  c.ended.countP fun x => (c.history.posts[x.event]?).any fun post =>
    post.key = key ∧ post.opening = c.history.openings key

/-- The events sent on a channel before it was last opened whose delivery has ended since. -/
def straysSince (c : Chronicle) (key : ChannelKey) : Nat :=
  c.ended.countP fun x => x.opening = c.history.openings key &&
    (c.history.posts[x.event]?).any fun post =>
      post.key = key ∧ post.opening < c.history.openings key

/-- The numbers of the events whose callback is under way or whose delivery has ended. -/
def numbers (c : Chronicle) : List Nat := c.inside.map (·.event) ++ c.ended.map (·.event)

/-- No event is delivered twice, and one that the loop has in hand has not been delivered yet. -/
structure Tidy (c : Chronicle) : Prop where
  distinct : c.numbers.Nodup
  taken : ∀ p ∈ c.numbers, p < c.history.taken
  hand : c.session.errand.isSome = true → c.last ∉ c.numbers

theorem Tidy.of_perm (tidy : c.Tidy) (same : d.numbers.Perm c.numbers)
    (taken : c.history.taken ≤ d.history.taken)
    (hand : d.session.errand.isSome = true → d.last ∉ c.numbers) : d.Tidy where
  distinct := same.nodup_iff.mpr tidy.distinct
  taken p member := Nat.lt_of_lt_of_le (tidy.taken p (same.mem_iff.mp member)) taken
  hand holds member := hand holds (same.mem_iff.mp member)

theorem Tidy.hand_of_same (tidy : c.Tidy) (errand : d.session.errand = c.session.errand)
    (taken : d.history.taken = c.history.taken) (holds : d.session.errand.isSome = true) :
    d.last ∉ c.numbers := by
  rw [last, taken]
  exact tidy.hand (errand ▸ holds)

/-- What the loop has in hand is delivered now. -/
theorem Tidy.of_hand (tidy : c.Tidy) {x : Errand} {p : Nat} {post : Post}
    (inHand : c.InHand x p post) (more : d.numbers.Perm (p :: c.numbers))
    (taken : c.history.taken ≤ d.history.taken) (done : d.session.errand = none) : d.Tidy where
  distinct := by
    have fresh := tidy.hand (by simp [inHand.errand])
    rw [inHand.last] at fresh
    exact more.nodup_iff.mpr (List.nodup_cons.mpr ⟨fresh, tidy.distinct⟩)
  taken q member := by
    have now := inHand.now
    rcases List.mem_cons.mp (more.mem_iff.mp member) with rfl | before
    · omega
    · have old := tidy.taken q before
      omega
  hand holds := by simp [done] at holds

theorem Tidy.advanced (tidy : c.Tidy) (advanced : c.Advanced d) : d.Tidy := by
  have taken := advanced.taken_le
  cases advanced with
  | aside inside ended _ history _ untaken errand =>
    exact tidy.of_perm (by rw [numbers, inside, ended]; exact .refl _) taken
      (tidy.hand_of_same errand (taken_of_untaken history untaken))
  | passed inside ended _ _ _ _ errand | dropped _ _ inside ended _ _ errand =>
    exact tidy.of_perm (by rw [numbers, inside, ended]; exact .refl _) taken (by simp [errand])
  | took _ _ _ _ inside ended _ _ turn =>
    refine tidy.of_perm (by rw [numbers, inside, ended]; exact .refl _) taken fun _ member => ?_
    rw [last, turn, Nat.add_sub_cancel] at member
    exact Nat.lt_irrefl _ (tidy.taken _ member)
  | began inHand _ _ inside ended _ _ errand =>
    exact tidy.of_hand inHand (by rw [numbers, inside, ended]; exact .refl _) taken errand
  | skipped inHand _ _ inside ended _ _ _ errand =>
    refine tidy.of_hand inHand ?_ taken errand
    rw [numbers, inside, ended, List.map_append, ← List.append_assoc]
    exact List.perm_append_singleton _ _
  | returned _ inside ended _ history ack errand =>
    refine tidy.of_perm ?_ taken (tidy.hand_of_same errand (taken_of_ack history ack))
    rw [numbers, numbers, inside, ended, List.map_append, ← List.append_assoc, List.map_cons]
    exact List.perm_append_singleton _ _

theorem covered_of_advanced (faithful : c.Faithful) (covered : c.history.Covered c.ended)
    (advanced : c.Advanced d) : d.history.Covered d.ended := by
  cases advanced with
  | aside _ ended _ history silent =>
    rw [ended, history]
    exact covered.run faithful.history silent
  | passed _ ended _ history | took _ _ _ _ _ ended _ history =>
    rw [ended, history]
    exact covered.after faithful.history (by simp)
  | began _ _ _ _ ended _ history | dropped _ _ _ ended _ history =>
    rw [ended, history]
    exact covered
  | skipped inHand _ _ _ ended _ history ack =>
    rw [ended, history]
    exact covered.ack inHand.found ack
  | returned found _ ended _ history ack =>
    rw [ended, history]
    exact covered.ack found ack

theorem tidy_of_reach (reach : c.Reach k (.memory {})) : c.Tidy := by
  refine reach.induct (fun client _ _ => ⟨List.nodup_nil, by simp [numbers], by simp⟩)
    fun c m d reach tidy _ moved => tidy.advanced ((faithful_of_reach reach).advanced reach moved)

theorem covered_of_reach (reach : c.Reach k (.memory {})) : c.history.Covered c.ended := by
  refine reach.induct (P := fun c => c.history.Covered c.ended) (fun client _ _ => ?_)
    fun c m d reach covered _ moved =>
      covered_of_advanced (faithful_of_reach reach) covered
        ((faithful_of_reach reach).advanced reach moved)
  intro key opened
  exact Nat.zero_le _

/-- In the current opening of a channel, what ended was sent in it or is a stray. -/
theorem endedIn_le (faithful : c.Faithful) (key : ChannelKey) :
    c.history.endedIn c.ended key (c.history.openings key) ≤
      c.processedSince key + c.straysSince key := by
  refine countP_le_add (fun x ended => ?_) c.ended
  rw [Bool.and_eq_true, decide_eq_true_eq] at ended
  obtain ⟨now, sent⟩ := ended
  cases found : c.history.posts[x.event]? with
  | none => simp [found] at sent
  | some post =>
    obtain rfl : post.key = key := by simpa [found] using sent
    have old := faithful.history.posts post (List.mem_of_getElem? found)
    rcases Nat.lt_or_eq_of_le old with stray | same
    · exact .inr (by simp [now, stray])
    · exact .inl (by simp [same])

/-- Since an open channel was opened, the arbiter has been sent no more acknowledgements on it than
deliveries have ended: of events sent since, each of which is delivered once, and of strays, sent
before the channel was closed and opened again. So as long as there are no strays, no event is
acknowledged before it has been processed. -/
theorem acksSince_le (reach : c.Reach k (.memory {})) :
    (c.ended.map (·.event)).Nodup ∧
      ∀ key, c.session.client.channels.isOpen key = true →
        c.acksSince key ≤ c.processedSince key + c.straysSince key := by
  have faithful := faithful_of_reach reach
  refine ⟨(List.nodup_append.mp (tidy_of_reach reach).distinct).2.1, fun key opened => ?_⟩
  rw [faithful.memory] at opened
  exact Nat.le_trans (covered_of_reach reach key opened) (endedIn_le faithful key)

/-- A watch unsets itself in its callback and sets another one, whose event waits still when the
callback returns. -/
theorem acksSince_le_of_reopening :
    let key : ChannelKey := .watch 7
    let e (id : Int32) : Event := ⟨7, id, .playback, .acquired, "", "", ""⟩
    let c := played .full 2 [.call (.watch 0 .both false 0), .reply (.ok .done), .push key (e 1),
      .take, .enter, .call (.unwatch 1), .reply (.ok .done), .call (.watch 0 .both false 2),
      .reply (.ok .done), .push key (e 2), .returns]
    c.acksSince key = 1 ∧ c.processedSince key = 0 ∧ c.straysSince key = 1 ∧
      c.acksSince key ≤ c.processedSince key + c.straysSince key := by
  intro key e c
  have reach : c.Reach .full (.memory {}) := reach_played (by decide) (by decide +kernel)
  exact ⟨by decide +kernel, by decide +kernel, by decide +kernel,
    (acksSince_le reach).2 key (by decide +kernel)⟩

end Chronicle
end AudioFocus
