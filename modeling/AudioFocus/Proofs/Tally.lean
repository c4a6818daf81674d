import AudioFocus.Proofs.Outstanding

/-!
Acknowledgements never outnumber events. Whatever both sides do to channels in memory, what is
outstanding on an open channel is what was sent since it was opened and not acknowledged since. Only
that decides whether an acknowledgement goes out, be it sent by the client or left to the last close.
-/
namespace AudioFocus

namespace MemoryChannels

variable {m : MemoryChannels} {k key : ChannelKey}

theorem outstanding_eq {ch : MemoryChannel} (found : m.channels.get? key = some ch) :
    m.outstanding key = ch.outstanding := by
  simp [outstanding, found]

theorem outstanding_of_closed (closed : m.isOpen key = false) : m.outstanding key = 0 := by
  have missing : m.channels.get? key = none := by
    simpa [isOpen, ChannelMap.contains] using closed
  simp [outstanding, missing]

theorem outstanding_of_channels {m' : MemoryChannels} (same : m'.channels = m.channels)
    (key : ChannelKey) : m'.outstanding key = m.outstanding key := by
  rw [outstanding, same, outstanding]

/-- The acknowledgements that a call queues for the arbiter. -/
def queued (m : MemoryChannels) : MemoryCall → List (ChannelKey × Int32)
  | .sendAck key handle => if 0 < m.outstanding key then [(key, handle)] else []
  | .closeChannel key =>
    if (Channels.memory m).refs key = 1 ∧ 0 < m.outstanding key then [(key, key.finalAck)] else []
  | _ => []

/-- How many events a call sends on a channel: none if that is closed. -/
def pushes (m : MemoryChannels) (key : ChannelKey) : MemoryCall → Nat
  | .push k _ => if m.isOpen k = true ∧ key = k then 1 else 0
  | _ => 0

theorem acks_sendAck_eq (m : MemoryChannels) (key : ChannelKey) (handle : Int32) :
    (m.sendAck key handle).acks =
      m.acks ++ if 0 < m.outstanding key then [(key, handle)] else [] := by
  unfold sendAck
  cases found : m.channels.get? key with
  | none => simp [outstanding, found]
  | some ch =>
    rw [outstanding_eq found]
    by_cases waiting : 0 < ch.outstanding <;> simp [waiting]

theorem acks_closeChannel_eq (counted : (Channels.memory m).Counted) (key : ChannelKey) :
    (m.closeChannel key).acks = m.acks ++
      if (Channels.memory m).refs key = 1 ∧ 0 < m.outstanding key then [(key, key.finalAck)]
      else [] := by
  unfold closeChannel
  cases found : m.channels.get? key with
  | none => simp [outstanding, found]
  | some ch =>
    have refs : (Channels.memory m).refs key = ch.refs := by simp [Channels.refs, found]
    have positive : 0 < ch.refs := counted key ch.refs ch.outstanding (by
      simp [Channels.counts?, found])
    rw [outstanding_eq found, refs]
    by_cases shared : 1 < ch.refs
    · have more : ch.refs ≠ 1 := by omega
      simp [shared, more]
    · have last : ch.refs = 1 := by omega
      by_cases waiting : 0 < ch.outstanding <;> simp [last, waiting, wake]

theorem acks_after (counted : (Channels.memory m).Counted) {call : MemoryCall}
    (other : call ≠ .receiveAck) : (m.after call).acks = m.acks ++ m.queued call := by
  cases call with
  | sendAck key handle => exact acks_sendAck_eq m key handle
  | closeChannel key => exact acks_closeChannel_eq counted key
  | openChannel key =>
    simp only [after, queued, openChannel, List.append_nil]
    split <;> rfl
  | push key e =>
    simp only [after, queued, push, List.append_nil]
    split
    · rename_i sent
      split at sent
      · obtain rfl := Except.ok.inj sent
        rfl
      · contradiction
    · rfl
  | wake => simp [after, queued, wake]
  | nextEvent =>
    simp only [after, queued, nextEvent, List.append_nil]
    split <;> rfl
  | receiveAck => exact absurd rfl other

/-- A channel is closed when its last reference goes. -/
theorem closed_of_last (counted : (Channels.memory m).Counted)
    (last : (Channels.memory m).refs key = 1) : (m.closeChannel key).isOpen key = false := by
  have fewer := Channels.refs_closeChannel (show 0 < (Channels.memory m).refs key by omega) key
  have idle : ¬ 0 < ((Channels.memory m).closeChannel key).refs key := by
    simp only [if_true] at fewer
    omega
  have closed : ¬ ((Channels.memory m).closeChannel key).isOpen key = true :=
    mt (Channels.isOpen_iff_refs (Channels.counted_closeChannel counted key) key).mp idle
  exact Bool.eq_false_iff.mpr closed

/-- On a channel a call settles what it acknowledges, and what it sends is outstanding. A call that
closes the channel settles the rest. -/
structure Settles (m : MemoryChannels) (call : MemoryCall) (key : ChannelKey) : Prop where
  bound : (m.after call).outstanding key + (m.queued call).countP (·.1 = key) ≤
    m.outstanding key + m.pushes key call
  balance : (m.after call).isOpen key = true →
    (m.after call).outstanding key + (m.queued call).countP (·.1 = key) =
      m.outstanding key + m.pushes key call

theorem Settles.of_eq {call : MemoryCall}
    (same : (m.after call).outstanding key + (m.queued call).countP (·.1 = key) =
      m.outstanding key + m.pushes key call) : m.Settles call key :=
  ⟨Nat.le_of_eq same, fun _ => same⟩

theorem settles_closeChannel (counted : (Channels.memory m).Counted) (k key : ChannelKey) :
    m.Settles (.closeChannel k) key := by
  have kept : (m.after (.closeChannel k)).isOpen key = true →
      (m.after (.closeChannel k)).outstanding key = m.outstanding key := outstanding_closeChannel
  by_cases final : k = key ∧ (Channels.memory m).refs k = 1 ∧ 0 < m.outstanding k
  · obtain ⟨rfl, last⟩ := final
    have closed : (m.after (.closeChannel k)).isOpen k = false := closed_of_last counted last.1
    have answers : (m.queued (.closeChannel k)).countP (·.1 = k) = 1 := by simp [queued, last]
    refine ⟨?_, fun opened => absurd opened (by simp [closed])⟩
    have waiting := last.2
    rw [outstanding_of_closed closed, answers]
    omega
  · have silent : (m.queued (.closeChannel k)).countP (·.1 = key) = 0 := by
      by_cases last : (Channels.memory m).refs k = 1 ∧ 0 < m.outstanding k
      · have apart : k ≠ key := fun here => final ⟨here, last⟩
        simp [queued, last, apart]
      · simp [queued, last]
    have less : (m.after (.closeChannel k)).outstanding key ≤ m.outstanding key := by
      cases opened : (m.after (.closeChannel k)).isOpen key with
      | true => exact Nat.le_of_eq (kept opened)
      | false =>
        rw [outstanding_of_closed opened]
        exact Nat.zero_le _
    constructor
    · rw [silent]
      exact less
    · intro opened
      rw [silent]
      exact kept opened

theorem settles_sendAck (m : MemoryChannels) (k key : ChannelKey) (handle : Int32) :
    m.Settles (.sendAck k handle) key := by
  have less : (m.after (.sendAck k handle)).outstanding key =
      m.outstanding key - if key = k then 1 else 0 := outstanding_sendAck m k key handle
  have answers : (m.queued (.sendAck k handle)).countP (·.1 = key) =
      if key = k ∧ 0 < m.outstanding k then 1 else 0 := by
    by_cases waiting : 0 < m.outstanding k
    · simp [queued, waiting, List.countP_singleton, eq_comm]
    · simp [queued, waiting]
  apply Settles.of_eq
  rw [less, answers]
  by_cases here : key = k
  · subst here
    by_cases waiting : 0 < m.outstanding key
    · rw [if_pos rfl, if_pos ⟨rfl, waiting⟩]
      exact Nat.sub_add_cancel waiting
    · have none_ := Nat.eq_zero_of_not_pos waiting
      simp [none_, pushes]
  · simp [here, pushes]

theorem settles_after (counted : (Channels.memory m).Counted) (call : MemoryCall)
    (key : ChannelKey) : m.Settles call key := by
  cases call with
  | closeChannel k => exact settles_closeChannel counted k key
  | sendAck k handle => exact settles_sendAck m k key handle
  | openChannel k => exact .of_eq (outstanding_openChannel m k key)
  | push k e =>
    apply Settles.of_eq
    cases opened : m.isOpen k with
    | false => simp [after_push_of_closed opened, queued, pushes, opened]
    | true =>
      have more := @outstanding_push m k key opened e
      simp [more, queued, pushes, opened]
  | wake => exact .of_eq rfl
  | nextEvent =>
    have same : (m.after .nextEvent).channels = m.channels := by
      simp only [after, nextEvent]
      split <;> rfl
    exact .of_eq (outstanding_of_channels same key)
  | receiveAck =>
    have same : (m.after .receiveAck).channels = m.channels := by
      simp only [after, receiveAck]
      split <;> rfl
    exact .of_eq (outstanding_of_channels same key)

/-- The acknowledgements that the arbiter takes in the course of these calls. -/
def received (m : MemoryChannels) : List MemoryCall → List (ChannelKey × Int32)
  | [] => []
  | .receiveAck :: calls => m.receiveAck.1.toList ++ received m.receiveAck.2 calls
  | call :: calls => received (m.after call) calls

theorem acks_receiveAck (m : MemoryChannels) :
    m.receiveAck.1.toList ++ m.receiveAck.2.acks = m.acks := by
  unfold receiveAck
  split <;> simp_all

end MemoryChannels

namespace History

variable {h : History} {key : ChannelKey}

/-- The events that were sent on a channel since that was last opened. -/
def postsSince (h : History) (key : ChannelKey) : Nat :=
  h.posts.countP fun post => post.key = key ∧ post.opening = h.openings key

/-- Some event that was sent on a channel since that was last opened is not acknowledged. -/
def Awaits (h : History) (key : ChannelKey) : Prop := h.acksSince key < h.postsSince key

instance (h : History) (key : ChannelKey) : Decidable (h.Awaits key) :=
  inferInstanceAs (Decidable (_ < _))

theorem acks_after (faithful : h.Faithful) (call : MemoryCall) :
    (h.after call).acks =
      h.acks ++ (h.channels.queued call).map fun a => (a.1, h.openings a.1) := by
  cases call with
  | closeChannel | sendAck =>
    simp only [after]
    rw [MemoryChannels.acks_after faithful.counted (by simp), List.drop_left]
  | openChannel | push | wake | nextEvent | receiveAck => simp [after, MemoryChannels.queued]

theorem countP_acks_after (faithful : h.Faithful) (call : MemoryCall)
    {p : ChannelKey × Nat → Bool} (on : ∀ k, p (k, h.openings k) = decide (k = key)) :
    (h.after call).acks.countP p =
      h.acks.countP p + (h.channels.queued call).countP (·.1 = key) := by
  rw [acks_after faithful, List.countP_append, List.countP_map]
  congr 1
  apply List.countP_congr
  intro a _
  rw [Function.comp_apply, on]

theorem countP_posts_after (h : History) (call : MemoryCall) {p : Post → Bool}
    (on : ∀ k e, p ⟨k, e, h.openings k⟩ = decide (key = k)) :
    (h.after call).posts.countP p = h.posts.countP p + h.channels.pushes key call := by
  cases call with
  | push k e =>
    cases opened : h.channels.isOpen k with
    | false => simp [after, opened, MemoryChannels.pushes]
    | true => simp [after, opened, MemoryChannels.pushes, List.countP_singleton, on]
  | openChannel | closeChannel | sendAck | wake | nextEvent | receiveAck => rfl

/-- What a channel owes is what was sent on it and not acknowledged. -/
structure Audited (h : History) : Prop where
  total : ∀ key, h.acks.countP (·.1 = key) + h.channels.outstanding key ≤
    h.posts.countP (·.key = key)
  since : ∀ key, h.channels.isOpen key = true →
    h.acksSince key + h.channels.outstanding key = h.postsSince key

/-- In an opening that goes on, both counts grow by what the call does. -/
theorem since_after (faithful : h.Faithful) {call : MemoryCall}
    (same : (h.after call).openings key = h.openings key) :
    (h.after call).acksSince key =
        h.acksSince key + (h.channels.queued call).countP (·.1 = key) ∧
      (h.after call).postsSince key = h.postsSince key + h.channels.pushes key call := by
  constructor
  · unfold acksSince
    rw [same]
    apply countP_acks_after faithful call
    intro k
    by_cases here : k = key <;> simp [here]
  · unfold postsSince
    rw [same]
    apply countP_posts_after h call
    intro k e
    by_cases here : key = k
    · simp [here]
    · simp [here, Ne.symm here]

/-- A channel that opens has a new opening, in which nothing has happened. -/
theorem since_opened (faithful : h.Faithful) (closed : h.channels.isOpen key = false) :
    (h.after (.openChannel key)).acksSince key = 0 ∧
      (h.after (.openChannel key)).postsSince key = 0 := by
  refine ⟨acksSince_opened faithful closed, ?_⟩
  apply List.countP_eq_zero.mpr
  intro post member
  have old := faithful.posts post member
  rw [openings_opened closed, decide_eq_true_eq]
  rintro ⟨rfl, newer⟩
  omega

theorem Audited.after (audited : h.Audited) (faithful : h.Faithful) (call : MemoryCall) :
    (h.after call).Audited where
  total key := by
    have before := audited.total key
    have moved := (MemoryChannels.settles_after faithful.counted call key).bound
    have acks : (h.after call).acks.countP (·.1 = key) = _ :=
      countP_acks_after faithful call fun k => rfl
    have posts : (h.after call).posts.countP (·.key = key) =
        h.posts.countP (·.key = key) + h.channels.pushes key call :=
      countP_posts_after h call fun k e => decide_eq_decide.mpr eq_comm
    rw [channels_after]
    omega
  since key opened := by
    rw [channels_after] at opened ⊢
    have moved := (MemoryChannels.settles_after faithful.counted call key).balance opened
    cases before : h.channels.isOpen key with
    | true =>
      obtain ⟨acks, posts⟩ := since_after faithful (openings_after before call)
      have owed := audited.since key before
      omega
    | false =>
      obtain rfl := MemoryChannels.opens_of_after before opened
      obtain ⟨acks, posts⟩ := since_opened faithful before
      have idle := MemoryChannels.outstanding_of_closed before
      simp only [MemoryChannels.pushes] at moved
      omega

theorem audited_of (calls : List MemoryCall) : (of calls).Audited := by
  have both : (of calls).Faithful ∧ (of calls).Audited := by
    apply run_induct (P := fun h => h.Faithful ∧ h.Audited)
    · exact ⟨.new, fun key => by simp [MemoryChannels.outstanding], fun key opened => by
        simp [MemoryChannels.isOpen, ChannelMap.contains] at opened⟩
    · rintro h call ⟨faithful, audited⟩
      exact ⟨faithful.after call, audited.after faithful call⟩
  exact both.2

/-- The acknowledgements of a history are those that the arbiter has taken and those that wait for
it. -/
theorem keys_run (faithful : h.Faithful) (taken : List (ChannelKey × Int32))
    (known : h.acks.map Prod.fst = (taken ++ h.channels.acks).map Prod.fst)
    (calls : List MemoryCall) :
    (h.run calls).acks.map Prod.fst =
      (taken ++ h.channels.received calls ++ (h.run calls).channels.acks).map Prod.fst := by
  induction calls generalizing h taken with
  | nil => simpa [run, MemoryChannels.received] using known
  | cons call calls ih =>
    have more := acks_after faithful call
    by_cases takes : call = .receiveAck
    · subst takes
      have moved : (h.after .receiveAck).acks.map Prod.fst =
          ((taken ++ h.channels.receiveAck.1.toList) ++
            (h.after .receiveAck).channels.acks).map Prod.fst := by
        rw [more, channels_after, List.append_assoc]
        change (h.acks ++ []).map Prod.fst = (taken ++ (h.channels.receiveAck.1.toList ++
          h.channels.receiveAck.2.acks)).map Prod.fst
        rw [MemoryChannels.acks_receiveAck, List.append_nil, known]
      have rest := ih (faithful.after .receiveAck) _ moved
      rw [List.append_assoc taken] at rest
      exact rest
    · have moved : (h.after call).acks.map Prod.fst =
          (taken ++ (h.after call).channels.acks).map Prod.fst := by
        rw [more, channels_after, MemoryChannels.acks_after faithful.counted takes,
          ← List.append_assoc, List.map_append, List.map_append, known]
        simp [Function.comp_def]
      have rest := ih (faithful.after call) _ moved
      rw [channels_after] at rest
      have same : h.channels.received (call :: calls) =
          (h.channels.after call).received calls := by
        cases call with
        | receiveAck => exact absurd rfl takes
        | _ => rfl
      rw [same]
      exact rest

theorem countP_received (calls : List MemoryCall) (key : ChannelKey) :
    (MemoryChannels.received {} calls ++ (of calls).channels.acks).countP (·.1 = key) =
      (of calls).acks.countP (·.1 = key) := by
  have keys : (of calls).acks.map Prod.fst =
      (MemoryChannels.received {} calls ++ (of calls).channels.acks).map Prod.fst :=
    keys_run .new [] rfl calls
  calc _ = ((MemoryChannels.received {} calls ++ (of calls).channels.acks).map Prod.fst).countP
        (· = key) := by rw [List.countP_map]; rfl
    _ = ((of calls).acks.map Prod.fst).countP (· = key) := by rw [keys]
    _ = (of calls).acks.countP (·.1 = key) := by rw [List.countP_map]; rfl

theorem outstanding_pos_iff (audited : h.Audited) :
    0 < h.channels.outstanding key ↔ h.channels.isOpen key = true ∧ h.Awaits key := by
  cases opened : h.channels.isOpen key with
  | true =>
    have owed := audited.since key opened
    simp only [true_and, Awaits]
    omega
  | false => simp [MemoryChannels.outstanding_of_closed opened]

/-- Whatever is done to channels in memory: the acknowledgements on a channel, taken by the arbiter
or not, are no more than the events sent on it. One goes out exactly when the channel is open and
some event since it was opened is not acknowledged, if the client sends one; or when a close takes
the last reference, for the handle of the channel. -/
theorem acks_exact (calls : List MemoryCall) (key : ChannelKey) :
    let h := of calls
    (MemoryChannels.received {} calls ++ h.channels.acks).countP (·.1 = key) ≤
      h.posts.countP (·.key = key) ∧
    (∀ handle, (h.channels.sendAck key handle).acks = h.channels.acks ++
      if h.channels.isOpen key = true ∧ h.Awaits key then [(key, handle)] else []) ∧
    (h.channels.closeChannel key).acks = h.channels.acks ++
      if (Channels.memory h.channels).refs key = 1 ∧ h.Awaits key then [(key, key.finalAck)]
      else [] := by
  intro h
  have faithful : h.Faithful := faithful_of calls
  have audited : h.Audited := audited_of calls
  refine ⟨?_, fun handle => ?_, ?_⟩
  · rw [countP_received]
    exact Nat.le_trans (Nat.le_add_right _ _) (audited.total key)
  · rw [MemoryChannels.acks_sendAck_eq]
    simp only [outstanding_pos_iff audited]
  · rw [MemoryChannels.acks_closeChannel_eq faithful.counted]
    have opened (last : (Channels.memory h.channels).refs key = 1) :
        h.channels.isOpen key = true :=
      (Channels.isOpen_iff_refs faithful.counted key).mpr (by omega)
    have same : ((Channels.memory h.channels).refs key = 1 ∧ 0 < h.channels.outstanding key) ↔
        (Channels.memory h.channels).refs key = 1 ∧ h.Awaits key := by
      rw [outstanding_pos_iff audited]
      exact ⟨fun waits => ⟨waits.1, waits.2.2⟩, fun waits => ⟨waits.1, opened waits.1, waits.2⟩⟩
    simp only [same]

end History

end AudioFocus
