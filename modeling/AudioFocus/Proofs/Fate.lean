import AudioFocus.Proofs.Accounting
import AudioFocus.Proofs.Advances

/-!
What becomes of an event that was sent. Events leave the queue in the order in which they were sent,
over all channels, and are given to callbacks only then. If the registration that an event names is
live and told of it, the loop takes the event in hand when its turn comes, unless the channel is
closed then, and if the registration is live still when the loop goes on, its callback gets the
event. The channel of a live registration is open as long as the arbiter does not let operations run
while it serves a request.
-/
namespace AudioFocus

namespace History

variable {h : History} {n : Nat}

/-- The events that were sent, oldest first, each with its number. -/
def sent (h : History) : List (Nat × ChannelKey × Event) :=
  h.posts.zipIdx.map fun x => (x.2, x.1.letter)

theorem sent_take_succ {post : Post} (found : h.posts[n]? = some post) :
    h.sent.take (n + 1) = h.sent.take n ++ [(n, post.letter)] := by
  have here : h.sent[n]? = some (n, post.letter) := by simp [sent, List.getElem?_zipIdx, found]
  rw [List.take_add_one, here]
  rfl

theorem posts_prefix_run (h : History) (calls : List MemoryCall) :
    ∃ more, (h.run calls).posts = h.posts ++ more := by
  refine run_induct (P := fun h' => ∃ more, h'.posts = h.posts ++ more) ⟨[], by simp⟩
    (fun h' call => ?_) calls
  rintro ⟨more, posts⟩
  cases call with
  | push key e =>
    unfold after
    dsimp only
    split
    · exact ⟨more ++ [⟨key, e, h'.openings key⟩], by rw [posts, List.append_assoc]⟩
    · exact ⟨more, posts⟩
  | _ => exact ⟨more, posts⟩

theorem sent_take_run (known : n ≤ h.posts.length) (calls : List MemoryCall) :
    (h.run calls).sent.take n = h.sent.take n := by
  obtain ⟨more, posts⟩ := h.posts_prefix_run calls
  rw [sent, posts, List.zipIdx_append, List.map_append,
    List.take_append_of_le_length (by simpa using known)]
  rfl

end History

namespace Session

variable {k : Nesting} {s t : Session} {key : ChannelKey} {e : Event} {slot n : Nat}
  {reg : Registration}

/-- If nothing runs while the arbiter serves a request, a live registration has an open channel. -/
theorem isOpen_of_live (reach : Reach .none s)
    (live : s.client.registry.registration? slot = some reg) :
    s.client.channels.isOpen reg.channel = true := by
  obtain ⟨⟨refs, counted, -⟩, -⟩ := accounted_of_reach reach
  rw [Channels.isOpen_iff_refs counted, refs, Registry.users, List.countP_pos_iff]
  exact ⟨(slot, reg), Registry.mem_live.mpr live, by simp⟩

theorem Addressed.of_same (addressed : s.Addressed key e slot reg n)
    (registration : t.client.registry.registration? slot = s.client.registry.registration? slot)
    (tenant : t.tenants slot = s.tenants slot) : t.Addressed key e slot reg n :=
  ⟨registration.trans addressed.live, addressed.named, tenant.trans addressed.brought,
    addressed.used⟩

/-- A registration stays as it is until it is gone. -/
theorem Addressed.step {m : Move} (addressed : s.Addressed key e slot reg n) (reach : Reach k s)
    (moved : s.step m = some t) : t.Gone n ∨ t.Addressed key e slot reg n := by
  have consistent := consistent_of_reach reach
  rcases (Moved.of_happened consistent (step_happened moved)).gone_or_stays consistent.tenanted
    (occupant?_live addressed.live) addressed.brought with gone | ⟨o, after, stays⟩
  · exact .inl gone
  · obtain ⟨reg', live, rfl⟩ := Option.map_eq_some_iff.mp after
    obtain rfl : reg' = reg := stays.reg
    exact .inr ⟨live, addressed.named, stays.tenant.trans addressed.brought, addressed.used⟩

theorem Gone.not_addressed (gone : s.Gone n) : ¬ s.Addressed key e slot reg n :=
  fun addressed => gone.absent slot _ (occupant?_live addressed.live) addressed.brought

end Session

namespace Chronicle

/-- The callbacks that an event of this number was given to. -/
def receivers (c : Chronicle) (number : Nat) : List (ChannelKey × Event × Nat) :=
  c.log.filterMap fun
    | .callback p key e callback => if p = number then some (key, e, callback) else none
    | .action _ => none

variable {k : Nesting} {c d u : Chronicle} {p : Nat}

@[simp] theorem given?_action (a : Action) : (Entry.action a).given? = none := rfl

@[simp] theorem given?_callback (number : Nat) (key : ChannelKey) (e : Event) (callback : Nat) :
    (Entry.callback number key e callback).given? = some (number, key, e) := rfl

theorem given_of_actions (notes : List Action) (log : d.log = c.log ++ notes.map .action) :
    d.given = c.given := by
  simp [given, log]

theorem receivers_of_actions (notes : List Action) (log : d.log = c.log ++ notes.map .action) :
    d.receivers p = c.receivers p := by
  simp [receivers, log]

theorem receivers_of_callback {number n : Nat} {key : ChannelKey} {e : Event}
    (log : d.log = c.log ++ [.callback number key e n]) :
    d.receivers p = c.receivers p ++ if number = p then [(key, e, n)] else [] := by
  rw [receivers, log, List.filterMap_append]
  by_cases same : number = p <;> simp [receivers, same]

section Advanced

/-- How many events the loop has done with: all that it has taken but the one in hand. -/
def handled (c : Chronicle) : Nat := if c.session.errand.isSome then c.last else c.history.taken

theorem handled_le (c : Chronicle) : c.handled ≤ c.history.taken := by
  unfold handled last
  split <;> omega

theorem handled_of_free (free : c.session.errand = none) : c.handled = c.history.taken := by
  simp [handled, free]

theorem InHand.handled {x : Errand} {post : Post} (inHand : c.InHand x p post) : c.handled = p := by
  simp [Chronicle.handled, inHand.errand, inHand.last]

theorem handled_of_same (errand : d.session.errand = c.session.errand)
    (taken : d.history.taken = c.history.taken) : d.handled = c.handled := by
  rw [handled, handled, last, last, errand, taken]

/-- What the loop has in hand it has done with after the next thing that it does. -/
theorem InHand.handled_of_done {x : Errand} {post : Post} (inHand : c.InHand x p post)
    (taken : d.history.taken = c.history.taken) (done : d.session.errand = none) :
    d.handled = p + 1 := by
  rw [handled_of_free done, taken, inHand.now]

theorem Advanced.handled_le (advanced : c.Advanced d) : c.handled ≤ d.handled := by
  cases advanced with
  | aside _ _ _ history _ untaken errand =>
    exact Nat.le_of_eq (handled_of_same errand (taken_of_untaken history untaken)).symm
  | passed _ _ _ history _ idle errand =>
    rw [handled_of_free idle, handled_of_free errand, history]
    exact History.taken_le_after _ _
  | took idle _ _ errand _ _ _ _ turn =>
    rw [handled_of_free idle, handled, errand, last, turn]
    exact Nat.le_refl _
  | began inHand _ _ _ _ _ history errand | dropped inHand _ _ _ _ history errand =>
    rw [inHand.handled, inHand.handled_of_done (by rw [history]) errand]
    exact Nat.le_succ _
  | skipped inHand _ _ _ _ _ history ack errand =>
    rw [inHand.handled, inHand.handled_of_done (taken_of_ack history ack) errand]
    exact Nat.le_succ _
  | returned _ _ _ _ history ack errand =>
    exact Nat.le_of_eq (handled_of_same errand (taken_of_ack history ack)).symm

/-- An event is given to a callback only when the loop gets done with it. -/
theorem Advanced.receivers_eq (advanced : c.Advanced d)
    (apart : p = c.handled → d.handled ≤ p) : d.receivers p = c.receivers p := by
  cases advanced with
  | aside _ _ log => exact receivers_of_actions _ log
  | passed _ _ log | took _ _ _ _ _ _ log | dropped _ _ _ _ log => rw [receivers, log, receivers]
  | @began x q n post inHand _ _ _ _ log history errand =>
    have other : q ≠ p := by
      rintro rfl
      have still := apart inHand.handled.symm
      rw [inHand.handled_of_done (by rw [history]) errand] at still
      omega
    rw [receivers_of_callback log, if_neg other, List.append_nil]
  | skipped _ _ _ _ _ log | returned _ _ _ log => exact receivers_of_actions [_] log

theorem Advanced.given_sublist (advanced : c.Advanced d) (faithful : c.Faithful)
    (before : c.given.Sublist (c.history.sent.take c.handled)) :
    d.given.Sublist (d.history.sent.take d.handled) := by
  have bound := Nat.le_trans c.handled_le faithful.history.taken_le
  have longer := List.take_sublist_take_left (l := c.history.sent) advanced.handled_le
  cases advanced with
  | aside _ _ log history _ untaken errand =>
    rw [given_of_actions _ log, handled_of_same errand (taken_of_untaken history untaken),
      history, History.sent_take_run bound]
    exact before
  | passed _ _ log history | took _ _ _ _ _ _ log history =>
    have sent : d.history.sent = c.history.sent := by
      rw [history]
      rfl
    rw [given, log, sent]
    exact before.trans longer
  | dropped _ _ _ _ log history =>
    rw [given, log, history]
    exact before.trans longer
  | @began x q n post inHand _ _ _ _ log history errand =>
    have given : d.given = c.given ++ [(q, post.letter)] := by simp [given, log, Post.letter]
    rw [inHand.handled] at before
    rw [given, inHand.handled_of_done (by rw [history]) errand, history,
      History.sent_take_succ inHand.found]
    exact before.append (.refl _)
  | skipped _ _ _ _ _ log history ack =>
    have sent : d.history.sent = c.history.sent := by
      rw [history, History.sent, (run_ack ack _).1]
      rfl
    rw [given_of_actions [_] log, sent]
    exact before.trans longer
  | returned _ _ _ log history ack errand =>
    obtain ⟨posts, -, taken⟩ := run_ack ack c.history
    rw [given_of_actions [_] log, handled_of_same errand (by rw [history, taken]), history,
      History.sent, posts]
    exact before

theorem InHand.of_run {x : Errand} {post : Post} (inHand : c.InHand x p post)
    {calls : List MemoryCall} (history : d.history = c.history.run calls)
    (taken : d.history.taken = c.history.taken) (errand : d.session.errand = c.session.errand) :
    d.InHand x p post :=
  ⟨errand.trans inHand.errand, taken.trans inHand.now,
    by rw [history]; exact History.posts_run inHand.found calls, inHand.letter⟩

variable {post : Post} {slot n : Nat} {reg : Registration}

/-- When the turn of an event comes whose registration is live, the loop takes it in hand, unless
the channel is closed. -/
theorem Advanced.serves (advanced : c.Advanced d) (faithful : c.Faithful)
    (reach : c.Reach k (.memory {})) (found : c.history.posts[p]? = some post)
    (waiting : c.history.taken ≤ p)
    (addressed : c.session.Addressed post.key post.event slot reg n) :
    d.history.taken ≤ p ∨ c.history.Turn p ∧
      (c.history.channels.isOpen post.key = false ∨
        d.InHand ⟨post.key, post.event, slot, reg⟩ p post) := by
  cases advanced with
  | aside _ _ _ history _ untaken =>
    rw [taken_of_untaken history untaken]
    exact .inl waiting
  | passed _ _ _ history astray =>
    have went : d.history.taken =
        c.history.taken + if c.history.channels.turn?.isSome then 1 else 0 := by rw [history]; rfl
    cases head : c.history.channels.turn?.isSome with
    | false => exact .inl (by simpa [went, head] using waiting)
    | true =>
      rw [head, if_pos rfl] at went
      rcases Nat.lt_or_eq_of_le waiting with later | now
      · exact .inl (went ▸ later)
      · have turn : c.history.Turn p := ⟨now, head⟩
        refine .inr ⟨turn, .inl ?_⟩
        cases opened : c.history.channels.isOpen post.key with
        | false => rfl
        | true =>
          refine absurd addressed (astray _ _ _ _ _ ?_)
          rw [MemoryChannels.nextEvent_eq, faithful.history.letter_of_turn found turn]
          simp [Post.letter, opened]
  | took _ here addressed' errand _ _ _ history turn =>
    rcases Nat.lt_or_eq_of_le waiting with later | rfl
    · exact .inl (turn ▸ later)
    · obtain rfl := Option.some.inj (here.symm.trans found)
      obtain ⟨rfl, rfl, -⟩ := addressed.unique reach.session addressed'
      have now : c.history.Turn c.history.taken := by
        refine ⟨rfl, ?_⟩
        cases head : c.history.channels.turn?.isSome with
        | true => rfl
        | false => simp [history, History.after, head] at turn
      exact .inr ⟨now, .inr ⟨errand, turn, by rw [history]; exact found, rfl⟩⟩
  | began inHand _ _ _ _ _ history | dropped inHand _ _ _ _ history =>
    rw [history]
    exact .inl waiting
  | skipped _ _ _ _ _ _ history ack | returned _ _ _ _ history ack =>
    rw [taken_of_ack history ack]
    exact .inl waiting

/-- What the loop has in hand for a registration that is live, and is told of it, goes to the
callback. -/
theorem Advanced.enters (advanced : c.Advanced d) (reach : c.Reach k (.memory {}))
    (inHand : c.InHand ⟨post.key, post.event, slot, reg⟩ p post)
    (addressed : c.session.Addressed post.key post.event slot reg n) (told : reg.Told post.event) :
    d.InHand ⟨post.key, post.event, slot, reg⟩ p post ∨
      d.handled = p + 1 ∧ d.log = c.log ++ [.callback p post.key post.event n] := by
  have bound : c.session.Binds ⟨post.key, post.event, slot, reg⟩ n := addressed.bound reach.session
  have same {x : Errand} {q : Nat} {post' : Post} (inHand' : c.InHand x q post') :
      x = ⟨post.key, post.event, slot, reg⟩ ∧ q = p ∧ post' = post := by
    obtain rfl : q = p := Nat.succ.inj (inHand'.now.symm.trans inHand.now)
    exact ⟨Option.some.inj (inHand'.errand.symm.trans inHand.errand), rfl,
      Option.some.inj (inHand'.found.symm.trans inHand.found)⟩
  cases advanced with
  | aside _ _ _ history _ untaken errand =>
    exact .inl (inHand.of_run history (taken_of_untaken history untaken) errand)
  | passed _ _ _ _ _ idle | took idle => cases idle.symm.trans inHand.errand
  | began inHand' bound' _ _ _ log history errand =>
    obtain ⟨rfl, rfl, rfl⟩ := same inHand'
    obtain rfl := bound'.unique bound
    exact .inr ⟨inHand.handled_of_done (by rw [history]) errand, log⟩
  | skipped inHand' _ untold =>
    obtain ⟨rfl, -⟩ := same inHand'
    exact absurd told untold
  | dropped inHand' unbound =>
    obtain ⟨rfl, -⟩ := same inHand'
    exact absurd bound (unbound n)
  | returned _ _ _ _ history ack errand =>
    exact .inl (inHand.of_run history (taken_of_ack history ack) errand)

end Advanced

theorem advanced_of_step {m : Move} (reach : c.Reach k (.memory {})) (moved : c.step m = some d) :
    c.Advanced d := (faithful_of_reach reach).advanced reach moved

theorem given_of_reach (reach : c.Reach k (.memory {})) :
    c.given.Sublist (c.history.sent.take c.handled) :=
  reach.induct (P := fun c => c.given.Sublist (c.history.sent.take c.handled))
    (fun _ _ _ => .slnil) fun _ _ _ reach before _ moved =>
      (advanced_of_step reach moved).given_sublist (faithful_of_reach reach) before

/-- No event is given to a callback before the loop gets done with it. -/
theorem receivers_of_waiting (reach : c.Reach k (.memory {})) (waiting : c.handled ≤ p) :
    c.receivers p = [] := by
  refine reach.induct (P := fun c => c.handled ≤ p → c.receivers p = []) (fun _ _ _ _ => rfl)
    (fun c m d reach before _ moved waiting => ?_) waiting
  have advanced := advanced_of_step reach moved
  rw [advanced.receivers_eq fun _ => waiting]
  exact before (Nat.le_trans advanced.handled_le waiting)

/-- What has become of an event of a live registration: it waits in the queue, or the loop has it in
hand, or it was given to the callback, or its channel was closed when its turn came. -/
inductive Fate (k : Nesting) (d u : Chronicle) (p : Nat) (post : Post) (slot : Nat)
    (reg : Registration) (n : Nat) : Prop
  | waits (waiting : u.history.taken ≤ p)
  | held (inHand : u.InHand ⟨post.key, post.event, slot, reg⟩ p post)
  | reached (past : p < u.handled) (once : u.receivers p = [(post.key, post.event, n)])
  | lost {v : Chronicle} (before : Runs k d v) (later : Runs k v u)
      (addressed : v.session.Addressed post.key post.event slot reg n) (turn : v.history.Turn p)
      (closed : v.session.client.channels.isOpen post.key = false)

section Fate

variable {slot n : Nat} {reg : Registration} {post : Post} {m : Move} {v : Chronicle}

theorem Fate.step (fate : Fate k d u p post slot reg n) (reach : u.Reach k (.memory {}))
    (found : u.history.posts[p]? = some post)
    (addressed : u.session.Addressed post.key post.event slot reg n) (told : reg.Told post.event)
    (before : Runs k d u) (allowed : k.Allows u.session m) (moved : u.step m = some v) :
    Fate k d v p post slot reg n := by
  have advanced := advanced_of_step reach moved
  cases fate with
  | waits waiting =>
    have faithful := faithful_of_reach reach
    rcases advanced.serves faithful reach found waiting addressed with
      still | ⟨turn, closed | inHand⟩
    · exact .waits still
    · exact .lost before (.step m .refl allowed moved) addressed turn
        (by rw [faithful.memory]; exact closed)
    · exact .held inHand
  | held inHand =>
    rcases advanced.enters reach inHand addressed told with still | ⟨done, log⟩
    · exact .held still
    · refine .reached (done ▸ Nat.lt_succ_self _) ?_
      rw [receivers_of_callback log, if_pos rfl,
        receivers_of_waiting reach (Nat.le_of_eq inHand.handled)]
      rfl
  | reached past once =>
    refine .reached (Nat.lt_of_lt_of_le past advanced.handled_le) ?_
    rw [advanced.receivers_eq fun same => absurd same (Nat.ne_of_lt past), once]
  | lost first later addressed turn closed =>
    exact .lost first (later.step m allowed moved) addressed turn closed

theorem posts_runs (found : c.history.posts[p]? = some post) (runs : Runs k c d) :
    d.history.posts[p]? = some post := by
  induction runs with
  | refl => exact found
  | step m _ _ moved ih =>
    obtain ⟨t, -, rfl, -⟩ := step_eq_some moved
    rw [history_after]
    exact History.posts_run ih _

theorem fate_of_runs (reach : d.Reach k (.memory {})) (found : d.history.posts[p]? = some post)
    (waiting : d.history.taken ≤ p)
    (addressed : d.session.Addressed post.key post.event slot reg n) (told : reg.Told post.event)
    (runs : Runs k d u) (still : u.session.Addressed post.key post.event slot reg n) :
    Fate k d u p post slot reg n := by
  -- Throughout the run, the registration is gone for good, or as it was, and then the event waits
  -- or has met its fate.
  have kept := runs.keeps (P := fun v => Runs k d v ∧ (v.session.Gone n ∨
      v.session.Addressed post.key post.event slot reg n ∧ Fate k d v p post slot reg n))
    reach ⟨.refl, .inr ⟨addressed, .waits waiting⟩⟩ ?_
  · obtain ⟨-, gone | ⟨-, fate⟩⟩ := kept
    · exact absurd still gone.not_addressed
    · exact fate
  · rintro v m w reach ⟨before, known⟩ allowed moved
    refine ⟨before.step m allowed moved, ?_⟩
    have went := session_step moved
    rcases known with gone | ⟨addressed, fate⟩
    · exact .inl (gone.moved
        (.of_happened (Session.consistent_of_reach reach.session) (Session.step_happened went)))
    · rcases addressed.step reach.session went with gone | addressed'
      · exact .inl gone
      · exact .inr ⟨addressed', fate.step reach (posts_runs found before) addressed told before
          allowed moved⟩

theorem taken_of_empty (faithful : c.Faithful)
    (empty : c.session.client.channels.pending = false) :
    c.history.taken = c.history.posts.length := by
  rw [faithful.memory] at empty
  have queue : c.history.channels.queue = [] := by simpa [Channels.pending] using empty
  have letters := faithful.history.letters
  rw [MemoryChannels.letters, queue] at letters
  have none_ := (List.map_eq_nil_iff.mp letters.symm)
  exact Nat.le_antisymm faithful.history.taken_le (List.drop_eq_nil_iff.mp none_)

theorem push_eq {key : ChannelKey} {e : Event} (faithful : c.Faithful)
    (pushed : c.step (.push key e) = some d) : ∃ m, c.history.channels.isOpen key = true ∧
      d.session = { c.session with client := { c.session.client with channels := .memory m } } ∧
      d.history = c.history.after (.push key e) := by
  obtain ⟨t, went, rfl, -⟩ := step_eq_some pushed
  simp only [Session.step, faithful.memory] at went
  split at went
  · rename_i m sent
    obtain rfl := Option.some.inj went
    refine ⟨m, ?_, session_after .., ?_⟩
    · unfold MemoryChannels.push at sent
      split at sent
      · assumption
      · contradiction
    · rw [history_after]
      simp [Session.calls, Session.unnoted, Session.notes, Action.calls, History.run]
  · contradiction

/-- An event that is sent to a registration which stays live has reached its callback once the queue
is empty and the loop has nothing in hand, or was lost because the channel was closed when its turn
came. -/
theorem reached_or_lost {key : ChannelKey} {e : Event} (reach : c.Reach k (.memory {}))
    (addressed : c.session.Addressed key e slot reg n) (told : reg.Told e)
    (channel : reg.channel = key) (pushed : c.step (.push key e) = some d) (runs : Runs k d u)
    (still : u.session.Addressed key e slot reg n)
    (empty : u.session.client.channels.pending = false) (free : u.session.errand = none) :
    u.receivers c.history.posts.length = [(key, e, n)] ∨
      k = .full ∧ ∃ v, Runs k d v ∧ Runs k v u ∧ v.session.Addressed key e slot reg n ∧
        v.history.Turn c.history.posts.length ∧ v.session.client.channels.isOpen key = false := by
  have faithful := faithful_of_reach reach
  obtain ⟨m, opened, session, history⟩ := push_eq faithful pushed
  have found : d.history.posts[c.history.posts.length]? =
      some ⟨key, e, c.history.openings key⟩ := by
    rw [history]
    simp [History.after, opened]
  have waiting : d.history.taken ≤ c.history.posts.length := by
    rw [history]
    exact faithful.history.taken_le
  have allowed : k.Allows c.session (.push key e) := by
    cases k with
    | none => exact fun begins => by contradiction
    | full => trivial
  have reach' := reach.step allowed pushed
  have addressed' : d.session.Addressed key e slot reg n :=
    addressed.of_same (by rw [session]) (by rw [session])
  cases fate_of_runs reach' found waiting addressed' told runs still with
  | waits waiting =>
    have known := (List.getElem?_eq_some_iff.mp (posts_runs found runs)).1
    rw [taken_of_empty (faithful_of_reach (reach'.next runs)) empty] at waiting
    omega
  | held inHand => cases free.symm.trans inHand.errand
  | reached _ once => exact .inl once
  | @lost v before later addressed turn closed =>
    cases k with
    | full => exact .inr ⟨rfl, v, before, later, addressed, turn, closed⟩
    | none =>
      -- Here every channel has a reference for each live registration that uses it.
      have opened := Session.isOpen_of_live (reach'.next before).session addressed.live
      rw [channel] at opened
      cases closed.symm.trans opened

end Fate

end Chronicle
end AudioFocus
