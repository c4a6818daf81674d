import AudioFocus.Proofs.Chronicle

/-!
The loop, one event after the other. An event of a live handle is in hand until the loop gets the
guard of the handle's slot, and if the callback there is still for the handle, it is acknowledged
once: at once if a watch is not told of it, else when its callback returns, whatever that has done
meanwhile, and before the loop takes the next event. An event of no live handle goes
unacknowledged, and so does one whose handle was withdrawn while the loop waited for the guard.
-/
namespace AudioFocus
namespace Chronicle

/-- The acknowledgements that the client has sent, or failed to send, oldest first. -/
def acks (c : Chronicle) : List (ChannelKey × Int32) :=
  c.session.client.trace.filterMap Action.ack?

variable {k : Nesting} {channels : Channels} {c d t u : Chronicle} {m : Move}

section Acks

theorem acks_of_step (reach : c.Reach k channels) (moved : c.step m = some d) :
    d.acks = c.acks ++ (c.session.notes d.session).filterMap Action.ack? := by
  have noted := (Session.noted_of_step reach.session (session_step moved)).1
  rw [acks, noted.trace, List.filterMap_append]
  rfl

theorem acks_of_apart (reach : c.Reach k channels) (moved : c.step m = some d)
    (apart : m.delivers = false) : d.acks = c.acks := by
  have silent := (Session.noted_of_step reach.session (session_step moved)).2 apart
  rw [acks_of_step reach moved, List.filterMap_eq_nil_iff.mpr silent, List.append_nil]

/-- A callback that returns is acknowledged, and nothing else is. -/
theorem acks_of_return (reach : c.Reach k channels) (returned : c.step .returns = some d) :
    ∃ slot key e n, c.session.frames = .callback slot key e n :: d.session.frames ∧
      d.acks = c.acks ++ [(key, e.handle)] := by
  have acks := acks_of_step reach returned
  have went := session_step returned
  simp only [Session.step] at went
  split at went
  · rename_i slot key e n frames top
    refine ⟨slot, key, e, n, ?_⟩
    have same := Option.some.inj went
    obtain ⟨-, a, notes, ack⟩ :=
      c.session.returned_noted slot key e frames
    rw [← same] at acks ⊢
    rw [notes] at acks
    exact ⟨top, by simpa [ack] using acks⟩
  · contradiction

end Acks

/-- A callback is under way that was started with these frames and dispatches beneath it. -/
def Within (c : Chronicle) (f : Frame) (below : List Frame) (x : Dispatch)
    (rest : List Dispatch) : Prop :=
  ∃ above newer, c.session.frames = above ++ f :: below ∧ c.inside = newer ++ x :: rest ∧
    newer.length = above.countP Frame.isCallback

section Within

variable {f : Frame} {below : List Frame} {x : Dispatch} {rest : List Dispatch}

theorem split_above {above gone kept : List Frame} (same : above ++ f :: below = gone ++ kept)
    (callback : f.isCallback = true) (plain : ∀ g ∈ gone, g.isCallback = false) :
    ∃ above', above = gone ++ above' ∧ kept = above' ++ f :: below := by
  rcases List.append_eq_append_iff.mp same with ⟨more, longer, rest⟩ | ⟨above', rfl, rest⟩
  · cases more with
    | nil => exact ⟨[], by simpa using longer.symm, by simpa using rest.symm⟩
    | cons g more =>
      obtain ⟨rfl, -⟩ := List.cons.inj rest
      have member : f ∈ gone := longer ▸ List.mem_append_right above List.mem_cons_self
      cases callback.symm.trans (plain f member)
  · exact ⟨above', rfl, rest⟩

theorem countP_plain {frames : List Frame} (plain : ∀ g ∈ frames, g.isCallback = false) :
    frames.countP Frame.isCallback = 0 :=
  List.countP_eq_zero.mpr fun g member => by simp [plain g member]

/-- A callback stays under way until it returns. -/
theorem Within.step (within : c.Within f below x rest) (callback : f.isCallback = true)
    (reach : c.Reach k channels) (moved : c.step m = some d) : d.Within f below x rest ∨
      m = .returns ∧ c.session.frames = f :: below ∧ c.inside = x :: rest ∧
        d.session.frames = below ∧ d.inside = rest := by
  obtain ⟨above, newer, frames, inside, even⟩ := within
  obtain ⟨t, went, rfl, -⟩ := step_eq_some moved
  rw [session_after]
  cases apart : m.delivers with
  | false =>
    obtain ⟨gone, kept, more, before, after, plain⟩ := Session.frames_of_step went apart
    rw [List.forall_mem_append] at plain
    obtain ⟨above', rfl, rfl⟩ := split_above (frames.symm.trans before) callback plain.1
    refine .inl ⟨more ++ above', newer, by rw [session_after, after, List.append_assoc], ?_, ?_⟩
    · rw [(after_apart apart).1, inside]
    · rw [even, List.countP_append, List.countP_append, countP_plain plain.1, countP_plain plain.2]
  | true =>
    cases m with
    | take =>
      have same := (Session.taken_of_step reach.session went).frames.1
      exact .inl ⟨above, newer, by rw [session_after, same, frames], inside, even⟩
    | enter =>
      left
      obtain ⟨y, -, -, handled⟩ := Session.handled_of_step reach.session went
      rcases handled.frames.1 with same | ⟨n, -, started⟩
      · exact ⟨above, newer, by rw [session_after, same, frames],
          (inside_of_same same).trans inside, even⟩
      · refine ⟨.callback y.slot y.key y.event n :: above, ⟨c.starts, c.last⟩ :: newer, ?_, ?_, ?_⟩
        · rw [session_after, started, frames]
          rfl
        · rw [inside_of_started started, inside]
          rfl
        · rw [List.length_cons, List.countP_cons_of_pos rfl, even]
    | returns =>
      simp only [Session.step] at went
      split at went
      · rename_i slot key e n frames' top
        obtain rfl := Option.some.inj went
        rw [frames] at top
        cases above with
        | nil =>
          obtain rfl := List.length_eq_zero_iff.mp even
          refine .inr ⟨rfl, frames, inside, (List.cons.inj top).2.symm, ?_⟩
          exact (congrArg List.tail inside : c.inside.tail = rest)
        | cons g above =>
          obtain ⟨rfl, rfl⟩ := List.cons.inj top
          rw [List.countP_cons_of_pos rfl] at even
          obtain ⟨y, newer, rfl⟩ := List.exists_cons_of_length_eq_add_one even
          refine .inl ⟨above, newer, rfl, ?_, by simpa using even⟩
          exact (congrArg List.tail inside : c.inside.tail = _)
      · contradiction
    | _ => contradiction

theorem Within.run (within : c.Within f below x rest) (callback : f.isCallback = true)
    (reach : c.Reach k channels) (runs : Runs k c d) : d.Within f below x rest ∨
      ∃ v w, Runs k c v ∧ v.session.frames = f :: below ∧ v.inside = x :: rest ∧
        v.step .returns = some w ∧ w.session.frames = below ∧ w.inside = rest ∧ Runs k w d := by
  induction runs with
  | refl => exact .inl within
  | @step d u m before allowed moved ih =>
    rcases ih with within | ⟨v, w, runs, top, own, returned, frames, inside, later⟩
    · rcases within.step callback (reach.next before) moved with
        within | ⟨rfl, top, own, frames, inside⟩
      · exact .inl within
      · exact .inr ⟨d, u, before, top, own, moved, frames, inside, .refl⟩
    · exact .inr ⟨v, w, runs, top, own, returned, frames, inside, later.step m allowed moved⟩

end Within

section Attentive

/-- While the loop has an event in hand, it runs, and none of its callbacks is under way. -/
def Attentive (c : Chronicle) : Prop :=
  c.session.errand.isSome = true → c.session.client.running = true ∧ c.idle = true

theorem running_of_reading (reading : c.reading = true) : c.session.client.running = true :=
  (Bool.and_eq_true_iff.mp (Bool.and_eq_true_iff.mp reading).1).1

theorem free_of_reading (reading : c.reading = true) : c.session.errand = none :=
  Option.isNone_iff_eq_none.mp (Bool.and_eq_true_iff.mp (Bool.and_eq_true_iff.mp reading).1).2

theorem idle_of_reading (reading : c.reading = true) : c.idle = true :=
  (Bool.and_eq_true_iff.mp reading).2

theorem reading_of (running : c.session.client.running = true) (free : c.session.errand = none)
    (idle : c.idle = true) : c.reading = true := by
  simp [Chronicle.reading, running, free, idle]

/-- No other loop is started while this one runs. -/
theorem idle_after (idle : c.idle = true) (running : c.session.client.running = true)
    {t : Session} (inside : (c.after m t).inside ⊆ c.inside) : (c.after m t).idle = true := by
  have starts := starts_after c m t
  rw [running] at starts
  simp only [Bool.not_true, Bool.false_and, Bool.false_eq_true, if_false, Nat.add_zero] at starts
  rw [Chronicle.idle, starts]
  exact List.all_eq_true.mpr fun x member => List.all_eq_true.mp idle x (inside member)

theorem attentive_step (attentive : c.Attentive) (reach : c.Reach k channels)
    (moved : c.step m = some d) : d.Attentive := by
  intro holds
  obtain ⟨t, went, rfl, reading⟩ := step_eq_some moved
  rw [session_after] at holds ⊢
  obtain ⟨x, inHand⟩ := Option.isSome_iff_exists.mp holds
  have happened := Session.step_happened went
  rcases happened.errand inHand with before | ⟨rfl, -⟩
  · obtain ⟨running, idle⟩ := attentive (by simp [before])
    refine ⟨happened.running_of_errand before running, idle_after idle running ?_⟩
    cases apart : m.delivers with
    | false => rw [(after_apart apart).1]; exact List.Subset.refl _
    | true =>
      cases m with
      | take => exact List.Subset.refl _
      | enter =>
        obtain ⟨y, -, -, handled⟩ := Session.handled_of_step reach.session went
        cases handled.frames.2.1.symm.trans inHand
      | returns => exact fun _ member => List.mem_of_mem_tail member
      | _ => contradiction
  · have same := (Session.taken_of_step reach.session went).frames.2
    have running := running_of_reading (reading rfl)
    exact ⟨same.trans running,
      idle_after (idle_of_reading (reading rfl)) running (List.Subset.refl c.inside)⟩

theorem attentive_of_reach (reach : c.Reach k channels) : c.Attentive :=
  reach.induct (P := Attentive) (fun _ _ _ holds => by contradiction)
    fun _ _ _ reach attentive _ moved => attentive_step attentive reach moved

end Attentive

section Take

variable {key : ChannelKey} {e : Event} {d' : Dispatcher Nat} {slot n : Nat} {reg : Registration}

theorem step_take (reading : c.reading = true) {t : Session}
    (moved : c.session.step .take = some t) : c.step .take = some (c.after .take t) := by
  simp [step, reading, moved]

/-- What the loop takes is not acknowledged yet. -/
theorem acks_of_take (reach : c.Reach k channels) (moved : c.step .take = some d) :
    d.acks = c.acks := by
  have taken := Session.taken_of_step reach.session (session_step moved)
  rw [acks_of_step reach moved, taken.noted.2, List.filterMap_nil, List.append_nil]

theorem reading_of_free (reading : c.reading = true) {t : Session}
    (running : t.client.running = c.session.client.running) (free : t.errand = none) :
    (c.after .take t).reading = true := by
  have runs := running_of_reading reading
  exact reading_of (by rw [session_after, running, runs]) (by rw [session_after, free])
    (idle_after (idle_of_reading reading) runs (List.Subset.refl c.inside))

theorem take_unknown (reach : c.Reach k channels) (reading : c.reading = true)
    (next : c.session.client.nextEvent = (some (key, e), d'))
    (unknown : ∀ slot reg n, ¬ c.session.Addressed key e slot reg n) :
    ∃ t, c.step .take = some t ∧ t.session.frames = c.session.frames ∧ t.acks = c.acks ∧
      t.reading = true := by
  have free := free_of_reading reading
  have moved := Session.step_unknown reach.session (running_of_reading reading) free next unknown
  have stepped := step_take reading moved
  have same := (Session.taken_of_step reach.session moved).frames.2
  exact ⟨_, stepped, by rw [session_after], acks_of_take reach stepped,
    reading_of_free reading same free⟩

theorem take_addressed (reach : c.Reach k channels) (reading : c.reading = true)
    (next : c.session.client.nextEvent = (some (key, e), d'))
    (addressed : c.session.Addressed key e slot reg n) :
    ∃ t, c.step .take = some t ∧ t.session.frames = c.session.frames ∧ t.acks = c.acks ∧
      t.session.errand = some ⟨key, e, slot, reg⟩ := by
  have stepped := step_take reading (Session.step_addressed reach.session
    (running_of_reading reading) (free_of_reading reading) next addressed)
  exact ⟨_, stepped, by rw [session_after], acks_of_take reach stepped, by rw [session_after]⟩

theorem waits_of_busy (busy : c.session.errand.isSome = true ∨ c.idle = false) :
    c.step .take = none := by
  have reading : c.reading = false := by
    rcases busy with inHand | serving
    · simp [Chronicle.reading, Option.isNone_eq_false_iff.mpr inHand]
    · simp [Chronicle.reading, serving]
  simp [step, reading]

/-- The loop has an event in hand, and takes no other. -/
def Carries (c : Chronicle) (x : Errand) : Prop :=
  c.session.errand = some x ∧ c.step .take = none

theorem carries_of_errand {x : Errand} (inHand : c.session.errand = some x) : c.Carries x :=
  ⟨inHand, waits_of_busy (.inl (by simp [inHand]))⟩

/-- The loop has an event in hand until it goes on with it. -/
theorem carried {x : Errand} (inHand : c.session.errand = some x) (runs : Runs k c u) :
    u.Carries x ∨ ∃ v w, Runs k c v ∧ v.Carries x ∧ v.step .enter = some w ∧ Runs k w u := by
  induction runs with
  | refl => exact .inl (carries_of_errand inHand)
  | @step d u m before allowed moved ih =>
    rcases ih with still | ⟨v, w, earlier, carries, entered, later⟩
    · rcases (Session.step_happened (session_step moved)).errand_kept still.1 with same | rfl
      · exact .inl (carries_of_errand same)
      · exact .inr ⟨d, u, before, still, moved, .refl⟩
    · exact .inr ⟨v, w, earlier, carries, entered, later.step m allowed moved⟩

end Take

section Enter

variable {x : Errand} {n : Nat}

theorem step_enter {t : Session} (moved : c.session.step .enter = some t) :
    c.step .enter = some (c.after .enter t) := by
  simp [step, moved]

/-- A loop that has done with what it had in hand, and runs no callback for it, goes on. -/
theorem reading_of_entered (reach : c.Reach k channels) (inHand : c.session.errand = some x)
    {t : Session} (running : t.client.running = c.session.client.running) (free : t.errand = none)
    (frames : t.frames = c.session.frames) : (c.after .enter t).reading = true := by
  obtain ⟨runs, idle⟩ := attentive_of_reach reach (by simp [inHand])
  exact reading_of (by rw [session_after, running, runs]) (by rw [session_after, free])
    (idle_after idle runs (inside_of_same frames ▸ List.Subset.refl _))

theorem enter_guarded (inHand : c.session.errand = some x)
    (held : c.session.client.registry.isGuarded x.slot = true) : c.step .enter = none := by
  simp [step, Session.step_guarded inHand held]

theorem enter_unbound (reach : c.Reach k channels) (inHand : c.session.errand = some x)
    (free : c.session.client.registry.isGuarded x.slot = false)
    (unbound : ∀ n, ¬ c.session.Binds x n) : ∃ t, c.step .enter = some t ∧
      t.session.frames = c.session.frames ∧ t.acks = c.acks ∧ t.reading = true := by
  have stepped := step_enter (Session.step_unbound inHand free unbound)
  have acks := acks_of_step reach stepped
  have silent : c.session.notes { c.session with errand := none } = [] :=
    Session.notes_eq (List.append_nil _).symm
  rw [session_after, silent] at acks
  exact ⟨_, stepped, by rw [session_after], by simpa using acks,
    reading_of_entered reach inHand rfl rfl rfl⟩

theorem enter_untold (reach : c.Reach k channels) (inHand : c.session.errand = some x)
    (free : c.session.client.registry.isGuarded x.slot = false) (bound : c.session.Binds x n)
    (untold : ¬ x.reg.Told x.event) : ∃ t, c.step .enter = some t ∧
      t.session.frames = c.session.frames ∧ t.acks = c.acks ++ [(x.key, x.event.handle)] ∧
      t.reading = true := by
  have stepped := step_enter (Session.step_untold reach.session inHand free bound untold)
  have acks := acks_of_step reach stepped
  obtain ⟨a, did, ack⟩ := c.session.client.toDispatcher.sendAck_did x.key x.event.handle
  rw [session_after, Session.notes_eq did.trace] at acks
  refine ⟨_, stepped, by rw [session_after], by simpa [ack] using acks,
    reading_of_entered reach inHand ?_ rfl rfl⟩
  exact c.session.client.toDispatcher.sendAck_running x.key x.event.handle

theorem enter_told (reach : c.Reach k channels) (inHand : c.session.errand = some x)
    (free : c.session.client.registry.isGuarded x.slot = false) (bound : c.session.Binds x n)
    (told : x.reg.Told x.event) : ∃ t, c.step .enter = some t ∧ t.acks = c.acks ∧
      t.session.frames = .callback x.slot x.key x.event n :: c.session.frames ∧
      t.inside = ⟨c.starts, c.last⟩ :: c.inside := by
  have stepped := step_enter (Session.step_told reach.session inHand free bound told)
  have acks := acks_of_step reach stepped
  have silent := (Session.Handled.started bound told).noted.2.resolve_right fun acked =>
    acked.1 told
  rw [session_after, silent] at acks
  exact ⟨_, stepped, by simpa using acks, by rw [session_after], inside_of_started rfl⟩

end Enter

/-- A callback is under way, started where the loop had these frames. Its loop takes no event. -/
def Serving (c : Chronicle) (loop : Nat) (f : Frame) (below : List Frame) : Prop :=
  (∃ above, c.session.frames = above ++ f :: below) ∧ (c.starts = loop → c.step .take = none)

theorem busy_of_mem {x : Dispatch} (member : x ∈ c.inside) (same : c.starts = x.loop) :
    c.idle = false := by
  rw [Chronicle.idle, List.all_eq_false]
  exact ⟨x, member, by simp [same]⟩

/-- A callback that was started by the loop that runs now is under way until it returns; then the
loop has nothing in hand. -/
theorem served {p : Nat} (reach : d.Reach k channels)
    (idle : c.idle = true) {slot n : Nat} {key : ChannelKey} {e : Event}
    (frames : d.session.frames = .callback slot key e n :: c.session.frames)
    (inside : d.inside = ⟨c.starts, p⟩ :: c.inside) (runs : Runs k d u) :
    u.Serving c.starts (.callback slot key e n) c.session.frames ∨
      ∃ v w, Runs k d v ∧ v.session.frames = .callback slot key e n :: c.session.frames ∧
        v.step .returns = some w ∧ Runs k w u ∧ w.session.frames = c.session.frames ∧
        w.acks = v.acks ++ [(key, e.handle)] ∧
        (w.session.client.running = true → w.starts = c.starts → w.reading = true) := by
  have within : d.Within (.callback slot key e n) c.session.frames ⟨c.starts, p⟩ c.inside :=
    ⟨[], [], frames, inside, rfl⟩
  rcases within.run rfl reach runs with
    ⟨above, newer, frames, inside, -⟩ | ⟨v, w, before, top, own, returned, frames, rest, later⟩
  · exact .inl ⟨⟨above, frames⟩, fun same => waits_of_busy (.inr
      (busy_of_mem (inside ▸ List.mem_append_right newer List.mem_cons_self) same))⟩
  · obtain ⟨slot', key', e', n', top', acks⟩ := acks_of_return (reach.next before) returned
    rw [top, frames] at top'
    obtain ⟨rfl, rfl, rfl, rfl⟩ := Frame.callback.inj (List.cons.inj top').1
    refine .inr ⟨v, w, before, top, returned, later, frames, acks, fun running same => ?_⟩
    obtain ⟨t, went, rfl, -⟩ := step_eq_some returned
    rw [session_after] at running
    obtain ⟨errand, alike⟩ : t.errand = v.session.errand ∧
        t.client.running = v.session.client.running := by
      simp only [Session.step, top, Option.some.injEq] at went
      subst went
      exact ⟨rfl, Dispatcher.sendAck_running ..⟩
    have starts : v.starts = c.starts := by
      rw [← same, starts_after, alike]
      simp
    refine reading_of (by rw [session_after, running]) ?_ ?_
    · rw [session_after, errand]
      cases inHand : v.session.errand with
      | none => rfl
      | some x =>
        have calm := (attentive_of_reach (reach.next before) (by simp [inHand])).2
        have member : ⟨c.starts, p⟩ ∈ v.inside := own ▸ List.mem_cons_self
        cases (busy_of_mem member starts).symm.trans calm
    · rw [Chronicle.idle, same, rest]
      exact idle

/-- What becomes of an event that the loop takes. If no live registration has the handle, neither a
callback nor an acknowledgement follows. If one has it, the loop has the event in hand, and takes no
other, until it gets the guard of the slot. If the callback there is for the handle then, as it is
while the registration is live, a watch that is not told of the event has it acknowledged at once;
else the callback starts, its loop takes no event until it returns, and when it returns, the event
is acknowledged, once. If the callback is not for the handle any more, the event is dropped. Then
the loop goes on, unless it was stopped. Nothing else acknowledges. -/
theorem acknowledged_once (reach : c.Reach .full channels) :
    (∀ key e d', c.session.client.nextEvent = (some (key, e), d') → c.reading = true →
      ((∀ slot reg n, ¬ c.session.Addressed key e slot reg n) → ∃ t, c.step .take = some t ∧
        t.session.frames = c.session.frames ∧ t.acks = c.acks ∧ t.reading = true) ∧
      ∀ slot reg n, c.session.Addressed key e slot reg n → ∃ t, c.step .take = some t ∧
        t.session.frames = c.session.frames ∧ t.acks = c.acks ∧
        ∀ u, Runs .full t u → u.Carries ⟨key, e, slot, reg⟩ ∨
          ∃ v w, Runs .full t v ∧ v.Carries ⟨key, e, slot, reg⟩ ∧ v.step .enter = some w ∧
            Runs .full w u) ∧
    (∀ x, c.Carries x →
      (∀ n, c.session.Addressed x.key x.event x.slot x.reg n → c.session.Binds x n) ∧
      if c.session.client.registry.isGuarded x.slot then c.step .enter = none
      else
        ((∀ n, ¬ c.session.Binds x n) → ∃ t, c.step .enter = some t ∧
          t.session.frames = c.session.frames ∧ t.acks = c.acks ∧ t.reading = true) ∧
        ∀ n, c.session.Binds x n →
          if x.reg.Told x.event then
            ∃ t, c.step .enter = some t ∧ t.acks = c.acks ∧
              t.session.frames = .callback x.slot x.key x.event n :: c.session.frames ∧
              ∀ u, Runs .full t u →
                u.Serving c.starts (.callback x.slot x.key x.event n) c.session.frames ∨
                ∃ v w, Runs .full t v ∧
                  v.session.frames = .callback x.slot x.key x.event n :: c.session.frames ∧
                  v.step .returns = some w ∧ Runs .full w u ∧
                  w.session.frames = c.session.frames ∧
                  w.acks = v.acks ++ [(x.key, x.event.handle)] ∧
                  (w.session.client.running = true → w.starts = c.starts → w.reading = true)
          else ∃ t, c.step .enter = some t ∧ t.session.frames = c.session.frames ∧
            t.acks = c.acks ++ [(x.key, x.event.handle)] ∧ t.reading = true) ∧
    ∀ m t, c.step m = some t →
      (m ≠ .enter → m ≠ .returns → t.acks = c.acks) ∧
      (m = .returns → ∃ slot key e n,
        c.session.frames = .callback slot key e n :: t.session.frames ∧
          t.acks = c.acks ++ [(key, e.handle)]) := by
  refine ⟨fun key e d' next reading => ⟨take_unknown reach reading next,
    fun slot reg n addressed => ?_⟩, fun x carries => ⟨fun n addressed => ?_, ?_⟩,
    fun m t moved => ⟨fun other other' => ?_, ?_⟩⟩
  · obtain ⟨t, taken, frames, acks, inHand⟩ := take_addressed reach reading next addressed
    exact ⟨t, taken, frames, acks, fun u runs => carried inHand runs⟩
  · exact addressed.bound reach.session
  · have inHand := carries.1
    cases free : c.session.client.registry.isGuarded x.slot with
    | true => exact enter_guarded inHand free
    | false =>
      rw [if_neg Bool.false_ne_true]
      refine ⟨enter_unbound reach inHand free, fun n bound => ?_⟩
      split
      · rename_i told
        obtain ⟨t, started, acks, frames, inside⟩ := enter_told reach inHand free bound told
        have idle := (attentive_of_reach reach (by simp [inHand])).2
        exact ⟨t, started, acks, frames, fun u runs =>
          served (reach.step trivial started) idle frames inside runs⟩
      · rename_i untold
        exact enter_untold reach inHand free bound untold
  · cases apart : m.delivers with
    | false => exact acks_of_apart reach moved apart
    | true =>
      cases m with
      | take => exact acks_of_take reach moved
      | _ => contradiction
  · rintro rfl
    exact acks_of_return reach moved

/-- The callback unregisters its own id before it returns. -/
theorem acknowledged_once_of_unregistration :
    let key : ChannelKey := .focus 7 5
    let e : Event := ⟨7, 5, .playback, .acquired, "", "", ""⟩
    let before : List Move :=
      [.call (.register 5 0 "media" false 0), .reply (.ok .done), .push key e]
    let during : List Move := [.call (.unregister 5), .reply (.ok .done)]
    let b := played .full 1 before
    let c := played .full 1 (before ++ [.take])
    let d := played .full 1 (before ++ [.take] ++ [.enter])
    let u := played .full 1 (before ++ [.take] ++ [.enter] ++ (during ++ [.returns]))
    b.Reach .full (.memory {}) ∧ b.step .take = some c ∧ c.acks = b.acks ∧
      c.Carries ⟨key, e, 0, .ofFocus 7 5 false "media"⟩ ∧ c.step .enter = some d ∧
      d.acks = c.acks ∧ u.session.client.liveHandles = 0 ∧
      ∃ v w : Chronicle, v.session.frames = [.callback 0 key e 0] ∧ v.step .returns = some w ∧
        Runs .full w u ∧ w.acks = v.acks ++ [(key, 5)] := by
  intro key e before during b c d u
  have reach : b.Reach .full (.memory {}) := reach_played (by decide) (by decide +kernel)
  have addressed : b.session.Addressed key e 0 (.ofFocus 7 5 false "media") 0 :=
    ⟨by decide +kernel, by decide, by decide +kernel, by decide⟩
  have next : b.session.client.nextEvent = (some (key, e), b.session.client.nextEvent.2) :=
    Prod.ext (by decide +kernel) rfl
  have reading : b.reading = true := by decide +kernel
  obtain ⟨t, taken, -, quiet, -⟩ :=
    ((acknowledged_once reach).1 key e _ next reading).2 _ _ _ addressed
  have went : b.step .take = some c := step_played (by decide +kernel)
  obtain rfl : c = t := Option.some.inj (went.symm.trans taken)
  have carries : c.Carries ⟨key, e, 0, .ofFocus 7 5 false "media"⟩ := by
    obtain ⟨t, taken', -, -, inHand⟩ := take_addressed reach reading next addressed
    obtain rfl : c = t := Option.some.inj (went.symm.trans taken')
    exact carries_of_errand inHand
  obtain ⟨bound, once⟩ := (acknowledged_once (reach.step trivial went)).2.1 _ carries
  rw [if_neg (by decide +kernel)] at once
  have told := once.2 0
    (bound 0 ⟨by decide +kernel, by decide, by decide +kernel, by decide⟩)
  rw [if_pos (by decide)] at told
  obtain ⟨t, started, silent, -, later⟩ := told
  have entered : c.step .enter = some d := step_played (by decide +kernel)
  obtain rfl : d = t := Option.some.inj (entered.symm.trans started)
  have alone : c.session.frames = [] := List.length_eq_zero_iff.mp (by decide +kernel)
  rcases later u (runs_played (by decide +kernel)) with
    ⟨⟨above, frames⟩, -⟩ | ⟨v, w, -, top, returned, runs, -, acks, -⟩
  · have idle : u.session.frames.length = 0 := by decide +kernel
    simp [frames] at idle
  · rw [alone] at top
    exact ⟨reach, went, quiet, carries, entered, silent, by decide +kernel, v, w, top, returned,
      runs, acks⟩

/-- The loop takes an event of a live handle while a teardown holds the guard. When the teardown is
over, the handle is gone, and the loop goes on without a callback and without an acknowledgement. -/
theorem unacknowledged_of_teardown :
    let key : ChannelKey := .focus 7 5
    let e : Event := ⟨7, 5, .playback, .acquired, "", "", ""⟩
    let before : List Move := [.call (.register 5 0 "media" false 0), .reply (.ok .done),
      .push key e, .call (.unregister 5)]
    let c := played .full 1 before
    let d := played .full 1 (before ++ [.take])
    let u := played .full 1 (before ++ [.take] ++ [.reply (.ok .done), .enter, .take])
    c.Reach .full (.memory {}) ∧ c.reading = true ∧
      c.session.client.nextEvent.1 = some (key, e) ∧
      c.session.Addressed key e 0 (.ofFocus 7 5 false "media") 0 ∧ c.step .take = some d ∧
      Runs .full d u ∧ u.reading = true ∧ u.session.client.channels.pending = false ∧
      u.given = [] ∧ u.acks = [] := by
  intro key e before c d u
  exact ⟨reach_played (by decide) (by decide +kernel), by decide +kernel, by decide +kernel,
    ⟨by decide +kernel, by decide, by decide +kernel, by decide⟩, step_played (by decide +kernel),
    runs_played (by decide +kernel), by decide +kernel, by decide +kernel, by decide +kernel,
    by decide +kernel⟩

end Chronicle
end AudioFocus
