import AudioFocus.Proofs.Homes
import AudioFocus.Proofs.RoundTrip
import Mathlib.Data.List.Induction

/-!
Where live registrations come from. Each was brought by an operation, which fixed its handle, its
owner and its session flag, and it has been in its slot since. The client stays the same process
with the same settings, whatever else changes.
-/
namespace AudioFocus

/-- For whom an operation registers: for the process itself, unless it is for a session. -/
def Operation.owning? {κ : Type} (pid : Int32) : Operation κ → Option (Int32 × Bool)
  | .register _ owner _ session _ | .watch owner _ session _ =>
    some (if session then owner else pid, session)
  | _ => none

namespace Client

variable {κ : Type} {c c' : Client κ} {o : Operation κ} {slot : Nat} {reg : Registration}

theorem owner_eq_ok {session : Bool} {pid owner : Int32} (got : c.owner session pid = .ok owner) :
    owner = (if session then pid else c.pid) ∧ (session = true → 0 < owner) := by
  unfold Client.owner at got
  cases session with
  | false => exact ⟨(Except.ok.inj got).symm, by simp⟩
  | true =>
    simp only [Bool.not_true, Bool.false_eq_true, if_false] at got
    split at got
    · contradiction
    · rename_i positive
      obtain rfl := Except.ok.inj got
      exact ⟨rfl, fun _ => Int32.not_le.mp positive⟩

theorem owner_of_checkRegister {id owner pid : Int32} {streamType : String} {session : Bool}
    (checked : c.checkRegister id owner streamType session = .ok pid) :
    c.owner session owner = .ok pid := by
  unfold checkRegister at checked
  split at checked
  · contradiction
  · split at checked
    · contradiction
    · exact checked

/-- What an operation registers belongs to whom it registers for; a session has a process. -/
theorem owning_of_draft {init : Nat → Registration} (drafted : c.draft o = some (.ok init))
    (slot : Nat) :
    o.owning? c.pid = some ((init slot).owner, (init slot).session) ∧
      ((init slot).session = true → 0 < (init slot).owner) := by
  cases o with
  | register id owner streamType session callback =>
    simp only [draft] at drafted
    cases checked : c.checkRegister id owner streamType session with
    | error e => simp [checked, Except.map] at drafted
    | ok pid =>
      simp only [checked, Except.map, Option.some.injEq, Except.ok.injEq] at drafted
      obtain ⟨rfl, positive⟩ := owner_eq_ok (owner_of_checkRegister checked)
      subst drafted
      exact ⟨rfl, positive⟩
  | watch owner filter session callback =>
    simp only [draft] at drafted
    cases checked : c.owner session owner with
    | error e => simp [checked, Except.map] at drafted
    | ok pid =>
      simp only [checked, Except.map, Option.some.injEq, Except.ok.injEq] at drafted
      obtain ⟨rfl, positive⟩ := owner_eq_ok checked
      subst drafted
      exact ⟨rfl, positive⟩
  | _ => contradiction

/-- Who is live after an operation was live before, or is what the operation has brought. -/
theorem newcomer_call (live : (c.call o).1.registry.registration? slot = some reg) :
    c.registry.registration? slot = some reg ∨
      c.registry.registration? slot = none ∧
        ∃ init, c.draft o = some (.ok init) ∧ reg = init slot := by
  cases brought : o.callback? with
  | none =>
    have same : c.registry.Undisturbed (c.call o).1.registry slot False :=
      undisturbed_call fun callback brings => by cases brought.symm.trans brings
    exact .inl (same.resident reg live)
  | some callback =>
    obtain ⟨drafted, makes, call⟩ := call_eq_draft (c := c) brought
    rw [call] at live
    cases drafted with
    | error e => exact .inl live
    | ok init =>
      have enrolled := enrol_enrolled c init callback
      dsimp only [orRefuse] at live
      generalize c.enrol init callback = result at enrolled live
      cases enrolled with
      | exhausted | duplicate => exact .inl live
      | @unopened i d e vacant fresh failed =>
        obtain ⟨room, empty, -⟩ := Registry.vacancy?_spec vacant
        change Registry.registration? (Registry.bind _ i none) slot = some reg at live
        rw [Registry.registration?_bind, (Registry.Alike.unentered i room empty).registration] at live
        exact .inl live
      | @entered i d vacant fresh opened =>
        obtain ⟨room, empty, -⟩ := Registry.vacancy?_spec vacant
        change d.registry.registration? slot = some reg at live
        rw [(Dispatcher.openChannel_kept opened).1] at live
        change (c.registry.entered i (init i) callback).registration? slot = some reg at live
        rw [Registry.registration?_entered _ _ _ room] at live
        split at live
        · rename_i here
          subst here
          exact .inr ⟨empty, init, makes, (Option.some.inj live).symm⟩
        · exact .inl live

theorem create_settings {config : Config} {pid : Int32} {channels : Channels} {signals : Signals}
    {faults : Faults} (created : create config pid channels signals faults = .ok c) :
    c.config = config ∧ c.pid = pid := by
  unfold create at created
  split at created
  · contradiction
  · split at created <;>
      · obtain ⟨after, -, made⟩ := bind_eq_ok.mp created
        obtain rfl := Except.ok.inj made
        exact ⟨rfl, rfl⟩

/-- What no operation changes: the process, the settings, and how many slots there are. -/
structure Fixed (c c' : Client κ) : Prop where
  pid : c'.pid = c.pid
  config : c'.config = c.config
  capacity : c'.registry.capacity = c.registry.capacity

protected theorem Fixed.refl (c : Client κ) : c.Fixed c := ⟨rfl, rfl, rfl⟩

protected theorem Fixed.trans {c'' : Client κ} (first : c.Fixed c') (second : c'.Fixed c'') :
    c.Fixed c'' where
  pid := second.pid.trans first.pid
  config := second.config.trans first.config
  capacity := second.capacity.trans first.capacity

theorem fixed_withDispatcher {d : Dispatcher κ} (same : d.registry.capacity = c.registry.capacity) :
    c.Fixed (c.withDispatcher d) := ⟨rfl, rfl, same⟩

theorem fixed_ask (fixed : c.Fixed c') (request : Request) (pending : Pending) :
    c.Fixed (c'.ask request pending).1 := ⟨fixed.pid, fixed.config, fixed.capacity⟩

theorem fixed_closeChannel (c : Client κ) (key : ChannelKey) : c.Fixed (c.closeChannel key) :=
  ⟨rfl, rfl, rfl⟩

theorem fixed_giveBack (c : Client κ) (slot : Nat) (reg : Registration) (cause : FocusError) :
    c.Fixed (c.giveBack slot reg cause).1 := by
  unfold giveBack
  split
  · exact .refl c
  · refine ⟨rfl, rfl, ?_⟩
    change (c.registry.vacate slot reg.id reg.space).capacity = _
    unfold Registry.vacate
    split
    · rename_i freed got
      obtain rfl := Registry.release?_eq_some got
      exact (Registry.capacity_modify ..).trans (Registry.capacity_modify ..)
    · rfl

theorem fixed_beginTeardown {slot : Nat} {reg : Registration} {guarded : Bool}
    (begun : c.beginTeardown slot reg = some (c', guarded)) : c.Fixed c' := by
  obtain ⟨-, -, -, rfl⟩ := beginTeardown_eq_some begun
  have claimed : (c.registry.claimed slot).capacity = c.registry.capacity :=
    Registry.capacity_modify ..
  refine ⟨rfl, rfl, ?_⟩
  cases guarded with
  | true => exact (Registry.capacity_modify ..).trans claimed
  | false => exact claimed

theorem fixed_endTeardown (c : Client κ) (slot : Nat) (reg : Registration) (guarded : Bool) :
    c.Fixed (c.endTeardown slot reg guarded) := by
  have released : (c.registry.release slot reg.id reg.space).capacity = c.registry.capacity :=
    (c.registry.after_frame (.release slot reg.id reg.space)).1
  refine ⟨rfl, rfl, ?_⟩
  change (if guarded then ((c.registry.release slot reg.id reg.space).unbind slot reg.id
    reg.space).unguard slot else c.registry.release slot reg.id reg.space).capacity = _
  cases guarded with
  | true => exact (Registry.capacity_modify ..).trans ((Registry.capacity_modify ..).trans released)
  | false => exact released

theorem fixed_torn {entries : List (Nat × Registration)} {result : Client κ × Progress}
    (torn : Torn c entries result) : c.Fixed result.1 := by
  cases torn with
  | none =>
    unfold removeGuard
    split
    · exact ⟨rfl, rfl, rfl⟩
    · exact .refl c
  | next _ _ _ begun => exact fixed_ask (fixed_beginTeardown begun) _ _

theorem fixed_call (c : Client κ) (o : Operation κ) : c.Fixed (c.call o).1 := by
  have called := call_called c o
  generalize c.call o = result at called
  cases called with
  | ended => exact .refl c
  | asked => exact ⟨rfl, rfl, rfl⟩
  | entered _ _ _ opened =>
    have kept := congrArg Registry.capacity (Dispatcher.openChannel_kept opened).1
    exact fixed_ask (fixed_withDispatcher (kept.trans (Registry.capacity_modify ..))) _ _
  | unopened =>
    refine ⟨rfl, rfl, ?_⟩
    simp [Registry.bind, Registry.freed, Registry.claimed, Registry.entered,
      Registry.capacity_modify]
  | torn _ _ begun => exact fixed_ask (fixed_beginTeardown begun) _ _
  | finalized _ torn =>
    have stopped : c.Fixed c.stop := ⟨rfl, rfl, by rw [stop_registry]⟩
    exact stopped.trans (fixed_torn torn)

theorem fixed_raise (c : Client κ) (signal : FatalSignal) : c.Fixed (c.raise signal).1 := by
  unfold raise
  split
  · split <;> exact ⟨rfl, rfl, rfl⟩
  · exact ⟨rfl, rfl, rfl⟩

theorem fixed_announced (c : Client κ) (slot : Nat) (reg : Registration) (reply : Result Reply) :
    c.Fixed (c.announced slot reg reply).1 := by
  have announced := announced_announced c slot reg reply
  generalize c.announced slot reg reply = result at announced
  have claimed : c.Fixed (c.withRegistry (c.registry.claimed slot)) :=
    ⟨rfl, rfl, Registry.capacity_modify ..⟩
  cases announced with
  | served => exact ⟨rfl, rfl, rfl⟩
  | left => exact .refl c
  | refused =>
    have closed := claimed.trans (fixed_closeChannel _ reg.channel)
    exact closed.trans (fixed_giveBack _ slot reg _)
  | unstarted => exact fixed_ask claimed _ _

theorem fixed_resume (c : Client κ) (p : Pending) (reply : Result Reply) :
    c.Fixed (c.resume p reply).1 := by
  cases p with
  | query | reportingExit | notifyingExit => exact ⟨rfl, rfl, rfl⟩
  | registering slot reg => exact fixed_announced c slot reg reply
  | undoing slot reg cause =>
    exact (fixed_closeChannel c reg.channel).trans (fixed_giveBack _ slot reg cause)
  | tearingDown slot reg guarded rest =>
    have ended := fixed_endTeardown c slot reg guarded
    cases rest with
    | none => exact ended
    | some entries => exact ended.trans (fixed_torn (teardownAll_torn _ entries))

end Client

namespace Session

variable {n : Nesting} {s t : Session} {m : Move} {slot : Nat} {reg : Registration}

/-- The loop changes nothing but the registry and the channels. -/
theorem dispatcher_of_loop (loops : m = .take ∨ m = .enter) (moved : s.step m = some t) :
    ∃ d, t.client = s.client.withDispatcher d := by
  rcases loops with rfl | rfl
  · simp only [step] at moved
    split at moved
    · generalize s.client.nextEvent = result at moved
      obtain ⟨_ | _, d⟩ := result <;> exact ⟨d, by rw [← Option.some.inj moved]⟩
    · contradiction
  · simp only [step, Client.enter] at moved
    split at moved
    · contradiction
    · rename_i x inHand
      generalize s.client.toDispatcher.enter x = result at moved
      obtain ⟨delivery, d⟩ := result
      cases delivery with
      | dropped | skipped | running => exact ⟨d, by rw [← Option.some.inj moved]⟩
      | waiting => contradiction

theorem fixed_of_loop (loops : m = .take ∨ m = .enter) (moved : s.step m = some t) :
    s.client.Fixed t.client := by
  obtain ⟨d, same⟩ := dispatcher_of_loop loops moved
  rw [same]
  apply Client.fixed_withDispatcher
  have registry : t.client.registry = d.registry := by rw [same]; rfl
  rw [← registry]
  cases step_happened moved with
  | started _ _ _ guarded =>
    exact (congrArg Registry.capacity guarded).trans (Registry.capacity_modify ..)
  | took _ _ _ _ kept | aside kept => exact congrArg Registry.capacity kept
  | called | raised | replied | returned => simp at loops

theorem fixed_of_outside (outside : m.outside = true) (moved : s.step m = some t) :
    s.client.Fixed t.client := by
  cases outside_of_step outside moved with
  | injected | pushed | received | rewritten => exact ⟨rfl, rfl, rfl⟩

theorem fixed_of_step (moved : s.step m = some t) : s.client.Fixed t.client := by
  cases m with
  | call o =>
    simp only [step] at moved
    split at moved
    · obtain rfl := Option.some.inj moved
      rw [client_advance]
      exact Client.fixed_call s.client o
    · contradiction
  | raise signal =>
    obtain rfl := Option.some.inj moved
    rw [client_advance]
    exact Client.fixed_raise s.client signal
  | reply reply =>
    simp only [step] at moved
    split at moved
    · obtain rfl := Option.some.inj moved
      rw [client_advance]
      exact Client.fixed_resume s.client _ reply
    · contradiction
  | take => exact fixed_of_loop (.inl rfl) moved
  | enter => exact fixed_of_loop (.inr rfl) moved
  | returns =>
    simp only [step] at moved
    split at moved
    · obtain rfl := Option.some.inj moved
      apply Client.fixed_withDispatcher
      rw [Dispatcher.finish, Dispatcher.sendAck_registry]
      exact Registry.capacity_modify ..
    · contradiction
  | inject | push | takeAck | files => exact fixed_of_outside rfl moved

theorem Happened.newcomer (happened : s.Happened m t)
    (live : t.client.registry.registration? slot = some reg) :
    s.client.registry.registration? slot = some reg ∨
      s.client.registry.registration? slot = none ∧
        ∃ o init, m = .call o ∧ s.client.draft o = some (.ok init) ∧ reg = init slot := by
  cases happened with
  | called o =>
    rw [client_advance] at live
    rcases Client.newcomer_call live with before | ⟨empty, init, drafted, made⟩
    · exact .inl before
    · exact .inr ⟨empty, o, init, rfl, drafted, made⟩
  | raised signal =>
    rw [client_advance] at live
    have same : s.client.registry.Undisturbed (s.client.raise signal).1.registry slot False :=
      Client.undisturbed_raise signal
    exact .inl (same.resident reg live)
  | @replied op place pending frames reply =>
    rw [client_advance] at live
    have same : s.client.registry.Undisturbed (s.client.resume pending reply).1.registry slot
        False := Client.undisturbed_resume False.elim reply
    exact .inl (same.resident reg live)
  | @started _ _ c _ _ _ guarded =>
    change c.registry.registration? slot = some reg at live
    rw [guarded, Registry.registration?_guard] at live
    exact .inl live
  | returned =>
    simp only [Client.finish, Client.withDispatcher, Dispatcher.finish, Dispatcher.sendAck_registry,
      Registry.registration?_unguard] at live
    exact .inl live
  | @took _ c _ _ _ _ registry | @aside _ c _ registry =>
    change c.registry.registration? slot = some reg at live
    rw [registry] at live
    exact .inl live

theorem fixed_of_runs (runs : Runs n s t) : s.client.Fixed t.client := by
  induction runs with
  | refl => exact .refl _
  | step m _ _ moved ih => exact ih.trans (fixed_of_step moved)

theorem play_concat {moves : List Move} {u : Session} :
    s.play n (moves ++ [m]) = some u ↔
      ∃ t, s.play n moves = some t ∧ n.Allows t m ∧ t.step m = some u := by
  rw [play_append, Option.bind_eq_some_iff]
  refine exists_congr fun t => and_congr_right fun _ => ?_
  simp only [play, List.foldlM_cons, List.foldlM_nil, bind_pure]
  split
  · rename_i allowed
    simp [allowed]
  · rename_i refused
    simp [refused]

/-- In a run of these moves, an operation has brought a registration, which has been in its slot
since. -/
inductive Brought (n : Nesting) (first : Session) (slot : Nat) (reg : Registration)
    (o : Operation Nat) : List Move → Session → Prop
  | made {moves : List Move} {s t : Session} (before : first.play n moves = some s)
      (allowed : n.Allows s (.call o)) (moved : s.step (.call o) = some t)
      (free : s.client.registry.registration? slot = none)
      (live : t.client.registry.registration? slot = some reg) :
    Brought n first slot reg o (moves ++ [.call o]) t
  | kept {moves : List Move} {m : Move} {s t : Session} (before : Brought n first slot reg o moves s)
      (allowed : n.Allows s m) (moved : s.step m = some t)
      (live : t.client.registry.registration? slot = some reg) :
    Brought n first slot reg o (moves ++ [m]) t

section Brought

variable {first : Session} {o : Operation Nat} {moves : List Move}

theorem Brought.drafted (brought : Brought n first slot reg o moves s) :
    ∃ init, first.client.draft o = some (.ok init) ∧ reg = init slot := by
  induction brought with
  | @made moves s t before allowed moved free live =>
    rcases (step_happened moved).newcomer live with old | ⟨-, o', init, call, drafted, made⟩
    · rw [free] at old
      contradiction
    · obtain rfl := Move.call.inj call
      have pid := (fixed_of_runs (Runs.refl.of_play before)).pid
      exact ⟨init, (Client.draft_congr pid o).symm.trans drafted, made⟩
  | kept _ _ _ _ ih => exact ih

/-- Whoever is live in a run that began with nobody was brought in the course of it. -/
theorem brought_of_live (nobody : ∀ i, first.client.registry.registration? i = none)
    (played : first.play n moves = some s)
    (live : s.client.registry.registration? slot = some reg) :
    ∃ o, Brought n first slot reg o moves s := by
  induction moves using List.reverseRecOn generalizing s with
  | nil =>
    obtain rfl := Option.some.inj played
    rw [nobody] at live
    contradiction
  | append_singleton moves m ih =>
    obtain ⟨u, before, allowed, moved⟩ := play_concat.mp played
    rcases (step_happened moved).newcomer live with old | ⟨free, o, init, rfl, -, -⟩
    · obtain ⟨o, brought⟩ := ih before old
      exact ⟨o, brought.kept allowed moved live⟩
    · exact ⟨o, .made before allowed moved free live⟩

end Brought

theorem exists_play_of_runs (runs : Runs n s t) : ∃ moves, s.play n moves = some t := by
  induction runs with
  | refl => exact ⟨[], rfl⟩
  | step m _ allowed moved ih =>
    obtain ⟨moves, played⟩ := ih
    exact ⟨moves ++ [m], play_concat.mpr ⟨_, played, allowed, moved⟩⟩

/-- Whoever is live is what some operation registers in this slot. -/
theorem drafted_of_live (reach : Reach n s)
    (live : s.client.registry.registration? slot = some reg) :
    ∃ o init, s.client.draft o = some (.ok init) ∧ reg = init slot := by
  obtain ⟨config, pid, channels, signals, faults, client, created, -, runs⟩ := reach
  have nobody : ∀ i, client.registry.registration? i = none := by
    simp [(Client.create_eq_ok created).2.1]
  obtain ⟨moves, played⟩ := exists_play_of_runs runs
  obtain ⟨o, brought⟩ := brought_of_live nobody played live
  obtain ⟨init, drafted, made⟩ := brought.drafted
  exact ⟨o, init, (Client.draft_congr (fixed_of_runs runs).pid o).trans drafted, made⟩

theorem capacity_of_reach (reach : Reach n s) :
    s.client.registry.capacity = s.client.config.maxHandles := by
  obtain ⟨config, pid, channels, signals, faults, client, created, -, runs⟩ := reach
  obtain ⟨-, settings, capacity⟩ := fixed_of_runs runs
  have registry := (Client.create_eq_ok created).2.1
  have given := (Client.create_settings created).1
  rw [capacity, settings, given]
  simp [registry, Registry.capacity, Registry.ofCapacity]

end Session
end AudioFocus
