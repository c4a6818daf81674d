import AudioFocus.Proofs.Accounting

/-!
A registration that fails leaves nothing behind, whichever of its steps it fails at. What it has
taken by then is its slot, its channel and the arbiter's word, and it gives them back in the
opposite order.
-/
namespace AudioFocus

namespace Client

variable {κ : Type}

/-- What an operation registers in the slot that it gets, if its arguments are accepted. -/
def draft (c : Client κ) : Operation κ → Option (Result (Nat → Registration))
  | .register id owner streamType session _ =>
    some ((c.checkRegister id owner streamType session).map fun owner _ =>
      .ofFocus owner id session streamType)
  | .watch owner filter session _ =>
    some ((c.owner session owner).map fun owner => .ofWatch owner filter session)
  | _ => none

/-- The channel of what an operation registers. It does not depend on the slot. -/
def channel? (c : Client κ) (o : Operation κ) : Option ChannelKey :=
  match c.draft o with
  | some (.ok init) => some (init 0).channel
  | _ => none

/-- A request with the reply to it, and what the system has in store when the reply comes. -/
structure Answer where
  request : Request
  reply : Result Reply
  faults : Faults

def withFaults (c : Client κ) (faults : Faults) : Client κ := { c with faults }

/-- An operation goes on to its end. While the arbiter serves its requests, nothing else is done to
the client. -/
inductive Completes : Client κ × Progress → List Answer → Client κ → Result Value → Prop
  | finished (c : Client κ) (result : Result Value) :
    Completes (c, .finished result) [] c result
  | answered {c c' : Client κ} {request : Request} {pending : Pending} {answers : List Answer}
      {result : Result Value} (reply : Result Reply) (faults : Faults)
      (rest : Completes ((c.withFaults faults).resume pending reply) answers c' result) :
    Completes (c, .asking request pending) (⟨request, reply, faults⟩ :: answers) c' result

theorem Completes.of_finished {r : Client κ × Progress} {result : Result Value}
    (ended : r.2 = .finished result) : Completes r [] r.1 result := by
  obtain ⟨c, p⟩ := r
  obtain rfl : p = .finished result := ended
  exact .finished c result

theorem Completes.of_asking {r : Client κ × Progress} {c : Client κ} {p : Pending}
    {answer : Answer} {answers : List Answer} {result : Result Value}
    (asks : r.2 = .asking answer.request p)
    (rest : Completes ((r.1.withFaults answer.faults).resume p answer.reply) answers c result) :
    Completes r (answer :: answers) c result := by
  obtain ⟨c', q⟩ := r
  obtain rfl : q = .asking answer.request p := asks
  exact .answered answer.reply answer.faults rest

/-- The step that a registration fails at: the error that it ends with, and its requests. -/
inductive Fails (c : Client κ) (o : Operation κ) : FocusError → List Answer → Prop
  | rejected {e : FocusError} (drafted : c.draft o = some (.error e)) : Fails c o e []
  | exhausted {init : Nat → Registration} (drafted : c.draft o = some (.ok init))
      (full : c.registry.vacancy? = none) : Fails c o (.exhausted c.registry.capacity) []
  | duplicate {init : Nat → Registration} {slot : Nat} (drafted : c.draft o = some (.ok init))
      (vacant : c.registry.vacancy? = some slot)
      (taken : c.registry.has (init slot).id (init slot).space = true) :
    Fails c o (.invalid (.registered (init slot).id)) []
  | unopened {init : Nat → Registration} {slot : Nat} {e : FocusError}
      (drafted : c.draft o = some (.ok init)) (vacant : c.registry.vacancy? = some slot)
      (fresh : c.registry.has (init slot).id (init slot).space = false)
      (failed : (c.openChannel (init slot).channel).1 = .error e) : Fails c o e []
  /-- The arbiter does not answer that it is done. -/
  | refused {init : Nat → Registration} {slot : Nat} {e : FocusError} {reply : Result Reply}
      {faults : Faults} (drafted : c.draft o = some (.ok init))
      (vacant : c.registry.vacancy? = some slot)
      (fresh : c.registry.has (init slot).id (init slot).space = false)
      (opened : (c.openChannel (init slot).channel).1 = .ok ())
      (outcome : Reply.expectDone (init slot).announcement.method reply = .error e) :
    Fails c o e [⟨(init slot).announcement, reply, faults⟩]
  /-- The loop has no thread to start on, and the announcement is taken back. -/
  | unstarted {init : Nat → Registration} {slot : Nat} {n : Int32} {reply : Result Reply}
      {faults faults' : Faults} (drafted : c.draft o = some (.ok init))
      (vacant : c.registry.vacancy? = some slot)
      (fresh : c.registry.has (init slot).id (init slot).space = false)
      (opened : (c.openChannel (init slot).channel).1 = .ok ()) (stopped : c.running = false)
      (failing : faults.threads = some n) :
    Fails c o (.system (.code n)) [⟨(init slot).announcement, .ok .done, faults⟩,
      ⟨(init slot).withdrawal, reply, faults'⟩]

/-- All is as it was before an operation: the live registrations, their claims and callbacks, what
is counted of the channels, and the loop. So are the files, if those of the operation's channel did
not exist. -/
structure Restored (c : Client κ) (o : Operation κ) (c' : Client κ) : Prop where
  registry : c'.registry.Alike c.registry
  counts : c'.channels.counts? = c.channels.counts?
  running : c'.running = c.running
  files : (∀ key, c.channel? o = some key → c.channels.Absent key) →
    c.channels.SameFiles c'.channels

protected theorem Restored.refl (c : Client κ) (o : Operation κ) : c.Restored o c :=
  ⟨.refl _, rfl, rfl, fun _ => .refl _⟩

theorem call_eq_draft {c : Client κ} {o : Operation κ} {callback : κ}
    (brought : o.callback? = some callback) :
    ∃ drafted, c.draft o = some drafted ∧
      c.call o = c.orRefuse drafted fun init => c.enrol init callback := by
  cases o with
  | register id owner streamType session callback' =>
    obtain rfl := Option.some.inj brought
    refine ⟨_, rfl, ?_⟩
    simp only [call]
    cases c.checkRegister id owner streamType session <;> rfl
  | watch owner filter session callback' =>
    obtain rfl := Option.some.inj brought
    refine ⟨_, rfl, ?_⟩
    simp only [call]
    cases c.owner session owner <;> rfl
  | _ => contradiction

theorem draft_cases {c : Client κ} {o : Operation κ} {init : Nat → Registration}
    (drafted : c.draft o = some (.ok init)) :
    (∃ id owner streamType session callback pid,
      o = .register id owner streamType session callback ∧ ¬ id < 0 ∧
        init = fun _ => .ofFocus pid id session streamType) ∨
    ∃ owner filter session callback pid,
      o = .watch owner filter session callback ∧ init = .ofWatch pid filter session := by
  cases o with
  | register id owner streamType session callback =>
    cases checked : c.checkRegister id owner streamType session with
    | error e => simp [draft, checked, Except.map] at drafted
    | ok pid =>
      simp only [draft, checked, Except.map, Option.some.injEq, Except.ok.injEq] at drafted
      have natural : ¬ id < 0 := by
        intro negative
        simp [checkRegister, negative] at checked
      exact .inl ⟨id, owner, streamType, session, callback, pid, rfl, natural, drafted.symm⟩
  | watch owner filter session callback =>
    cases checked : c.owner session owner with
    | error e => simp [draft, checked, Except.map] at drafted
    | ok pid =>
      simp only [draft, checked, Except.map, Option.some.injEq, Except.ok.injEq] at drafted
      exact .inr ⟨owner, filter, session, callback, pid, rfl, drafted.symm⟩
  | _ => contradiction

theorem channel?_eq {c : Client κ} {o : Operation κ} {init : Nat → Registration}
    (drafted : c.draft o = some (.ok init)) (slot : Nat) :
    c.channel? o = some (init slot).channel := by
  unfold channel?
  rw [drafted]
  rcases draft_cases drafted with
    ⟨id, owner, streamType, session, callback, pid, -, -, rfl⟩ |
      ⟨owner, filter, session, callback, pid, -, rfl⟩
  · rfl
  · rfl

theorem openChannel_withRegistry {c : Client κ} {r : Registry κ} {key : ChannelKey}
    {outcome : Result Unit} {d : Dispatcher κ}
    (opened : (c.withRegistry r).openChannel key = (outcome, d)) :
    (c.openChannel key).1 = outcome := by
  obtain rfl : ((c.withRegistry r).openChannel key).1 = outcome := congrArg Prod.fst opened
  unfold Dispatcher.openChannel
  dsimp only [withRegistry]
  split
  · rfl
  · split <;> rfl

section Rollback

variable {c : Client κ} {o : Operation κ} {init : Nat → Registration} {slot : Nat} {callback : κ}

theorem restored_unopened (balanced : c.Balanced) (drafted : c.draft o = some (.ok init))
    (vacant : c.registry.vacancy? = some slot) {d : Dispatcher κ} {e : FocusError}
    (failed : (c.withRegistry (c.registry.entered slot (init slot) callback)).openChannel
      (init slot).channel = (.error e, d)) :
    c.Restored o ((c.withDispatcher d).withRegistry
      ((((c.registry.entered slot (init slot) callback).claimed slot).freed slot).bind slot
        none)) := by
  obtain ⟨room, empty, -⟩ := Registry.vacancy?_spec vacant
  have channels := openChannel_error failed
  refine ⟨?_, ?_, (Dispatcher.openChannel_kept failed).2, fun absent => ?_⟩
  · exact .trans (.bind slot none (by simp [Registry.registration?_freed]))
      (.unentered slot room empty)
  · change d.channels.counts? = c.channels.counts?
    rcases channels with same | ⟨e', refused⟩
    · rw [same]
      rfl
    · exact Channels.counts?_openChannel_error refused
  · change c.channels.SameFiles d.channels
    rcases channels with same | ⟨e', refused⟩
    · rw [same]
      exact .refl _
    · exact Channels.sameFiles_openChannel_error balanced.sound
        (absent _ (channel?_eq drafted slot)) refused

theorem restored_of_giveBack (balanced : c.Balanced) (drafted : c.draft o = some (.ok init))
    (vacant : c.registry.vacancy? = some slot) {c' c'' : Client κ} {cause e : FocusError}
    {answers : List Answer}
    (completes : Completes ((c'.closeChannel (init slot).channel).giveBack slot (init slot) cause)
      answers c'' (.error e))
    (registry : c'.registry = (c.registry.entered slot (init slot) callback).claimed slot)
    (opened : c.channels.openChannel (init slot).channel = (.ok (), c'.channels))
    (running : c'.running = c.running) : c.Restored o c'' ∧ e = cause ∧ answers = [] := by
  obtain ⟨room, empty, unguarded⟩ := Registry.vacancy?_spec vacant
  have free : (c'.closeChannel (init slot).channel).registry.isGuarded slot = false := by
    change c'.registry.isGuarded slot = false
    simp [registry, unguarded]
  have held : c'.registry.Holds slot (init slot).id (init slot).space :=
    ⟨init slot, by simp [registry, Registry.registration?_entered _ _ _ room], rfl, rfl⟩
  rw [giveBack, if_neg (by simp [free])] at completes
  cases completes
  refine ⟨⟨?_, ?_, running, fun absent => ?_⟩, rfl, rfl⟩
  · change (c'.registry.vacate slot (init slot).id (init slot).space).Alike c.registry
    rw [Registry.vacate_of_holds held, registry]
    exact .trans (.bind slot none (by simp [Registry.registration?_freed]))
      (.unentered slot room empty)
  · exact Channels.counts?_closeChannel_openChannel balanced.counted opened
  · exact Channels.sameFiles_closeChannel_openChannel balanced.counted balanced.sound
      (absent _ (channel?_eq drafted slot)) opened

theorem restored_of_announced (balanced : c.Balanced) (drafted : c.draft o = some (.ok init))
    (vacant : c.registry.vacancy? = some slot)
    (fresh : c.registry.has (init slot).id (init slot).space = false)
    (openable : (c.openChannel (init slot).channel).1 = .ok ()) {c' c'' : Client κ}
    {reply : Result Reply} {answers : List Answer} {e : FocusError}
    (completes : Completes (c'.announced slot (init slot) reply) answers c'' (.error e))
    (registry : c'.registry = c.registry.entered slot (init slot) callback)
    (opened : c.channels.openChannel (init slot).channel = (.ok (), c'.channels))
    (running : c'.running = c.running) :
    c.Restored o c'' ∧
      c.Fails o e (⟨(init slot).announcement, reply, c'.faults⟩ :: answers) := by
  obtain ⟨room, -, -⟩ := Registry.vacancy?_spec vacant
  have live : c'.registry.registration? slot = some (init slot) := by
    simp [registry, Registry.registration?_entered _ _ _ room]
  have unclaimed : c'.registry.isClosing slot = false := by
    simp [registry, Registry.isClosing_entered]
  have claimed : c'.registry.claimed slot =
      (c.registry.entered slot (init slot) callback).claimed slot := by rw [registry]
  have announced := announced_announced c' slot (init slot) reply
  generalize c'.announced slot (init slot) reply = result at announced completes
  cases announced with
  | served => contradiction
  | left e barred =>
    -- Nothing else was done to the client, so the slot is still unclaimed.
    have free := Registry.claim?_eq_some.mpr ⟨⟨init slot, live, rfl, rfl⟩, unclaimed, rfl⟩
    cases free.symm.trans barred
  | refused outcome =>
    obtain ⟨restored, rfl, rfl⟩ :=
      restored_of_giveBack balanced drafted vacant completes claimed opened running
    exact ⟨restored, .refused drafted vacant fresh openable outcome⟩
  | unstarted done stopped failing live' =>
    obtain rfl := Option.some.inj (live.symm.trans live')
    subst done
    cases completes with
    | answered reply faults rest =>
      obtain ⟨restored, rfl, rfl⟩ :=
        restored_of_giveBack balanced drafted vacant rest claimed opened running
      exact ⟨restored, .unstarted drafted vacant fresh openable (running ▸ stopped) failing⟩

end Rollback

theorem Balanced.restored {c : Client κ} (balanced : c.Balanced) {o : Operation κ} {callback : κ}
    (registers : o.callback? = some callback) {answers : List Answer} {c' : Client κ}
    {e : FocusError} (completes : Completes (c.call o) answers c' (.error e)) :
    c.Restored o c' ∧ c.Fails o e answers := by
  obtain ⟨draft, drafted, called⟩ := call_eq_draft registers
  rw [called] at completes
  cases draft with
  | error e =>
    cases completes
    exact ⟨.refl c o, .rejected drafted⟩
  | ok init =>
    have enrolled := enrol_enrolled c init callback
    change Completes (c.enrol init callback) answers c' (.error e) at completes
    generalize c.enrol init callback = result at enrolled completes
    cases enrolled with
    | exhausted full =>
      cases completes
      exact ⟨.refl c o, .exhausted drafted full⟩
    | duplicate vacant taken =>
      cases completes
      exact ⟨.refl c o, .duplicate drafted vacant taken⟩
    | @unopened slot d cause vacant fresh failed =>
      cases completes
      exact ⟨restored_unopened balanced drafted vacant failed,
        .unopened drafted vacant fresh (openChannel_withRegistry failed)⟩
    | @entered slot d vacant fresh opened =>
      obtain ⟨registry, running⟩ := Dispatcher.openChannel_kept opened
      have channels := openChannel_ok opened
      cases completes with
      | answered reply faults rest =>
        exact restored_of_announced balanced drafted vacant fresh
          (openChannel_withRegistry opened) rest registry channels running

end Client

namespace Session

/-- A registration that fails leaves the client as it was, and the files too, if those of its
channel did not exist. Its error is that of the step that failed, and so are its requests. -/
theorem restored_of_error {s : Session} (reach : Reach .none s) {o : Operation Nat}
    {callback : Nat} (registers : o.callback? = some callback) {answers : List Client.Answer}
    {c : Client Nat} {e : FocusError}
    (completes : Client.Completes (s.client.call o) answers c (.error e)) :
    s.client.Restored o c ∧ s.client.Fails o e answers :=
  (accounted_of_reach reach).balanced.restored registers completes

/-- A watch is refused while a callback runs. -/
theorem restored_of_error_of_refused_watch :
    let s := played .none 2 [.call (.register 5 0 "media" false 0), .reply (.ok .done),
      .push (.focus 7 5) ⟨9, 5, .playback, .acquired, "", "", ""⟩, .take, .enter]
    let o : Operation Nat := .watch 0 .both false 1
    let answers : List Client.Answer := [⟨.setWatch 7 2 .both false, .error (.rejected 3), {}⟩]
    Reach .none s ∧ ∃ c, Client.Completes (s.client.call o) answers c (.error (.rejected 3)) ∧
      s.client.Restored o c ∧ s.client.Fails o (.rejected 3) answers := by
  intro s o answers
  have reach : Reach .none s := reach_played (by decide) (by decide)
  have completes : Client.Completes (s.client.call o) answers _ (.error (.rejected 3)) :=
    .of_asking (p := .registering 1 (.ofWatch 7 .both false 1)) rfl (.of_finished rfl)
  exact ⟨reach, _, completes, restored_of_error reach rfl completes⟩

end Session
end AudioFocus
