import AudioFocus.Proofs.Requests
import AudioFocus.Proofs.Watches

/-!
Whose requests these are. Seven kinds of requests name a registration that is live, with the owner
and the session flag that it was made with. Two of them end it; the others ask the arbiter something
about it and hand on the answer, and the client stays as it is.
-/
namespace AudioFocus

/-- What a request says of the registration that it names. Some say nothing of sessions. -/
structure Subject where
  space : IdSpace
  id : Int32
  owner : Int32
  session : Option Bool

namespace Subject

structure Of (sub : Subject) (reg : Registration) : Prop where
  space : reg.space = sub.space
  id : reg.id = sub.id
  owner : sub.owner = reg.owner
  session : ∀ b ∈ sub.session, b = reg.session

end Subject

/-- Registrations are announced by requests of their own, which do not count. -/
def Request.subject? : Request → Option Subject
  | unregisterFocus owner id session | acquireFocus owner id _ _ _ session
  | releaseFocus owner id _ _ _ session => some ⟨.focus, id, owner, some session⟩
  | setReacquisition owner id _ | getReacquisition owner id => some ⟨.focus, id, owner, none⟩
  | requestUnsetWatch owner id => some ⟨.watch, id, owner, none⟩
  | unsetWatch owner id session => some ⟨.watch, id, owner, some session⟩
  | uniqueId | registerFocus .. | getAcquired _ | setWatch .. | emergentExit _ => none

theorem Registration.subject_announcement (reg : Registration) :
    reg.announcement.subject? = none := by
  cases space : reg.space <;> simp [announcement, space, Request.subject?]

theorem Registration.of_withdrawal {reg : Registration} {sub : Subject}
    (names : reg.withdrawal.subject? = some sub) : sub.Of reg := by
  unfold withdrawal at names
  split at names
  all_goals
    rename_i space
    obtain rfl := Option.some.inj names
    exact ⟨space, rfl, rfl, by simp⟩

/-- A question to the arbiter about a live registration: the handle that it is asked of, the option
that goes with it, the request, and the answers that fit. -/
structure Inquiry where
  space : IdSpace
  id : Int32
  option : Int32 := 0
  request : Registration → Request
  answer? : Reply → Option Value

def Reply.done? : Reply → Option Value
  | done => some .unit
  | _ => none

def Reply.flag? : Reply → Option Value
  | reacquisition b => some (.flag b)
  | _ => none

def Operation.inquiry? {κ : Type} : Operation κ → Option Inquiry
  | acquire id focusType option info => some {
      space := .focus, id, option, answer? := Reply.done?
      request := fun reg => .acquireFocus reg.owner id focusType option info reg.session }
  | release id focusType option info => some {
      space := .focus, id, option, answer? := Reply.done?
      request := fun reg => .releaseFocus reg.owner id focusType option info reg.session }
  | setReacquisition id reacquire => some {
      space := .focus, id, answer? := Reply.done?
      request := fun reg => .setReacquisition reg.owner id reacquire }
  | getReacquisition id => some {
      space := .focus, id, answer? := Reply.flag?
      request := fun reg => .getReacquisition reg.owner id }
  | requestUnwatch id => some {
      space := .watch, id, answer? := Reply.done?
      request := fun reg => .requestUnsetWatch reg.owner id }
  | uniqueId | acquired _ | register .. | unregister _ | watch .. | unwatch _ | finalize => none

namespace Inquiry

/-- What the arbiter has answered, or its error. -/
def outcome (q : Inquiry) (reg : Registration) : Result Reply → Result Value
  | .error e => .error e
  | .ok reply =>
    match q.answer? reply with
    | some v => .ok v
    | none => .error (.unexpectedReply (q.request reg).method)

theorem of_request {κ : Type} {o : Operation κ} {q : Inquiry} (inquires : o.inquiry? = some q)
    {reg : Registration} (named : reg.id = q.id ∧ reg.space = q.space) {sub : Subject}
    (names : (q.request reg).subject? = some sub) : sub.Of reg := by
  obtain ⟨id, space⟩ := named
  cases o with
  | acquire | release | setReacquisition | getReacquisition | requestUnwatch =>
    obtain rfl := Option.some.inj inquires
    obtain rfl := Option.some.inj names
    exact ⟨space, id, rfl, by simp⟩
  | uniqueId | acquired | register | unregister | watch | unwatch | finalize => contradiction

end Inquiry

namespace Client

variable {κ : Type} {c c' : Client κ} {o : Operation κ} {q : Inquiry} {space : IdSpace}
  {id : Int32} {slot : Nat} {reg : Registration}

/-- Finds a live registration by its handle, as its class does. -/
def lookup (c : Client κ) (space : IdSpace) (id : Int32) : Result (Nat × Registration) :=
  match space with
  | .focus => c.focus id
  | .watch => c.watch id

theorem lookup_live (found : c.lookup space id = .ok (slot, reg)) :
    c.registry.registration? slot = some reg ∧ reg.id = id ∧ reg.space = space := by
  cases space with
  | focus => exact focus_live found
  | watch => exact watch_live found

theorem lookup_error {e : FocusError} (missing : c.lookup space id = .error e) :
    ∃ why, e = .invalid why := by
  cases space with
  | focus =>
    simp only [lookup, focus] at missing
    split at missing
    · exact ⟨_, (Except.error.inj missing).symm⟩
    · split at missing
      · contradiction
      · exact ⟨_, (Except.error.inj missing).symm⟩
  | watch =>
    change c.watch id = .error e at missing
    by_cases nonpos : id ≤ 0
    · rw [watch_of_nonpos nonpos] at missing
      exact ⟨_, (Except.error.inj missing).symm⟩
    · have blamed := watch_of_pos nonpos fun found same => by
        rw [same] at missing
        contradiction
      exact ⟨_, Except.error.inj (missing.symm.trans blamed)⟩

/-- A registration is live with this handle. Watches beyond the last slot that an id can tell are
not to be found. -/
def Knows (c : Client κ) (space : IdSpace) (id : Int32) (reg : Registration) : Prop :=
  ∃ slot, c.registry.registration? slot = some reg ∧ reg.id = id ∧ reg.space = space ∧
    (space = .watch → slot < watchLimit)

theorem knows_of_lookup (found : c.lookup space id = .ok (slot, reg)) : c.Knows space id reg := by
  obtain ⟨live, named, same⟩ := lookup_live found
  refine ⟨slot, live, named, same, fun watch => ?_⟩
  subst watch
  exact small_of_watchSlot (watchSlot_of_watch found)

/-- An operation asks the arbiter once and hands on what that replies, and the client stays as it
is. -/
structure Inquires (c : Client κ) (o : Operation κ) (r : Request)
    (outcome : Result Reply → Result Value) : Prop where
  registry : (c.call o).1.registry = c.registry
  channels : (c.call o).1.channels = c.channels
  running : (c.call o).1.running = c.running
  trace : (c.call o).1.trace = c.trace ++ [.request r]
  ends : ∃ p, (c.call o).2 = .asking r p ∧
    ∀ (later : Client κ) (reply : Result Reply),
      later.resume p reply = (later, .finished (outcome reply))

theorem call_inquiry (c : Client κ) (inquires : o.inquiry? = some q) : ∃ query : Query,
    (c.call o = c.orRefuse (c.lookup q.space q.id) fun found =>
      c.orRefuse (checkOption q.option) fun () => c.ask (q.request found.2) (.query query)) ∧
    ∀ reg, query.read = q.outcome reg := by
  cases o with
  | acquire | release | setReacquisition | requestUnwatch =>
    obtain rfl := Option.some.inj inquires
    refine ⟨.plain _, rfl, fun reg => funext fun reply => ?_⟩
    rcases reply with _ | (_ | _ | _ | _) <;> rfl
  | getReacquisition =>
    obtain rfl := Option.some.inj inquires
    refine ⟨.reacquisition, rfl, fun reg => funext fun reply => ?_⟩
    rcases reply with _ | (_ | _ | _ | _) <;> rfl
  | uniqueId | acquired | register | unregister | watch | unwatch | finalize => contradiction

theorem inquires_of_lookup (inquires : o.inquiry? = some q)
    (found : c.lookup q.space q.id = .ok (slot, reg)) (natural : 0 ≤ q.option) :
    c.Inquires o (q.request reg) (q.outcome reg) := by
  obtain ⟨query, call, read⟩ := c.call_inquiry inquires
  have accepted : checkOption q.option = .ok () := if_neg (Int32.not_lt.mpr natural)
  simp only [found, accepted, orRefuse] at call
  refine ⟨by rw [call]; rfl, by rw [call]; rfl, by rw [call]; rfl, by rw [call]; rfl, ?_⟩
  refine ⟨.query query, by rw [call]; rfl, fun later reply => ?_⟩
  rw [← read reg]
  rfl

theorem refused_of_inquiry (inquires : o.inquiry? = some q)
    (invalid : (∀ reg, ¬ c.Knows q.space q.id reg) ∨ q.option < 0) :
    ∃ why, c.call o = (c, .finished (refuse why)) := by
  obtain ⟨query, call, -⟩ := c.call_inquiry inquires
  cases found : c.lookup q.space q.id with
  | error e =>
    obtain ⟨why, rfl⟩ := lookup_error found
    simp only [found, orRefuse] at call
    exact ⟨why, call⟩
  | ok entry =>
    rcases invalid with unknown | negative
    · exact absurd (knows_of_lookup found) (unknown entry.2)
    · have rejected : checkOption q.option = refuse (.negativeOption q.option) := if_pos negative
      simp only [found, rejected, orRefuse] at call
      exact ⟨_, call⟩

/-- A request of this subject is about a registration that is live before and after. -/
def Concerns (c c' : Client κ) (sub : Subject) : Prop :=
  ∃ slot reg, c.registry.registration? slot = some reg ∧
    c'.registry.registration? slot = some reg ∧ sub.Of reg

section Concerns

variable {r : Request} {sub : Subject} {p : Pending}

theorem not_asking_giveBack {cause : FocusError} :
    (c.giveBack slot reg cause).2 ≠ .asking r p := by
  unfold giveBack
  split <;> simp

theorem concerns_of_torn {entries : List (Nat × Registration)} {result : Client κ × Progress}
    (known : ∀ e ∈ entries, ∀ reg, c.registry.registration? e.1 = some reg → reg = e.2)
    (torn : Torn c entries result) (asks : result.2 = .asking r p)
    (names : r.subject? = some sub) : c.Concerns result.1 sub := by
  cases torn with
  | none => contradiction
  | @next passed rest slot reg c' guarded split refused begun =>
    obtain ⟨rfl, -⟩ := Progress.asking.inj asks
    obtain ⟨⟨other, live, -⟩, -⟩ := beginTeardown_eq_some begun
    obtain rfl : other = reg := known (slot, reg) (by simp [split]) other live
    exact ⟨slot, other, live, (registration?_beginTeardown begun slot).trans live,
      Registration.of_withdrawal names⟩

theorem concerns_of_teardown (live : c.registry.registration? slot = some reg)
    (asks : (c.teardown slot reg).2 = .asking r p) (names : r.subject? = some sub) :
    c.Concerns (c.teardown slot reg).1 sub := by
  unfold teardown at asks ⊢
  cases begun : c.beginTeardown slot reg with
  | none =>
    rw [begun] at asks
    contradiction
  | some next =>
    obtain ⟨c', guarded⟩ := next
    rw [begun] at asks
    obtain ⟨rfl, -⟩ := Progress.asking.inj asks
    exact ⟨slot, reg, live, (registration?_beginTeardown begun slot).trans live,
      Registration.of_withdrawal names⟩

theorem not_asking_orRefuse {α : Type} {x : Result α} {next : α → Client κ × Progress}
    (asks : (c.orRefuse x next).2 = .asking r p) : ∃ a, x = .ok a ∧ c.orRefuse x next = next a := by
  cases x with
  | error e => contradiction
  | ok a => exact ⟨a, rfl, rfl⟩

theorem subject_of_enrol {init : Nat → Registration} {callback : κ}
    (asks : (c.enrol init callback).2 = .asking r p) : r.subject? = none := by
  have enrolled := enrol_enrolled c init callback
  generalize c.enrol init callback = result at enrolled asks
  cases enrolled with
  | exhausted | duplicate | unopened => contradiction
  | entered =>
    obtain ⟨rfl, -⟩ := Progress.asking.inj asks
    exact Registration.subject_announcement _

theorem concerns_of_inquiry (inquires : o.inquiry? = some q)
    (asks : (c.call o).2 = .asking r p) (names : r.subject? = some sub) :
    c.Concerns (c.call o).1 sub := by
  obtain ⟨query, call, -⟩ := c.call_inquiry inquires
  rw [call] at asks ⊢
  obtain ⟨⟨slot, reg⟩, found, same⟩ := not_asking_orRefuse asks
  rw [same] at asks ⊢
  obtain ⟨-, -, same⟩ := not_asking_orRefuse asks
  rw [same] at asks ⊢
  obtain ⟨rfl, -⟩ := Progress.asking.inj asks
  obtain ⟨live, named⟩ := lookup_live found
  exact ⟨slot, reg, live, live, Inquiry.of_request inquires named names⟩

theorem concerns_of_call (asks : (c.call o).2 = .asking r p) (names : r.subject? = some sub) :
    c.Concerns (c.call o).1 sub := by
  cases o with
  | acquire | release | setReacquisition | getReacquisition | requestUnwatch =>
    exact concerns_of_inquiry rfl asks names
  | uniqueId =>
    obtain ⟨rfl, -⟩ := Progress.asking.inj asks
    contradiction
  | acquired focusType =>
    simp only [call] at asks
    split at asks
    · contradiction
    · obtain ⟨rfl, -⟩ := Progress.asking.inj asks
      contradiction
  | register | watch =>
    obtain ⟨_, -, same⟩ := not_asking_orRefuse asks
    have enrols := (congrArg Prod.snd same).symm.trans asks
    rw [subject_of_enrol enrols] at names
    contradiction
  | unregister id =>
    obtain ⟨⟨slot, reg⟩, found, same⟩ := not_asking_orRefuse asks
    have tears : c.call (.unregister id) = c.teardown slot reg := same
    rw [tears] at asks ⊢
    exact concerns_of_teardown (focus_live found).1 asks names
  | unwatch id =>
    obtain ⟨⟨slot, reg⟩, found, same⟩ := not_asking_orRefuse asks
    have tears : c.call (.unwatch id) = c.teardown slot reg := same
    rw [tears] at asks ⊢
    exact concerns_of_teardown (watch_live found).1 asks names
  | finalize =>
    have torn := teardownAll_torn c.stop c.stop.registry.live
    have listed : ∀ e ∈ c.stop.registry.live, ∀ reg,
        c.stop.registry.registration? e.1 = some reg → reg = e.2 := by
      rintro ⟨slot, reg⟩ member other live
      exact Option.some.inj (live.symm.trans (Registry.mem_live.mp member))
    obtain ⟨slot, reg, live, rest⟩ := concerns_of_torn listed torn asks names
    rw [stop_registry] at live
    exact ⟨slot, reg, live, rest⟩

theorem concerns_of_resume (current : p.Current c.registry) {reply : Result Reply} {next : Pending}
    (asks : (c.resume p reply).2 = .asking r next) (names : r.subject? = some sub) :
    c.Concerns (c.resume p reply).1 sub := by
  cases p with
  | query | reportingExit | notifyingExit => contradiction
  | registering slot reg =>
    have announced := announced_announced c slot reg reply
    change (c.announced slot reg reply).2 = _ at asks
    change c.Concerns (c.announced slot reg reply).1 sub
    generalize c.announced slot reg reply = result at announced asks
    cases announced with
    | served | left => contradiction
    | refused => exact absurd asks not_asking_giveBack
    | @unstarted n other _ _ _ live =>
      obtain ⟨rfl, -⟩ := Progress.asking.inj asks
      have claimed : (c.registry.claimed slot).registration? slot = some other := by simpa using live
      exact ⟨slot, other, live, claimed, Registration.of_withdrawal names⟩
  | undoing slot reg cause => exact absurd asks not_asking_giveBack
  | tearingDown slot reg guarded rest =>
    obtain ⟨live, known⟩ := current
    cases rest with
    | none => contradiction
    | some entries =>
      -- What is left after this teardown was there before it.
      have left (i : Nat) (other : Registration)
          (there : (c.endTeardown slot reg guarded).registry.registration? i = some other) :
          c.registry.registration? i = some other := by
        rw [registration?_endTeardown ⟨reg, live, rfl, rfl⟩] at there
        split at there
        · contradiction
        · exact there
      have torn := teardownAll_torn (c.endTeardown slot reg guarded) entries
      obtain ⟨i, other, there, rest⟩ := concerns_of_torn
        (fun e member other there => known e member other (left e.1 other there)) torn asks names
      exact ⟨i, other, left i other there, rest⟩

end Concerns

end Client

namespace Session

variable {n : Nesting} {s t : Session} {m : Move} {r : Request} {sub : Subject} {slot : Nat}
  {reg : Registration}

theorem distinct_of_reach (reach : Reach n s) : s.client.registry.Distinct := by
  rintro i j id space ⟨reg, live, rfl, rfl⟩ ⟨other, live', same⟩
  exact (recorded_of_reach reach).handles_distinct (consistent_of_reach reach).tenanted
    (occupant?_live live) (occupant?_live live') ⟨same.2.symm, same.1.symm⟩

theorem natural_of_focus (reach : Reach n s)
    (live : s.client.registry.registration? slot = some reg) (space : reg.space = .focus) :
    ¬ reg.id < 0 := by
  obtain ⟨o, init, drafted, rfl⟩ := drafted_of_live reach live
  rcases Client.draft_cases drafted with
    ⟨_, _, _, _, _, _, -, natural, rfl⟩ | ⟨_, _, _, _, _, -, rfl⟩
  · exact natural
  · contradiction

/-- Whoever is known is found. -/
theorem lookup_of_knows (reach : Reach n s) {space : IdSpace} {id : Int32}
    (known : s.client.Knows space id reg) : ∃ slot, s.client.lookup space id = .ok (slot, reg) := by
  obtain ⟨slot, live, rfl, same, small⟩ := known
  refine ⟨slot, ?_⟩
  cases space with
  | focus =>
    have used : reg.id ≠ Registry.freeId := by
      intro free
      have natural := natural_of_focus reach live same
      rw [free] at natural
      exact natural (by decide)
    have found := find?_of_live reach live used
    rw [same] at found
    simp only [Client.lookup, Client.focus, found, live]
  | watch =>
    apply Client.watch_eq_ok.mpr
    refine ⟨?_, live, rfl, same⟩
    rw [id_of_watch reach live same]
    exact watchSlot_watchId (small rfl)

/-- While nothing begins before a reply, a request is about a registration that is live. -/
theorem concerns_of_noted (reach : Reach .none s) (moved : s.step m = some t)
    (noted : .request r ∈ s.notes t) (names : r.subject? = some sub) :
    s.client.Concerns t.client sub := by
  have sent := sent_of_noted reach moved noted
  generalize t.client = client at sent
  cases sent with
  | called asks => exact Client.concerns_of_call asks names
  | @raised signal p asks =>
    unfold Client.raise at asks
    split at asks
    · split at asks
      · contradiction
      · obtain ⟨rfl, -⟩ := Progress.asking.inj asks
        contradiction
    · contradiction
  | replied top asks =>
    have orderly := (accounted_of_reach reach).orderly
    rw [top] at orderly
    exact Client.concerns_of_resume orderly.of_asking.1 asks names

/-- A request that names a registration carries the owner and the session flag that were fixed when
the one that has the handle now was made: the client's own process, or the process that a session
was registered for. That one is live when the request is sent. The operations that only ask do so
exactly for a handle that is live and with an option that is natural; they change nothing else, and
hand on what the arbiter has answered. -/
theorem subject_registered {config : Config} {pid : Int32} {channels : Channels}
    {signals : Signals} {faults : Faults} {client : Client Nat}
    (created : Client.create config pid channels signals faults = .ok client)
    (unused : channels.Unused) {moves : List Move}
    (played : ({ client } : Session).play .none moves = some s) :
    (∀ m t, Nesting.none.Allows s m → s.step m = some t →
      ∀ r sub, .request r ∈ s.notes t → r.subject? = some sub →
        ∃ slot reg o, Brought .none { client } slot reg o moves s ∧
          t.client.registry.registration? slot = some reg ∧ sub.Of reg ∧
          (∀ i, t.client.registry.Holds i sub.id sub.space → i = slot) ∧
          o.owning? pid = some (reg.owner, reg.session) ∧
          (reg.session = true → 0 < reg.owner)) ∧
    ∀ (o : Operation Nat) q, o.inquiry? = some q →
      (∀ reg, s.client.Knows q.space q.id reg → 0 ≤ q.option →
        s.client.Inquires o (q.request reg) (q.outcome reg)) ∧
      ((∀ reg, ¬ s.client.Knows q.space q.id reg) ∨ q.option < 0 →
        ∃ why, s.client.call o = (s.client, .finished (refuse why))) := by
  have runs : Runs .none { client } s := Runs.refl.of_play played
  have reach : Reach .none s := ⟨config, pid, channels, signals, faults, client, created, unused, runs⟩
  constructor
  · intro m t allowed moved r sub noted names
    obtain ⟨slot, reg, before, after, about⟩ := concerns_of_noted reach moved noted names
    have nobody : ∀ i, client.registry.registration? i = none := by
      simp [(Client.create_eq_ok created).2.1]
    obtain ⟨o, brought⟩ := brought_of_live nobody played before
    obtain ⟨init, drafted, rfl⟩ := brought.drafted
    have later : Reach .none t := reach.next (Runs.refl.step m allowed moved)
    have owning := Client.owning_of_draft drafted slot
    rw [show client.pid = pid from (Client.create_settings created).2] at owning
    refine ⟨slot, init slot, o, brought, after, about, fun i held => ?_, owning⟩
    exact distinct_of_reach later i slot sub.id sub.space held ⟨_, after, about.id, about.space⟩
  · intro o q inquires
    refine ⟨fun reg known natural => ?_, Client.refused_of_inquiry inquires⟩
    obtain ⟨slot, found⟩ := lookup_of_knows reach known
    exact Client.inquires_of_lookup inquires found natural

/-- 5 was registered for a session of process 40, and then again for none: it is acquired for the
client's own process 7, though the second registration has named 40 as well. 6 is not registered. -/
theorem subject_registered_of_new_owner :
    let moves : List Move := [.call (.register 5 40 "media" true 0), .reply (.ok .done),
      .call (.unregister 5), .reply (.ok .done), .call (.register 5 40 "media" false 2),
      .reply (.ok .done)]
    let s := played .none 2 moves
    let t := played .none 2 (moves ++ [.call (.acquire 5 .playback 0 "")])
    .request (.acquireFocus 7 5 .playback 0 "" false) ∈ s.notes t ∧
      (∃ slot reg o, Brought .none (fresh 2) slot reg o moves s ∧ reg.id = 5 ∧ reg.owner = 7 ∧
        reg.session = false) ∧
      ∃ why, s.client.call (.release 6 .playback 0 "") = (s.client, .finished (refuse why)) := by
  intro moves s t
  have created : Client.create { maxHandles := 2, installCrashGuard := false } 7 (.memory {})
      (.uniform .ignored) {} = .ok (fresh 2).client := rfl
  have happened : (fresh 2).play .none moves = some s :=
    @play_played .none 2 [] moves (by decide +kernel)
  have noted : .request (.acquireFocus 7 5 .playback 0 "" false) ∈ s.notes t := by decide +kernel
  obtain ⟨sent, asked⟩ := subject_registered created rfl happened
  refine ⟨noted, ?_, ?_⟩
  · obtain ⟨slot, reg, o, brought, -, about, -⟩ := sent _ t (by decide +kernel)
      (step_played (by decide +kernel)) _ _ noted rfl
    exact ⟨slot, reg, o, brought, about.id, about.owner.symm, (about.session false rfl).symm⟩
  · apply (asked (.release 6 .playback 0 "") _ rfl).2
    refine .inl fun reg known => ?_
    obtain ⟨slot, live, named, space, -⟩ := known
    have unknown : s.client.registry.has 6 .focus = false := by decide +kernel
    have has := Registry.has_iff.mpr ⟨slot, reg, live, named, space⟩
    cases unknown.symm.trans has

end Session
end AudioFocus
