import AudioFocus.Proofs.Bindings
import AudioFocus.Proofs.Guards

/-!
Callbacks. One starts only for its own registration while that is live, and never again once an
operation has returned that was called to end the registration: what is live has the callback that
it brought, a registration that is withdrawn stays claimed until its slot is freed, with the guard
held meanwhile, and operations have numbers that are used once.
-/
namespace AudioFocus
namespace Session

/-- No live registration was brought by this operation, and none will be. -/
structure Gone (s : Session) (n : Nat) : Prop where
  old : n < s.begun
  absent : ∀ i o, s.occupant? i = some o → o.tenant ≠ some n

theorem Gone.moved {s t : Session} {n : Nat} (gone : s.Gone n) (moved : s.Moved t) : t.Gone n where
  old := Nat.lt_of_lt_of_le gone.old moved.begun_le
  absent i o found := by
    obtain ⟨arrival, stays⟩ := moved.stays
    rcases stays i o found with ⟨o₀, before, same⟩ | ⟨-, -, tenant, -⟩
    · exact same.tenant ▸ gone.absent i o₀ before
    · rw [tenant]
      exact fun same => Nat.ne_of_gt gone.old (Option.some.inj same)

theorem gone_of_none {s t : Session} {slot n : Nat} {o : Occupant}
    (tenanted : Tenanted s.occupant? s.begun) (moved : s.Moved t)
    (before : s.occupant? slot = some o) (tenant : o.tenant = some n)
    (free : t.occupant? slot = none) : t.Gone n := by
  obtain ⟨m, tenant', old, -⟩ := tenanted.brought slot o before
  obtain rfl : m = n := Option.some.inj (tenant'.symm.trans tenant)
  refine ⟨Nat.lt_of_lt_of_le old moved.begun_le, fun i o' found same => ?_⟩
  obtain ⟨arrival, stays⟩ := moved.stays
  rcases stays i o' found with ⟨o₀, before', same'⟩ | ⟨-, -, fresh, -⟩
  · obtain rfl := tenanted.distinct slot i o o₀ before before'
      (tenant.trans (same.symm.trans same'.tenant))
    cases free.symm.trans found
  · exact Nat.ne_of_lt old (Option.some.inj (same.symm.trans fresh))

theorem Moved.gone_or_stays {s t : Session} {slot n : Nat} {o : Occupant} (moved : s.Moved t)
    (tenanted : Tenanted s.occupant? s.begun) (before : s.occupant? slot = some o)
    (tenant : o.tenant = some n) : t.Gone n ∨ ∃ o', t.occupant? slot = some o' ∧ Stays o o' := by
  cases after : t.occupant? slot with
  | none => exact .inl (gone_of_none tenanted moved before tenant after)
  | some o' =>
    obtain ⟨arrival, stays⟩ := moved.stays
    rcases stays slot o' after with ⟨o₀, before', same⟩ | ⟨-, empty, -⟩
    · obtain rfl : o = o₀ := Option.some.inj (before.symm.trans before')
      exact .inr ⟨o', rfl, same⟩
    · cases before.symm.trans empty

/-- An operation is under way that will end a registration: it waits for the reply to the
withdrawal, or has still to withdraw it. -/
def Aims (op slot : Nat) (reg : Registration) (below frames : List Frame) : Prop :=
  ∃ above place i reg' guarded rest,
    frames = above ++ .asking op place (.tearingDown i reg' guarded rest) :: below ∧
      (i = slot ∨ ∃ entries, rest = some entries ∧ (slot, reg) ∈ entries)

/-- The registration is there, and the operation under way that will end it. -/
structure Ending (s : Session) (op slot : Nat) (reg : Registration) (n : Nat)
    (below : List Frame) : Prop where
  there : ∃ o, s.occupant? slot = some o ∧ o.reg = reg ∧ o.tenant = some n
  aims : Aims op slot reg below s.frames

theorem next_of_torn {c : Client Nat} {entries : List (Nat × Registration)} {slot : Nat}
    {reg : Registration} {result : Client Nat × Progress} (torn : Client.Torn c entries result)
    (member : (slot, reg) ∈ entries) (held : c.registry.Holds slot reg.id reg.space)
    (unclaimed : c.registry.isClosing slot = false) :
    ∃ i reg' guarded rest,
      result.2 = .asking reg'.withdrawal (.tearingDown i reg' guarded (some rest)) ∧
        (i = slot ∨ (slot, reg) ∈ rest) := by
  have claim := Registry.claim?_eq_some.mpr ⟨held, unclaimed, rfl⟩
  cases torn with
  | none all => cases claim.symm.trans (all (slot, reg) member)
  | @next passed rest i reg' c' guarded split refused begun =>
    refine ⟨i, reg', guarded, rest, rfl, ?_⟩
    rw [split, List.mem_append, List.mem_cons] at member
    rcases member with before | same | later
    · cases claim.symm.trans (refused (slot, reg) before)
    · exact .inl (Prod.mk.inj same).1.symm
    · exact .inr later

theorem aims_of_reply {s : Session} {op place i slot : Nat} {reg reg' : Registration}
    {guarded : Bool} {rest : Option (List (Nat × Registration))} {below : List Frame}
    (consistent : s.Consistent none) (apart : slot ∉ below.filterMap Frame.claim?)
    (top : s.frames = .asking op place (.tearingDown i reg' guarded rest) :: below)
    (aim : i = slot ∨ ∃ entries, rest = some entries ∧ (slot, reg) ∈ entries)
    {reply : Result Reply} {t : Session}
    (went : t = (s.answered op place (.tearingDown i reg' guarded rest) below reply).advance op
      (s.client.resume (.tearingDown i reg' guarded rest) reply))
    {o : Occupant} (after : t.occupant? slot = some o) (same : o.reg = reg) :
    Aims op slot reg below t.frames := by
  have held := holds_of_claimed consistent.claimed (top ▸ List.mem_cons_self) rfl
  have freed := Client.registration?_endTeardown held guarded slot
  have live : t.client.registry.registration? slot = some reg := by
    obtain ⟨current, live, rfl⟩ := Option.map_eq_some_iff.mp after
    exact live.trans (congrArg some same)
  let a := s.answered op place (.tearingDown i reg' guarded rest) below reply
  have ended : a.Part op (some i) []
      (a.advance op (a.client.endTeardown i reg' guarded, .finished (.ok .unit))) :=
    part_endTeardown (s := a) guarded held (.ok .unit)
  have between := (consistent.answered top reply).part ended
  subst went
  rw [client_advance] at live
  cases rest with
  | none =>
    obtain rfl : i = slot := by simpa using aim
    rw [if_pos rfl] at freed
    cases live.symm.trans freed
  | some entries =>
    have torn := Client.teardownAll_torn (s.client.endTeardown i reg' guarded) entries
    have still := (Client.registration?_torn torn slot).symm.trans live
    rw [freed] at still
    split at still
    · contradiction
    rename_i other
    have member : (slot, reg) ∈ entries := by simpa [other] using aim
    rw [if_neg other, still] at freed
    have unclaimed := isClosing_of_not_mem between.claimed apart
      (by rw [client_advance]; exact freed)
    rw [client_advance] at unclaimed
    obtain ⟨j, reg'', guarded', rest, asks, aim⟩ :=
      next_of_torn torn member ⟨reg, freed, rfl, rfl⟩ unclaimed
    exact ⟨[], _, j, reg'', guarded', some rest, frames_advance_asking asks, by simpa using aim⟩

/-- The operation goes on when its turn comes, and meanwhile nobody else can claim what it has
claimed. -/
theorem Ending.happened {s t : Session} {m : Move} {op slot n : Nat} {reg : Registration}
    {below : List Frame} (consistent : s.Consistent none)
    (apart : slot ∉ below.filterMap Frame.claim?) (ending : s.Ending op slot reg n below)
    (happened : s.Happened m t) : t.Gone n ∨ t.Ending op slot reg n below := by
  have moved := Moved.of_happened consistent happened
  obtain ⟨⟨o, before, same, tenant⟩, above, place, i, reg', guarded, rest, frames, aim⟩ := ending
  rcases moved.gone_or_stays consistent.tenanted before tenant with gone | ⟨o', after, stays⟩
  · exact .inl gone
  refine .inr ⟨⟨o', after, stays.reg.trans same, stays.tenant.trans tenant⟩, ?_⟩
  rcases happened.frames with ⟨more, onTop⟩ | ⟨f, rest', more, top, onTop, ended⟩
  · exact ⟨more ++ above, place, i, reg', guarded, rest, by rw [onTop, frames, List.append_assoc],
      aim⟩
  rw [frames] at top
  cases above with
  | cons g above =>
    obtain ⟨-, rfl⟩ := List.cons.inj top
    exact ⟨more ++ above, place, i, reg', guarded, rest, by rw [onTop, List.append_assoc]; rfl,
      aim⟩
  | nil =>
    obtain ⟨rfl, rfl⟩ := List.cons.inj top
    rcases ended with callback | ⟨op', place', pending, reply, here, went⟩
    · contradiction
    obtain ⟨rfl, rfl, rfl⟩ := Frame.asking.inj here
    exact aims_of_reply consistent apart frames aim went after (stays.reg.trans same)

/-- The registration that an operation is called to end. -/
def Ends (s : Session) (slot : Nat) (reg : Registration) : Operation Nat → Prop
  | .unregister id => s.client.focus id = .ok (slot, reg)
  | .unwatch id => s.client.watch id = .ok (slot, reg)
  | .finalize => s.client.registry.registration? slot = some reg
  | _ => False

def Returned (s : Session) (op : Nat) : Prop := ∀ f ∈ s.frames, f.op? ≠ some op

theorem Ends.live {s : Session} {slot : Nat} {reg : Registration} {o : Operation Nat}
    (ends : s.Ends slot reg o) : s.client.registry.registration? slot = some reg := by
  cases o with
  | unregister id => exact (Client.focus_live ends).1
  | unwatch id => exact (Client.watch_live ends).1
  | finalize => exact ends
  | _ => exact ends.elim

theorem asks_of_teardown {c : Client Nat} {slot : Nat} {reg : Registration}
    (held : c.registry.Holds slot reg.id reg.space)
    (unclaimed : c.registry.isClosing slot = false) : ∃ guarded, (c.teardown slot reg).2 =
      .asking reg.withdrawal (.tearingDown slot reg guarded none) := by
  have claim := Registry.claim?_eq_some.mpr ⟨held, unclaimed, rfl⟩
  unfold Client.teardown
  cases begun : c.beginTeardown slot reg with
  | none => cases claim.symm.trans (Client.beginTeardown_eq_none.mp begun)
  | some result => exact ⟨result.2, rfl⟩

theorem aims_of_call {s : Session} {slot : Nat} {reg : Registration} {o : Operation Nat}
    (ends : s.Ends slot reg o) (unclaimed : s.client.registry.isClosing slot = false) :
    Aims s.begun slot reg s.frames (s.numbered.advance s.begun (s.client.call o)).frames := by
  have held : s.client.registry.Holds slot reg.id reg.space := ⟨reg, ends.live, rfl, rfl⟩
  cases o with
  | unregister id =>
    obtain ⟨guarded, asks⟩ := asks_of_teardown held unclaimed
    have call : s.client.call (.unregister id) = s.client.teardown slot reg := by
      simp only [Client.call, Client.orRefuse, show s.client.focus id = _ from ends]
    rw [call]
    exact ⟨[], _, slot, reg, guarded, none, frames_advance_asking asks, .inl rfl⟩
  | unwatch id =>
    obtain ⟨guarded, asks⟩ := asks_of_teardown held unclaimed
    have call : s.client.call (.unwatch id) = s.client.teardown slot reg := by
      simp only [Client.call, Client.orRefuse, show s.client.watch id = _ from ends]
    rw [call]
    exact ⟨[], _, slot, reg, guarded, none, frames_advance_asking asks, .inl rfl⟩
  | finalize =>
    have torn := Client.teardownAll_torn s.client.stop s.client.stop.registry.live
    obtain ⟨j, reg', guarded, rest, asks, aim⟩ := next_of_torn torn
      (by rw [Client.stop_registry]; exact Registry.mem_live.mpr ends)
      (by rw [Client.stop_registry]; exact held) (by rw [Client.stop_registry]; exact unclaimed)
    exact ⟨[], _, j, reg', guarded, some rest, frames_advance_asking asks, by simpa using aim⟩
  | _ => exact ends.elim

theorem gone_or_ending_of_call {s t : Session} {o : Operation Nat} {slot n : Nat}
    {reg : Registration} (consistent : s.Consistent none) (ends : s.Ends slot reg o)
    (tenant : s.tenants slot = some n) (called : s.step (.call o) = some t)
    (unclaimed : s.client.registry.isClosing slot = false) :
    t.Gone n ∨ t.Ending s.begun slot reg n s.frames := by
  have moved := Moved.of_happened consistent (step_happened called)
  have before := occupant?_live ends.live
  rcases moved.gone_or_stays consistent.tenanted before tenant with gone | ⟨o', after, stays⟩
  · exact .inl gone
  · have aims := aims_of_call ends unclaimed
    obtain rfl : s.numbered.advance s.begun (s.client.call o) = t := by
      simp only [step] at called
      split at called
      · exact Option.some.inj called
      · contradiction
    exact .inr ⟨⟨o', after, stays.reg, stays.tenant.trans tenant⟩, aims⟩

theorem gone_of_returned {s t u : Session} {o : Operation Nat} {slot n : Nat} {reg : Registration}
    (reach : Reach .full s) (ends : s.Ends slot reg o) (tenant : s.tenants slot = some n)
    (unclaimed : s.client.registry.isClosing slot = false) (called : s.step (.call o) = some t)
    (runs : Runs .full t u) (returned : u.Returned s.begun) : u.Gone n := by
  have consistent := consistent_of_reach reach
  have apart := consistent.claimed.not_mem_of_unclaimed
    (show (s.occupant? slot).any (·.closing) = false by simp [occupant?_live ends.live, unclaimed])
  have later := runs.keeps (P := fun s' => s'.Gone n ∨ s'.Ending s.begun slot reg n s.frames)
    (reach.next (.step _ .refl trivial called))
    (gone_or_ending_of_call consistent ends tenant called unclaimed)
    fun s' t' m reached kept happened => by
      have consistent := consistent_of_reach reached
      rcases kept with gone | ending
      · exact .inl (gone.moved (.of_happened consistent happened))
      · exact ending.happened consistent apart happened
  rcases later with gone | ⟨-, above, place, i, reg', guarded, rest, frames, -⟩
  · exact gone
  · exact absurd rfl (returned _ (frames ▸ List.mem_append_right above List.mem_cons_self))

/-- A registration is being taken back, because the loop did not start for it. -/
def Undoing (s : Session) (n : Nat) : Prop :=
  ∃ op place slot reg cause, .asking op place (.undoing slot reg cause) ∈ s.frames ∧
    s.tenants slot = some n

theorem guarded_or_undoing {s : Session} {k : Nesting} {slot n : Nat} {o : Occupant}
    (reach : Reach k s) (there : s.occupant? slot = some o) (tenant : o.tenant = some n)
    (closing : o.closing = true) : s.client.registry.isGuarded slot = true ∨ s.Undoing n := by
  have gripped := gripped_of_reach reach
  have claims := (consistent_of_reach reach).claimed.closing slot
  rw [there] at claims
  obtain ⟨f, member, claim⟩ := List.mem_filterMap.mp (claims.mp closing)
  obtain ⟨reg, live, rfl⟩ := Option.map_eq_some_iff.mp there
  cases f with
  | callback => contradiction
  | blocked op i =>
    obtain rfl : i = slot := Option.some.inj claim
    exact absurd rfl (gripped.not_lacks member i)
  | asking op place pending =>
    cases pending with
    | undoing i reg' cause =>
      obtain rfl : i = slot := Option.some.inj claim
      exact .inr ⟨op, place, i, reg', cause, member, tenant⟩
    | tearingDown i reg' guarded rest =>
      obtain rfl : i = slot := Option.some.inj claim
      refine .inl (gripped.held member ?_)
      cases guarded
      · exact .inr rfl
      · exact .inl rfl
    | query | registering | reportingExit | notifyingExit => contradiction

theorem tenant_of_live {s : Session} {k : Nesting} {slot : Nat} {reg : Registration}
    (reach : Reach k s) (live : s.client.registry.registration? slot = some reg) :
    ∃ n, s.tenants slot = some n ∧
      s.client.registry.binding? slot = some ⟨reg.id, reg.space, n⟩ := by
  obtain ⟨n, tenant, -, binding⟩ :=
    (consistent_of_reach reach).tenanted.brought slot _ (occupant?_live live)
  exact ⟨n, tenant, binding⟩

section Errands

variable {s t : Session} {k : Nesting} {m : Move} {x : Errand}

/-- What the loop has in hand it had before, or has just taken. -/
theorem Happened.errand (happened : s.Happened m t) (inHand : t.errand = some x) :
    s.errand = some x ∨ m = .take ∧ s.errand = none ∧ s.client.running = true ∧
      s.client.registry.find? x.event.handle x.key.space = some x.slot ∧
      s.client.registry.registration? x.slot = some x.reg := by
  cases happened with
  | called | raised | replied =>
    rw [errand_advance] at inHand
    exact .inl inHand
  | took idle alive found live =>
    obtain rfl := Option.some.inj inHand
    exact .inr ⟨rfl, idle, alive, found, live⟩
  | started => contradiction
  | returned => exact .inl inHand
  | aside _ _ _ left =>
    rcases left with same | ⟨-, done⟩
    · exact .inl (same.symm.trans inHand)
    · cases done.symm.trans inHand

/-- The loop has in hand what it has until it goes on with it. -/
theorem Happened.errand_kept (happened : s.Happened m t) (inHand : s.errand = some x) :
    t.errand = some x ∨ m = .enter := by
  cases happened with
  | called | raised | replied => exact .inl ((errand_advance ..).trans inHand)
  | took idle => cases idle.symm.trans inHand
  | started => exact .inr rfl
  | returned => exact .inl inHand
  | aside _ _ _ left =>
    rcases left with same | ⟨entered, -⟩
    · exact .inl (same.trans inHand)
    · exact .inr entered

/-- The registration that was found for an event in hand has the handle that the event names. -/
theorem named_of_errand (reach : Reach k s) (inHand : s.errand = some x) :
    x.event.handle ≠ Registry.freeId ∧ x.reg.id = x.event.handle ∧
      x.reg.space = x.key.space := by
  refine reach.induct (P := fun s => s.errand = some x → _) (fun _ _ _ _ _ _ _ _ none_ => ?_)
    (fun s m t reach before _ moved inHand => ?_) inHand
  · contradiction
  · rcases (step_happened moved).errand inHand with same | ⟨-, -, -, found, live⟩
    · exact before same
    · obtain ⟨reg, live', named⟩ := Registry.holds_of_find? found
      obtain rfl : x.reg = reg := Option.some.inj (live.symm.trans live')
      refine ⟨fun free => ?_, named⟩
      simp [Registry.find?, free] at found

theorem idle_of_take (moved : s.step .take = some t) : s.errand = none := by
  simp only [step] at moved
  split at moved
  · rename_i ready
    exact Option.isNone_iff_eq_none.mp (Bool.and_eq_true_iff.mp ready).2
  · contradiction

/-- Whoever is found for an event that the loop takes is live, and the callback in the slot is its
own. -/
theorem live_of_took (reach : Reach k s) (moved : s.step .take = some t)
    (inHand : t.errand = some x) : ∃ n, s.client.registry.registration? x.slot = some x.reg ∧
      s.tenants x.slot = some n ∧
      s.client.registry.binding? x.slot = some ⟨x.event.handle, x.key.space, n⟩ := by
  rcases (step_happened moved).errand inHand with same | ⟨-, -, -, found, live⟩
  · cases (idle_of_take moved).symm.trans same
  · obtain ⟨n, tenant, bound⟩ := tenant_of_live reach live
    obtain ⟨reg, live', id, space⟩ := Registry.holds_of_find? found
    obtain rfl : x.reg = reg := Option.some.inj (live.symm.trans live')
    exact ⟨n, live, tenant, by rw [bound, id, space]⟩

theorem bound_of_started {slot n : Nat} {key : ChannelKey} {e : Event}
    (entered : s.step .enter = some t) (started : t.frames = .callback slot key e n :: s.frames) :
    ∃ x, s.errand = some x ∧ x.slot = slot ∧ x.key = key ∧ x.event = e ∧
      (key.space = .watch → x.reg.filter.covers e.focusType = true) ∧
      s.client.registry.binding? slot = some ⟨e.handle, key.space, n⟩ ∧
      s.client.registry.isGuarded slot = false := by
  cases step_happened entered with
  | @started x callback c errand shown bound _ _ _ free =>
    obtain ⟨rfl, rfl, rfl, rfl⟩ := Frame.callback.inj (List.cons.inj started).1
    exact ⟨x, errand, rfl, rfl, rfl, shown, bound, free⟩
  | aside => simp at started

/-- A callback that starts is that of whoever is in the slot. If nobody is, it has outlived its
registration. -/
theorem live_or_gone_of_bound (reach : Reach k s) {slot : Nat} {b : Binding Nat}
    (bound : s.client.registry.binding? slot = some b) :
    (∃ reg, s.client.registry.registration? slot = some reg ∧
      s.tenants slot = some b.callback ∧ reg.id = b.id ∧ reg.space = b.space) ∨
    s.client.registry.registration? slot = none ∧ s.Gone b.callback := by
  have bindings := bindings_of_reach reach
  cases there : s.client.registry.registration? slot with
  | some reg =>
    obtain ⟨n, tenant, bound'⟩ := tenant_of_live reach there
    obtain rfl := Option.some.inj (bound.symm.trans bound')
    exact .inl ⟨reg, rfl, tenant, rfl, rfl⟩
  | none =>
    refine .inr ⟨rfl, bindings.old slot b bound, fun i o occupied tenant => ?_⟩
    -- A tenant's callback is behind the guard of its own slot, and behind no other.
    obtain ⟨reg, live, rfl⟩ := Option.map_eq_some_iff.mp occupied
    obtain ⟨n, tenant', bound'⟩ := tenant_of_live reach live
    obtain rfl : n = b.callback := Option.some.inj (tenant'.symm.trans tenant)
    obtain rfl := bindings.distinct i slot _ b bound' bound rfl
    cases there.symm.trans live

theorem unclaimed_or_undoing (reach : Reach k s) {slot n : Nat} {reg : Registration}
    (live : s.client.registry.registration? slot = some reg) (tenant : s.tenants slot = some n)
    (free : s.client.registry.isGuarded slot = false) :
    s.client.registry.isClosing slot = false ∨ s.Undoing n := by
  cases claimed : s.client.registry.isClosing slot with
  | false => exact .inl rfl
  | true =>
    rcases guarded_or_undoing reach (occupant?_live live) tenant claimed with held | undoing
    · cases free.symm.trans held
    · exact .inr undoing

/-- An event in hand is for no slot with this callback. -/
def Unheld (s : Session) (n : Nat) : Prop :=
  ∀ x, s.errand = some x → ∀ b, s.client.registry.binding? x.slot = some b → b.callback ≠ n

theorem Happened.unheld (happened : s.Happened m t) (reach : Reach k s) {n : Nat}
    (gone : s.Gone n) (unheld : s.Unheld n) : t.Unheld n := by
  intro x inHand
  apply not_bound_of_happened happened gone.old
  rcases happened.errand inHand with same | ⟨-, -, -, -, live⟩
  · exact unheld x same
  · intro b bound same
    obtain ⟨m, tenant, bound'⟩ := tenant_of_live reach live
    obtain rfl := Option.some.inj (bound.symm.trans bound')
    exact gone.absent x.slot _ (occupant?_live live) (tenant.trans (congrArg some same))

/-- What the loop takes once a registration is gone is not for its callback. -/
theorem not_started_of_gone {u v w : Session} {n : Nat} (reach : Reach .full u) (gone : u.Gone n)
    (idle : u.errand = none) (runs : Runs .full u v) (entered : v.step .enter = some w) (i : Nat)
    (key : ChannelKey) (e : Event) : w.frames ≠ .callback i key e n :: v.frames := by
  intro started
  have kept := runs.keeps (P := fun s => s.Gone n ∧ s.Unheld n) reach
    ⟨gone, fun x inHand => by cases idle.symm.trans inHand⟩
    fun s t m reached ⟨gone, unheld⟩ happened =>
      ⟨gone.moved (.of_happened (consistent_of_reach reached) happened),
        happened.unheld reached gone unheld⟩
  obtain ⟨x, inHand, rfl, -, -, -, bound, -⟩ := bound_of_started entered started
  exact kept.2 x inHand _ bound rfl

end Errands

/-- Which callbacks start. The loop finds, for an event that it takes, a live registration with the
handle that the event names, and the callback in the slot is its own. The callback that then starts
is the one in that slot, if it is for the same handle; it is shown what the registration that was
found is told of. It is the callback of whoever is in the slot, who is not being withdrawn but for a
loop that did not start; or nobody is, and the registration was ended while the loop had the event
in hand. An operation that is called to end a registration which nobody else is ending has ended it
when it returns; and what the loop takes after that is not for its callback. -/
theorem callbacks_of_live {s : Session} (reach : Reach .full s) :
    (∀ t x, s.step .take = some t → t.errand = some x →
      ∃ n, s.client.registry.registration? x.slot = some x.reg ∧ s.tenants x.slot = some n ∧
        s.client.registry.binding? x.slot = some ⟨x.event.handle, x.key.space, n⟩) ∧
    (∀ t slot key e n, s.step .enter = some t → t.frames = .callback slot key e n :: s.frames →
      (∃ x, s.errand = some x ∧ x.slot = slot ∧ x.key = key ∧ x.event = e ∧
        x.reg.id = e.handle ∧ x.reg.space = key.space ∧
        (x.reg.space = .watch → x.reg.filter.covers e.focusType = true)) ∧
      ((∃ reg, s.client.registry.registration? slot = some reg ∧ s.tenants slot = some n ∧
        reg.id = e.handle ∧ reg.space = key.space ∧
        (s.client.registry.isClosing slot = false ∨ s.Undoing n)) ∨
      s.client.registry.registration? slot = none ∧ s.Gone n)) ∧
    (∀ o slot reg n t u, s.Ends slot reg o → s.tenants slot = some n →
      s.client.registry.isClosing slot = false → s.step (.call o) = some t → Runs .full t u →
      u.Returned s.begun → u.Gone n) ∧
    ∀ n u v, s.Gone n → s.errand = none → Runs .full s u → u.step .enter = some v →
      ∀ i key e, v.frames ≠ .callback i key e n :: u.frames := by
  refine ⟨fun t x taken inHand => live_of_took reach taken inHand,
    fun t slot key e n entered started => ?_,
    fun o slot reg n t u ends tenant unclaimed called runs returned =>
      gone_of_returned reach ends tenant unclaimed called runs returned,
    fun n u v gone idle runs entered => not_started_of_gone reach gone idle runs entered⟩
  obtain ⟨x, inHand, rfl, rfl, rfl, shown, bound, free⟩ := bound_of_started entered started
  obtain ⟨-, id, space⟩ := named_of_errand reach inHand
  refine ⟨⟨x, inHand, rfl, rfl, rfl, id, space, fun watch => shown (space ▸ watch)⟩, ?_⟩
  rcases live_or_gone_of_bound reach bound with ⟨reg, live, tenant, id, space⟩ | gone
  · exact .inl ⟨reg, live, tenant, id, space, unclaimed_or_undoing reach live tenant free⟩
  · exact .inr gone

/-- Operation 1 ends the registration that operation 0 brought, and operation 2 brings one with the
same id to the same slot. -/
theorem callbacks_of_live_after_finalize :
    let registered : List Move := [.call (.register 5 0 "media" false 0), .reply (.ok .done)]
    let ended := registered ++ [.call .finalize] ++ [.reply (.ok .done)]
    let event : Event := ⟨7, 5, .playback, .acquired, "", "", ""⟩
    let again : List Move := [.call (.register 5 0 "media" false 2), .reply (.ok .done),
      .push (.focus 7 5) event, .take, .take, .take]
    let s := played .full 1 registered
    let u := played .full 1 ended
    let v := played .full 1 (ended ++ again)
    let w := played .full 1 (ended ++ again ++ [.enter])
    s.tenants 0 = some 0 ∧ u.Gone 0 ∧ v.tenants 0 = some 2 ∧ v.step .enter = some w ∧
      w.frames.length = 1 ∧ (∀ i key e, w.frames ≠ .callback i key e 0 :: v.frames) := by
  intro registered ended event again s u v w
  have reach : Reach .full s := reach_played (by decide) (by decide +kernel)
  have reach' : Reach .full u := reach_played (by decide) (by decide +kernel)
  have entered : v.step .enter = some w := step_played (by decide +kernel)
  have gone : u.Gone 0 := (callbacks_of_live reach).2.2.1 .finalize 0
    (.ofFocus 7 5 false "media") 0 (played .full 1 (registered ++ [.call .finalize])) u
    (show s.client.registry.registration? 0 = _ by decide +kernel) (by decide +kernel)
    (by decide +kernel) (step_played (by decide +kernel)) (runs_played (by decide +kernel))
    (show ∀ f ∈ (played .full 1 ended).frames, _ by decide +kernel)
  have idle : u.errand = none := Option.isNone_iff_eq_none.mp (by decide +kernel)
  exact ⟨by decide +kernel, gone, by decide +kernel, entered, by decide +kernel,
    (callbacks_of_live reach').2.2.2 0 v w gone idle (runs_played (by decide +kernel)) entered⟩

/-- The callback of operation 0 ends its own registration, which leaves it behind the guard. While
the arbiter is asked, it has the loop stopped and started again for another registration, and the
new loop takes an event for the old one. When the callback has returned, it starts again, in a slot
where nobody is. -/
theorem callback_of_ended_registration :
    let e : Event := ⟨7, 5, .playback, .acquired, "", "", ""⟩
    let moves : List Move := [.call (.register 5 0 "media" false 0), .reply (.ok .done),
      .push (.focus 7 5) e, .take, .enter, .call (.unregister 5), .call .finalize,
      .call (.register 6 0 "media" false 3), .reply (.ok .done), .push (.focus 7 5) e, .take, .take,
      .reply (.ok .done), .returns]
    let s := played .full 2 moves
    let t := played .full 2 (moves ++ [.enter])
    Reach .full s ∧ s.frames = [] ∧ s.client.registry.registration? 0 = none ∧
      s.step .enter = some t ∧ t.frames.map Frame.callback? = [some (0, .focus 7 5, e, 0)] := by
  intro e moves s t
  exact ⟨reach_played (by decide) (by decide +kernel),
    List.length_eq_zero_iff.mp (by decide +kernel), by decide +kernel,
    step_played (by decide +kernel), by decide +kernel⟩

end Session
end AudioFocus
