import AudioFocus.Proofs.Moves

/-!
Who has which slot, and which operation under way has claimed it. Every move of a session comes
down to a few changes of that: a registration is entered, claimed for its withdrawal, freed, or
dropped because the arbiter has refused it. `Reach.induct_parts` is the induction over these
changes that the invariants of registrations are proved by.
-/
namespace AudioFocus

/-- A live registration, with what its slot holds. -/
structure Occupant where
  reg : Registration
  closing : Bool
  tenant : Option Nat
  binding : Option (Binding Nat)

/-- The registration that is claimed while an operation waits. -/
def Pending.claim? : Pending → Option (Nat × Registration)
  | undoing slot reg _ | tearingDown slot reg _ _ => some (slot, reg)
  | _ => none

def Frame.claim? : Frame → Option Nat
  | asking _ _ pending => pending.claim?.map Prod.fst
  | blocked _ slot => some slot
  | callback .. => none

/-- The place in the book of the request that an operation waits for. -/
def Frame.place? : Frame → Option Nat
  | asking _ place _ => some place
  | _ => none

namespace Session

def occupant? (s : Session) (slot : Nat) : Option Occupant :=
  (s.client.registry.registration? slot).map fun reg => {
    reg
    closing := s.client.registry.isClosing slot
    tenant := s.tenants slot
    binding := s.client.registry.binding? slot }

/-- The occupants after a change of one slot. -/
def refill (occupants : Nat → Option Occupant) (slot : Nat) (o : Option Occupant) :
    Nat → Option Occupant :=
  fun i => if slot = i then o else occupants i

/-- A session has come to other occupants and other frames, and some requests were sent. -/
structure Turns (s t : Session) (occupants : Nat → Option Occupant) (frames : List Frame)
    (sent : List Exchange) : Prop where
  occupants : t.occupant? = occupants
  frames : t.frames = frames
  book : t.book = s.book ++ sent
  begun : t.begun = s.begun

def Refused (s : Session) (op : Nat) : Prop :=
  ∃ x ∈ s.book, x.op = op ∧ x.request.announces.isSome ∧
    ∃ reply, x.reply = some reply ∧ reply ≠ .ok .done

/-- What a part of an operation does that enters no registration. The operation may have claimed a
slot before, and it may take away registrations in place of others. -/
inductive Part (s : Session) (op : Nat) : Option Nat → List Nat → Session → Prop
  | quiet {t : Session} (turns : s.Turns t s.occupant? s.frames []) : Part s op none [] t
  | asked {t : Session} {request : Request} {pending : Pending}
      (turns : s.Turns t s.occupant? (.asking op s.book.length pending :: s.frames)
        [{ op, request }])
      (announces : request.announces = none) (withdraws : request.withdraws = none)
      (claims : pending.claim? = none) (registers : ∀ slot reg, pending ≠ .registering slot reg) :
    Part s op none [] t
  | withdrew {t : Session} {slot : Nat} {o : Occupant} {reg : Registration} {request : Request}
      {pending : Pending} {lost : List Nat} (found : s.occupant? slot = some o)
      (unclaimed : o.closing = false)
      (turns : s.Turns t (refill s.occupant? slot (some { o with closing := true }))
        (.asking op s.book.length pending :: s.frames) [{ op, request }])
      (claims : pending.claim? = some (slot, reg))
      (same : o.reg.id = reg.id ∧ o.reg.space = reg.space)
      (announces : request.announces = none)
      (withdraws : request.withdraws = some (o.reg.space, o.reg.id))
      (loss : lost = if request = o.reg.withdrawal then [] else o.tenant.toList) :
    Part s op none lost t
  | freed {t : Session} {slot : Nat}
      (turns : s.Turns t (refill s.occupant? slot none) s.frames []) :
    Part s op (some slot) [] t
  /-- A slot that was claimed stays so, since its guard is held. -/
  | stuck {t : Session} {slot : Nat}
      (turns : s.Turns t s.occupant? (.blocked op slot :: s.frames) []) :
    Part s op (some slot) [] t
  /-- The arbiter has refused a registration, and what has its slot and id is taken away. -/
  | dropped {t : Session} {slot : Nat} {o : Occupant} {lost : List Nat}
      (found : s.occupant? slot = some o) (unclaimed : o.closing = false)
      (turns : s.Turns t (refill s.occupant? slot none) s.frames []) (refused : s.Refused op)
      (loss : lost = if o.tenant = some op then [] else o.tenant.toList) :
    Part s op none lost t
  /-- The same, but the guard is held. -/
  | seized {t : Session} {slot : Nat} {o : Occupant} {lost : List Nat}
      (found : s.occupant? slot = some o) (unclaimed : o.closing = false)
      (turns : s.Turns t (refill s.occupant? slot (some { o with closing := true }))
        (.blocked op slot :: s.frames) []) (refused : s.Refused op)
      (loss : lost = if o.tenant = some op then [] else o.tenant.toList) :
    Part s op none lost t

structure Entered (s : Session) (op : Nat) (t : Session) (slot : Nat) (reg : Registration) :
    Prop where
  vacant : s.occupant? slot = none
  fresh : ∀ i o, s.occupant? i = some o → ¬ (o.reg.id = reg.id ∧ o.reg.space = reg.space)
  turns : s.Turns t
    (refill s.occupant? slot (some {
      reg, closing := false, tenant := some op, binding := some ⟨reg.id, reg.space, op⟩ }))
    (.asking op s.book.length (.registering slot reg) :: s.frames)
    [{ op, request := reg.announcement }]

section Advance

variable {s : Session} {op : Nat} {c : Client Nat}

theorem occupant?_advance (p : Progress) (i : Nat) : (s.advance op (c, p)).occupant? i =
    (c.registry.registration? i).map fun reg => {
      reg
      closing := c.registry.isClosing i
      tenant := if (s.client.registry.registration? i).isSome then s.tenants i else some op
      binding := c.registry.binding? i } := by
  have client : (s.advance op (c, p)).client = c := by cases p <;> rfl
  have tenants : (s.advance op (c, p)).tenants = s.tenantsAfter op c.registry := by
    cases p <;> rfl
  rw [occupant?, client, tenants]
  cases live : c.registry.registration? i with
  | none => rfl
  | some reg => simp [tenantsAfter, live]

variable {occupants : Nat → Option Occupant}

theorem turns_finished {result : Result Value}
    (now : ∀ i, (s.advance op (c, .finished result)).occupant? i = occupants i) :
    s.Turns (s.advance op (c, .finished result)) occupants s.frames [] :=
  ⟨funext now, rfl, by simp [advance], rfl⟩

theorem turns_asking {request : Request} {pending : Pending}
    (now : ∀ i, (s.advance op (c, .asking request pending)).occupant? i = occupants i) :
    s.Turns (s.advance op (c, .asking request pending)) occupants
      (.asking op s.book.length pending :: s.frames) [{ op, request }] :=
  ⟨funext now, rfl, rfl, rfl⟩

theorem turns_stuck {slot : Nat}
    (now : ∀ i, (s.advance op (c, .stuck slot)).occupant? i = occupants i) :
    s.Turns (s.advance op (c, .stuck slot)) occupants (.blocked op slot :: s.frames) [] :=
  ⟨funext now, rfl, by simp [advance], rfl⟩

theorem occupant?_of_alike (p : Progress) (alike : c.registry.Alike s.client.registry) (i : Nat) :
    (s.advance op (c, p)).occupant? i = s.occupant? i := by
  rw [occupant?_advance, occupant?]
  cases live : c.registry.registration? i with
  | none => simp [← alike.registration, live]
  | some reg => simp [← alike.registration, live, ← alike.closing, ← alike.binding]

theorem occupant?_of_claimed (p : Progress) {slot : Nat} {o : Occupant}
    (found : s.occupant? slot = some o)
    (alike : c.registry.Alike (s.client.registry.claimed slot)) (i : Nat) :
    (s.advance op (c, p)).occupant? i =
      refill s.occupant? slot (some { o with closing := true }) i := by
  have taken := alike.registration i
  rw [Registry.registration?_claimed] at taken
  obtain ⟨reg, live, rfl⟩ := Option.map_eq_some_iff.mp found
  rw [occupant?_advance, refill]
  cases here : c.registry.registration? i with
  | none =>
    rw [here] at taken
    have other : slot ≠ i := by
      rintro rfl
      cases live.symm.trans taken.symm
    simp [occupant?, ← taken, other]
  | some reg' =>
    rw [here] at taken
    have closing := alike.closing i (by simp [here])
    rw [Registry.isClosing_claimed_of_live (by simp [live])] at closing
    have binding := alike.binding i (by simp [here])
    rw [Registry.binding?_claimed] at binding
    by_cases h : slot = i
    · subst h
      obtain rfl : reg' = reg := Option.some.inj (taken.trans live)
      simp [live, closing, binding]
    · simp [occupant?, ← taken, closing, binding, h]

theorem occupant?_of_freed (p : Progress) {slot : Nat}
    (alike : c.registry.Alike (s.client.registry.freed slot)) (i : Nat) :
    (s.advance op (c, p)).occupant? i = refill s.occupant? slot none i := by
  have taken := alike.registration i
  rw [Registry.registration?_freed] at taken
  rw [occupant?_advance, refill]
  by_cases h : slot = i
  · simp [taken, h]
  · rw [if_neg h] at taken
    cases live : c.registry.registration? i with
    | none => simp [occupant?, h, ← taken, live]
    | some reg =>
      have closing := alike.closing i (by simp [live])
      rw [Registry.isClosing_freed, if_neg h] at closing
      have binding := alike.binding i (by simp [live])
      rw [Registry.binding?_freed] at binding
      simp [occupant?, h, ← taken, live, closing, binding]

theorem occupant?_of_entered (p : Progress) {slot : Nat} {reg : Registration}
    (room : slot < s.client.registry.capacity) (empty : s.client.registry.registration? slot = none)
    (same : c.registry = s.client.registry.entered slot reg op) (i : Nat) :
    (s.advance op (c, p)).occupant? i = refill s.occupant? slot (some {
      reg, closing := false, tenant := some op, binding := some ⟨reg.id, reg.space, op⟩ }) i := by
  rw [occupant?_advance, refill, same, Registry.registration?_entered _ _ _ room,
    Registry.isClosing_entered, Registry.binding?_entered _ _ _ room]
  by_cases h : slot = i
  · subst h
    simp [empty]
  · cases live : s.client.registry.registration? i <;> simp [h, occupant?, live]

end Advance

section Parts

variable {s : Session} {op : Nat}

theorem occupant?_live {slot : Nat} {reg : Registration}
    (live : s.client.registry.registration? slot = some reg) : s.occupant? slot = some {
      reg
      closing := s.client.registry.isClosing slot
      tenant := s.tenants slot
      binding := s.client.registry.binding? slot } := by
  rw [occupant?, live]
  rfl

theorem part_beginTeardown {c c' : Client Nat} {slot : Nat} {reg : Registration} {guarded : Bool}
    (same : c.registry = s.client.registry)
    (begun : c.beginTeardown slot reg = some (c', guarded))
    (rest : Option (List (Nat × Registration))) :
    s.Part op none
      (if (s.client.registry.registration? slot).any (·.withdrawal ≠ reg.withdrawal) then
        (s.tenants slot).toList else [])
      (s.advance op (c'.ask reg.withdrawal (.tearingDown slot reg guarded rest))) := by
  have alike := Client.alike_beginTeardown begun
  obtain ⟨⟨current, live, id, space⟩, unclaimed, -⟩ := Client.beginTeardown_eq_some begun
  rw [same] at alike live unclaimed
  have found := occupant?_live live
  refine .withdrew found unclaimed (turns_asking (occupant?_of_claimed _ found alike)) rfl
    ⟨id, space⟩ (by simp) (by simp [id, space]) ?_
  by_cases h : reg.withdrawal = current.withdrawal
  · simp [live, h]
  · simp [live, h, Ne.symm h]

theorem part_torn {c : Client Nat} {entries : List (Nat × Registration)}
    {result : Client Nat × Progress} (same : c.registry = s.client.registry)
    (torn : Client.Torn c entries result) :
    s.Part op none (mistaken s.client.registry s.tenants entries) (s.advance op result) := by
  cases torn with
  | none all =>
    have nothing : entries.find? (fun e =>
        (s.client.registry.claim? e.1 e.2.id e.2.space).isSome) = none := by
      rw [List.find?_eq_none]
      intro e member
      simp [← same, all e member]
    simp only [mistaken, nothing]
    exact .quiet (turns_finished (occupant?_of_alike _ (by simpa [same] using .refl _)))
  | @next passed rest slot reg c' guarded split refused begun =>
    obtain ⟨held, unclaimed, -⟩ := Client.beginTeardown_eq_some begun
    rw [same] at held unclaimed
    have claim := Registry.claim?_eq_some.mpr ⟨held, unclaimed, rfl⟩
    have first : entries.find? (fun e =>
        (s.client.registry.claim? e.1 e.2.id e.2.space).isSome) = some (slot, reg) := by
      rw [List.find?_eq_some_iff_append]
      refine ⟨by simp [claim], passed, rest, split, fun e member => ?_⟩
      simp [← same, refused e member]
    simp only [mistaken, first]
    exact part_beginTeardown same begun _

theorem part_call {o : Operation Nat} (named : o.callback?.all (· = op) = true) :
    s.Part op none [] (s.advance op (s.client.call o)) ∨
      ∃ slot reg, s.Entered op (s.advance op (s.client.call o)) slot reg := by
  have called := Client.call_called s.client o
  generalize s.client.call o = result at called
  cases called with
  | ended result => exact .inl (.quiet (turns_finished (occupant?_of_alike _ (.refl _))))
  | asked request q announces withdraws =>
    exact .inl (.asked (turns_asking (occupant?_of_alike _ (.refl _))) announces withdraws rfl
      (by simp))
  | @entered slot reg callback d brought vacant fresh opened =>
    right
    obtain ⟨room, empty, -⟩ := Registry.vacancy?_spec vacant
    obtain rfl : callback = op := by simpa [brought] using named
    refine ⟨slot, reg, ?_, fun i o found held => ?_, turns_asking ?_⟩
    · simp [occupant?, empty]
    · obtain ⟨other, live, rfl⟩ := Option.map_eq_some_iff.mp found
      have known := Registry.has_iff.mpr ⟨i, other, live, held⟩
      cases known.symm.trans fresh
    · exact occupant?_of_entered _ room empty (Dispatcher.openChannel_kept opened).1
  | @unopened slot reg callback d e brought vacant fresh failed =>
    left
    obtain ⟨room, empty, -⟩ := Registry.vacancy?_spec vacant
    refine .quiet (turns_finished (occupant?_of_alike _
      (.trans (.bind slot none ?_) (.unentered slot room empty))))
    simp [Registry.registration?_freed]
  | torn _ live begun =>
    left
    have part : s.Part op none _ _ := part_beginTeardown rfl begun none
    simpa [live] using part
  | finalized _ torn =>
    left
    have part : s.Part op none _ _ := part_torn s.client.stop_registry torn
    have right : mistaken s.client.registry s.tenants s.client.registry.live = [] := by
      unfold mistaken
      split
      · rename_i slot reg first
        have live := Registry.mem_live.mp (List.mem_of_find?_eq_some first)
        simp [live]
      · rfl
    rwa [right] at part

theorem part_raise (signal : FatalSignal) :
    s.Part op none [] (s.advance op (s.client.raise signal)) := by
  unfold Client.raise
  split
  · split
    · exact .quiet (turns_finished (occupant?_of_alike _ (.refl _)))
    · exact .asked (turns_asking (occupant?_of_alike _ (.refl _))) rfl rfl rfl (by simp)
  · exact .quiet (turns_finished (occupant?_of_alike _ (.refl _)))

end Parts

/-- What an operation does when it goes on after a reply: at most a slot is freed first. -/
inductive Parts (s : Session) (op : Nat) (held : Option Nat) (lost : List Nat) (t : Session) : Prop
  | one (part : s.Part op held lost t)
  | two {u : Session} (first : s.Part op held [] u) (second : u.Part op none lost t)

section Replies

variable {s : Session} {op : Nat}

theorem mistaken_congr {r : Registry Nat} {tenants tenants' : Nat → Option Nat}
    (same : ∀ i, (r.registration? i).isSome → tenants i = tenants' i)
    (rest : List (Nat × Registration)) : mistaken r tenants rest = mistaken r tenants' rest := by
  unfold mistaken
  split
  · rename_i slot reg first
    cases live : r.registration? slot with
    | none => simp
    | some current => rw [same slot (by simp [live])]
  · rfl

/-- A part that fills no slot can be seen as two. -/
theorem advance_advance {s : Session} {op : Nat} {c : Client Nat} {r : Client Nat × Progress}
    (result : Result Value)
    (keeps : ∀ i, (r.1.registry.registration? i).isSome → (c.registry.registration? i).isSome) :
    (s.advance op (c, .finished result)).advance op r = s.advance op r := by
  have tenants : (s.advance op (c, .finished result)).tenantsAfter op r.1.registry =
      s.tenantsAfter op r.1.registry := by
    funext i
    cases live : r.1.registry.registration? i with
    | none => simp [tenantsAfter, live]
    | some reg =>
      have before := keeps i (by simp [live])
      have present : c.registry.registration? i ≠ none := Option.isSome_iff_ne_none.mp before
      simp [tenantsAfter, live, advance, before, present]
  obtain ⟨c', p⟩ := r
  cases p <;> simp only [advance] at tenants ⊢ <;> rw [tenants]

theorem part_announced {slot : Nat} {reg : Registration} {reply : Result Reply}
    (known : reply ≠ .ok .done → s.Refused op) :
    s.Part op none (s.losses op (.registering slot reg) reply)
      (s.advance op (s.client.announced slot reg reply)) := by
  have announced := Client.announced_announced s.client slot reg reply
  generalize s.client.announced slot reg reply = result at announced
  cases announced with
  | served done =>
    subst done
    exact .quiet (turns_finished (occupant?_of_alike _ (.refl _)))
  | left e refused =>
    have loss : s.losses op (.registering slot reg) reply = [] := by
      unfold losses
      split <;> simp_all
    rw [loss]
    exact .quiet (turns_finished (occupant?_of_alike _ (.refl _)))
  | refused outcome held unclaimed =>
    have notDone := Client.not_done_of_expectDone outcome
    obtain ⟨current, live, id, space⟩ := held
    have claim := Registry.claim?_eq_some.mpr ⟨⟨current, live, id, space⟩, unclaimed, rfl⟩
    have loss : s.losses op (.registering slot reg) reply =
        if s.tenants slot = some op then [] else (s.tenants slot).toList := by
      unfold losses
      split <;> simp_all
    have still : (s.client.registry.claimed slot).Holds slot reg.id reg.space :=
      ⟨current, by simpa using live, id, space⟩
    rcases Client.giveBack_cases (c := (s.client.withRegistry
      (s.client.registry.claimed slot)).closeChannel reg.channel) still _ with
      waits | ⟨c, ended, alike⟩
    · rw [waits]
      exact .seized (occupant?_live live) unclaimed
        (turns_stuck (occupant?_of_claimed _ (occupant?_live live) (.refl _))) (known notDone) loss
    · rw [ended]
      exact .dropped (occupant?_live live) unclaimed
        (turns_finished (occupant?_of_freed _ (alike.trans (.freed_claimed slot _))))
        (known notDone) loss
  | unstarted done stopped _ live same unclaimed =>
    subst done
    exact .withdrew (occupant?_live live) unclaimed
      (turns_asking (occupant?_of_claimed _ (occupant?_live live) (.refl _))) rfl same (by simp)
      (by simp) (by simp [losses])

theorem part_undoing {slot : Nat} {reg : Registration} (cause : FocusError)
    (held : s.client.registry.Holds slot reg.id reg.space) :
    s.Part op (some slot) [] (s.advance op
      ((s.client.closeChannel reg.channel).giveBack slot reg cause)) := by
  rcases Client.giveBack_cases (c := s.client.closeChannel reg.channel) held cause with
    waits | ⟨c, ended, alike⟩
  · rw [waits]
    exact .stuck (turns_stuck (occupant?_of_alike _ (.refl _)))
  · rw [ended]
    exact .freed (turns_finished (occupant?_of_freed _ alike))

theorem part_endTeardown {slot : Nat} {reg : Registration} (guarded : Bool)
    (held : s.client.registry.Holds slot reg.id reg.space) (result : Result Value) :
    s.Part op (some slot) []
      (s.advance op (s.client.endTeardown slot reg guarded, .finished result)) :=
  .freed (turns_finished (occupant?_of_freed _ (Client.alike_endTeardown held guarded)))

theorem parts_endTeardown {slot : Nat} {reg : Registration} (guarded : Bool)
    (held : s.client.registry.Holds slot reg.id reg.space)
    (rest : List (Nat × Registration)) :
    s.Parts op (some slot)
      (mistaken (s.client.endTeardown slot reg guarded).registry s.tenants rest)
      (s.advance op ((s.client.endTeardown slot reg guarded).teardownAll rest)) := by
  have torn := Client.teardownAll_torn (s.client.endTeardown slot reg guarded) rest
  have keeps := Client.registration?_torn torn
  rw [← advance_advance (.ok .unit) fun i live => by rwa [← keeps]]
  refine .two (part_endTeardown guarded held (.ok .unit)) ?_
  have same : ∀ i, ((s.client.endTeardown slot reg guarded).registry.registration? i).isSome →
      s.tenants i =
        s.tenantsAfter op (s.client.endTeardown slot reg guarded).registry i := by
    intro i live
    have before : (s.client.registry.registration? i).isSome := by
      rw [Client.registration?_endTeardown held] at live
      split at live
      · contradiction
      · exact live
    simp [tenantsAfter, Option.isSome_iff_ne_none.mp live, before]
  rw [mistaken_congr same]
  exact part_torn rfl torn

end Replies

end Session
end AudioFocus
