import AudioFocus.Proofs.Moves

/-!
Channel accounting. A channel has as many references as there are live registrations that use it,
in every state that a client can come to when the arbiter lets nothing of the client begin while
it serves a request. Each operation opens and closes along with the slot that it fills or frees,
and what it has found in the registry before a request is still there when the reply comes.
-/
namespace AudioFocus

namespace Registry

variable {κ : Type}

/-- How many live registrations use a channel. -/
def users (r : Registry κ) (key : ChannelKey) : Nat := r.live.countP (·.2.channel = key)

theorem users_ofCapacity (n : Nat) (key : ChannelKey) :
    (ofCapacity n : Registry κ).users key = 0 :=
  (ofCapacity n).countP_live_of_empty (·.channel = key) (registration?_ofCapacity n)

theorem users_modify_of_eq {r : Registry κ} {slot : Nat} {f : Slot κ → Slot κ} (key : ChannelKey)
    (same : ∀ s, (f s).registration = s.registration) :
    (r.modify slot f).users key = r.users key :=
  r.countP_live_modify_of_eq (·.channel = key) slot same

variable (r : Registry κ) (slot : Nat) (key : ChannelKey)

@[simp] theorem users_claimed : (r.claimed slot).users key = r.users key :=
  users_modify_of_eq key fun _ => rfl

@[simp] theorem users_guard : (r.guard slot).users key = r.users key :=
  users_modify_of_eq key fun _ => rfl

@[simp] theorem users_unguard : (r.unguard slot).users key = r.users key :=
  users_modify_of_eq key fun _ => rfl

@[simp] theorem users_bind (b : Option (Binding κ)) : (r.bind slot b).users key = r.users key :=
  users_modify_of_eq key fun _ => rfl

@[simp] theorem users_unbind (id : Int32) (space : IdSpace) :
    (r.unbind slot id space).users key = r.users key :=
  users_modify_of_eq key fun s => by split <;> rfl

variable {r slot} {reg : Registration}

theorem users_freed (live : r.registration? slot = some reg) :
    (r.freed slot).users key + (if key = reg.channel then 1 else 0) = r.users key := by
  have moved := countP_live_freed (·.channel = key) live
  by_cases h : key = reg.channel
  · simpa [users, h] using moved
  · simpa [users, h, Ne.symm h] using moved

theorem users_entered (callback : κ) (room : slot < r.capacity)
    (empty : r.registration? slot = none) :
    (r.entered slot reg callback).users key =
      r.users key + (if key = reg.channel then 1 else 0) := by
  have moved := countP_live_entered (·.channel = key) reg callback room empty
  by_cases h : key = reg.channel
  · simpa [users, h] using moved
  · simpa [users, h, Ne.symm h] using moved

end Registry

/-- What a pending operation has found in the registry is still there: its own registration, whose
guard nobody has taken, or those that it tears down. -/
def Pending.Current {κ : Type} (r : Registry κ) : Pending → Prop
  | registering slot reg | undoing slot reg _ =>
    r.registration? slot = some reg ∧ r.isGuarded slot = false
  | tearingDown slot reg _ rest =>
    r.registration? slot = some reg ∧
      ∀ e ∈ rest.getD [], ∀ reg, r.registration? e.1 = some reg → reg = e.2
  | query _ | reportingExit _ | notifyingExit => True

/-- A part of an operation that leaves nothing behind but what a pending operation knows of. -/
def Progress.Current {κ : Type} (r : Registry κ) : Progress → Prop
  | finished _ => True
  | asking _ pending => pending.Current r
  | stuck _ => False

namespace Client

variable {κ : Type}

structure Balanced (c : Client κ) : Prop where
  refs : ∀ key, c.channels.refs key = c.registry.users key
  counted : c.channels.Counted
  sound : c.channels.Sound

/-- Balanced after a part of an operation, with nothing left behind. -/
def Settled (result : Client κ × Progress) : Prop :=
  result.1.Balanced ∧ result.2.Current result.1.registry

theorem Balanced.of_eq {c c' : Client κ} (balanced : c.Balanced)
    (users : ∀ key, c'.registry.users key = c.registry.users key)
    (kept : c.channels.Kept c'.channels) : c'.Balanced where
  refs key := by
    rw [users, ← balanced.refs, Channels.refs_eq_getD, Channels.refs_eq_getD, kept.references]
  counted := Channels.counted_of_eq balanced.counted kept.references
  sound := kept.sound balanced.sound

theorem Balanced.withRegistry {c : Client κ} (balanced : c.Balanced) {r : Registry κ}
    (users : ∀ key, r.users key = c.registry.users key) : (c.withRegistry r).Balanced :=
  balanced.of_eq users (.refl _)

theorem openChannel_ok {c : Client κ} {d : Dispatcher κ} {key : ChannelKey}
    (opened : c.openChannel key = (.ok (), d)) :
    c.channels.openChannel key = (.ok (), d.channels) := by
  unfold Dispatcher.openChannel at opened
  split at opened
  · simp at opened
  · split at opened
    · rename_i channels found
      obtain rfl := (Prod.mk.inj opened).2
      exact found
    · simp at opened

theorem openChannel_error {c : Client κ} {d : Dispatcher κ} {key : ChannelKey} {e : FocusError}
    (failed : c.openChannel key = (.error e, d)) :
    d.channels = c.channels ∨ ∃ e', c.channels.openChannel key = (.error e', d.channels) := by
  unfold Dispatcher.openChannel at failed
  split at failed
  · obtain rfl := (Prod.mk.inj failed).2
    exact .inl rfl
  · split at failed
    · simp at failed
    · rename_i e' channels found
      obtain rfl := (Prod.mk.inj failed).2
      exact .inr ⟨e', found⟩

theorem Balanced.enter {c : Client κ} (balanced : c.Balanced) {slot : Nat} {reg : Registration}
    {callback : κ} {d : Dispatcher κ} (vacant : c.registry.vacancy? = some slot)
    (opened : (c.withRegistry (c.registry.entered slot reg callback)).openChannel reg.channel =
      (.ok (), d)) : (c.withDispatcher d).Balanced := by
  obtain ⟨room, empty, -⟩ := Registry.vacancy?_spec vacant
  have channels := openChannel_ok opened
  have registry : d.registry = c.registry.entered slot reg callback :=
    (Dispatcher.openChannel_kept opened).1
  refine ⟨fun key => ?_, Channels.counted_openChannel balanced.counted channels, ?_⟩
  · change d.channels.refs key = d.registry.users key
    rw [registry, Registry.users_entered key callback room empty,
      Channels.refs_openChannel channels, ← balanced.refs]
    rfl
  · have sound := Channels.sound_openChannel balanced.sound reg.channel
    change (c.channels.openChannel reg.channel).2.Sound at sound
    rwa [show c.channels.openChannel reg.channel = (.ok (), d.channels) from channels] at sound

theorem Balanced.free {c : Client κ} (balanced : c.Balanced) {slot : Nat} {reg : Registration}
    (live : c.registry.registration? slot = some reg) {r : Registry κ}
    (users : ∀ key, r.users key = (c.registry.freed slot).users key) :
    ((c.closeChannel reg.channel).withRegistry r).Balanced := by
  have used : 0 < c.channels.refs reg.channel := by
    rw [balanced.refs, ← Registry.users_freed reg.channel live]
    simp
  refine ⟨fun key => ?_, Channels.counted_closeChannel balanced.counted reg.channel,
    Channels.sound_closeChannel balanced.sound reg.channel⟩
  · change (c.channels.closeChannel reg.channel).refs key = r.users key
    have opens := Channels.refs_closeChannel used key
    have taken := Registry.users_freed key live
    rw [balanced.refs] at opens
    rw [users]
    omega

theorem Balanced.ask {c : Client κ} (balanced : c.Balanced) (request : Request)
    {pending : Pending} (current : pending.Current c.registry) :
    Settled (c.ask request pending) :=
  ⟨balanced.of_eq (fun _ => rfl) (.refl _), current⟩

theorem Balanced.stop {c : Client κ} (balanced : c.Balanced) : c.stop.Balanced := by
  apply balanced.of_eq
  · simp
  · change c.channels.Kept c.toDispatcher.stop.channels
    unfold Dispatcher.stop
    split
    · exact Channels.kept_wake c.channels
    · exact .refl _

theorem Balanced.removeGuard {c : Client κ} (balanced : c.Balanced) :
    c.removeGuard.Balanced :=
  balanced.of_eq (by simp) (by rw [removeGuard_dispatcher]; exact .refl _)

theorem Balanced.beginTeardown {c c' : Client κ} (balanced : c.Balanced) {slot : Nat}
    {reg : Registration} {guarded : Bool}
    (begun : c.beginTeardown slot reg = some (c', guarded)) : c'.Balanced := by
  obtain ⟨-, -, -, rfl⟩ := beginTeardown_eq_some begun
  apply balanced.withRegistry
  intro key
  cases guarded <;> simp

theorem Balanced.torn {c : Client κ} (balanced : c.Balanced)
    {entries : List (Nat × Registration)} {result : Client κ × Progress}
    (known : ∀ e ∈ entries, ∀ reg, c.registry.registration? e.1 = some reg → reg = e.2)
    (torn : Torn c entries result) : Settled result := by
  cases torn with
  | none => exact ⟨balanced.removeGuard, trivial⟩
  | @next passed rest slot reg c' guarded split _ begun =>
    apply (balanced.beginTeardown begun).ask
    have same := registration?_beginTeardown begun
    obtain ⟨⟨other, live, -⟩, -⟩ := beginTeardown_eq_some begun
    obtain rfl : other = reg := known (slot, reg) (by simp [split]) other live
    refine ⟨by rw [same]; exact live, fun e member reg' live' => ?_⟩
    exact known e (by simp at member; simp [split, member]) reg' (by rwa [same] at live')

theorem Balanced.call {c : Client κ} (balanced : c.Balanced) (o : Operation κ) :
    Settled (c.call o) := by
  have called := call_called c o
  generalize c.call o = result at called
  cases called with
  | ended result => exact ⟨balanced, trivial⟩
  | asked request q => exact balanced.ask request trivial
  | @entered slot reg callback d _ vacant _ opened =>
    obtain ⟨room, -, unguarded⟩ := Registry.vacancy?_spec vacant
    have kept : d.registry = c.registry.entered slot reg callback :=
      (Dispatcher.openChannel_kept opened).1
    apply (balanced.enter vacant opened).ask
    change d.registry.registration? slot = some reg ∧ d.registry.isGuarded slot = false
    rw [kept]
    exact ⟨by simp [Registry.registration?_entered _ _ _ room], by simpa using unguarded⟩
  | @unopened slot reg callback d e _ vacant _ failed =>
    obtain ⟨room, empty, -⟩ := Registry.vacancy?_spec vacant
    refine ⟨?_, trivial⟩
    apply balanced.of_eq
    · intro key
      have live : ((c.registry.entered slot reg callback).claimed slot).registration? slot =
          some reg := by simp [Registry.registration?_entered _ _ _ room]
      have given := Registry.users_freed key live
      rw [Registry.users_claimed, Registry.users_entered key callback room empty] at given
      rw [registry_withRegistry, Registry.users_bind]
      omega
    · change c.channels.Kept d.channels
      rcases openChannel_error failed with same | ⟨e', refused⟩
      · rw [same]
        exact .refl _
      · exact Channels.kept_openChannel_error refused
  | @torn slot reg c' guarded _ live begun =>
    apply (balanced.beginTeardown begun).ask
    exact ⟨by rw [registration?_beginTeardown begun]; exact live, by simp⟩
  | finalized _ torn =>
    apply balanced.stop.torn _ torn
    rintro ⟨slot, reg⟩ member reg' live
    rw [stop_registry] at live
    exact Option.some.inj (live.symm.trans (Registry.mem_live.mp member))

theorem Balanced.giveBack {c : Client κ} (balanced : c.Balanced) {slot : Nat} {reg : Registration}
    (live : c.registry.registration? slot = some reg)
    (unguarded : c.registry.isGuarded slot = false) (e : FocusError) :
    Settled ((c.closeChannel reg.channel).giveBack slot reg e) := by
  have held : c.registry.Holds slot reg.id reg.space := ⟨reg, live, rfl, rfl⟩
  change Settled (if c.registry.isGuarded slot = true then _ else _)
  rw [if_neg (by simp [unguarded])]
  refine ⟨balanced.free live fun key => ?_, trivial⟩
  change (c.registry.vacate slot reg.id reg.space).users key = _
  rw [Registry.vacate_of_holds held, Registry.users_bind]

theorem Balanced.announced {c : Client κ} (balanced : c.Balanced) {slot : Nat}
    {reg : Registration} (current : (Pending.registering slot reg).Current c.registry)
    (reply : Result Reply) : Settled (c.announced slot reg reply) := by
  obtain ⟨live, unguarded⟩ := current
  have aside : (c.withRegistry (c.registry.claimed slot)).Balanced :=
    balanced.withRegistry fun key => by simp
  have announced := announced_announced c slot reg reply
  generalize c.announced slot reg reply = result at announced
  cases announced with
  | served => exact ⟨balanced.of_eq (fun _ => rfl) (.refl _), trivial⟩
  | left => exact ⟨balanced, trivial⟩
  | refused =>
    exact aside.giveBack (by simpa using live) (by simpa using unguarded) _
  | @unstarted n current _ _ _ live' =>
    obtain rfl : reg = current := Option.some.inj (live.symm.trans live')
    exact aside.ask _ ⟨by simpa using live, by simpa using unguarded⟩

theorem Balanced.endTeardown {c : Client κ} (balanced : c.Balanced) {slot : Nat}
    {reg : Registration} (live : c.registry.registration? slot = some reg) (guarded : Bool) :
    (c.endTeardown slot reg guarded).Balanced := by
  have held : c.registry.Holds slot reg.id reg.space := ⟨reg, live, rfl, rfl⟩
  apply balanced.free live
  intro key
  change (if guarded then ((c.registry.release slot reg.id reg.space).unbind slot reg.id
    reg.space).unguard slot else c.registry.release slot reg.id reg.space).users key = _
  rw [Registry.release_of_holds held]
  cases guarded <;> simp

theorem Balanced.resume {c : Client κ} (balanced : c.Balanced) {p : Pending}
    (current : p.Current c.registry) (reply : Result Reply) : Settled (c.resume p reply) := by
  cases p with
  | query q => exact ⟨balanced, trivial⟩
  | registering slot reg => exact balanced.announced current reply
  | undoing slot reg cause => exact balanced.giveBack current.1 current.2 cause
  | tearingDown slot reg guarded rest =>
    obtain ⟨live, known⟩ := current
    have ended := balanced.endTeardown live guarded
    cases rest with
    | none => exact ⟨ended, trivial⟩
    | some rest =>
      apply ended.torn _ (teardownAll_torn _ rest)
      intro e member reg' live'
      rw [registration?_endTeardown ⟨reg, live, rfl, rfl⟩] at live'
      split at live'
      · contradiction
      · exact known e member reg' live'
  | reportingExit signal => exact ⟨balanced.of_eq (fun _ => rfl) (.refl _), trivial⟩
  | notifyingExit => exact ⟨balanced, trivial⟩

theorem Balanced.raise {c : Client κ} (balanced : c.Balanced) (signal : FatalSignal) :
    Settled (c.raise signal) := by
  have met : (c.meet signal).Balanced := balanced.of_eq (fun _ => rfl) (.refl _)
  unfold Client.raise
  split
  · split
    · exact ⟨met.of_eq (fun _ => rfl) (.refl _), trivial⟩
    · exact met.ask _ trivial
  · exact ⟨met, trivial⟩

end Client

/-- What is under way when nothing begins while an operation waits: callbacks, and on top of them
at most one operation, which still knows what is in the registry. -/
inductive Orderly (r : Registry Nat) : List Frame → Prop
  | idle {frames : List Frame} (callbacks : ∀ f ∈ frames, f.isCallback = true) : Orderly r frames
  | waiting {op place : Nat} {pending : Pending} {frames : List Frame}
      (current : pending.Current r) (callbacks : ∀ f ∈ frames, f.isCallback = true) :
    Orderly r (.asking op place pending :: frames)

namespace Orderly

variable {s : Session}

theorem idle_of_not_waits {r : Registry Nat} (orderly : Orderly r s.frames)
    (free : s.waits = false) : ∀ f ∈ s.frames, f.isCallback = true := by
  generalize top : s.frames = frames at orderly
  cases orderly with
  | idle callbacks => exact callbacks
  | waiting => simp [Session.waits, top] at free

theorem of_asking {r : Registry Nat} {op place : Nat} {pending : Pending} {frames : List Frame}
    (orderly : Orderly r (.asking op place pending :: frames)) :
    pending.Current r ∧ ∀ f ∈ frames, f.isCallback = true := by
  cases orderly with
  | idle callbacks => simp [Frame.isCallback] at callbacks
  | waiting current callbacks => exact ⟨current, callbacks⟩

theorem of_callback {r : Registry Nat} {slot callback : Nat} {key : ChannelKey} {e : Event}
    {frames : List Frame} (orderly : Orderly r (.callback slot key e callback :: frames)) :
    ∀ f ∈ frames, f.isCallback = true := by
  cases orderly with
  | idle callbacks => exact fun f member => callbacks f (by simp [member])

end Orderly

namespace Session

/-- Every channel is accounted for, and nothing under way will upset that. -/
structure Accounted (s : Session) : Prop where
  balanced : s.client.Balanced
  orderly : Orderly s.client.registry s.frames

theorem accounted_advance {s : Session} {result : Client Nat × Progress} (op : Nat)
    (settled : Client.Settled result) (callbacks : ∀ f ∈ s.frames, f.isCallback = true) :
    (s.advance op result).Accounted := by
  obtain ⟨c, progress⟩ := result
  obtain ⟨balanced, current⟩ := settled
  cases progress with
  | finished => exact ⟨balanced, .idle callbacks⟩
  | asking request pending => exact ⟨balanced, .waiting current callbacks⟩
  | stuck => exact current.elim

theorem Accounted.step {s t : Session} {m : Move} (accounted : s.Accounted)
    (allowed : Nesting.none.Allows s m) (happened : s.Happened m t) : t.Accounted := by
  obtain ⟨balanced, orderly⟩ := accounted
  cases happened with
  | called o =>
    exact accounted_advance (s := s.numbered) s.begun (balanced.call o)
      (orderly.idle_of_not_waits (allowed rfl))
  | raised signal =>
    exact accounted_advance (s := s.numbered) s.begun (balanced.raise signal)
      (orderly.idle_of_not_waits (allowed rfl))
  | replied reply top =>
    rw [top] at orderly
    obtain ⟨current, callbacks⟩ := orderly.of_asking
    exact accounted_advance _ (balanced.resume current reply) callbacks
  | took _ _ _ _ registry kept =>
    exact ⟨balanced.of_eq (fun _ => by rw [registry]) kept, by rw [registry]; exact orderly⟩
  | started _ _ _ guarded kept =>
    refine ⟨balanced.of_eq (by simp [guarded]) kept, .idle ?_⟩
    rw [List.forall_mem_cons]
    exact ⟨rfl, orderly.idle_of_not_waits (allowed rfl)⟩
  | @returned slot callback key e frames top =>
    rw [top] at orderly
    refine ⟨balanced.of_eq (fun other => ?_) ?_, .idle orderly.of_callback⟩
    · change ((Dispatcher.sendAck _ key e.handle).2).registry.users other = _
      rw [Dispatcher.sendAck_registry, Registry.users_unguard]
    · exact Dispatcher.kept_sendAck
        { s.client.toDispatcher with registry := s.client.registry.unguard slot } key e.handle
  | aside registry kept =>
    exact ⟨balanced.of_eq (fun _ => by rw [registry]) kept, by rw [registry]; exact orderly⟩

theorem accounted_of_reach {s : Session} (reach : Reach .none s) : s.Accounted := by
  apply reach.induct
  · intro config pid channels signals faults client created unused
    obtain ⟨-, registry, rfl, -⟩ := Client.create_eq_ok created
    refine ⟨⟨fun key => ?_, unused.counted, unused.sound⟩, .idle (by simp)⟩
    rw [registry, Registry.users_ofCapacity, Channels.refs_eq_getD, unused.counts?]
    rfl
  · intro s m t _ accounted allowed moved
    exact accounted.step allowed (step_happened moved)

/-- Each channel has as many references as there are live registrations that use it, so it is open
exactly if one does. -/
theorem refs_eq_users {s : Session} (reach : Reach .none s) (key : ChannelKey) :
    s.client.channels.refs key = s.client.registry.live.countP (·.2.channel = key) ∧
      (s.client.channels.isOpen key = true ↔
        ∃ e ∈ s.client.registry.live, e.2.channel = key) := by
  obtain ⟨⟨refs, counted, -⟩, -⟩ := accounted_of_reach reach
  refine ⟨refs key, ?_⟩
  rw [Channels.isOpen_iff_refs counted, refs, Registry.users, List.countP_pos_iff]
  simp only [decide_eq_true_eq]

/-- Two watches of one process are registered. -/
theorem refs_eq_users_of_two_watches :
    let s := played .none 2 [.call (.watch 0 .both false 0), .reply (.ok .done),
      .call (.watch 0 .both false 1), .reply (.ok .done)]
    Reach .none s ∧ s.client.channels.refs (.watch 7) = 2 ∧
      s.client.channels.refs (.watch 7) =
        s.client.registry.live.countP (·.2.channel = .watch 7) ∧
      ∃ e ∈ s.client.registry.live, e.2.channel = .watch 7 := by
  intro s
  have reach : Reach .none s := reach_played (by decide) (by decide)
  obtain ⟨refs, opened⟩ := refs_eq_users reach (.watch 7)
  exact ⟨reach, by decide, refs, opened.mp (by decide)⟩

end Session
end AudioFocus
