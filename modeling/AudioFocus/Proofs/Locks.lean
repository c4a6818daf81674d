import AudioFocus.Proofs.Deliveries

/-!
Locks. Two places take the guard of a slot without asking first: an operation that gives back the
slot of a registration that failed, and the loop for the event that it has in hand. The first never
meets a guard that is held, whatever else is under way; the loop does only while a callback or an
operation is under way that holds the guard of that slot. And while a callback runs, its slot keeps
the callback, and nobody new moves in.
-/
namespace AudioFocus

/-- Has the guard of a slot: a callback that runs there, or a teardown that has taken it. -/
def Frame.Holds (slot : Nat) : Frame → Prop
  | callback i .. | asking _ _ (.tearingDown i _ true _) => i = slot
  | _ => False

theorem Frame.holds_iff {f : Frame} {slot : Nat} : f.Holds slot ↔ f.grip = .takes slot := by
  cases f with
  | callback | blocked => simp [Holds, grip]
  | asking op place pending =>
    cases pending with
    | tearingDown i reg guarded rest => cases guarded <;> simp [Holds, grip, Pending.grip]
    | _ => simp [Holds, grip, Pending.grip]

theorem Gripped.held_iff {held : Nat → Bool} {frames : List Frame} (gripped : Gripped held frames)
    {slot : Nat} : held slot = true ↔ ∃ f ∈ frames, f.Holds slot := by
  refine ⟨fun taken => ?_, fun ⟨f, member, holds⟩ =>
    gripped.held member (.inl (Frame.holds_iff.mp holds))⟩
  induction gripped with
  | nil => contradiction
  | @cons held held' f frames beneath leads ih =>
    -- Either something beneath has taken the guard, or the innermost has just done so.
    by_cases before : held slot = true
    · obtain ⟨g, member, holds⟩ := ih before
      exact ⟨g, List.mem_cons_of_mem f member, holds⟩
    · refine ⟨f, List.mem_cons_self, Frame.holds_iff.mpr ?_⟩
      generalize f.grip = grip at leads
      cases leads with
      | nothing | leans | spares => exact absurd taken before
      | @takes i free =>
        by_cases same : i = slot
        · rw [same]
        · exact absurd (by simpa [same] using taken) before

namespace Registry

variable {κ : Type} {r r' : Registry κ} {slot i : Nat} {kept : Prop}

/-- Nobody has moved into a slot, and it has the callback that it had, if that is kept. -/
structure Undisturbed (r r' : Registry κ) (i : Nat) (kept : Prop) : Prop where
  resident : ∀ reg, r'.registration? i = some reg → r.registration? i = some reg
  binding : kept → r'.binding? i = r.binding? i

namespace Undisturbed

protected theorem refl (r : Registry κ) : r.Undisturbed r i kept :=
  ⟨fun _ there => there, fun _ => rfl⟩

protected theorem trans {r'' : Registry κ} (first : r.Undisturbed r' i kept)
    (second : r'.Undisturbed r'' i kept) : r.Undisturbed r'' i kept where
  resident reg there := first.resident reg (second.resident reg there)
  binding keep := (second.binding keep).trans (first.binding keep)

theorem of_other {f : Slot κ → Slot κ} (other : slot ≠ i) :
    r.Undisturbed (r.modify slot f) i kept where
  resident reg there := by rwa [registration?_modify, if_neg other] at there
  binding _ := by rw [binding?_modify, if_neg other]

theorem claimed (r : Registry κ) (slot : Nat) : r.Undisturbed (r.claimed slot) i kept :=
  ⟨by simp, by simp⟩

theorem guard (r : Registry κ) (slot : Nat) : r.Undisturbed (r.guard slot) i kept :=
  ⟨by simp, by simp⟩

theorem unguard (r : Registry κ) (slot : Nat) : r.Undisturbed (r.unguard slot) i kept :=
  ⟨by simp, by simp⟩

theorem freed (r : Registry κ) (slot : Nat) : r.Undisturbed (r.freed slot) i kept where
  resident reg there := by
    rw [registration?_freed] at there
    split at there
    · contradiction
    · exact there
  binding _ := by simp

theorem bind (other : kept → slot ≠ i) (b : Option (Binding κ)) :
    r.Undisturbed (r.bind slot b) i kept :=
  ⟨by simp, fun keep => binding?_bind_of_ne r b (other keep)⟩

theorem unbind (other : kept → slot ≠ i) (id : Int32) (space : IdSpace) :
    r.Undisturbed (r.unbind slot id space) i kept :=
  ⟨by simp, fun keep => binding?_unbind_of_ne r id space (other keep)⟩

theorem release (r : Registry κ) (slot : Nat) (id : Int32) (space : IdSpace) :
    r.Undisturbed (r.release slot id space) i kept := by
  unfold Registry.release
  split
  · rename_i reg r' got
    rw [release?_eq_some got]
    exact freed r slot
  · exact .refl r

theorem vacate (other : kept → slot ≠ i) (id : Int32) (space : IdSpace) :
    r.Undisturbed (r.vacate slot id space) i kept := by
  unfold Registry.vacate
  split
  · rename_i reg r' got
    rw [release?_eq_some got]
    exact (freed r slot).trans (.bind other none)
  · exact .refl r

end Undisturbed

theorem ne_of_vacancy? (vacant : r.vacancy? = some slot) (held : r.isGuarded i = true) :
    slot ≠ i := by
  rintro rfl
  cases held.symm.trans (vacancy?_spec vacant).2.2

end Registry

/-- What is left to do clears no callback in this slot. -/
def Pending.Spares (i : Nat) : Pending → Prop
  | registering slot _ | undoing slot _ _ => slot ≠ i
  | tearingDown slot _ guarded _ => guarded = true → slot ≠ i
  | _ => True

/-- An operation spares the slots whose guards something beneath it holds: it has found the guard of
its own slot free, or does not clear the callback there. -/
theorem Pending.spares_of_beneath {held held' : Nat → Bool} {p : Pending} {i : Nat}
    (leads : p.grip.Leads held held') (beneath : held i = true) : p.Spares i := by
  have other {slot : Nat} (free : held slot = false) : slot ≠ i := by
    rintro rfl
    cases free.symm.trans beneath
  cases p with
  | query | reportingExit | notifyingExit => exact trivial
  | registering slot reg | undoing slot reg cause =>
    cases leads with
    | spares free => exact other free
  | tearingDown slot reg guarded rest =>
    rintro rfl
    cases leads with
    | takes free => exact other free

namespace Client

variable {κ : Type} {c : Client κ} {slot i : Nat} {reg : Registration} {kept : Prop}

theorem undisturbed_beginTeardown {c' : Client κ} {guarded : Bool}
    (begun : c.beginTeardown slot reg = some (c', guarded)) :
    c.registry.Undisturbed c'.registry i kept := by
  obtain ⟨-, -, -, rfl⟩ := beginTeardown_eq_some begun
  have claimed : c.registry.Undisturbed (c.registry.claimed slot) i kept := .claimed _ slot
  cases guarded with
  | true => exact claimed.trans (.guard _ slot)
  | false => exact claimed

theorem undisturbed_torn {entries : List (Nat × Registration)} {result : Client κ × Progress}
    (torn : Torn c entries result) : c.registry.Undisturbed result.1.registry i kept := by
  cases torn with
  | none =>
    change c.registry.Undisturbed c.removeGuard.toDispatcher.registry i kept
    rw [removeGuard_dispatcher]
    exact .refl c.registry
  | @next passed rest slot reg c' guarded split refused begun =>
    change c.registry.Undisturbed c'.registry i kept
    exact undisturbed_beginTeardown begun

theorem undisturbed_giveBack (other : kept → slot ≠ i) (cause : FocusError) :
    c.registry.Undisturbed (c.giveBack slot reg cause).1.registry i kept := by
  unfold giveBack
  split
  · exact .refl c.registry
  · exact .vacate other reg.id reg.space

/-- A teardown that has not taken the guard frees the slot and leaves the callback there. -/
theorem undisturbed_endTeardown {guarded : Bool} (other : kept → guarded = true → slot ≠ i) :
    c.registry.Undisturbed (c.endTeardown slot reg guarded).registry i kept := by
  have released : c.registry.Undisturbed (c.registry.release slot reg.id reg.space) i kept :=
    .release _ slot reg.id reg.space
  change c.registry.Undisturbed (if guarded then ((c.registry.release slot reg.id reg.space).unbind
    slot reg.id reg.space).unguard slot else c.registry.release slot reg.id reg.space) i kept
  cases guarded with
  | true =>
    have unbound := released.trans (.unbind (fun keep => other keep rfl) reg.id reg.space)
    exact unbound.trans (.unguard _ slot)
  | false => exact released

theorem undisturbed_announced (other : kept → slot ≠ i) (reply : Result Reply) :
    c.registry.Undisturbed (c.announced slot reg reply).1.registry i kept := by
  have announced := announced_announced c slot reg reply
  generalize c.announced slot reg reply = result at announced
  cases announced with
  | served | left => exact .refl c.registry
  | refused =>
    refine .trans (.claimed c.registry slot) ?_
    exact undisturbed_giveBack
      (c := (c.withRegistry (c.registry.claimed slot)).closeChannel reg.channel) other _
  | unstarted => exact .claimed c.registry slot

/-- Only an operation that brings a registration can move in, and not where the guard is held. -/
theorem undisturbed_call {o : Operation κ}
    (guarded : ∀ callback, o.callback? = some callback → c.registry.isGuarded i = true) :
    c.registry.Undisturbed (c.call o).1.registry i kept := by
  have called := call_called c o
  generalize c.call o = result at called
  cases called with
  | ended | asked => exact .refl c.registry
  | @entered slot reg callback d brought vacant fresh opened =>
    have same : d.registry = c.registry.entered slot reg callback :=
      (Dispatcher.openChannel_kept opened).1
    change c.registry.Undisturbed d.registry i kept
    rw [same]
    exact .of_other (Registry.ne_of_vacancy? vacant (guarded callback brought))
  | @unopened slot reg callback d e brought vacant fresh failed =>
    have other := Registry.ne_of_vacancy? vacant (guarded callback brought)
    have filled : c.registry.Undisturbed (c.registry.entered slot reg callback) i kept :=
      .of_other other
    have emptied := (filled.trans (.claimed _ slot)).trans (.freed _ slot)
    exact emptied.trans (.of_other other)
  | @torn slot reg c' guarded bringsNone live begun =>
    change c.registry.Undisturbed c'.registry i kept
    exact undisturbed_beginTeardown begun
  | finalized final torn =>
    rw [← stop_registry c]
    exact undisturbed_torn torn

theorem undisturbed_raise (signal : FatalSignal) :
    c.registry.Undisturbed (c.raise signal).1.registry i kept := by
  unfold raise
  split
  · split <;> exact .refl c.registry
  · exact .refl c.registry

theorem undisturbed_resume {p : Pending} (spares : kept → p.Spares i) (reply : Result Reply) :
    c.registry.Undisturbed (c.resume p reply).1.registry i kept := by
  cases p with
  | query | reportingExit | notifyingExit => exact .refl c.registry
  | registering slot reg => exact undisturbed_announced spares reply
  | undoing slot reg cause =>
    exact undisturbed_giveBack (c := c.closeChannel reg.channel) spares cause
  | tearingDown slot reg guarded rest =>
    have ended : c.registry.Undisturbed (c.endTeardown slot reg guarded).registry i kept :=
      undisturbed_endTeardown spares
    cases rest with
    | none => exact ended
    | some entries => exact ended.trans (undisturbed_torn (teardownAll_torn _ entries))

end Client

namespace Session

variable {k : Nesting} {s t : Session} {m : Move} {slot n : Nat} {key : ChannelKey} {e : Event}

theorem Happened.undisturbed (happened : s.Happened m t)
    (gripped : Gripped s.client.registry.isGuarded s.frames)
    (running : .callback slot key e n ∈ s.frames) :
    s.client.registry.Undisturbed t.client.registry slot True := by
  cases happened with
  | called o =>
    rw [client_advance]
    exact Client.undisturbed_call fun _ _ => gripped.held running (.inl rfl)
  | raised signal =>
    rw [client_advance]
    exact Client.undisturbed_raise signal
  | replied reply top =>
    rw [top] at gripped running
    obtain ⟨held, beneath, leads⟩ := gripped.beneath
    have member := List.mem_of_ne_of_mem (by simp) running
    rw [client_advance]
    exact Client.undisturbed_resume
      (fun _ => Pending.spares_of_beneath leads (beneath.held member (.inl rfl))) reply
  | @started x _ c _ _ _ guarded =>
    change s.client.registry.Undisturbed c.registry slot True
    rw [guarded]
    exact .guard _ x.slot
  | @returned i _ key' e' =>
    have after : (s.client.finish i key' e'.handle).registry = s.client.registry.unguard i :=
      Dispatcher.sendAck_registry ..
    change s.client.registry.Undisturbed (s.client.finish i key' e'.handle).registry slot True
    rw [after]
    exact .unguard _ i
  | @took _ c _ _ _ _ registry | @aside _ c _ registry =>
    change s.client.registry.Undisturbed c.registry slot True
    rw [registry]
    exact .refl s.client.registry

/-- The callbacks that run are those behind the guards of their slots. -/
def Bound (s : Session) : Prop :=
  ∀ slot key e n, .callback slot key e n ∈ s.frames →
    s.client.registry.binding? slot = some ⟨e.handle, key.space, n⟩

theorem running_of_advance {op : Nat} {r : Client Nat × Progress}
    (running : .callback slot key e n ∈ (s.advance op r).frames) :
    .callback slot key e n ∈ s.frames := by
  obtain ⟨c, p⟩ := r
  cases p with
  | finished => exact running
  | asking | stuck => exact List.mem_of_ne_of_mem (by simp) running

theorem Happened.bound (happened : s.Happened m t)
    (gripped : Gripped s.client.registry.isGuarded s.frames) (bound : s.Bound) : t.Bound := by
  intro slot key e n running
  have same (before : .callback slot key e n ∈ s.frames) :
      t.client.registry.binding? slot = some ⟨e.handle, key.space, n⟩ :=
    ((happened.undisturbed gripped before).binding trivial).trans (bound slot key e n before)
  cases happened with
  | called o => exact same (running_of_advance (s := s.numbered) running)
  | raised signal => exact same (running_of_advance (s := s.numbered) running)
  | replied reply top =>
    exact same (top ▸ List.mem_cons_of_mem _ (running_of_advance running))
  | @started x callback c _ _ behind guarded =>
    rcases List.mem_cons.mp running with new | before
    · obtain ⟨rfl, rfl, rfl, rfl⟩ := Frame.callback.inj new
      change c.registry.binding? x.slot = _
      rw [guarded, Registry.binding?_guard]
      exact behind
    · exact same before
  | returned top => exact same (top ▸ List.mem_cons_of_mem _ running)
  | took | aside => exact same running

theorem bound_of_reach (reach : Reach k s) : s.Bound := by
  refine reach.induct (P := Bound) ?_ ?_
  · intro config pid channels signals faults client created unused slot key e n running
    contradiction
  · intro s m t reach bound allowed moved
    exact (step_happened moved).bound (gripped_of_reach reach) bound

theorem resident_of_step (reach : Reach k s) (running : .callback slot key e n ∈ s.frames)
    (moved : s.step m = some t) {reg : Registration}
    (there : t.client.registry.registration? slot = some reg) :
    s.client.registry.registration? slot = some reg ∧ t.tenants slot = s.tenants slot := by
  have happened := step_happened moved
  have before := (happened.undisturbed (gripped_of_reach reach) running).resident reg there
  refine ⟨before, ?_⟩
  -- The same registration could still be there on behalf of another operation, if it had moved in.
  obtain ⟨arrival, stays⟩ := (Moved.of_happened (consistent_of_reach reach) happened).stays
  rcases stays slot _ (occupant?_live there) with ⟨o, was, same⟩ | ⟨-, empty, -⟩
  · obtain rfl := Option.some.inj ((occupant?_live before).symm.trans was)
    exact same.tenant
  · cases (occupant?_live before).symm.trans empty

theorem step_enter_eq_none_iff (reach : Reach k s) {x : Errand} (inHand : s.errand = some x) :
    s.step .enter = none ↔ ∃ f ∈ s.frames, f.Holds x.slot := by
  rw [← (gripped_of_reach reach).held_iff]
  constructor
  · intro waits
    cases free : s.client.registry.isGuarded x.slot with
    | true => rfl
    | false =>
      by_cases known : ∃ n, s.Binds x n
      · obtain ⟨n, bound⟩ := known
        by_cases told : x.reg.Told x.event
        · cases (step_told reach inHand free bound told).symm.trans waits
        · cases (step_untold reach inHand free bound told).symm.trans waits
      · have unbound : ∀ n, ¬ s.Binds x n := fun n bound => known ⟨n, bound⟩
        cases (step_unbound inHand free unbound).symm.trans waits
  · exact step_guarded inHand

theorem step_take_isSome (running : s.client.running = true) (free : s.errand = none) :
    (s.step .take).isSome = true := by
  cases next : s.client.nextEvent with
  | mk r d => cases r <;> simp [step, running, free, next]

theorem step_enter_of_idle (reach : Reach k s) {x : Errand} (inHand : s.errand = some x)
    (idle : s.frames = []) : (s.step .enter).isSome = true := by
  rw [Option.isSome_iff_ne_none]
  intro waits
  obtain ⟨f, member, holds⟩ := (step_enter_eq_none_iff reach inHand).mp waits
  rw [idle] at member
  contradiction

/-- A guard is held just by the callbacks that run in its slot and by the teardowns under way that
have taken it. An operation that gives back the slot of its registration never waits for the guard.
A loop that has nothing in hand never waits to take an event; it waits to go on with one only while
something is under way that holds the guard of the slot that the event is for, and so never between
operations. While a callback runs, its slot keeps it, the slot is not given to a new registration,
and whoever is in it after a move was in it before. -/
theorem locks_free (reach : Reach .full s) :
    (∀ slot, s.client.registry.isGuarded slot = true ↔ ∃ f ∈ s.frames, f.Holds slot) ∧
    (∀ op slot, .blocked op slot ∉ s.frames) ∧
    ((s.client.running = true → s.errand = none → (s.step .take).isSome = true) ∧
      ∀ x, s.errand = some x →
        (s.frames = [] → (s.step .enter).isSome = true) ∧
        (s.step .enter = none ↔ ∃ f ∈ s.frames, f.Holds x.slot)) ∧
    ∀ slot key e n, .callback slot key e n ∈ s.frames →
      s.client.registry.binding? slot = some ⟨e.handle, key.space, n⟩ ∧
      s.client.registry.vacancy? ≠ some slot ∧
      ∀ m t, s.step m = some t →
        t.client.registry.binding? slot = some ⟨e.handle, key.space, n⟩ ∧
        ∀ reg, t.client.registry.registration? slot = some reg →
          s.client.registry.registration? slot = some reg ∧ t.tenants slot = s.tenants slot := by
  have gripped := gripped_of_reach reach
  refine ⟨fun slot => gripped.held_iff, fun op slot waits => gripped.not_lacks waits slot rfl,
    ⟨step_take_isSome, fun x inHand =>
      ⟨step_enter_of_idle reach inHand, step_enter_eq_none_iff reach inHand⟩⟩,
    fun slot key e n running => ?_⟩
  have bound := bound_of_reach reach slot key e n running
  refine ⟨bound, fun vacant => ?_, fun m t moved => ⟨?_, fun reg =>
    resident_of_step reach running moved⟩⟩
  · exact Registry.ne_of_vacancy? vacant (gripped.held running (.inl rfl)) rfl
  · exact (((step_happened moved).undisturbed gripped running).binding trivial).trans bound

/-- A callback has ended its own registration, and begun another one, which the arbiter refuses. -/
theorem locks_free_of_nested_rollback :
    let event : Event := ⟨7, 5, .playback, .acquired, "", "", ""⟩
    let inside : List Move := [.call (.register 5 0 "media" false 0), .reply (.ok .done),
      .push (.focus 7 5) event, .take, .enter, .call (.unregister 5), .reply (.ok .done),
      .call (.register 5 0 "media" false 2)]
    let s := played .full 2 inside
    let t := played .full 2 (inside ++ [.reply (.error (.system (.code 7)))])
    s.step (.reply (.error (.system (.code 7)))) = some t ∧
      s.client.registry.registration? 0 = none ∧ s.client.registry.registration? 1 ≠ none ∧
      t.client.registry.registration? 1 = none ∧ (∀ op slot, .blocked op slot ∉ t.frames) ∧
      t.client.registry.binding? 0 = some ⟨5, .focus, 0⟩ := by
  intro event inside s t
  have reach : Reach .full s := reach_played (by decide) (by decide +kernel)
  have reach' : Reach .full t := reach_played (by decide) (by decide +kernel)
  have moved : s.step (.reply (.error (.system (.code 7)))) = some t :=
    step_played (by decide +kernel)
  have running : .callback 0 (.focus 7 5) event 0 ∈ s.frames :=
    List.mem_of_getElem? (show s.frames[1]? = _ from rfl)
  have kept := (locks_free reach).2.2.2 0 (.focus 7 5) event 0 running
  exact ⟨moved, by decide +kernel, by decide +kernel, by decide +kernel,
    (locks_free reach').2.1, (kept.2.2 _ t moved).1⟩

end Session
end AudioFocus
