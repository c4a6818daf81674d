import AudioFocus.Proofs.Moves

/-!
Guards. What is under way has taken them one after the other, and lets go of them in the opposite
order: a callback has that of its slot, a teardown that of the slot that it claims, unless something
beneath it has that already. A registration that may have to be taken back finds the guard of its
slot free, so it never waits for it.
-/
namespace AudioFocus

/-- What something under way has to do with guards. -/
inductive Grip
  | nothing
  /-- It has taken this one. -/
  | takes (slot : Nat)
  /-- Something beneath it holds this one. -/
  | leans (slot : Nat)
  /-- It will take this one, which nothing beneath it holds. -/
  | spares (slot : Nat)
  /-- It waits for this one. -/
  | lacks (slot : Nat)

def Pending.grip : Pending → Grip
  | registering slot _ | undoing slot _ _ => .spares slot
  | tearingDown slot _ guarded _ => if guarded then .takes slot else .leans slot
  | _ => .nothing

def Progress.grip : Progress → Grip
  | finished _ => .nothing
  | asking _ pending => pending.grip
  | stuck slot => .lacks slot

def Frame.grip : Frame → Grip
  | asking _ _ pending => pending.grip
  | callback slot .. => .takes slot
  | blocked _ slot => .lacks slot

/-- Leads from the guards that are held before to those that are held after. Nothing leads to a wait
for one. -/
inductive Grip.Leads (held : Nat → Bool) : Grip → (Nat → Bool) → Prop
  | nothing : Leads held nothing held
  | takes {slot : Nat} (free : held slot = false) :
    Leads held (takes slot) fun i => if slot = i then true else held i
  | leans {slot : Nat} (taken : held slot = true) : Leads held (leans slot) held
  | spares {slot : Nat} (free : held slot = false) : Leads held (spares slot) held

/-- The guards that what is under way holds. -/
inductive Gripped : (Nat → Bool) → List Frame → Prop
  | nil : Gripped (fun _ => false) []
  | cons {held held' : Nat → Bool} {f : Frame} {frames : List Frame}
      (beneath : Gripped held frames) (leads : f.grip.Leads held held') :
    Gripped held' (f :: frames)

namespace Grip

variable {held held' : Nat → Bool} {slot : Nat}

theorem Leads.keeps {g : Grip} (leads : g.Leads held held') (before : held slot = true) :
    held' slot = true := by
  cases leads with
  | nothing | leans | spares => exact before
  | takes => simp [before]

/-- Letting go of a guard gives back what was held before it was taken. -/
theorem Leads.undo (leads : (Grip.takes slot).Leads held held') :
    (fun i => if slot = i then false else held' i) = held := by
  cases leads with
  | takes free =>
    funext i
    by_cases h : slot = i
    · simp [← h, free]
    · simp [h]

end Grip

theorem Gripped.beneath {held' : Nat → Bool} {f : Frame} {frames : List Frame}
    (gripped : Gripped held' (f :: frames)) :
    ∃ held, Gripped held frames ∧ f.grip.Leads held held' := by
  cases gripped with
  | cons beneath leads => exact ⟨_, beneath, leads⟩

theorem Gripped.held {held : Nat → Bool} {frames : List Frame} (gripped : Gripped held frames)
    {f : Frame} (member : f ∈ frames) {slot : Nat}
    (grip : f.grip = .takes slot ∨ f.grip = .leans slot) : held slot = true := by
  induction gripped with
  | nil => contradiction
  | cons beneath leads ih =>
    rcases List.mem_cons.mp member with rfl | member
    · rcases grip with grip | grip <;> rw [grip] at leads
      · cases leads with
        | takes free => simp
      · cases leads with
        | leans taken => exact taken
    · exact leads.keeps (ih member)

/-- Nothing waits for a guard. -/
theorem Gripped.not_lacks {held : Nat → Bool} {frames : List Frame} (gripped : Gripped held frames)
    {f : Frame} (member : f ∈ frames) (slot : Nat) : f.grip ≠ .lacks slot := by
  induction gripped with
  | nil => contradiction
  | cons beneath leads ih =>
    rcases List.mem_cons.mp member with rfl | member
    · intro grip
      rw [grip] at leads
      contradiction
    · exact ih member

namespace Client

variable {κ : Type} {c : Client κ} {slot : Nat} {reg : Registration} {held : Nat → Bool}

/-- How a part of an operation leaves the guards. -/
abbrev Grips (held : Nat → Bool) (result : Client κ × Progress) : Prop :=
  result.2.grip.Leads held result.1.registry.isGuarded

theorem Grips.of_eq {result : Client κ × Progress} (grip : result.2.grip = .nothing)
    (same : ∀ i, result.1.registry.isGuarded i = held i) : Grips held result := by
  obtain rfl : result.1.registry.isGuarded = held := funext same
  unfold Grips
  rw [grip]
  exact .nothing

theorem guards_claimed (c : Client κ) (slot : Nat) :
    (c.registry.claimed slot).isGuarded = c.registry.isGuarded :=
  funext fun _ => Registry.isGuarded_claimed ..

theorem grips_beginTeardown {c' : Client κ} {guarded : Bool} (request : Request)
    (rest : Option (List (Nat × Registration)))
    (begun : c.beginTeardown slot reg = some (c', guarded)) :
    Grips c.registry.isGuarded (c'.ask request (.tearingDown slot reg guarded rest)) := by
  obtain ⟨⟨current, live, -⟩, -, own, rfl⟩ := beginTeardown_eq_some begun
  cases guarded with
  | true =>
    have after : ((c.registry.claimed slot).guard slot).isGuarded =
        fun i => if slot = i then true else c.registry.isGuarded i := by
      funext i
      rw [Registry.isGuarded_guard_of_live (by simp [live]), Registry.isGuarded_claimed]
    change (Grip.takes slot).Leads c.registry.isGuarded
      ((c.registry.claimed slot).guard slot).isGuarded
    rw [after]
    exact .takes (by simpa using own)
  | false =>
    change (Grip.leans slot).Leads c.registry.isGuarded (c.registry.claimed slot).isGuarded
    rw [guards_claimed]
    exact .leans (by simpa using own)

theorem grips_torn {entries : List (Nat × Registration)} {result : Client κ × Progress}
    (torn : Torn c entries result) : Grips c.registry.isGuarded result := by
  cases torn with
  | none => exact .of_eq rfl (by simp)
  | next _ _ _ begun => exact grips_beginTeardown _ _ begun

theorem grips_giveBack (reg : Registration) (free : c.registry.isGuarded slot = false)
    (cause : FocusError) : Grips c.registry.isGuarded (c.giveBack slot reg cause) := by
  unfold giveBack
  rw [if_neg (by simp [free])]
  exact .of_eq rfl (by simp)

theorem isGuarded_endTeardown (c : Client κ) (slot : Nat) (reg : Registration) (guarded : Bool)
    (i : Nat) : (c.endTeardown slot reg guarded).registry.isGuarded i =
      if guarded ∧ slot = i then false else c.registry.isGuarded i := by
  change Registry.isGuarded (if guarded then ((c.registry.release slot reg.id reg.space).unbind slot
    reg.id reg.space).unguard slot else c.registry.release slot reg.id reg.space) i = _
  cases guarded <;> simp [Registry.isGuarded_unguard]

theorem grips_announced (free : c.registry.isGuarded slot = false) (reply : Result Reply) :
    Grips c.registry.isGuarded (c.announced slot reg reply) := by
  have announced := announced_announced c slot reg reply
  generalize c.announced slot reg reply = result at announced
  cases announced with
  | served | left => exact .of_eq rfl fun _ => rfl
  | refused =>
    rw [← guards_claimed c slot] at free ⊢
    exact grips_giveBack reg
      (c := (c.withRegistry (c.registry.claimed slot)).closeChannel reg.channel) free _
  | unstarted =>
    change (Grip.spares slot).Leads c.registry.isGuarded (c.registry.claimed slot).isGuarded
    rw [guards_claimed]
    exact .spares free

theorem grips_call (c : Client κ) (o : Operation κ) :
    Grips c.registry.isGuarded (c.call o) := by
  have called := call_called c o
  generalize c.call o = result at called
  cases called with
  | ended | asked => exact .nothing
  | @entered slot reg callback d brought vacant fresh opened =>
    have same : d.registry.isGuarded = c.registry.isGuarded :=
      funext fun i => by
        rw [(Dispatcher.openChannel_kept opened).1]
        exact Registry.isGuarded_entered ..
    change (Grip.spares slot).Leads c.registry.isGuarded d.registry.isGuarded
    rw [same]
    exact .spares (Registry.vacancy?_spec vacant).2.2
  | unopened => exact .of_eq rfl fun i => by simp
  | torn bringsNone live begun => exact grips_beginTeardown _ _ begun
  | finalized final torn =>
    rw [← stop_registry c]
    exact grips_torn torn

theorem grips_raise (c : Client κ) (signal : FatalSignal) :
    Grips c.registry.isGuarded (c.raise signal) := by
  unfold raise
  split
  · split <;> exact .nothing
  · exact .nothing

theorem grips_resume {p : Pending} (leads : p.grip.Leads held c.registry.isGuarded)
    (reply : Result Reply) : Grips held (c.resume p reply) := by
  cases p with
  | query | reportingExit | notifyingExit =>
    cases leads
    exact .of_eq rfl fun _ => rfl
  | registering slot reg =>
    cases leads with
    | spares free => exact grips_announced free reply
  | undoing slot reg cause =>
    cases leads with
    | spares free => exact grips_giveBack reg (c := c.closeChannel reg.channel) free cause
  | tearingDown slot reg guarded rest =>
    have ended : (c.endTeardown slot reg guarded).registry.isGuarded = held := by
      cases guarded with
      | true =>
        rw [← leads.undo]
        funext i
        simp [isGuarded_endTeardown]
      | false =>
        cases leads with
        | leans => funext i; simp [isGuarded_endTeardown]
    cases rest with
    | none => exact .of_eq rfl fun i => congrFun ended i
    | some entries =>
      rw [← ended]
      exact grips_torn (teardownAll_torn _ entries)

end Client

namespace Session

theorem gripped_advance {s : Session} {op : Nat} {held : Nat → Bool} {r : Client Nat × Progress}
    (beneath : Gripped held s.frames) (grips : Client.Grips held r) :
    Gripped (s.advance op r).client.registry.isGuarded (s.advance op r).frames := by
  obtain ⟨c, p⟩ := r
  cases p with
  | finished =>
    have same : c.registry.isGuarded = held := by
      cases grips
      rfl
    change Gripped c.registry.isGuarded s.frames
    rw [same]
    exact beneath
  | asking request pending => exact .cons beneath grips
  | stuck slot => exact .cons beneath grips

theorem Happened.gripped {s t : Session} {m : Move} (happened : s.Happened m t)
    (gripped : Gripped s.client.registry.isGuarded s.frames) :
    Gripped t.client.registry.isGuarded t.frames := by
  cases happened with
  | called o => exact gripped_advance gripped (s.client.grips_call o)
  | raised signal => exact gripped_advance gripped (s.client.grips_raise signal)
  | replied reply top =>
    rw [top] at gripped
    obtain ⟨held, beneath, leads⟩ := gripped.beneath
    exact gripped_advance beneath (Client.grips_resume leads reply)
  | @started x callback c errand shown bound guarded kept running free =>
    have after : c.registry.isGuarded =
        fun i => if x.slot = i then true else s.client.registry.isGuarded i := by
      funext i
      rw [guarded, Registry.isGuarded_guard_of_bound bound]
    change Gripped c.registry.isGuarded _
    rw [after]
    exact .cons gripped (.takes free)
  | @returned slot callback key e frames top =>
    rw [top] at gripped
    obtain ⟨held, beneath, leads⟩ := gripped.beneath
    have after : (s.client.finish slot key e.handle).registry.isGuarded =
        fun i => if slot = i then false else s.client.registry.isGuarded i := by
      funext i
      rw [← Registry.isGuarded_unguard]
      exact congrArg (Registry.isGuarded · i) (Dispatcher.sendAck_registry ..)
    change Gripped (s.client.finish slot key e.handle).registry.isGuarded frames
    rw [after, leads.undo]
    exact beneath
  | @took _ c _ _ _ _ registry | @aside m c _ registry =>
    change Gripped c.registry.isGuarded s.frames
    rw [registry]
    exact gripped

theorem gripped_of_reach {n : Nesting} {s : Session} (reach : Reach n s) :
    Gripped s.client.registry.isGuarded s.frames := by
  refine reach.induct (P := fun s => Gripped s.client.registry.isGuarded s.frames) ?_ ?_
  · intro config pid channels signals faults client created unused
    obtain ⟨-, registry, -⟩ := Client.create_eq_ok created
    have none_held : client.registry.isGuarded = fun _ => false := by
      funext i
      rw [registry, Registry.isGuarded_ofCapacity]
    change Gripped client.registry.isGuarded []
    rw [none_held]
    exact .nil
  · intro s m t reach gripped allowed moved
    exact (step_happened moved).gripped gripped

end Session
end AudioFocus
