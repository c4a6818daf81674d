import AudioFocus.Proofs.Claims

/-!
Bindings. The callback behind the guard of a slot can outlive its registration: a teardown that has
not got the guard frees the slot and leaves the callback there, until another one is put in its
place. Callbacks are put behind a guard once, by the operation that brings them, and are taken away
at any other time: so each is behind one guard at most, and one that is taken away never comes back.
-/
namespace AudioFocus

namespace Registry

variable {κ : Type} {r r' r'' : Registry κ} {slot : Nat}

/-- Nothing is put behind a guard; something may be taken away. -/
def Clears (r r' : Registry κ) : Prop := ∀ i b, r'.binding? i = some b → r.binding? i = some b

namespace Clears

protected theorem refl (r : Registry κ) : r.Clears r := fun _ _ there => there

protected theorem trans (first : r.Clears r') (second : r'.Clears r'') : r.Clears r'' :=
  fun i b there => first i b (second i b there)

theorem of_eq (same : ∀ i, r'.binding? i = r.binding? i) : r.Clears r' :=
  fun i _ there => (same i).symm.trans there

theorem bind_none (r : Registry κ) (slot : Nat) : r.Clears (r.bind slot none) := by
  intro i b there
  by_cases here : slot = i
  · rw [Registry.bind, binding?_modify, if_pos here] at there
    cases found : r.slots[i]? with
    | none => simp [found] at there
    | some s => simp [found] at there
  · rwa [binding?_bind_of_ne r none here] at there

theorem unbind (r : Registry κ) (slot : Nat) (id : Int32) (space : IdSpace) :
    r.Clears (r.unbind slot id space) := by
  intro i b there
  by_cases here : slot = i
  · rw [Registry.unbind, binding?_modify, if_pos here] at there
    obtain ⟨s, found, kept⟩ := Option.bind_eq_some_iff.mp there
    split at kept
    · simp at kept
    · simpa [binding?, found] using kept
  · rwa [binding?_unbind_of_ne r id space here] at there

theorem release (r : Registry κ) (slot : Nat) (id : Int32) (space : IdSpace) :
    r.Clears (r.release slot id space) := by
  unfold Registry.release
  split
  · rename_i reg r' got
    rw [release?_eq_some got]
    exact .of_eq fun i => binding?_freed r slot i
  · exact .refl r

theorem vacate (r : Registry κ) (slot : Nat) (id : Int32) (space : IdSpace) :
    r.Clears (r.vacate slot id space) := by
  unfold Registry.vacate
  split
  · rename_i reg r' got
    rw [release?_eq_some got]
    exact .trans (.of_eq fun i => binding?_freed r slot i) (.bind_none _ slot)
  · exact .refl r

end Clears

/-- One slot may have got this callback; otherwise something may be taken away. -/
def Fills (r r' : Registry κ) (slot : Nat) (callback : κ) : Prop :=
  ∀ i b, r'.binding? i = some b →
    r.binding? i = some b ∨ i = slot ∧ b.callback = callback

theorem fills_entered (room : slot < r.capacity) (reg : Registration) (callback : κ) :
    r.Fills (r.entered slot reg callback) slot callback := by
  intro i b there
  rw [binding?_entered i reg callback room] at there
  split at there
  · rename_i here
    obtain rfl := Option.some.inj there
    exact .inr ⟨here.symm, rfl⟩
  · exact .inl there

end Registry

namespace Client

variable {κ : Type} {c : Client κ}

/-- A part of an operation that brings nothing. -/
abbrev Clears (c : Client κ) (result : Client κ × Progress) : Prop :=
  c.registry.Clears result.1.registry

theorem clears_beginTeardown {c' : Client κ} {slot : Nat} {reg : Registration} {guarded : Bool}
    (begun : c.beginTeardown slot reg = some (c', guarded)) : c.registry.Clears c'.registry := by
  obtain ⟨-, -, -, rfl⟩ := beginTeardown_eq_some begun
  cases guarded <;> exact .of_eq fun i => by simp

theorem clears_torn {entries : List (Nat × Registration)} {result : Client κ × Progress}
    (torn : Torn c entries result) : c.Clears result := by
  cases torn with
  | none => exact .of_eq fun i => by simp
  | @next passed rest slot reg c' guarded split refused begun =>
    change c.registry.Clears c'.registry
    exact clears_beginTeardown begun

theorem clears_giveBack (c : Client κ) (slot : Nat) (reg : Registration) (cause : FocusError) :
    c.Clears (c.giveBack slot reg cause) := by
  unfold giveBack
  split
  · exact .refl c.registry
  · exact .vacate c.registry slot reg.id reg.space

theorem clears_endTeardown (c : Client κ) (slot : Nat) (reg : Registration) (guarded : Bool) :
    c.registry.Clears (c.endTeardown slot reg guarded).registry := by
  have released : c.registry.Clears (c.registry.release slot reg.id reg.space) :=
    .release c.registry slot reg.id reg.space
  change c.registry.Clears (if guarded then ((c.registry.release slot reg.id reg.space).unbind slot
    reg.id reg.space).unguard slot else c.registry.release slot reg.id reg.space)
  cases guarded with
  | true => exact (released.trans (.unbind _ slot reg.id reg.space)).trans (.of_eq fun i => by simp)
  | false => exact released

theorem clears_announced (c : Client κ) (slot : Nat) (reg : Registration) (reply : Result Reply) :
    c.Clears (c.announced slot reg reply) := by
  have announced := announced_announced c slot reg reply
  generalize c.announced slot reg reply = result at announced
  have claimed : c.registry.Clears (c.registry.claimed slot) := .of_eq fun i => by simp
  cases announced with
  | served | left => exact .refl c.registry
  | @refused e =>
    exact claimed.trans (clears_giveBack
      ((c.withRegistry (c.registry.claimed slot)).closeChannel reg.channel) slot reg e)
  | unstarted => exact claimed

theorem clears_raise (c : Client κ) (signal : FatalSignal) : c.Clears (c.raise signal) := by
  unfold raise
  split
  · split <;> exact .refl c.registry
  · exact .refl c.registry

theorem clears_resume (c : Client κ) (p : Pending) (reply : Result Reply) :
    c.Clears (c.resume p reply) := by
  cases p with
  | query | reportingExit | notifyingExit => exact .refl c.registry
  | registering slot reg => exact clears_announced c slot reg reply
  | undoing slot reg cause => exact clears_giveBack (c.closeChannel reg.channel) slot reg cause
  | tearingDown slot reg guarded rest =>
    have ended := clears_endTeardown c slot reg guarded
    cases rest with
    | none => exact ended
    | some entries => exact ended.trans (clears_torn (teardownAll_torn _ entries))

/-- Only an operation that brings a callback puts one behind a guard. -/
theorem fills_call (c : Client κ) (o : Operation κ) : c.Clears (c.call o) ∨
    ∃ slot callback, o.callback? = some callback ∧
      c.registry.Fills (c.call o).1.registry slot callback := by
  have called := call_called c o
  generalize c.call o = result at called
  cases called with
  | ended | asked => exact .inl (.refl c.registry)
  | @entered slot reg callback d brought vacant fresh opened =>
    have same : d.registry = c.registry.entered slot reg callback :=
      (Dispatcher.openChannel_kept opened).1
    refine .inr ⟨slot, callback, brought, ?_⟩
    change c.registry.Fills d.registry slot callback
    rw [same]
    exact Registry.fills_entered (Registry.vacancy?_spec vacant).1 reg callback
  | @unopened slot reg callback d e brought vacant fresh failed =>
    -- What was put there has been taken away again.
    refine .inr ⟨slot, callback, brought, fun i b there => ?_⟩
    have filled := Registry.fills_entered (Registry.vacancy?_spec vacant).1 reg callback
    exact filled i b (by simpa using Registry.Clears.bind_none _ slot i b there)
  | @torn slot reg c' guarded bringsNone live begun =>
    left
    change c.registry.Clears c'.registry
    exact clears_beginTeardown begun
  | finalized _ torn =>
    left
    have cleared := clears_torn torn
    rwa [Clears, stop_registry] at cleared

end Client

namespace Session

variable {n : Nesting} {s t : Session} {m : Move}

/-- What a move does to the callbacks behind guards. Only an operation that begins brings one. -/
theorem Happened.binds (happened : s.Happened m t) :
    s.client.registry.Clears t.client.registry ∨
      s.begun < t.begun ∧ ∃ slot, s.client.registry.Fills t.client.registry slot s.begun := by
  cases happened with
  | called o named =>
    rw [client_advance]
    rcases s.client.fills_call o with cleared | ⟨slot, callback, brought, filled⟩
    · exact .inl cleared
    · obtain rfl : callback = s.begun := by simpa [brought] using named
      exact .inr ⟨by rw [begun_advance]; exact Nat.lt_succ_self _, slot, filled⟩
  | raised signal =>
    rw [client_advance]
    exact .inl (s.client.clears_raise signal)
  | @replied op place pending frames reply =>
    rw [client_advance]
    exact .inl (s.client.clears_resume pending reply)
  | @took _ c _ _ _ _ registry | @aside _ c _ registry =>
    exact .inl (.of_eq fun i => congrArg (Registry.binding? · i) registry)
  | @started x _ c _ _ _ guarded =>
    refine .inl (.of_eq fun i => ?_)
    change c.registry.binding? i = _
    rw [guarded, Registry.binding?_guard]
  | @returned slot _ key e =>
    refine .inl (.of_eq fun i => ?_)
    have same : (s.client.finish slot key e.handle).registry = s.client.registry.unguard slot :=
      Dispatcher.sendAck_registry ..
    change (s.client.finish slot key e.handle).registry.binding? i = _
    rw [same, Registry.binding?_unguard]

/-- What is behind guards was brought by operations that have begun, each in one slot. -/
structure Bindings (s : Session) : Prop where
  old : ∀ i b, s.client.registry.binding? i = some b → b.callback < s.begun
  distinct : ∀ i j b b', s.client.registry.binding? i = some b →
    s.client.registry.binding? j = some b' → b.callback = b'.callback → i = j

theorem Bindings.clears (bindings : s.Bindings) (le : s.begun ≤ t.begun)
    (cleared : s.client.registry.Clears t.client.registry) : t.Bindings where
  old i b there := Nat.lt_of_lt_of_le (bindings.old i b (cleared i b there)) le
  distinct i j b b' there there' :=
    bindings.distinct i j b b' (cleared i b there) (cleared j b' there')

theorem Bindings.fills (bindings : s.Bindings) (lt : s.begun < t.begun) {slot : Nat}
    (filled : s.client.registry.Fills t.client.registry slot s.begun) : t.Bindings where
  old i b there := by
    rcases filled i b there with before | ⟨-, new⟩
    · exact Nat.lt_trans (bindings.old i b before) lt
    · exact new ▸ lt
  distinct i j b b' there there' same := by
    -- The new callback is in one slot, and is none of those that were there.
    rcases filled i b there with before | ⟨rfl, new⟩ <;>
      rcases filled j b' there' with before' | ⟨rfl, new'⟩
    · exact bindings.distinct i j b b' before before' same
    · exact absurd (same.trans new') (Nat.ne_of_lt (bindings.old i b before))
    · exact absurd (same.symm.trans new) (Nat.ne_of_lt (bindings.old j b' before'))
    · rfl

theorem bindings_of_reach (reach : Reach n s) : s.Bindings := by
  refine reach.induct ?_ fun s m t reach bindings _ moved => ?_
  · intro config pid channels signals faults client created unused
    obtain ⟨-, registry, -⟩ := Client.create_eq_ok created
    have empty : ∀ i b, client.registry.binding? i ≠ some b := by
      intro i b
      rw [registry, Registry.binding?_ofCapacity]
      simp
    exact ⟨fun i b there => absurd there (empty i b),
      fun i j b b' there => absurd there (empty i b)⟩
  · have happened := step_happened moved
    rcases happened.binds with cleared | ⟨lt, slot, filled⟩
    · have later := (Moved.of_happened (consistent_of_reach reach) happened).begun_le
      exact bindings.clears later cleared
    · exact bindings.fills lt filled

/-- What is behind no guard never is again. -/
theorem not_bound_of_happened (happened : s.Happened m t) {slot op : Nat} (old : op < s.begun)
    (before : ∀ b, s.client.registry.binding? slot = some b → b.callback ≠ op) :
    ∀ b, t.client.registry.binding? slot = some b → b.callback ≠ op := by
  intro b there
  rcases happened.binds with cleared | ⟨-, i, filled⟩
  · exact before b (cleared slot b there)
  · rcases filled slot b there with there | ⟨-, new⟩
    · exact before b there
    · exact new ▸ Nat.ne_of_gt old

end Session
end AudioFocus
