import AudioFocus.Proofs.Serving
import AudioFocus.Proofs.Signals
import AudioFocus.Proofs.Withdrawal
import Mathlib.Data.List.Sort

/-!
The end of a client. `finalize` goes through a list of the live registrations that it has made
beforehand, while the registry changes under it. What carries it is that the list stays the list of
what is live: each teardown takes away its head, and the arbiter has no say in that.
-/
namespace AudioFocus

namespace Registry

variable {κ κ' : Type}

/-- The list of the live registrations is determined by who is in which slot. -/
theorem live_eq_of_mem {r : Registry κ} {entries : List (Nat × Registration)}
    (ordered : entries.Pairwise (·.1 < ·.1))
    (same : ∀ slot reg, r.registration? slot = some reg ↔ (slot, reg) ∈ entries) :
    r.live = entries := by
  have : Std.Irrefl fun e e' : Nat × Registration => e.1 < e'.1 := ⟨fun e => Nat.lt_irrefl e.1⟩
  have : Std.Antisymm fun e e' : Nat × Registration => e.1 < e'.1 :=
    ⟨fun e e' before after => absurd before (Nat.lt_asymm after)⟩
  apply r.live_ordered.eq_of_mem_iff ordered
  rintro ⟨slot, reg⟩
  rw [mem_live]
  exact same slot reg

/-- Where the first live registration goes, the others are left. -/
theorem live_of_first_gone {r : Registry κ} {r' : Registry κ'} {slot : Nat} {reg : Registration}
    {rest : List (Nat × Registration)} (live : r.live = (slot, reg) :: rest)
    (gone : ∀ i, r'.registration? i = if slot = i then none else r.registration? i) :
    r'.live = rest := by
  have ordered := r.live_ordered
  rw [live] at ordered
  obtain ⟨first, ordered⟩ := List.pairwise_cons.mp ordered
  apply live_eq_of_mem ordered
  intro i reg'
  rw [gone]
  by_cases h : slot = i
  · subst h
    have absent : (slot, reg') ∉ rest := by
      intro member
      have before := first (slot, reg') member
      omega
    simp [absent]
  · rw [if_neg h, ← mem_live, live, List.mem_cons]
    simp [Ne.symm h]

end Registry

namespace Client

variable {κ : Type}

section Drain

variable {c : Client κ} {slot : Nat} {reg : Registration} {rest : List (Nat × Registration)}

/-- Between two teardowns of a `finalize`: these registrations are left, and nobody else is at
them. -/
structure Draining (c : Client κ) (left : List (Nat × Registration)) : Prop where
  live : c.registry.live = left
  unclaimed : ∀ e ∈ left, c.registry.isClosing e.1 = false
  balanced : c.Balanced
  stopped : c.running = false

theorem Draining.claims (draining : c.Draining ((slot, reg) :: rest)) :
    c.registry.registration? slot = some reg ∧ ∃ c' guarded,
      c.beginTeardown slot reg = some (c', guarded) := by
  have live : c.registry.registration? slot = some reg := by
    rw [← Registry.mem_live, draining.live]
    exact List.mem_cons_self
  exact ⟨live, exists_beginTeardown live (draining.unclaimed (slot, reg) List.mem_cons_self)⟩

/-- One teardown, whatever happens beside it: its registration is gone, the others are left. -/
theorem Draining.next (draining : c.Draining ((slot, reg) :: rest)) {c' c₁ : Client κ}
    {guarded : Bool} (begun : c.beginTeardown slot reg = some (c', guarded))
    {request : Request} (beside : (c'.withDispatcher (c'.note (.request request))).Beside c₁) :
    (c₁.endTeardown slot reg guarded).Draining rest := by
  obtain ⟨live, -⟩ := draining.claims
  have alike : c₁.registry.Alike (c.registry.claimed slot) := by
    rw [beside.registry]
    change c'.registry.Alike _
    exact alike_beginTeardown begun
  have live' : c₁.registry.registration? slot = some reg := by
    rw [alike.registration, Registry.registration?_claimed, live]
  have held : c₁.registry.Holds slot reg.id reg.space := ⟨reg, live', rfl, rfl⟩
  have gone (i : Nat) : (c₁.endTeardown slot reg guarded).registry.registration? i =
      if slot = i then none else c.registry.registration? i := by
    rw [registration?_endTeardown held, alike.registration, Registry.registration?_claimed]
  have left := Registry.live_of_first_gone draining.live gone
  refine ⟨left, fun e member => ?_, ?_, ?_⟩
  · have found : (c₁.endTeardown slot reg guarded).registry.registration? e.1 = some e.2 := by
      rw [← Registry.mem_live, left]
      exact member
    have other : slot ≠ e.1 := by
      intro same
      rw [gone, if_pos same] at found
      contradiction
    have found' : (c₁.registry.registration? e.1).isSome := by
      rw [registration?_endTeardown held, if_neg other] at found
      simp [found]
    have closing := (alike_endTeardown held guarded).closing e.1 (by simp [found])
    rw [Registry.isClosing_freed, if_neg other, alike.closing e.1 found',
      Registry.isClosing_claimed_of_live (by simp [live]), if_neg other] at closing
    rw [closing]
    exact draining.unclaimed e (List.mem_cons_of_mem _ member)
  · have served : c₁.Balanced := by
      apply (draining.balanced.beginTeardown begun).of_eq
      · intro key
        rw [beside.registry]
        rfl
      · exact beside.channels
    exact served.endTeardown live' guarded
  · obtain ⟨-, -, -, rfl⟩ := beginTeardown_eq_some begun
    exact beside.running.trans draining.stopped

/-- What was done to a client between two states of it: these requests and closes, in this order,
and the guard is off at the end. -/
structure Drained (c c' : Client κ) (left : List (Nat × Registration)) : Prop where
  empty : c'.Draining []
  trace : c'.trace = c.trace ++
    left.flatMap fun e => [.request e.2.withdrawal, .closed e.2.channel]
  guarding : c'.guarding = false
  signals : c'.signals = if c.guarding then c.signals.remove else c.signals

theorem drained_removeGuard (draining : c.Draining []) : c.Drained c.removeGuard [] := by
  obtain ⟨live, -, balanced, stopped⟩ := draining
  have same := c.removeGuard_dispatcher
  refine ⟨⟨?_, by simp, balanced.removeGuard, ?_⟩, ?_, ?_, ?_⟩
  · rw [same, live]
  · rw [same, stopped]
  · rw [same]
    simp
  · exact c.guarding_removeGuard
  · exact c.signals_removeGuard

/-- The arbiter may reply what it likes: every registration that is left gets its one request, in
the order of the list. -/
theorem Draining.drained (draining : c.Draining rest) {exchanges : List (Request × Result Reply)}
    {c' : Client κ} {result : Result Value}
    (serves : Serves Beside (c.teardownAll rest) exchanges c' result) :
    result = .ok .unit ∧ exchanges.map Prod.fst = rest.map (·.2.withdrawal) ∧
      c.Drained c' rest := by
  induction rest generalizing c exchanges with
  | nil =>
    cases serves
    exact ⟨rfl, rfl, drained_removeGuard draining⟩
  | cons e rest ih =>
    obtain ⟨slot, reg⟩ := e
    obtain ⟨-, c₀, guarded, begun⟩ := draining.claims
    rw [teardownAll, begun] at serves
    cases serves with
    | @answered _ c₁ _ _ _ _ _ beside reply served =>
      obtain ⟨rfl, requests, empty, trace, guarding, signals⟩ :=
        ih (draining.next begun beside) served
      obtain ⟨-, -, -, rfl⟩ := beginTeardown_eq_some begun
      have sent : (c₁.endTeardown slot reg guarded).trace =
          (c.trace ++ [.request reg.withdrawal]) ++ [.closed reg.channel] :=
        congrArg (· ++ [Action.closed reg.channel]) beside.trace
      have signals' : (c₁.endTeardown slot reg guarded).signals = c.signals := beside.signals
      have guarding' : (c₁.endTeardown slot reg guarded).guarding = c.guarding := beside.guarding
      refine ⟨rfl, ?_, empty, ?_, guarding, ?_⟩
      · rw [List.map_cons, requests, List.map_cons]
      · rw [trace, sent]
        simp
      · rw [signals, signals', guarding']

theorem Draining.serves (draining : c.Draining rest) {replies : List (Result Reply)}
    (each : replies.length = rest.length) :
    ∃ c', Serves Beside (c.teardownAll rest) ((rest.map (·.2.withdrawal)).zip replies) c'
      (.ok .unit) := by
  induction rest generalizing c replies with
  | nil => exact ⟨c.removeGuard, .finished _ _⟩
  | cons e rest ih =>
    obtain ⟨slot, reg⟩ := e
    obtain ⟨-, c₀, guarded, begun⟩ := draining.claims
    cases replies with
    | nil => contradiction
    | cons reply replies =>
      have served := draining.next begun
        (.refl (c₀.withDispatcher (c₀.note (.request reg.withdrawal))))
      obtain ⟨c', rest⟩ := ih served (by simpa using each)
      rw [teardownAll, begun]
      exact ⟨c', .answered (.refl _) reply rest⟩

end Drain

/-- A client that has nothing left has nothing to do when it is finalized again. -/
theorem Drained.again {c c' : Client κ} {left : List (Nat × Registration)}
    (drained : c.Drained c' left) : c'.call .finalize = (c', .finished (.ok .unit)) := by
  obtain ⟨⟨live, -, -, stopped⟩, -, guarding, -⟩ := drained
  have idle : c'.stop = c' := by
    simp [stop, Dispatcher.stop, stopped, withDispatcher]
  change c'.stop.teardownAll c'.stop.registry.live = _
  rw [idle, live]
  simp [teardownAll, removeGuard, guarding]

end Client

namespace Session

variable {s : Session}

end Session
end AudioFocus
