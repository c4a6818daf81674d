import AudioFocus.Client.Call
import AudioFocus.Proofs.Lookup

/-!
The notice that a process is ending. How many registrations it owns follows from the past of the
registry: each one that was entered is live or has been taken out, so those that are live are those
that came less those that left, and a claim changes neither number. The arbiter is told unless that
count can be taken and is zero.
-/
namespace AudioFocus

namespace Registry

variable {κ : Type}

/-- The registration that an action enters. -/
def entering? (r : Registry κ) : Action κ → Option Registration
  | .allocate init =>
    match r.allocate init with
    | .ok (slot, _) => some (init slot).1
    | .error _ => none
  | _ => none

/-- The registration that an action takes out. -/
def leaving? (r : Registry κ) : Action κ → Option Registration
  | .release slot id space => (r.release? slot id space).map Prod.fst
  | _ => none

/-- The registrations that actions enter, one after the other. -/
def arrivals (r : Registry κ) : List (Action κ) → List Registration
  | [] => []
  | a :: rest => (r.entering? a).toList ++ (r.after a).arrivals rest

/-- The registrations that actions take out, one after the other. -/
def departures (r : Registry κ) : List (Action κ) → List Registration
  | [] => []
  | a :: rest => (r.leaving? a).toList ++ (r.after a).departures rest

variable (r : Registry κ) (p : Registration → Bool)

theorem countP_one (reg : Registration) : [reg].countP p = (p reg).toNat := by
  cases known : p reg <;> simp [known]

theorem countP_live_after (a : Action κ) :
    (r.after a).live.countP (fun e => p e.2) + (r.leaving? a).toList.countP p =
      r.live.countP (fun e => p e.2) + (r.entering? a).toList.countP p := by
  cases a with
  | allocate init =>
    simp only [after, leaving?, entering?]
    cases got : r.allocate init with
    | error e => rfl
    | ok x =>
      obtain ⟨slot, r'⟩ := x
      obtain ⟨vacant, -, rfl⟩ := allocate_eq_ok got
      obtain ⟨room, empty, -⟩ := vacancy?_spec vacant
      exact (countP_live_entered p _ _ room empty).trans (by rw [Option.toList_some, countP_one])
  | claim slot id space =>
    simp only [after, leaving?, entering?]
    cases got : r.claim? slot id space with
    | none => rfl
    | some r' =>
      obtain ⟨-, -, rfl⟩ := claim?_eq_some.mp got
      exact congrArg (· + 0) (r.countP_live_modify_of_eq p slot fun _ => rfl)
  | release slot id space =>
    simp only [after, leaving?, entering?, release]
    cases got : r.release? slot id space with
    | none => rfl
    | some x =>
      obtain ⟨reg, r'⟩ := x
      obtain ⟨⟨live, -⟩, rfl⟩ := release?_eq_some_iff.mp got
      exact (congrArg _ (countP_one p reg)).trans (countP_live_freed p live)
  | guard slot | unguard slot | bind slot =>
    exact congrArg (· + 0) (r.countP_live_modify_of_eq p slot fun _ => rfl)
  | unbind slot id space =>
    exact congrArg (· + 0) (r.countP_live_modify_of_eq p slot fun s => by split <;> rfl)

/-- Whoever came is live or has left. -/
theorem countP_live_run (actions : List (Action κ)) :
    (r.run actions).live.countP (fun e => p e.2) + (r.departures actions).countP p =
      r.live.countP (fun e => p e.2) + (r.arrivals actions).countP p := by
  induction actions generalizing r with
  | nil => rfl
  | cons a rest ih =>
    have step := r.countP_live_after p a
    have later := ih (r.after a)
    change ((r.after a).run rest).live.countP _ + _ = _
    rw [departures, arrivals, List.countP_append, List.countP_append]
    omega

theorem arrived_eq (n : Nat) (actions : List (Action κ)) :
    ((ofCapacity n).run actions).live.countP (fun e => p e.2) +
        ((ofCapacity n).departures actions).countP p =
      ((ofCapacity n).arrivals actions).countP p := by
  have all := (ofCapacity n).countP_live_run p actions
  rwa [(ofCapacity n).countP_live_of_empty p (registration?_ofCapacity n), Nat.zero_add] at all

end Registry

namespace Client

variable {κ : Type}

/-- The reply to a notice of an exit makes the result, whatever has become of the client. -/
theorem resume_notifyingExit (c : Client κ) (reply : Result Reply) :
    c.resume .notifyingExit reply = (c, .finished (match reply with
      | .ok .done => .ok (.flag true)
      | .ok _ => .error (.unexpectedReply .emergentExit)
      | .error e => .error e)) := by
  cases reply with
  | error e => rfl
  | ok reply => cases reply <;> rfl

theorem notifyExit_eq (c : Client κ) (pid : Int32) : c.notifyExit pid =
    if c.registry.busy = false ∧ c.registry.live.countP (·.2.owner = pid) = 0 then
      (c, .finished (.ok (.flag false)))
    else ({ c with trace := c.trace ++ [.request (.emergentExit pid)] },
      .asking (.emergentExit pid) .notifyingExit) := by
  unfold notifyExit
  cases busy : c.registry.busy with
  | true =>
    have unknown : c.registry.ownedBy? pid = none := by rw [Registry.ownedBy?, busy, if_pos rfl]
    simp only [unknown, reduceCtorEq, if_false, Bool.true_eq_false, false_and]
    rfl
  | false =>
    simp only [Registry.ownedBy?_of_idle busy, Option.some.injEq, true_and]
    rfl

/-- Whatever was done to a registry: if nobody else is at it, a process is found to own as many
registrations as came for it and have not left. If others are at it nobody can say. The arbiter is
told of the end of the process, once and of nothing else, unless the number is known and is zero.
Whatever happens until its reply, that alone makes the result, and neither before it nor after does
anything in the client change but what has been sent. -/
theorem notifyExit_exact (n : Nat) (actions : List (Registry.Action κ)) (c : Client κ)
    (pid : Int32) :
    let r : Registry κ := (Registry.ofCapacity n).run actions
    let came := ((Registry.ofCapacity n).arrivals actions).countP (·.owner = pid)
    let left := ((Registry.ofCapacity n).departures actions).countP (·.owner = pid)
    r.ownedBy? pid = some (came - left) ∧ left ≤ came ∧
    { r with busy := true }.ownedBy? pid = none ∧
    (∀ busy : Bool,
      let c := c.withRegistry { r with busy }
      c.notifyExit pid =
        if busy = false ∧ came = left then (c, .finished (.ok (.flag false)))
        else ({ c with trace := c.trace ++ [.request (.emergentExit pid)] },
          .asking (.emergentExit pid) .notifyingExit)) ∧
    ∀ (c : Client κ) (reply : Result Reply), c.resume .notifyingExit reply =
      (c, .finished (match reply with
        | .ok .done => .ok (.flag true)
        | .ok _ => .error (.unexpectedReply .emergentExit)
        | .error e => .error e)) := by
  intro r came left
  have arrived : r.live.countP (·.2.owner = pid) + left = came :=
    Registry.arrived_eq (·.owner = pid) n actions
  have idle : r.busy = false := ((Registry.ofCapacity n).run_frame actions).2
  refine ⟨?_, by omega, rfl, fun busy => ?_, resume_notifyingExit⟩
  · rw [Registry.ownedBy?_of_idle idle]
    congr 1
    omega
  · have none_ : r.live.countP (·.2.owner = pid) = 0 ↔ came = left := by omega
    intro c
    have told := c.notifyExit_eq pid
    change _ = if busy = false ∧ r.live.countP (·.2.owner = pid) = 0 then _ else _ at told
    simpa only [none_] using told

end Client
end AudioFocus
