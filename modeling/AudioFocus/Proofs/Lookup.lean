import AudioFocus.Proofs.Registry

/-!
Handles are unique and can be looked up, whatever was done to a registry before. Only `allocate`
enters a registration, and it refuses a handle that some slot holds already; everything else
leaves the registrations as they are or takes one out.
-/
namespace AudioFocus.Registry

variable {κ : Type}

/-- What can be done to a registry. A registration is made for the slot that it gets. -/
inductive Action (κ : Type)
  | allocate (init : Nat → Registration × κ)
  | claim (slot : Nat) (id : Int32) (space : IdSpace)
  | release (slot : Nat) (id : Int32) (space : IdSpace)
  | guard (slot : Nat)
  | unguard (slot : Nat)
  | bind (slot : Nat) (b : Option (Binding κ))
  | unbind (slot : Nat) (id : Int32) (space : IdSpace)

/-- The registry after an action. One that is refused changes nothing. -/
def after (r : Registry κ) : Action κ → Registry κ
  | .allocate init =>
    match r.allocate init with
    | .ok (_, r) => r
    | .error _ => r
  | .claim slot id space => (r.claim? slot id space).getD r
  | .release slot id space => r.release slot id space
  | .guard slot => r.guard slot
  | .unguard slot => r.unguard slot
  | .bind slot b => r.bind slot b
  | .unbind slot id space => r.unbind slot id space

def run (r : Registry κ) (actions : List (Action κ)) : Registry κ := actions.foldl after r

/-- No two slots hold the same handle. -/
def Distinct (r : Registry κ) : Prop :=
  ∀ i j id space, r.Holds i id space → r.Holds j id space → i = j

section Step

variable {r r' : Registry κ}

theorem distinct_ofCapacity (n : Nat) : (ofCapacity n : Registry κ).Distinct := by
  rintro i j id space ⟨reg, live, -⟩
  simp at live

theorem Distinct.of_fewer (distinct : r.Distinct)
    (fewer : ∀ i reg, r'.registration? i = some reg → r.registration? i = some reg) :
    r'.Distinct := by
  rintro i j id space ⟨reg, live, same⟩ ⟨reg', live', same'⟩
  exact distinct i j id space ⟨reg, fewer i reg live, same⟩ ⟨reg', fewer j reg' live', same'⟩

/-- A handle that nobody has may be entered in any slot. -/
theorem Distinct.entered (distinct : r.Distinct) {slot : Nat} {reg : Registration} {callback : κ}
    (room : slot < r.capacity) (unknown : r.has reg.id reg.space = false) :
    (r.entered slot reg callback).Distinct := by
  have fresh (i : Nat) (id : Int32) (space : IdSpace) (held : r.Holds i id space) :
      ¬ (reg.id = id ∧ reg.space = space) := by
    rintro ⟨rfl, rfl⟩
    have known := has_iff.mpr ⟨i, held⟩
    simp [unknown] at known
  -- Whoever holds a handle afterwards is the newcomer, or held it before.
  have origin (i : Nat) (id : Int32) (space : IdSpace)
      (held : (r.entered slot reg callback).Holds i id space) :
      (slot = i ∧ reg.id = id ∧ reg.space = space) ∨ r.Holds i id space := by
    obtain ⟨reg', live, same⟩ := held
    rw [registration?_entered _ _ _ room] at live
    split at live
    · rename_i here
      obtain rfl := Option.some.inj live
      exact .inl ⟨here, same⟩
    · exact .inr ⟨reg', live, same⟩
  intro i j id space heldI heldJ
  rcases origin i id space heldI with ⟨rfl, same⟩ | old <;>
    rcases origin j id space heldJ with ⟨rfl, same'⟩ | old'
  · rfl
  · exact absurd same (fresh j id space old')
  · exact absurd same' (fresh i id space old)
  · exact distinct i j id space old old'

theorem Distinct.after (distinct : r.Distinct) (a : Action κ) : (r.after a).Distinct := by
  cases a with
  | allocate init =>
    simp only [Registry.after]
    split
    · rename_i slot r' got
      obtain ⟨vacant, unknown, rfl⟩ := allocate_eq_ok got
      exact distinct.entered (vacancy?_spec vacant).1 unknown
    · exact distinct
  | claim slot id space =>
    simp only [Registry.after]
    cases got : r.claim? slot id space with
    | none => exact distinct
    | some r' =>
      obtain ⟨-, -, rfl⟩ := claim?_eq_some.mp got
      apply distinct.of_fewer
      intro i reg live
      simpa using live
  | release slot id space =>
    simp only [Registry.after, release]
    split
    · rename_i reg r' got
      rw [release?_eq_some got]
      apply distinct.of_fewer
      intro i reg live
      rw [registration?_freed] at live
      split at live
      · contradiction
      · exact live
    · exact distinct
  | guard | unguard | bind | unbind =>
    apply distinct.of_fewer
    intro i reg live
    simpa [Registry.after] using live

theorem capacity_modify (r : Registry κ) (slot : Nat) (f : Slot κ → Slot κ) :
    (r.modify slot f).capacity = r.capacity := by
  simp [capacity, modify]

/-- Apart from the slots nothing changes, and no slot comes or goes. -/
theorem after_frame (r : Registry κ) (a : Action κ) :
    (r.after a).capacity = r.capacity ∧ (r.after a).busy = r.busy := by
  cases a with
  | allocate init =>
    simp only [Registry.after]
    split
    · rename_i slot r' got
      obtain ⟨-, -, rfl⟩ := allocate_eq_ok got
      exact ⟨capacity_modify .., rfl⟩
    · exact ⟨rfl, rfl⟩
  | claim slot id space =>
    simp only [Registry.after]
    cases got : r.claim? slot id space with
    | none => exact ⟨rfl, rfl⟩
    | some r' =>
      obtain ⟨-, -, rfl⟩ := claim?_eq_some.mp got
      exact ⟨capacity_modify .., rfl⟩
  | release slot id space =>
    simp only [Registry.after, release]
    split
    · rename_i reg r' got
      rw [release?_eq_some got]
      exact ⟨capacity_modify .., rfl⟩
    · exact ⟨rfl, rfl⟩
  | guard | unguard | bind | unbind => exact ⟨capacity_modify .., rfl⟩

end Step

section Run

variable {r : Registry κ}

theorem Distinct.run (distinct : r.Distinct) (actions : List (Action κ)) :
    (r.run actions).Distinct := by
  induction actions generalizing r with
  | nil => exact distinct
  | cons a rest ih => exact ih (distinct.after a)

theorem run_frame (r : Registry κ) (actions : List (Action κ)) :
    (r.run actions).capacity = r.capacity ∧ (r.run actions).busy = r.busy := by
  induction actions generalizing r with
  | nil => exact ⟨rfl, rfl⟩
  | cons a rest ih =>
    obtain ⟨capacity, busy⟩ := r.after_frame a
    obtain ⟨capacity', busy'⟩ := ih (r.after a)
    exact ⟨capacity'.trans capacity, busy'.trans busy⟩

end Run

section Listing

variable (r : Registry κ)

theorem length_live : r.live.length = r.liveCount := by
  have all := r.countP_live fun _ => true
  simpa [liveCount] using all

theorem liveCount_le : r.liveCount ≤ r.capacity := List.countP_le_length

theorem live_ordered : r.live.Pairwise (·.1 < ·.1) := by
  have positions : r.slots.zipIdx.Pairwise (·.2 < ·.2) := by
    rw [← List.pairwise_map (f := Prod.snd) (R := (· < ·)), List.zipIdx_map_snd]
    exact List.pairwise_lt_range' 1
  apply positions.filterMap
  intro e e' before entry made entry' made'
  obtain ⟨reg, -, rfl⟩ := Option.map_eq_some_iff.mp made
  obtain ⟨reg', -, rfl⟩ := Option.map_eq_some_iff.mp made'
  exact before

variable {r}

theorem ownedBy?_of_idle (idle : r.busy = false) (pid : Int32) :
    r.ownedBy? pid = some (r.live.countP (·.2.owner = pid)) := by
  rw [r.countP_live (·.owner = pid)]
  simp [ownedBy?, idle]

end Listing

theorem exists_find? {r : Registry κ} {id : Int32} {space : IdSpace} {slot : Nat}
    (named : id ≠ freeId) (held : r.Holds slot id space) :
    ∃ first, r.find? id space = some first := by
  obtain ⟨s, taken, holds⟩ := holds_iff.mp held
  rw [← Option.isSome_iff_exists, find?, if_neg named, List.findIdx?_isSome, List.any_eq_true]
  exact ⟨s, List.mem_of_getElem? taken, holds⟩

/-- Where no two slots hold the same handle, the first that does is the one that does. -/
theorem Distinct.find?_eq_some {r : Registry κ} (distinct : r.Distinct) {id : Int32}
    {space : IdSpace} {slot : Nat} :
    r.find? id space = some slot ↔ id ≠ freeId ∧ r.Holds slot id space := by
  constructor
  · intro found
    refine ⟨?_, holds_of_find? found⟩
    rintro rfl
    simp [find?] at found
  · rintro ⟨named, held⟩
    obtain ⟨first, found⟩ := exists_find? named held
    rw [found, distinct first slot id space (holds_of_find? found) held]

/-- Whatever was done to a registry: each handle is in one slot, and is found there; the list of
the live registrations agrees with what the slots say one by one, and with the counts. -/
theorem lookup_exact (n : Nat) (actions : List (Action κ)) :
    let r := (ofCapacity n).run actions
    (∀ i j id space, r.Holds i id space → r.Holds j id space → i = j) ∧
    r.liveCount ≤ n ∧
    (∀ id space slot, r.find? id space = some slot ↔ id ≠ freeId ∧ r.Holds slot id space) ∧
    r.live.Pairwise (·.1 < ·.1) ∧
    (∀ slot reg, (slot, reg) ∈ r.live ↔ r.registration? slot = some reg) ∧
    r.liveCount = r.live.length ∧
    ∀ pid, r.ownedBy? pid = some (r.live.countP (·.2.owner = pid)) := by
  intro r
  have distinct : r.Distinct := (distinct_ofCapacity n).run actions
  obtain ⟨capacity, idle⟩ := (ofCapacity n : Registry κ).run_frame actions
  have size : r.capacity = n := capacity.trans (by simp [Registry.capacity, ofCapacity])
  refine ⟨distinct, ?_, fun _ _ _ => distinct.find?_eq_some, r.live_ordered, fun _ _ => mem_live,
    r.length_live.symm, ownedBy?_of_idle idle⟩
  have bound := r.liveCount_le
  omega

end AudioFocus.Registry
