import AudioFocus.Proofs.Lookup
import Mathlib.Data.List.Basic

/-!
How a registration gets its slot, in any registry: whatever is live, whichever guards are held, and
whatever old callbacks freed slots still have. The scan settles on one slot before the registration
is made, and the registration is made for that slot, once. Whether its handle is live already shows
only then; if it is, everything stays as it was.
-/
namespace AudioFocus

/-- A slot that a registration has just got: it is not claimed, its guard is free and holds the
callback of this registration. -/
def Slot.occupied {κ : Type} (reg : Registration) (callback : κ) : Slot κ where
  registration := some reg
  closing := false
  guarded := false
  binding := some ⟨reg.id, reg.space, callback⟩

namespace Registry

variable {κ : Type} {r : Registry κ} {i : Nat}

/-- Nobody can move into the slot: it is taken, or its guard is held. -/
def Barred (r : Registry κ) (i : Nat) : Prop :=
  (r.registration? i).isSome ∨ r.isGuarded i = true

/-- The lowest slot that is free and whose guard is. -/
structure FirstOpen (r : Registry κ) (i : Nat) : Prop where
  inside : i < r.capacity
  empty : r.registration? i = none
  unguarded : r.isGuarded i = false
  before : ∀ j < i, r.Barred j

section Scan

theorem not_vacant_iff (inside : i < r.slots.length) :
    r.slots[i].vacant = false ↔ r.Barred i := by
  rw [vacant_getElem, Barred, Bool.and_eq_false_iff]
  cases r.registration? i <;> simp

theorem vacancy?_eq_none_iff : r.vacancy? = none ↔ ∀ i < r.capacity, r.Barred i := by
  rw [vacancy?, List.findIdx?_eq_none_iff]
  constructor
  · intro full i inside
    exact (not_vacant_iff inside).mp (full _ (List.getElem_mem inside))
  · intro barred s member
    obtain ⟨i, inside, rfl⟩ := List.getElem_of_mem member
    exact (not_vacant_iff inside).mpr (barred i inside)

theorem firstOpen_of_vacancy? (found : r.vacancy? = some i) : r.FirstOpen i := by
  obtain ⟨inside, empty, unguarded⟩ := vacancy?_spec found
  obtain ⟨_, -, passed⟩ := List.findIdx?_eq_some_iff_getElem.mp found
  refine ⟨inside, empty, unguarded, fun j before => ?_⟩
  apply (not_vacant_iff (Nat.lt_trans before inside)).mp
  simpa using passed j before

end Scan

section Enter

variable {reg : Registration} {callback : κ}

theorem entered_eq_set (unguarded : r.isGuarded i = false) :
    r.entered i reg callback = { r with slots := r.slots.set i (.occupied reg callback) } := by
  have replaced : r.entered i reg callback = r.modify i fun _ => .occupied reg callback := by
    apply modify_congr
    intro s found
    have free : s.guarded = false := by simpa [isGuarded, found] using unguarded
    simp [Slot.occupied, free]
  rw [replaced, modify, List.set_eq_modify]

/-- Whether a registration gets the open slot depends on its handle alone. -/
theorem enter_eq (opened : r.FirstOpen i) (reg : Registration) (callback : κ) :
    ((∃ j, r.Holds j reg.id reg.space) →
      r.enter i reg callback = .error (.invalid (.registered reg.id))) ∧
    ((∀ j, ¬ r.Holds j reg.id reg.space) →
      r.enter i reg callback = .ok { r with slots := r.slots.set i (.occupied reg callback) }) := by
  constructor
  · intro known
    rw [enter, if_pos (has_iff.mpr known)]
  · intro unknown
    have fresh : ¬ r.has reg.id reg.space = true := fun known =>
      (has_iff.mp known).elim unknown
    rw [enter, if_neg fresh, ← entered_eq_set opened.unguarded]
    rfl

end Enter

section Making

variable {m : Type → Type} [Monad m]

/-- What is left of an attempt to enter a registration in a slot. -/
def settled (r : Registry κ) (slot : Nat) : Result (Registry κ) → Result Nat × Registry κ
  | .ok r' => (.ok slot, r')
  | .error e => (.error e, r)

/-- `allocate`, where the making of the registration may have effects of its own: what it gives, and
the registry afterwards. -/
def allocateM (r : Registry κ) (init : Nat → m (Registration × κ)) :
    m (Result Nat × Registry κ) :=
  match r.vacancy? with
  | none => return (.error (.exhausted r.capacity), r)
  | some slot => do
    let (reg, callback) ← init slot
    return r.settled slot (r.enter slot reg callback)

theorem allocateM_id (r : Registry κ) (init : Nat → Registration × κ) :
    r.allocateM (m := Id) init = ((r.allocate init).map Prod.fst, r.after (.allocate init)) := by
  unfold allocateM after allocate
  cases r.vacancy? with
  | none => rfl
  | some slot =>
    dsimp only
    generalize init slot = made
    obtain ⟨reg, callback⟩ := made
    change r.settled slot (r.enter slot reg callback) = _
    cases r.enter slot reg callback <;> rfl

/-- In any registry: if every slot is taken or has its guard held, no registration is made, and the
table is exhausted. Otherwise one is made, for the lowest slot that is free and whose guard is. If
some slot holds its handle already, it is refused and nothing changes. If not, it gets the slot with
its callback, and all other slots stay as they are. -/
theorem allocate_spec (r : Registry κ) :
    (∀ init : Nat → Registration × κ, r.allocateM (m := Id) init =
      ((r.allocate init).map Prod.fst, r.after (.allocate init))) ∧
    ∀ {m : Type → Type} [Monad m] (init : Nat → m (Registration × κ)),
      ((∀ i < r.capacity, r.Barred i) →
        r.allocateM init = return (.error (.exhausted r.capacity), r)) ∧
      ((∃ i < r.capacity, ¬ r.Barred i) →
        ∃ (i : Nat) (outcome : Registration × κ → Result Nat × Registry κ), r.FirstOpen i ∧
        r.allocateM init = (do return outcome (← init i)) ∧
        ∀ reg callback,
          ((∃ j, r.Holds j reg.id reg.space) →
            outcome (reg, callback) = (.error (.invalid (.registered reg.id)), r)) ∧
          ((∀ j, ¬ r.Holds j reg.id reg.space) → outcome (reg, callback) =
            (.ok i, { r with slots := r.slots.set i (.occupied reg callback) }))) := by
  refine ⟨r.allocateM_id, fun {m} _ init => ⟨fun full => ?_, ?_⟩⟩
  · rw [allocateM, vacancy?_eq_none_iff.mpr full]
  · rintro ⟨i, inside, free⟩
    cases found : r.vacancy? with
    | none => exact absurd (vacancy?_eq_none_iff.mp found i inside) free
    | some slot =>
      have opened := firstOpen_of_vacancy? found
      refine ⟨slot, fun made => r.settled slot (r.enter slot made.1 made.2), opened, ?_, ?_⟩
      · rw [allocateM, found]
      · intro reg callback
        obtain ⟨known, unknown⟩ := enter_eq opened reg callback
        constructor
        · intro taken
          dsimp only
          rw [known taken, settled]
        · intro fresh
          dsimp only
          rw [unknown fresh, settled]

/-- The guard of the first slot is held though the slot is free, and the second one still has the
callback of an old handle. -/
example :
    let reg : Registration := .ofFocus 7 5 false "media"
    let r : Registry Nat :=
      { slots := [{ guarded := true }, { binding := some ⟨8, .focus, 0⟩ }, {}] }
    r.FirstOpen 1 ∧ r.allocate (fun _ => (reg, 1)) =
      .ok (1, { slots := [{ guarded := true }, .occupied reg 1, {}] }) := by
  intro reg r
  exact ⟨firstOpen_of_vacancy? rfl, rfl⟩

end Making

end Registry
end AudioFocus
