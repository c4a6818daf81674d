import AudioFocus.Registry

/-!
What the operations of a registry do to each slot, seen through four views: the registration,
whether it is claimed, whether the guard is held, and the callback. Every operation changes one
slot at most, and a view that it does not set stays.
-/
namespace AudioFocus.Registry

variable {κ : Type}

/-- Whether some teardown has claimed the registration in a slot. -/
def isClosing (r : Registry κ) (slot : Nat) : Bool := (r.slots[slot]?).any (·.closing)

def claimed (r : Registry κ) (slot : Nat) : Registry κ :=
  r.modify slot fun s => { s with closing := true }

/-- The slot is free, and keeps its callback. -/
def freed (r : Registry κ) (slot : Nat) : Registry κ :=
  r.modify slot fun s => { s with registration := none, closing := false }

def entered (r : Registry κ) (slot : Nat) (reg : Registration) (callback : κ) : Registry κ :=
  r.modify slot fun s => { s with
    registration := some reg
    closing := false
    binding := some ⟨reg.id, reg.space, callback⟩ }

section Modify

theorem slots_modify (r : Registry κ) (slot : Nat) (f : Slot κ → Slot κ) (i : Nat) :
    (r.modify slot f).slots[i]? = if slot = i then (r.slots[i]?).map f else r.slots[i]? := by
  simp only [modify, List.getElem?_modify]
  by_cases h : slot = i <;> simp [h]

theorem modify_modify (r : Registry κ) (slot : Nat) (f g : Slot κ → Slot κ) :
    (r.modify slot f).modify slot g = r.modify slot (g ∘ f) := by
  simp only [modify, List.modify_modify_eq]

/-- What a change does to other contents of the slot does not matter. -/
theorem modify_congr {r : Registry κ} {slot : Nat} {f g : Slot κ → Slot κ}
    (same : ∀ s, r.slots[slot]? = some s → f s = g s) : r.modify slot f = r.modify slot g := by
  unfold modify
  congr 1
  apply List.ext_getElem?
  intro i
  rw [List.getElem?_modify, List.getElem?_modify]
  by_cases here : slot = i
  · subst here
    cases found : r.slots[slot]? with
    | none => rfl
    | some s => simp [same s found]
  · simp [here]

theorem registration?_modify (r : Registry κ) (slot : Nat) (f : Slot κ → Slot κ) (i : Nat) :
    (r.modify slot f).registration? i =
      if slot = i then (r.slots[i]?).bind fun s => (f s).registration else r.registration? i := by
  simp only [registration?, slots_modify]
  split
  · rw [Option.bind_map]; rfl
  · rfl

theorem isClosing_modify (r : Registry κ) (slot : Nat) (f : Slot κ → Slot κ) (i : Nat) :
    (r.modify slot f).isClosing i =
      if slot = i then (r.slots[i]?).any fun s => (f s).closing else r.isClosing i := by
  simp only [isClosing, slots_modify]
  split
  · rw [Option.any_map]
  · rfl

theorem isGuarded_modify (r : Registry κ) (slot : Nat) (f : Slot κ → Slot κ) (i : Nat) :
    (r.modify slot f).isGuarded i =
      if slot = i then (r.slots[i]?).any fun s => (f s).guarded else r.isGuarded i := by
  simp only [isGuarded, slots_modify]
  split
  · rw [Option.any_map]
  · rfl

theorem binding?_modify (r : Registry κ) (slot : Nat) (f : Slot κ → Slot κ) (i : Nat) :
    (r.modify slot f).binding? i =
      if slot = i then (r.slots[i]?).bind fun s => (f s).binding else r.binding? i := by
  simp only [binding?, slots_modify]
  split
  · rw [Option.bind_map]; rfl
  · rfl

variable {r : Registry κ} {slot : Nat} {f : Slot κ → Slot κ} (i : Nat)

theorem registration?_modify_of_eq (same : ∀ s, (f s).registration = s.registration) :
    (r.modify slot f).registration? i = r.registration? i := by
  rw [registration?_modify]
  simp only [same, registration?, ite_self]

theorem isClosing_modify_of_eq (same : ∀ s, (f s).closing = s.closing) :
    (r.modify slot f).isClosing i = r.isClosing i := by
  rw [isClosing_modify]
  simp only [same, isClosing, ite_self]

theorem isGuarded_modify_of_eq (same : ∀ s, (f s).guarded = s.guarded) :
    (r.modify slot f).isGuarded i = r.isGuarded i := by
  rw [isGuarded_modify]
  simp only [same, isGuarded, ite_self]

theorem binding?_modify_of_eq (same : ∀ s, (f s).binding = s.binding) :
    (r.modify slot f).binding? i = r.binding? i := by
  rw [binding?_modify]
  simp only [same, binding?, ite_self]

end Modify

section Views

@[simp] theorem registration?_ofCapacity (n i : Nat) :
    (ofCapacity n : Registry κ).registration? i = none := by
  simp [registration?, ofCapacity, List.getElem?_replicate]

@[simp] theorem binding?_ofCapacity (n i : Nat) :
    (ofCapacity n : Registry κ).binding? i = none := by
  simp [binding?, ofCapacity, List.getElem?_replicate]

@[simp] theorem isGuarded_ofCapacity (n i : Nat) :
    (ofCapacity n : Registry κ).isGuarded i = false := by
  simp only [isGuarded, ofCapacity, List.getElem?_replicate]
  split <;> rfl

variable (r : Registry κ) (slot i : Nat)

@[simp] theorem registration?_claimed : (r.claimed slot).registration? i = r.registration? i :=
  registration?_modify_of_eq i fun _ => rfl

theorem isClosing_claimed :
    (r.claimed slot).isClosing i = if slot = i then (r.slots[i]?).isSome else r.isClosing i := by
  rw [claimed, isClosing_modify]
  cases r.slots[i]? <;> rfl

@[simp] theorem isGuarded_claimed : (r.claimed slot).isGuarded i = r.isGuarded i :=
  isGuarded_modify_of_eq i fun _ => rfl

@[simp] theorem binding?_claimed : (r.claimed slot).binding? i = r.binding? i :=
  binding?_modify_of_eq i fun _ => rfl

theorem registration?_freed :
    (r.freed slot).registration? i = if slot = i then none else r.registration? i := by
  rw [freed, registration?_modify]
  cases r.slots[i]? <;> rfl

theorem isClosing_freed :
    (r.freed slot).isClosing i = if slot = i then false else r.isClosing i := by
  rw [freed, isClosing_modify]
  cases r.slots[i]? <;> rfl

@[simp] theorem isGuarded_freed : (r.freed slot).isGuarded i = r.isGuarded i :=
  isGuarded_modify_of_eq i fun _ => rfl

@[simp] theorem binding?_freed : (r.freed slot).binding? i = r.binding? i :=
  binding?_modify_of_eq i fun _ => rfl

@[simp] theorem registration?_guard : (r.guard slot).registration? i = r.registration? i :=
  registration?_modify_of_eq i fun _ => rfl

@[simp] theorem isClosing_guard : (r.guard slot).isClosing i = r.isClosing i :=
  isClosing_modify_of_eq i fun _ => rfl

@[simp] theorem binding?_guard : (r.guard slot).binding? i = r.binding? i :=
  binding?_modify_of_eq i fun _ => rfl

@[simp] theorem registration?_unguard : (r.unguard slot).registration? i = r.registration? i :=
  registration?_modify_of_eq i fun _ => rfl

@[simp] theorem isClosing_unguard : (r.unguard slot).isClosing i = r.isClosing i :=
  isClosing_modify_of_eq i fun _ => rfl

theorem isGuarded_unguard :
    (r.unguard slot).isGuarded i = if slot = i then false else r.isGuarded i := by
  rw [unguard, isGuarded_modify]
  cases r.slots[i]? <;> rfl

@[simp] theorem binding?_unguard : (r.unguard slot).binding? i = r.binding? i :=
  binding?_modify_of_eq i fun _ => rfl

variable (b : Option (Binding κ)) (id : Int32) (space : IdSpace)

@[simp] theorem registration?_bind : (r.bind slot b).registration? i = r.registration? i :=
  registration?_modify_of_eq i fun _ => rfl

@[simp] theorem isClosing_bind : (r.bind slot b).isClosing i = r.isClosing i :=
  isClosing_modify_of_eq i fun _ => rfl

@[simp] theorem isGuarded_bind : (r.bind slot b).isGuarded i = r.isGuarded i :=
  isGuarded_modify_of_eq i fun _ => rfl

@[simp] theorem registration?_unbind :
    (r.unbind slot id space).registration? i = r.registration? i :=
  registration?_modify_of_eq i fun s => by split <;> rfl

@[simp] theorem isClosing_unbind : (r.unbind slot id space).isClosing i = r.isClosing i :=
  isClosing_modify_of_eq i fun s => by split <;> rfl

@[simp] theorem isGuarded_unbind : (r.unbind slot id space).isGuarded i = r.isGuarded i :=
  isGuarded_modify_of_eq i fun s => by split <;> rfl

variable {slot i}

theorem binding?_bind_of_ne (other : slot ≠ i) : (r.bind slot b).binding? i = r.binding? i := by
  rw [bind, binding?_modify, if_neg other]

theorem binding?_unbind_of_ne (other : slot ≠ i) :
    (r.unbind slot id space).binding? i = r.binding? i := by
  rw [unbind, binding?_modify, if_neg other]

variable {r} (i) (reg : Registration) (callback : κ)

theorem registration?_entered (room : slot < r.capacity) :
    (r.entered slot reg callback).registration? i =
      if slot = i then some reg else r.registration? i := by
  rw [entered, registration?_modify]
  split
  · rename_i h
    have inside : i < r.slots.length := h ▸ room
    simp [List.getElem?_eq_getElem inside]
  · rfl

theorem isClosing_entered :
    (r.entered slot reg callback).isClosing i = if slot = i then false else r.isClosing i := by
  rw [entered, isClosing_modify]
  cases r.slots[i]? <;> rfl

@[simp] theorem isGuarded_entered :
    (r.entered slot reg callback).isGuarded i = r.isGuarded i :=
  isGuarded_modify_of_eq i fun _ => rfl

theorem binding?_entered (room : slot < r.capacity) :
    (r.entered slot reg callback).binding? i =
      if slot = i then some ⟨reg.id, reg.space, callback⟩ else r.binding? i := by
  rw [entered, binding?_modify]
  split
  · rename_i h
    have inside : i < r.slots.length := h ▸ room
    simp [List.getElem?_eq_getElem inside]
  · rfl

end Views

theorem isClosing_claimed_of_live {r : Registry κ} {slot : Nat}
    (live : (r.registration? slot).isSome) (i : Nat) :
    (r.claimed slot).isClosing i = if slot = i then true else r.isClosing i := by
  rw [isClosing_claimed]
  by_cases h : slot = i
  · subst h
    obtain ⟨reg, live⟩ := Option.isSome_iff_exists.mp live
    obtain ⟨s, found, -⟩ := Option.bind_eq_some_iff.mp live
    simp [found]
  · rw [if_neg h, if_neg h]

theorem isGuarded_guard {r : Registry κ} {slot : Nat} (there : (r.slots[slot]?).isSome)
    (i : Nat) : (r.guard slot).isGuarded i = if slot = i then true else r.isGuarded i := by
  rw [guard, isGuarded_modify]
  by_cases h : slot = i
  · subst h
    obtain ⟨s, found⟩ := Option.isSome_iff_exists.mp there
    simp [found]
  · rw [if_neg h, if_neg h]

theorem isGuarded_guard_of_live {r : Registry κ} {slot : Nat}
    (live : (r.registration? slot).isSome) (i : Nat) :
    (r.guard slot).isGuarded i = if slot = i then true else r.isGuarded i := by
  obtain ⟨reg, live⟩ := Option.isSome_iff_exists.mp live
  obtain ⟨s, found, -⟩ := Option.bind_eq_some_iff.mp live
  exact isGuarded_guard (Option.isSome_of_eq_some found) i

theorem isGuarded_guard_of_bound {r : Registry κ} {slot : Nat} {b : Binding κ}
    (bound : r.binding? slot = some b) (i : Nat) :
    (r.guard slot).isGuarded i = if slot = i then true else r.isGuarded i := by
  obtain ⟨s, found, -⟩ := Option.bind_eq_some_iff.mp bound
  exact isGuarded_guard (Option.isSome_of_eq_some found) i

/-- Two registries have the same live registrations, claimed alike and with the same callbacks. -/
structure Alike (r r' : Registry κ) : Prop where
  registration : ∀ i, r.registration? i = r'.registration? i
  closing : ∀ i, (r.registration? i).isSome → r.isClosing i = r'.isClosing i
  binding : ∀ i, (r.registration? i).isSome → r.binding? i = r'.binding? i

namespace Alike

variable {r r' : Registry κ} (slot : Nat)

protected theorem refl (r : Registry κ) : r.Alike r :=
  ⟨fun _ => rfl, fun _ _ => rfl, fun _ _ => rfl⟩

theorem guard (r : Registry κ) : (r.guard slot).Alike r :=
  ⟨by simp, by simp, by simp⟩

theorem unguard (r : Registry κ) : (r.unguard slot).Alike r :=
  ⟨by simp, by simp, by simp⟩

theorem bind (b : Option (Binding κ)) (free : r.registration? slot = none) :
    (r.bind slot b).Alike r := by
  refine ⟨by simp, by simp, fun i live => ?_⟩
  rw [registration?_bind] at live
  apply binding?_bind_of_ne
  rintro rfl
  simp [free] at live

theorem unbind (id : Int32) (space : IdSpace) (free : r.registration? slot = none) :
    (r.unbind slot id space).Alike r := by
  refine ⟨by simp, by simp, fun i live => ?_⟩
  rw [registration?_unbind] at live
  apply binding?_unbind_of_ne
  rintro rfl
  simp [free] at live

theorem freed_claimed (r : Registry κ) : ((r.claimed slot).freed slot).Alike (r.freed slot) := by
  refine ⟨fun i => by simp [registration?_freed], fun i live => ?_, fun i _ => by simp⟩
  rw [registration?_freed] at live
  by_cases h : slot = i
  · simp [h] at live
  · simp [isClosing_freed, isClosing_claimed, h]

/-- A slot that was filled and freed again is as it was. -/
theorem unentered {reg : Registration} {callback : κ} (room : slot < r.capacity)
    (empty : r.registration? slot = none) :
    (((r.entered slot reg callback).claimed slot).freed slot).Alike r := by
  have taken (i : Nat) : (((r.entered slot reg callback).claimed slot).freed slot).registration? i =
      r.registration? i := by
    rw [registration?_freed, registration?_claimed, registration?_entered _ _ _ room]
    by_cases h : slot = i
    · simp [← h, empty]
    · simp [h]
  refine ⟨taken, fun i live => ?_, fun i live => ?_⟩ <;>
    have other : slot ≠ i := by
      rintro rfl
      simp [taken, empty] at live
  · simp [isClosing_freed, isClosing_claimed, isClosing_entered, other]
  · simp [binding?_entered _ _ _ room, other]

protected theorem trans {r'' : Registry κ} (first : r.Alike r') (second : r'.Alike r'') :
    r.Alike r'' where
  registration i := (first.registration i).trans (second.registration i)
  closing i live := (first.closing i live).trans
    (second.closing i (by rwa [← first.registration]))
  binding i live := (first.binding i live).trans
    (second.binding i (by rwa [← first.registration]))

end Alike

section Holds

/-- The slot is taken by this handle. -/
def Holds (r : Registry κ) (slot : Nat) (id : Int32) (space : IdSpace) : Prop :=
  ∃ reg, r.registration? slot = some reg ∧ reg.id = id ∧ reg.space = space

variable {r r' : Registry κ} {slot : Nat} {id : Int32} {space : IdSpace}

theorem holds_iff : r.Holds slot id space ↔
    ∃ s, r.slots[slot]? = some s ∧ s.holds id space = true := by
  constructor
  · rintro ⟨reg, live, rfl, rfl⟩
    obtain ⟨s, found, taken⟩ := Option.bind_eq_some_iff.mp live
    exact ⟨s, found, by simp [Slot.holds, taken]⟩
  · rintro ⟨s, found, held⟩
    unfold Slot.holds at held
    split at held
    · rename_i reg taken
      have same : reg.id = id ∧ reg.space = space := by simpa using held
      exact ⟨reg, by simp [registration?, found, taken], same⟩
    · contradiction

theorem has_iff : r.has id space = true ↔ ∃ slot, r.Holds slot id space := by
  simp only [has, List.any_eq_true, holds_iff]
  constructor
  · rintro ⟨s, member, held⟩
    obtain ⟨slot, found⟩ := List.getElem?_of_mem member
    exact ⟨slot, s, found, held⟩
  · rintro ⟨slot, s, found, held⟩
    exact ⟨s, List.mem_of_getElem? found, held⟩

theorem holds_of_find? (found : r.find? id space = some slot) : r.Holds slot id space := by
  unfold find? at found
  split at found
  · contradiction
  · obtain ⟨inside, held, _⟩ := List.findIdx?_eq_some_iff_getElem.mp found
    exact holds_iff.mpr ⟨_, List.getElem?_eq_getElem inside, held⟩

theorem vacant_getElem (r : Registry κ) {i : Nat} (inside : i < r.slots.length) :
    r.slots[i].vacant = ((r.registration? i).isNone && !r.isGuarded i) := by
  simp [Slot.vacant, registration?, isGuarded, List.getElem?_eq_getElem inside]

theorem vacancy?_spec (vacant : r.vacancy? = some slot) :
    slot < r.capacity ∧ r.registration? slot = none ∧ r.isGuarded slot = false := by
  obtain ⟨inside, free, _⟩ := List.findIdx?_eq_some_iff_getElem.mp vacant
  have empty : r.slots[slot].registration = none ∧ r.slots[slot].guarded = false := by
    simpa [Slot.vacant] using free
  refine ⟨inside, ?_, ?_⟩
  · simp [registration?, List.getElem?_eq_getElem inside, empty.1]
  · simp [isGuarded, List.getElem?_eq_getElem inside, empty.2]

theorem allocate_eq_ok {init : Nat → Registration × κ} (got : r.allocate init = .ok (slot, r')) :
    r.vacancy? = some slot ∧ r.has (init slot).1.id (init slot).1.space = false ∧
      r' = r.entered slot (init slot).1 (init slot).2 := by
  unfold allocate at got
  cases vacant : r.vacancy? with
  | none => simp only [vacant, reduceCtorEq] at got
  | some i =>
    simp only [vacant, enter] at got
    cases known : r.has (init i).1.id (init i).1.space with
    | true => simp [known, Except.map] at got
    | false =>
      simp only [known, Bool.false_eq_true, if_false, Except.map, Except.ok.injEq,
        Prod.mk.injEq] at got
      obtain ⟨rfl, rfl⟩ := got
      exact ⟨rfl, known, rfl⟩

theorem allocate_eq_error {init : Nat → Registration × κ} {e : FocusError}
    (refused : r.allocate init = .error e) :
    r.vacancy? = none ∧ e = .exhausted r.capacity ∨
      ∃ slot, r.vacancy? = some slot ∧ r.has (init slot).1.id (init slot).1.space = true ∧
        e = .invalid (.registered (init slot).1.id) := by
  unfold allocate at refused
  cases vacant : r.vacancy? with
  | none =>
    simp only [vacant, Except.error.injEq] at refused
    exact .inl ⟨rfl, refused.symm⟩
  | some i =>
    simp only [vacant, enter] at refused
    cases known : r.has (init i).1.id (init i).1.space with
    | true =>
      simp only [known, if_true, Except.map, Except.error.injEq] at refused
      exact .inr ⟨i, rfl, known, refused.symm⟩
    | false => simp [known, Except.map] at refused

theorem claim?_eq_some : r.claim? slot id space = some r' ↔
    r.Holds slot id space ∧ r.isClosing slot = false ∧ r' = r.claimed slot := by
  unfold claim?
  rw [holds_iff]
  cases found : r.slots[slot]? with
  | none => simp
  | some s =>
    have closing : r.isClosing slot = s.closing := by simp [isClosing, found]
    simp only [closing, Option.some.injEq, exists_eq_left']
    cases s.closing <;> cases s.holds id space <;> simp [claimed, eq_comm]

theorem release?_eq_some_iff {reg : Registration} : r.release? slot id space = some (reg, r') ↔
    (r.registration? slot = some reg ∧ reg.id = id ∧ reg.space = space) ∧ r' = r.freed slot := by
  unfold release? registration?
  cases found : r.slots[slot]? with
  | none => simp
  | some s =>
    cases taken : s.registration with
    | none => simp [taken]
    | some other =>
      by_cases held : other.id = id ∧ other.space = space
      · simp only [Slot.holds, taken, held, Option.bind_some, decide_true, Bool.and_self, if_true,
          Option.some.injEq, Prod.mk.injEq]
        constructor
        · rintro ⟨rfl, rfl⟩
          exact ⟨⟨rfl, held⟩, rfl⟩
        · rintro ⟨⟨rfl, -⟩, rfl⟩
          exact ⟨rfl, rfl⟩
      · have barred : s.holds id space = false := by simpa [Slot.holds, taken] using held
        simp only [barred, Bool.false_eq_true, if_false, Option.bind_some, taken,
          Option.some.injEq, reduceCtorEq, false_iff]
        rintro ⟨⟨rfl, same⟩, -⟩
        exact held same

theorem release?_eq_some {reg : Registration} (got : r.release? slot id space = some (reg, r')) :
    r' = r.freed slot :=
  (release?_eq_some_iff.mp got).2

theorem holds_of_release? {reg : Registration} (got : r.release? slot id space = some (reg, r')) :
    r.Holds slot id space :=
  ⟨reg, (release?_eq_some_iff.mp got).1⟩

@[simp] theorem isGuarded_release (r : Registry κ) (slot : Nat) (id : Int32) (space : IdSpace)
    (i : Nat) : (r.release slot id space).isGuarded i = r.isGuarded i := by
  unfold release
  split
  · rename_i reg r' got
    rw [release?_eq_some got, isGuarded_freed]
  · rfl

@[simp] theorem isGuarded_vacate (r : Registry κ) (slot : Nat) (id : Int32) (space : IdSpace)
    (i : Nat) : (r.vacate slot id space).isGuarded i = r.isGuarded i := by
  unfold vacate
  split
  · rename_i reg r' got
    rw [release?_eq_some got, isGuarded_bind, isGuarded_freed]
  · rfl

theorem release?_of_holds (held : r.Holds slot id space) :
    ∃ reg, r.release? slot id space = some (reg, r.freed slot) := by
  obtain ⟨reg, live⟩ := held
  exact ⟨reg, release?_eq_some_iff.mpr ⟨live, rfl⟩⟩

theorem release_of_holds (held : r.Holds slot id space) :
    r.release slot id space = r.freed slot := by
  obtain ⟨reg, got⟩ := release?_of_holds held
  simp only [release, got]

theorem vacate_of_holds (held : r.Holds slot id space) :
    r.vacate slot id space = (r.freed slot).bind slot none := by
  obtain ⟨reg, got⟩ := release?_of_holds held
  simp only [vacate, got]

theorem mem_live {reg : Registration} :
    (slot, reg) ∈ r.live ↔ r.registration? slot = some reg := by
  simp only [live, List.mem_filterMap, Option.map_eq_some_iff, Prod.exists, Prod.mk.injEq]
  constructor
  · rintro ⟨s, i, member, reg', taken, rfl, rfl⟩
    have found := List.mem_zipIdx_iff_getElem?.mp member
    simp [registration?, found, taken]
  · intro found
    obtain ⟨s, at_, taken⟩ := Option.bind_eq_some_iff.mp found
    exact ⟨s, slot, List.mem_zipIdx_iff_getElem?.mpr at_, reg, taken, rfl, rfl⟩

end Holds

section Counting

theorem countP_modify {α : Type} (p : α → Bool) (f : α → α) {l : List α} {i : Nat} {a : α}
    (found : l[i]? = some a) :
    (l.modify i f).countP p + (p a).toNat = l.countP p + (p (f a)).toNat := by
  induction l generalizing i with
  | nil => simp at found
  | cons b l ih =>
    cases i with
    | zero =>
      obtain rfl : b = a := by simpa using found
      rw [List.modify_zero_cons, List.countP_cons, List.countP_cons]
      cases p b <;> cases p (f b) <;> simp
    | succ i =>
      rw [List.modify_succ_cons, List.countP_cons, List.countP_cons]
      have tail := ih (by simpa using found)
      omega

variable (r : Registry κ) (p : Registration → Bool)

/-- Of the live registrations as many have a property as of the slots hold one that has it. -/
theorem countP_live :
    r.live.countP (fun e => p e.2) = r.slots.countP (·.registration.any p) := by
  have entry (e : Slot κ × Nat) :
      ((e.1.registration.map fun reg => (e.2, reg)).map fun e => p e.2).getD false =
        e.1.registration.any p := by
    cases e.1.registration <;> rfl
  calc r.live.countP (fun e => p e.2)
      = r.slots.zipIdx.countP (fun e => e.1.registration.any p) := by
        simp only [live, List.countP_filterMap, entry]
    _ = (r.slots.zipIdx.map Prod.fst).countP (·.registration.any p) := by
        rw [List.countP_map]
        rfl
    _ = r.slots.countP (·.registration.any p) := by rw [List.zipIdx_map_fst]

theorem countP_live_of_empty (empty : ∀ i, r.registration? i = none) :
    r.live.countP (fun e => p e.2) = 0 := by
  rw [List.countP_eq_zero]
  rintro ⟨slot, reg⟩ member
  rw [mem_live, empty] at member
  contradiction

theorem countP_live_modify_of_eq (slot : Nat) {f : Slot κ → Slot κ}
    (same : ∀ s, (f s).registration = s.registration) :
    (r.modify slot f).live.countP (fun e => p e.2) = r.live.countP (fun e => p e.2) := by
  rw [countP_live, countP_live]
  simp only [modify]
  cases found : r.slots[slot]? with
  | none => rw [List.modify_eq_self (by simpa using found)]
  | some s =>
    have moved := countP_modify (·.registration.any p) f found
    rw [same] at moved
    omega

variable {r} {slot : Nat} {reg : Registration}

theorem countP_live_freed (live : r.registration? slot = some reg) :
    (r.freed slot).live.countP (fun e => p e.2) + (p reg).toNat =
      r.live.countP (fun e => p e.2) := by
  obtain ⟨s, found, taken⟩ := Option.bind_eq_some_iff.mp live
  have moved := countP_modify (·.registration.any p)
    (fun s : Slot κ => { s with registration := none, closing := false }) found
  rw [countP_live, countP_live]
  simpa [taken, freed, modify] using moved

theorem countP_live_entered (reg : Registration) (callback : κ) (room : slot < r.capacity)
    (empty : r.registration? slot = none) :
    (r.entered slot reg callback).live.countP (fun e => p e.2) =
      r.live.countP (fun e => p e.2) + (p reg).toNat := by
  have found := List.getElem?_eq_getElem (l := r.slots) room
  have taken : r.slots[slot].registration = none := by
    simpa [registration?, found] using empty
  have moved := countP_modify (·.registration.any p)
    (fun s : Slot κ => { s with
      registration := some reg, closing := false
      binding := some ⟨reg.id, reg.space, callback⟩ }) found
  rw [countP_live, countP_live]
  simpa [taken, entered, modify] using moved

end Counting

end AudioFocus.Registry
