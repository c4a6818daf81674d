import AudioFocus.Proofs.Lookup

/-!
Each registration is claimed once and released once, whatever else is done to the registry. Its slot
may be taken many times, before it and after it, and the same handle may come back, so a
registration is told by the action that entered it. Until the next one is entered there, a slot
keeps its registration or loses it, and one that is claimed stays claimed; a second claim finds it
claimed, and a second release finds nothing.
-/
namespace AudioFocus.Registry

variable {κ : Type}

/-- What becomes of a slot in which nothing is entered. -/
def Keeps (slot : Nat) (r r' : Registry κ) : Prop :=
  r'.registration? slot = none ∨
    r'.registration? slot = r.registration? slot ∧
      (r.isClosing slot = true → r'.isClosing slot = true)

section Step

variable {r r' r'' : Registry κ} {slot : Nat} {id : Int32} {space : IdSpace}

theorem Keeps.refl : r.Keeps slot r := .inr ⟨rfl, fun h => h⟩

theorem Keeps.trans (first : r.Keeps slot r') (second : r'.Keeps slot r'') :
    r.Keeps slot r'' := by
  rcases second with gone | ⟨same, claimed⟩
  · exact .inl gone
  · rcases first with gone | ⟨same', claimed'⟩
    · exact .inl (same.trans gone)
    · exact .inr ⟨same.trans same', fun h => claimed (claimed' h)⟩

theorem keeps_after (a : Action κ)
    (other : ∀ init r', a = .allocate init → r.allocate init ≠ .ok (slot, r')) :
    r.Keeps slot (r.after a) := by
  cases a with
  | allocate init =>
    simp only [after]
    split
    · rename_i i r' got
      have apart : i ≠ slot := by
        rintro rfl
        exact other init r' rfl got
      obtain ⟨vacant, -, rfl⟩ := allocate_eq_ok got
      right
      constructor
      · rw [registration?_entered _ _ _ (vacancy?_spec vacant).1, if_neg apart]
      · rw [isClosing_entered, if_neg apart]
        exact fun h => h
    · exact .refl
  | claim i id space =>
    simp only [after]
    cases got : r.claim? i id space with
    | none => exact .refl
    | some r' =>
      obtain ⟨⟨reg, live, -⟩, -, rfl⟩ := claim?_eq_some.mp got
      right
      constructor
      · exact registration?_claimed r i slot
      · intro closing
        simp [isClosing_claimed_of_live (Option.isSome_of_eq_some live), closing]
  | release i id space =>
    simp only [after, release]
    split
    · rename_i reg r' got
      rw [release?_eq_some got]
      by_cases here : i = slot
      · left
        rw [registration?_freed, if_pos here]
      · right
        constructor
        · rw [registration?_freed, if_neg here]
        · rw [isClosing_freed, if_neg here]
          exact fun h => h
    · exact .refl
  | guard | unguard | bind | unbind =>
    right
    simp [after]

/-- A teardown of a handle that the slot does not hold is turned away, and nothing changes. -/
theorem refused_of_not_holds (absent : ¬ r.Holds slot id space) :
    r.claim? slot id space = none ∧ r.release? slot id space = none ∧
      r.after (.claim slot id space) = r ∧ r.after (.release slot id space) = r := by
  have unclaimed : r.claim? slot id space = none := by
    apply Option.eq_none_iff_forall_ne_some.mpr
    intro r' got
    exact absent (claim?_eq_some.mp got).1
  have unreleased : r.release? slot id space = none := by
    apply Option.eq_none_iff_forall_ne_some.mpr
    intro ⟨reg, r'⟩ got
    exact absent (holds_of_release? got)
  refine ⟨unclaimed, unreleased, ?_, ?_⟩
  · simp [after, unclaimed]
  · simp [after, release, unreleased]

theorem not_holds_of_outside (outside : r.capacity ≤ slot) : ¬ r.Holds slot id space := by
  rintro ⟨reg, live, -⟩
  have absent : r.slots[slot]? = none := List.getElem?_eq_none_iff.mpr outside
  simp [registration?, absent] at live

end Step

section Run

/-- The registry before action `k`, where it begins with `n` free slots. -/
def stage (n : Nat) (actions : List (Action κ)) (k : Nat) : Registry κ :=
  (ofCapacity n).run (actions.take k)

variable (n : Nat) (actions : List (Action κ))

/-- Action `k` enters a registration in the slot. -/
def Enters (k slot : Nat) (reg : Registration) : Prop :=
  ∃ init r', actions[k]? = some (.allocate init) ∧
    (stage n actions k).allocate init = .ok (slot, r') ∧ (init slot).1 = reg

/-- Action `k` claims the handle in the slot, and gets it. -/
def Claims (k slot : Nat) (id : Int32) (space : IdSpace) : Prop :=
  actions[k]? = some (.claim slot id space) ∧
    ((stage n actions k).claim? slot id space).isSome

/-- Action `k` releases the handle in the slot, and there is one. -/
def Releases (k slot : Nat) (id : Int32) (space : IdSpace) : Prop :=
  actions[k]? = some (.release slot id space) ∧
    ((stage n actions k).release? slot id space).isSome

/-- Of those entered in the slot before action `k`, the registration of action `p` is the last. -/
structure Latest (p k slot : Nat) (reg : Registration) : Prop where
  entered : Enters n actions p slot reg
  earlier : p < k
  last : ∀ q, p < q → q < k → ∀ other, ¬ Enters n actions q slot other

variable {n actions} {k k' p p' slot : Nat} {reg reg' : Registration} {id : Int32}
  {space : IdSpace}

theorem stage_succ {a : Action κ} (here : actions[k]? = some a) :
    stage n actions (k + 1) = (stage n actions k).after a := by
  simp [stage, run, List.take_add_one, here]

theorem keeps_stage_succ (unentered : ∀ reg, ¬ Enters n actions k slot reg) :
    (stage n actions k).Keeps slot (stage n actions (k + 1)) := by
  cases here : actions[k]? with
  | none =>
    have same : stage n actions (k + 1) = stage n actions k := by
      simp [stage, List.take_add_one, here]
    rw [same]
    exact .refl
  | some a =>
    rw [stage_succ here]
    apply keeps_after
    rintro init r' rfl got
    exact unentered _ ⟨init, r', here, got, rfl⟩

theorem keeps_stage (later : k ≤ k')
    (unentered : ∀ q, k ≤ q → q < k' → ∀ reg, ¬ Enters n actions q slot reg) :
    (stage n actions k).Keeps slot (stage n actions k') := by
  induction later with
  | refl => exact .refl
  | @step m later ih =>
    have before : ∀ q, k ≤ q → q < m → ∀ reg, ¬ Enters n actions q slot reg := by
      intro q from_ below
      exact unentered q from_ (by omega)
    exact (ih before).trans (keeps_stage_succ (unentered m later (by omega)))

/-- A registration starts unclaimed, whatever became of those that had the slot before it. -/
theorem Enters.fresh (entered : Enters n actions k slot reg) :
    (stage n actions (k + 1)).registration? slot = some reg ∧
      (stage n actions (k + 1)).isClosing slot = false := by
  obtain ⟨init, r', here, got, rfl⟩ := entered
  have next : stage n actions (k + 1) = r' := by
    rw [stage_succ here]
    simp [after, got]
  obtain ⟨vacant, -, rfl⟩ := allocate_eq_ok got
  rw [next]
  constructor
  · rw [registration?_entered _ _ _ (vacancy?_spec vacant).1, if_pos rfl]
  · rw [isClosing_entered, if_pos rfl]

/-- Whatever is in a slot was entered there, and nothing since. -/
theorem exists_latest (live : (stage n actions k).registration? slot = some reg) :
    ∃ p, Latest n actions p k slot reg := by
  induction k with
  | zero => simp [stage, run] at live
  | succ k ih =>
    by_cases entered : ∃ other, Enters n actions k slot other
    · obtain ⟨other, entered⟩ := entered
      have same : other = reg := Option.some.inj (entered.fresh.1.symm.trans live)
      subst same
      exact ⟨k, entered, by omega, by omega⟩
    · have unentered := not_exists.mp entered
      rcases keeps_stage_succ unentered with gone | ⟨same, -⟩
      · simp [gone] at live
      · obtain ⟨p, entered, earlier, last⟩ := ih (same ▸ live)
        refine ⟨p, entered, by omega, fun q after_ before => ?_⟩
        rcases Nat.lt_succ_iff_lt_or_eq.mp before with before | rfl
        · exact last q after_ before
        · exact unentered

theorem Latest.unique (latest : Latest n actions p k slot reg)
    (latest' : Latest n actions p' k slot reg') : p' = p := by
  rcases Nat.lt_trichotomy p p' with before | same | before
  · exact absurd latest'.entered (latest.last p' before latest'.earlier reg')
  · exact same.symm
  · exact absurd latest.entered (latest'.last p before latest.earlier reg)

/-- From one action to the next, the slot of a registration is not entered again. -/
theorem Latest.keeps (latest : Latest n actions p k slot reg)
    (latest' : Latest n actions p k' slot reg) (before : k < k') :
    (stage n actions (k + 1)).Keeps slot (stage n actions k') := by
  apply keeps_stage before
  intro q from_ below
  have := latest.earlier
  exact latest'.last q (by omega) below

theorem Claims.spec (claims : Claims n actions k slot id space) :
    (stage n actions k).Holds slot id space ∧ (stage n actions k).isClosing slot = false ∧
      (stage n actions (k + 1)).isClosing slot = true := by
  obtain ⟨here, got⟩ := claims
  obtain ⟨r', got⟩ := Option.isSome_iff_exists.mp got
  have next : stage n actions (k + 1) = r' := by
    rw [stage_succ here]
    simp [after, got]
  obtain ⟨held, unclaimed, rfl⟩ := claim?_eq_some.mp got
  refine ⟨held, unclaimed, ?_⟩
  obtain ⟨reg, live, -⟩ := held
  rw [next, isClosing_claimed_of_live (Option.isSome_of_eq_some live), if_pos rfl]

theorem Releases.spec (releases : Releases n actions k slot id space) :
    (stage n actions k).Holds slot id space ∧
      (stage n actions (k + 1)).registration? slot = none := by
  obtain ⟨here, got⟩ := releases
  obtain ⟨⟨reg, r'⟩, got⟩ := Option.isSome_iff_exists.mp got
  have next : stage n actions (k + 1) = r' := by
    rw [stage_succ here]
    simp [after, release, got]
  refine ⟨holds_of_release? got, ?_⟩
  rw [next, release?_eq_some got, registration?_freed, if_pos rfl]

theorem Latest.not_claims_again (latest : Latest n actions p k slot reg)
    (latest' : Latest n actions p k' slot reg) (claims : Claims n actions k slot reg.id reg.space)
    (before : k < k') : ¬ Claims n actions k' slot reg.id reg.space := by
  intro again
  obtain ⟨-, -, claimed⟩ := claims.spec
  obtain ⟨⟨_, live, -⟩, unclaimed, -⟩ := again.spec
  rcases latest.keeps latest' before with gone | ⟨-, still⟩
  · simp [gone] at live
  · simp [still claimed] at unclaimed

theorem Latest.not_releases_again (latest : Latest n actions p k slot reg)
    (latest' : Latest n actions p k' slot reg)
    (releases : Releases n actions k slot reg.id reg.space) (before : k < k') :
    ¬ Releases n actions k' slot reg.id reg.space := by
  intro again
  obtain ⟨-, freed⟩ := releases.spec
  obtain ⟨⟨_, live, -⟩, -⟩ := again.spec
  rcases latest.keeps latest' before with gone | ⟨same, -⟩
  · simp [gone] at live
  · simp [same, freed] at live

theorem latest_of_holds (held : (stage n actions k).Holds slot id space) :
    ∃ p reg, Latest n actions p k slot reg ∧ (stage n actions k).registration? slot = some reg ∧
      reg.id = id ∧ reg.space = space := by
  obtain ⟨reg, live, same⟩ := held
  obtain ⟨p, latest⟩ := exists_latest live
  exact ⟨p, reg, latest, live, same⟩

end Run

/-- Whatever is done to a registry, in any order: who claims or releases gets the registration that
was entered last in the slot, and none is claimed a second time or released a second time. One that
has just been entered is not claimed. In any registry, a claim or a release for a slot out of range
or for a handle that the slot does not hold changes nothing, so one that comes late leaves the next
in the slot alone. -/
theorem one_teardown (n : Nat) (actions : List (Action κ)) :
    (∀ k slot id space,
      Claims n actions k slot id space ∨ Releases n actions k slot id space →
      ∃ p reg, Latest n actions p k slot reg ∧
        (∀ p' reg', Latest n actions p' k slot reg' → p' = p) ∧
        (stage n actions k).registration? slot = some reg ∧ reg.id = id ∧ reg.space = space) ∧
    (∀ p slot reg k k', Latest n actions p k slot reg → Latest n actions p k' slot reg → k < k' →
      (Claims n actions k slot reg.id reg.space →
        ¬ Claims n actions k' slot reg.id reg.space) ∧
      (Releases n actions k slot reg.id reg.space →
        ¬ Releases n actions k' slot reg.id reg.space)) ∧
    (∀ k slot reg, Enters n actions k slot reg →
      (stage n actions (k + 1)).registration? slot = some reg ∧
      (stage n actions (k + 1)).isClosing slot = false) ∧
    ∀ (r : Registry κ) slot id space, r.capacity ≤ slot ∨ ¬ r.Holds slot id space →
      r.claim? slot id space = none ∧ r.release? slot id space = none ∧
      r.after (.claim slot id space) = r ∧ r.after (.release slot id space) = r := by
  refine ⟨?_, ?_, fun _ _ _ => Enters.fresh, ?_⟩
  · intro k slot id space teardown
    have held : (stage n actions k).Holds slot id space := by
      rcases teardown with claims | releases
      · exact claims.spec.1
      · exact releases.spec.1
    obtain ⟨p, reg, latest, live⟩ := latest_of_holds held
    exact ⟨p, reg, latest, fun _ _ latest' => latest.unique latest', live⟩
  · intro p slot reg k k' latest latest' before
    constructor
    · intro claims
      exact latest.not_claims_again latest' claims before
    · intro releases
      exact latest.not_releases_again latest' releases before
  · intro r slot id space absent
    apply refused_of_not_holds
    rcases absent with outside | absent
    · exact not_holds_of_outside outside
    · exact absent

/-- The slot is taken again, and the claim of the first one comes too late. -/
example :
    let reg (id : Int32) : Registration := .ofFocus 7 id false "media"
    let actions : List (Action Unit) := [.allocate fun _ => (reg 5, ()), .claim 0 5 .focus,
      .release 0 5 .focus, .allocate fun _ => (reg 6, ()), .claim 0 5 .focus, .claim 0 6 .focus]
    Claims 1 actions 1 0 5 .focus ∧ Releases 1 actions 2 0 5 .focus ∧
      Latest 1 actions 3 5 0 (reg 6) ∧ stage 1 actions 5 = stage 1 actions 4 ∧
      Claims 1 actions 5 0 6 .focus := by
  intro reg actions
  have last : ∀ q, 3 < q → q < 5 → ∀ other, ¬ Enters 1 actions q 0 other := by
    rintro q after_ before other ⟨init, r', entered, -⟩
    obtain rfl : q = 4 := by omega
    cases entered
  exact ⟨⟨rfl, rfl⟩, ⟨rfl, rfl⟩, ⟨⟨_, _, rfl, rfl, rfl⟩, by omega, last⟩, rfl, ⟨rfl, rfl⟩⟩

end AudioFocus.Registry
