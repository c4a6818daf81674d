import AudioFocus.Proofs.Origins

/-!
Looking up a watch. Its id tells its slot, so that the registry need not be searched, although
watches share the slots with focus handles and take whichever is free. With fewer slots than ids,
the lookup finds what the search finds.
-/
namespace AudioFocus

namespace Registry

theorem lt_capacity_of_live {κ : Type} {r : Registry κ} {slot : Nat} {reg : Registration}
    (live : r.registration? slot = some reg) : slot < r.capacity := by
  obtain ⟨s, found, -⟩ := Option.bind_eq_some_iff.mp live
  exact (List.getElem?_eq_some_iff.mp found).1

end Registry

namespace Client

variable {κ : Type} {c : Client κ} {id : Int32} {slot : Nat} {reg : Registration}

theorem watch_eq_ok : c.watch id = .ok (slot, reg) ↔
    watchSlot id = .ok slot ∧ c.registry.registration? slot = some reg ∧ reg.id = id ∧
      reg.space = .watch := by
  constructor
  · intro found
    exact ⟨watchSlot_of_watch found, watch_live found⟩
  · rintro ⟨place, live, named, space⟩
    refine bind_eq_ok.mpr ⟨slot, place, ?_⟩
    simp only [live]
    rw [if_pos ⟨space, named⟩]
    rfl

theorem watch_of_nonpos (nonpos : id ≤ 0) : c.watch id = refuse (.watchId id) := by
  rw [watch, watchSlot, if_pos nonpos]
  rfl

/-- A lookup of a positive id that fails blames the id. -/
theorem watch_of_pos (positive : ¬ id ≤ 0) (unknown : ∀ found, c.watch id ≠ .ok found) :
    c.watch id = refuse (.unknownWatch id) := by
  have place : watchSlot id = .ok (id.toInt.toNat - 1) := if_neg positive
  cases looked : c.watch id with
  | ok found => exact absurd looked (unknown found)
  | error e =>
    simp only [watch, place, bind, Except.bind] at looked
    split at looked
    · split at looked
      · contradiction
      · exact looked.symm
    · exact looked.symm

end Client

namespace Session

variable {n : Nesting} {s : Session} {id : Int32} {slot : Nat} {reg : Registration}

theorem id_of_watch (reach : Reach n s) (live : s.client.registry.registration? slot = some reg)
    (space : reg.space = .watch) : reg.id = watchId slot := by
  obtain ⟨o, init, drafted, rfl⟩ := drafted_of_live reach live
  rcases Client.draft_cases drafted with
    ⟨_, _, _, _, _, _, -, -, rfl⟩ | ⟨_, _, _, _, _, -, rfl⟩
  · contradiction
  · rfl

theorem small_of_live (reach : Reach n s) (few : s.client.config.maxHandles ≤ watchLimit)
    (live : s.client.registry.registration? slot = some reg) : slot < watchLimit := by
  have inside := Registry.lt_capacity_of_live live
  rw [capacity_of_reach reach] at inside
  exact Nat.lt_of_lt_of_le inside few

/-- Each watch has the id of its slot, so looking it up finds what a search of the registry finds:
the slot of a live watch with this id, and never a focus handle, a slot that was freed or one that
does not exist. Ids that are no slot's are refused. -/
theorem watch_found_iff (reach : Reach n s) (few : s.client.config.maxHandles ≤ watchLimit) :
    (∀ slot reg, s.client.registry.registration? slot = some reg → reg.space = .watch →
      reg.id.toInt = slot + 1) ∧
    (∀ id slot reg, s.client.watch id = .ok (slot, reg) ↔
      s.client.registry.find? id .watch = some slot ∧
        s.client.registry.registration? slot = some reg) ∧
    (∀ id slot reg, s.client.watch id = .ok (slot, reg) →
      reg.space = .watch ∧ reg.id = id ∧ id.toInt = slot + 1 ∧ slot < s.client.registry.capacity) ∧
    (∀ id, id ≤ 0 → s.client.watch id = refuse (.watchId id)) ∧
    ∀ id, ¬ id ≤ 0 → s.client.registry.find? id .watch = none →
      s.client.watch id = refuse (.unknownWatch id) := by
  have value (slot : Nat) (reg : Registration)
      (live : s.client.registry.registration? slot = some reg) (space : reg.space = .watch) :
      reg.id.toInt = slot + 1 := by
    rw [id_of_watch reach live space]
    exact toInt_watchId (small_of_live reach few live)
  have agree (id : Int32) (slot : Nat) (reg : Registration) :
      s.client.watch id = .ok (slot, reg) ↔ s.client.registry.find? id .watch = some slot ∧
        s.client.registry.registration? slot = some reg := by
    rw [Client.watch_eq_ok]
    constructor
    · rintro ⟨-, live, rfl, space⟩
      refine ⟨?_, live⟩
      rw [← space]
      apply find?_of_live reach live
      intro free
      have positive := value slot reg live space
      rw [free] at positive
      change (-1 : Int) = slot + 1 at positive
      omega
    · rintro ⟨found, live⟩
      obtain ⟨reg', live', rfl, space⟩ := Registry.holds_of_find? found
      obtain rfl : reg' = reg := Option.some.inj (live'.symm.trans live)
      refine ⟨?_, live, rfl, space⟩
      rw [id_of_watch reach live space]
      exact watchSlot_watchId (small_of_live reach few live)
  refine ⟨value, agree, fun id slot reg found => ?_, fun id => Client.watch_of_nonpos, ?_⟩
  · obtain ⟨-, live, rfl, space⟩ := Client.watch_eq_ok.mp found
    exact ⟨space, rfl, value slot reg live space, Registry.lt_capacity_of_live live⟩
  · intro id positive unknown
    apply Client.watch_of_pos positive
    rintro ⟨slot, reg⟩ found
    rw [((agree id slot reg).mp found).1] at unknown
    contradiction

/-- A watch has taken the slot of a focus handle that was unregistered, and a focus handle that of
a watch: the watch is found in slot 0 by id 1, and the focus handle in slot 1 not by id 2, though
it has that id. -/
theorem watch_found_iff_of_reused_slots :
    let s := played .full 3 [.call (.register 1 0 "media" false 0), .reply (.ok .done),
      .call (.watch 0 .both false 1), .reply (.ok .done), .call (.unregister 1), .reply (.ok .done),
      .call (.watch 0 .playback false 3), .reply (.ok .done), .call (.unwatch 2),
      .reply (.ok .done), .call (.register 2 0 "media" false 5), .reply (.ok .done)]
    s.client.config.maxHandles ≤ watchLimit ∧
      (s.client.watch 1).map (·.1) = .ok 0 ∧ s.client.registry.find? 1 .watch = some 0 ∧
      s.client.registry.find? 2 .focus = some 1 ∧ s.client.watch 2 = refuse (.unknownWatch 2) ∧
      s.client.watch 0 = refuse (.watchId 0) := by
  intro s
  have reach : Reach .full s := reach_played (by decide) (by decide +kernel)
  have few : s.client.config.maxHandles ≤ watchLimit := by decide +kernel
  obtain ⟨-, agree, -, nonpos, unknown⟩ := watch_found_iff reach few
  have found : s.client.registry.find? 1 .watch = some 0 := by decide +kernel
  obtain ⟨reg, live, -⟩ := Registry.holds_of_find? found
  refine ⟨few, ?_, found, by decide +kernel, unknown 2 (by decide) (by decide +kernel),
    nonpos 0 (by decide)⟩
  rw [(agree 1 0 reg).mpr ⟨found, live⟩]
  rfl

end Session
end AudioFocus
