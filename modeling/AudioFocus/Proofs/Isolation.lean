import AudioFocus.Proofs.Homes

/-!
Which registration an event reaches. The loop goes by the id in the event and by the class of the
channel that brought it; the rest of the channel does not count. An event that names somebody else
than those who listen on its channel therefore reaches that one, and is acknowledged on the channel
all the same.
-/
namespace AudioFocus

/-- Whether a channel is for events of this id: it is for one focus handle, or for any watch. -/
def ChannelKey.Carries (id : Int32) : ChannelKey → Prop
  | focus _ own => own = id
  | watch _ => True

theorem Registration.home_eq_iff {reg : Registration} {key : ChannelKey}
    (same : reg.space = key.space) :
    reg.home = key ↔ reg.owner = key.owner ∧ key.Carries reg.id := by
  cases key with
  | focus owner id =>
    have space : reg.space = .focus := same
    simp [home, space, ChannelKey.owner, ChannelKey.Carries, eq_comm (a := id)]
  | watch owner =>
    have space : reg.space = .watch := same
    simp [home, space, ChannelKey.owner, ChannelKey.Carries]

namespace Dispatcher

variable {κ : Type} {d : Dispatcher κ} {key : ChannelKey} {e : Event}

/-- Whether a delivery leads to anything: the callback is invoked, and the event acknowledged after
it, or the event is only acknowledged. -/
def Delivery.serves : Delivery κ → Bool
  | skipped | running .. => true
  | dropped | waiting _ => false

/-- An event in hand is served where nobody holds the guard, and the callback there is bound for the
id and the class of the channel that it came from. -/
theorem serves_enter_iff {x : Errand} : (d.enter x).1.serves = true ↔ ∃ callback,
    d.registry.binding? x.slot = some ⟨x.event.handle, x.key.space, callback⟩ ∧
      d.registry.isGuarded x.slot = false := by
  unfold enter
  constructor
  · intro serves
    split at serves
    · contradiction
    · rename_i free
      split at serves
      · rename_i b bound
        split at serves
        · rename_i names
          obtain ⟨id, space, callback⟩ := b
          obtain ⟨rfl, rfl⟩ := names
          exact ⟨callback, bound, by simpa using free⟩
        · contradiction
      · contradiction
  · rintro ⟨callback, bound, free⟩
    rw [if_neg (by simp [free]), bound]
    dsimp only
    rw [if_pos ⟨rfl, rfl⟩]
    split <;> rfl

/-- Whoever has the handle is served, as far as the callback behind the guard is bound for it. -/
theorem serves_iff : (d.deliver key e).1.serves = true ↔ ∃ slot callback,
    d.registry.find? e.handle key.space = some slot ∧
      d.registry.binding? slot = some ⟨e.handle, key.space, callback⟩ ∧
      d.registry.isGuarded slot = false := by
  unfold deliver
  cases found : d.registry.find? e.handle key.space with
  | none =>
    rw [address?_eq_none.mpr found]
    simp [Delivery.serves]
  | some slot =>
    obtain ⟨reg, live, -⟩ := Registry.holds_of_find? found
    rw [address?_of_found found live]
    simp only [serves_enter_iff, Option.some.injEq, exists_and_left, exists_eq_left']

/-- The same delivery of an event that came on another channel. -/
def Delivery.over (key : ChannelKey) : Delivery κ → Delivery κ
  | waiting x => waiting { x with key }
  | delivery => delivery

/-- Of the channel only its class counts. -/
theorem deliver_of_same_space {key' : ChannelKey} (same : key'.space = key.space) :
    (d.deliver key' e).1 = (d.deliver key e).1.over key' := by
  unfold deliver
  cases found : d.registry.find? e.handle key.space with
  | none =>
    rw [address?_eq_none.mpr found, address?_eq_none.mpr (same ▸ found)]
    rfl
  | some slot =>
    obtain ⟨reg, live, -⟩ := Registry.holds_of_find? found
    rw [address?_of_found found live, address?_of_found (same ▸ found) live]
    simp only [enter, same]
    split
    · rfl
    · split
      · split
        · split <;> rfl
        · rfl
      · rfl

/-- What an event leads to, if anything, is for one who listens on its channel. -/
def Isolates (d : Dispatcher κ) (key : ChannelKey) (e : Event) : Prop :=
  (d.deliver key e).1.serves = true → ∀ slot reg, d.registry.find? e.handle key.space = some slot →
    d.registry.registration? slot = some reg → reg.channel = key

end Dispatcher

namespace Registry

/-- The registries that the loop meets in the runs of a client, and in scenarios, be they on a
client or on a registry. -/
inductive InRun : {κ : Type} → Registry κ → Prop
  | session {s : Session} (reach : Reach .full s) : InRun s.client.registry
  | scenario {s : Scenario.State} (reached : s.Reached) : InRun s.client.registry

theorem InRun.homed {κ : Type} {r : Registry κ} (run : r.InRun) : r.Homed := by
  cases run with
  | session reach => exact Session.homed_of_reach reach
  | scenario reached => exact reached.homed

/-- Who has the id listens on the channel exactly if the channel is that of the owner, and is for
events of this id. -/
theorem InRun.listens_iff {κ : Type} {r : Registry κ} (run : r.InRun) {key : ChannelKey}
    {id : Int32} {slot : Nat} {reg : Registration} (found : r.find? id key.space = some slot)
    (live : r.registration? slot = some reg) :
    reg.channel = key ↔ reg.owner = key.owner ∧ key.Carries id := by
  obtain ⟨_, there, rfl, space⟩ := holds_of_find? found
  obtain rfl := Option.some.inj (live.symm.trans there)
  rw [run.homed slot _ live]
  exact Registration.home_eq_iff space

end Registry

/-- An event is served for whoever has the id that it names, in the class of the channel that brings
it: on every channel of the class it comes to the same. So it reaches only those who listen on its
channel exactly if nobody is served, or the one who is belongs to the owner of the channel and, on
the channel of a focus handle, the event names that handle. -/
theorem Dispatcher.isolates_iff {κ : Type} {d : Dispatcher κ} (run : d.registry.InRun)
    (key : ChannelKey) (e : Event) :
    (d.Isolates key e ↔ ∀ slot reg callback, d.registry.find? e.handle key.space = some slot →
      d.registry.registration? slot = some reg →
      d.registry.binding? slot = some ⟨e.handle, key.space, callback⟩ →
      d.registry.isGuarded slot = false → reg.owner = key.owner ∧ key.Carries e.handle) ∧
    ∀ key' : ChannelKey, key'.space = key.space →
      (d.deliver key' e).1 = (d.deliver key e).1.over key' := by
  refine ⟨⟨fun isolates slot reg callback found live bound free => ?_, fun apart serves => ?_⟩,
    fun key' same => deliver_of_same_space same⟩
  · have served := serves_iff.mpr ⟨slot, callback, found, bound, free⟩
    exact (run.listens_iff found live).mp (isolates served slot reg found live)
  · obtain ⟨slot, callback, found, bound, free⟩ := serves_iff.mp serves
    intro slot' reg found' live
    obtain rfl : slot = slot' := Option.some.inj (found.symm.trans found')
    exact (run.listens_iff found live).mpr (apart slot reg callback found live bound free)

/-- The processes 100 and 200 have a focus handle each, and what comes on the channel of the first
one names the second: for a client, and for a registry with a loop. -/
theorem Dispatcher.isolates_iff_of_two_owners :
    let event : Event := ⟨7, 6, .playback, .acquired, "", "", ""⟩
    let second : Registration := .ofFocus 200 6 true "media"
    let s := Session.played .full 2 [.call (.register 5 100 "media" true 0), .reply (.ok .done),
      .call (.register 6 200 "media" true 1), .reply (.ok .done)]
    let draft (id owner : Int32) : Scenario.Op :=
      .allocate ⟨some id, owner, .focus, .both, true, "media"⟩ [] (.mk none [])
    let t := (((Scenario.State.ofRegistry 2).perform (draft 5 100)).2.perform (draft 6 200)).2
    s.client.registry.registration? 1 = some second ∧
      ¬ s.client.Isolates (.focus 100 5) event ∧
      t.client.registry.registration? 1 = some second ∧
      ¬ t.client.Isolates (.focus 100 5) event := by
  intro event second s draft t
  have reach : Reach .full s := Session.reach_played (by decide) (by decide +kernel)
  have reached : t.Reached := ((Scenario.State.Reached.ofRegistry 2).perform _).perform _
  have foreign : ¬ (second.owner = 100 ∧ (ChannelKey.focus 100 5).Carries 6) := by
    simp [second, Registration.ofFocus]
  refine ⟨by decide +kernel, fun isolates => foreign ?_, by decide +kernel,
    fun isolates => foreign ?_⟩
  · exact (Dispatcher.isolates_iff (.session reach) (.focus 100 5) event).1.mp isolates 1 second 1
      (by decide +kernel) (by decide +kernel) rfl (by decide +kernel)
  · exact (Dispatcher.isolates_iff (.scenario reached) (.focus 100 5) event).1.mp isolates 1 second
      _ (by decide +kernel) (by decide +kernel) rfl (by decide +kernel)

end AudioFocus
