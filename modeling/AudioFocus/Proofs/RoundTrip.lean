import AudioFocus.Proofs.Guards
import AudioFocus.Proofs.Lookup
import AudioFocus.Proofs.Rollback
import AudioFocus.Proofs.Serving

/-!
A registration and its end are a round trip. Whatever the arbiter replies to the withdrawal, the
slot, its guard and the channel are given back, so that the same registration would get the same
slot again.
-/
namespace AudioFocus

/-- What ends a registration that has given this. -/
def Operation.ending? {κ : Type} : Operation κ → Value → Option (Operation κ)
  | .register id _ _ _ _, .unit => some (.unregister id)
  | .watch .., .id id => some (.unwatch id)
  | _, _ => none

/-- The slots below this are told by the ids of their watches. -/
def watchLimit : Nat := 2147483647

theorem toInt_ofNat_of_le {n : Nat} (small : n ≤ watchLimit) : (Int32.ofNat n).toInt = n :=
  Int32.toInt_ofNat_of_lt (Nat.lt_succ_of_le small)

theorem toInt_watchId {slot : Nat} (small : slot < watchLimit) :
    (watchId slot).toInt = slot + 1 := by
  have id : watchId slot = Int32.ofNat (slot + 1) := by
    rw [watchId, Int32.ofNat_add]
    rfl
  rw [id, toInt_ofNat_of_le small]
  rfl

theorem watchSlot_watchId {slot : Nat} (small : slot < watchLimit) :
    watchSlot (watchId slot) = .ok slot := by
  have value := toInt_watchId small
  have positive : ¬ watchId slot ≤ 0 := by
    rw [Int32.le_iff_toInt_le, value]
    simp
  rw [watchSlot, if_neg positive, value]
  rfl

theorem small_of_watchSlot {id : Int32} {slot : Nat} (found : watchSlot id = .ok slot) :
    slot < watchLimit := by
  unfold watchSlot at found
  split at found
  · contradiction
  · rename_i positive
    obtain rfl := Except.ok.inj found
    rw [Int32.le_iff_toInt_le] at positive
    have bound := id.toInt_lt
    simp at positive
    unfold watchLimit
    omega

namespace Registry

variable {κ : Type} {r r' : Registry κ} {slot : Nat}

/-- The next slot is determined by which slots are taken and which guards are held. -/
theorem vacancy?_congr (capacity : r'.capacity = r.capacity)
    (registration : ∀ i, r'.registration? i = r.registration? i)
    (guarded : ∀ i, r'.isGuarded i = r.isGuarded i) : r'.vacancy? = r.vacancy? := by
  have same : r'.slots.map (·.vacant) = r.slots.map (·.vacant) := by
    apply List.ext_getElem
    · rw [List.length_map, List.length_map]
      exact capacity
    · intro i inside inside'
      rw [List.getElem_map, List.getElem_map, vacant_getElem, vacant_getElem, registration, guarded]
  have index (r : Registry κ) : r.vacancy? = (r.slots.map (·.vacant)).findIdx? id := by
    rw [List.findIdx?_map]
    rfl
  rw [index, index, same]

theorem vacancy?_eq_some (room : slot < r.capacity) (empty : r.registration? slot = none)
    (unguarded : r.isGuarded slot = false) (taken : ∀ i, i < slot → r.registration? i ≠ none) :
    r.vacancy? = some slot := by
  have inside : slot < r.slots.length := room
  rw [vacancy?, List.findIdx?_eq_some_iff_getElem]
  refine ⟨inside, ?_, fun i before => ?_⟩
  · rw [vacant_getElem, empty, unguarded]
    rfl
  · obtain ⟨reg, live⟩ := Option.ne_none_iff_exists'.mp (taken i before)
    rw [vacant_getElem, live]
    simp

theorem Alike.has_eq (alike : r'.Alike r) (id : Int32) (space : IdSpace) :
    r'.has id space = r.has id space := by
  rw [Bool.eq_iff_iff, has_iff, has_iff]
  simp only [Holds, alike.registration]

theorem Alike.freed (alike : r'.Alike r) (slot : Nat) : (r'.freed slot).Alike (r.freed slot) := by
  have left {i : Nat} (live : ((r'.freed slot).registration? i).isSome) :
      slot ≠ i ∧ (r'.registration? i).isSome := by
    rw [registration?_freed] at live
    split at live
    · contradiction
    · exact ⟨‹_›, live⟩
  refine ⟨fun i => ?_, fun i live => ?_, fun i live => ?_⟩
  · rw [registration?_freed, registration?_freed, alike.registration]
  · obtain ⟨other, live⟩ := left live
    rw [isClosing_freed, isClosing_freed, if_neg other, if_neg other, alike.closing i live]
  · rw [binding?_freed, binding?_freed, alike.binding i (left live).2]

end Registry

namespace Client

variable {κ : Type} {c c' : Client κ} {o : Operation κ} {slot : Nat} {reg : Registration}
  {callback : κ}

theorem watchSlot_of_watch {id : Int32} (found : c.watch id = .ok (slot, reg)) :
    watchSlot id = .ok slot := by
  obtain ⟨i, place, rest⟩ := bind_eq_ok.mp found
  split at rest
  · split at rest
    · obtain rfl := (Prod.mk.inj (Except.ok.inj rest)).1
      exact place
    · contradiction
  · contradiction

theorem draft_congr (pid : c'.pid = c.pid) (o : Operation κ) : c'.draft o = c.draft o := by
  cases o <;> simp [draft, checkRegister, owner, pid]

/-- A registration is in its slot, and the arbiter and the loop know of it. -/
structure Enlisted (c : Client κ) (o : Operation κ) (slot : Nat) (reg : Registration)
    (callback : κ) (c' : Client κ) : Prop where
  drafted : ∃ init, c.draft o = some (.ok init) ∧ init slot = reg
  vacant : c.registry.vacancy? = some slot
  fresh : c.registry.has reg.id reg.space = false
  opened : ∃ channels, c.channels.openChannel reg.channel = (.ok (), channels) ∧
    channels.Stirred c'.channels
  registry : c'.registry = c.registry.entered slot reg callback
  running : c'.running = true
  pid : c'.pid = c.pid

/-- The client once its loop runs. -/
def started (c : Client κ) : Client κ := c.withDispatcher { c.toDispatcher with running := true }

theorem enlisted_of_opened {init : Nat → Registration} (drafted : c.draft o = some (.ok init))
    (vacant : c.registry.vacancy? = some slot)
    (fresh : c.registry.has (init slot).id (init slot).space = false) {d : Dispatcher κ}
    (opened : (c.withRegistry (c.registry.entered slot (init slot) callback)).openChannel
      (init slot).channel = (.ok (), d)) {c₁ : Client κ}
    (attended : ((c.withDispatcher d).ask (init slot).announcement
      (.registering slot (init slot))).1.Attended c₁) :
    c.Enlisted o slot (init slot) callback c₁.started where
  drafted := ⟨init, drafted, rfl⟩
  vacant := vacant
  fresh := fresh
  opened := by
    have opens := openChannel_ok opened
    exact ⟨d.channels, opens, attended.stirred⟩
  registry := attended.registry.trans (Dispatcher.openChannel_kept opened).1
  running := rfl
  pid := attended.pid

section Serves

variable {R : Client κ → Client κ → Prop} {exchanges : List (Request × Result Reply)} {v : Value}

theorem not_serves_giveBack {cause : FocusError} :
    ¬ Serves R (c.giveBack slot reg cause) exchanges c' (.ok v) := by
  intro serves
  unfold giveBack at serves
  split at serves <;> contradiction

theorem serves_announced {reply : Result Reply}
    (serves : Serves R (c.announced slot reg reply) exchanges c' (.ok v)) :
    reply = .ok .done ∧ exchanges = [] ∧ v = registered reg ∧ c' = c.started := by
  have announced := announced_announced c slot reg reply
  generalize c.announced slot reg reply = result at announced serves
  cases announced with
  | served done =>
    cases serves
    exact ⟨done, rfl, rfl, rfl⟩
  | left => contradiction
  | refused => exact (not_serves_giveBack serves).elim
  | unstarted =>
    cases serves with
    | answered meanwhile reply rest => exact (not_serves_giveBack rest).elim

/-- A registration that succeeds has made one request, which the arbiter has granted. -/
theorem enlisted_of_serves (brought : o.callback? = some callback)
    (serves : Serves Attended (c.call o) exchanges c' (.ok v)) :
    ∃ slot reg, c.Enlisted o slot reg callback c' ∧
      exchanges = [(reg.announcement, .ok .done)] ∧ v = registered reg := by
  obtain ⟨draft, drafted, called⟩ := call_eq_draft brought
  rw [called] at serves
  cases draft with
  | error e => contradiction
  | ok init =>
    have enrolled := enrol_enrolled c init callback
    change Serves Attended (c.enrol init callback) exchanges c' (.ok v) at serves
    generalize c.enrol init callback = result at enrolled serves
    cases enrolled with
    | exhausted | duplicate | unopened => contradiction
    | @entered slot d vacant fresh opened =>
      cases serves with
      | answered attended reply rest =>
        obtain ⟨rfl, rfl, rfl, rfl⟩ := serves_announced rest
        exact ⟨slot, init slot, enlisted_of_opened drafted vacant fresh opened attended, rfl, rfl⟩

end Serves

/-- A registration that there is room for comes as far as the arbiter, if the system does not
fail. -/
theorem asks_of_vacant (brought : o.callback? = some callback) {init : Nat → Registration}
    (drafted : c.draft o = some (.ok init)) (vacant : c.registry.vacancy? = some slot)
    (fresh : c.registry.has (init slot).id (init slot).space = false)
    (unhindered : c.faults.opens = []) {channels : Channels}
    (opens : c.channels.openChannel (init slot).channel = (.ok (), channels)) :
    ∃ c₁, c.call o = (c₁, .asking (init slot).announcement (.registering slot (init slot))) ∧
      c₁.running = c.running ∧ c₁.faults = c.faults ∧
      ∀ c₂, c₁.Attended c₂ → c.Enlisted o slot (init slot) callback c₂.started := by
  obtain ⟨draft, drafted', called⟩ := call_eq_draft brought
  obtain rfl := Option.some.inj (drafted.symm.trans drafted')
  rw [called]
  change ∃ c₁, c.enrol init callback = _ ∧ _
  have enrolled := enrol_enrolled c init callback
  generalize c.enrol init callback = result at enrolled
  cases enrolled with
  | exhausted full => cases vacant.symm.trans full
  | duplicate vacant' taken =>
    obtain rfl := Option.some.inj (vacant.symm.trans vacant')
    cases fresh.symm.trans taken
  | unopened vacant' _ failed =>
    obtain rfl := Option.some.inj (vacant.symm.trans vacant')
    simp [Dispatcher.openChannel, withRegistry, unhindered, opens] at failed
  | @entered slot' d vacant' _ opened =>
    obtain rfl := Option.some.inj (vacant.symm.trans vacant')
    have faults : d.faults = c.faults := by
      simp only [Dispatcher.openChannel, withRegistry, unhindered, opens] at opened
      obtain rfl := (Prod.mk.inj opened).2
      rfl
    exact ⟨_, rfl, (Dispatcher.openChannel_kept opened).2, faults,
      fun c₂ attended => enlisted_of_opened drafted vacant fresh opened attended⟩

theorem announced_done (startable : c.running = true ∨ c.faults.threads = none) :
    c.announced slot reg (.ok .done) = (c.started, .finished (.ok (registered reg))) := by
  have started : c.start = (.ok (), { c.toDispatcher with running := true }) := by
    unfold Dispatcher.start
    split
    · rename_i running
      rw [← running]
    · rename_i stopped
      simp [startable.resolve_left stopped]
  simp [announced, Reply.expectDone, started, Client.started]

/-- The client while it waits for the reply to a withdrawal, with the guard of the slot. -/
def withdrawing (c : Client κ) (slot : Nat) (reg : Registration) : Client κ :=
  ((c.withRegistry ((c.registry.claimed slot).guard slot)).ask reg.withdrawal
    (.tearingDown slot reg true none)).1

/-- A teardown that has begun goes on to its end, whatever the arbiter replies to its request. -/
theorem serves_begun_iff {c₀ : Client κ} {guarded : Bool}
    (begun : c.beginTeardown slot reg = some (c₀, guarded)) {R : Client κ → Client κ → Prop}
    {exchanges : List (Request × Result Reply)} {result : Result Value} :
    Serves R (c.teardown slot reg) exchanges c' result ↔ ∃ c₁ reply,
      R (c₀.withDispatcher (c₀.note (.request reg.withdrawal))) c₁ ∧
      exchanges = [(reg.withdrawal, reply)] ∧ c' = c₁.endTeardown slot reg guarded ∧
      result = (Reply.expectDone reg.withdrawal.method reply).map fun _ => .unit := by
  have asks : c.teardown slot reg = c₀.ask reg.withdrawal (.tearingDown slot reg guarded none) := by
    simp only [teardown, begun]
  rw [asks]
  constructor
  · intro serves
    cases serves with
    | @answered _ c₁ _ _ _ _ _ meanwhile reply rest =>
      cases rest
      exact ⟨c₁, reply, meanwhile, rfl, rfl, rfl⟩
  · rintro ⟨c₁, reply, meanwhile, rfl, rfl, rfl⟩
    exact .answered meanwhile reply (.finished _ _)

theorem serves_teardown_iff (live : c.registry.registration? slot = some reg)
    (unclaimed : c.registry.isClosing slot = false) (unguarded : c.registry.isGuarded slot = false)
    {R : Client κ → Client κ → Prop} {exchanges : List (Request × Result Reply)}
    {result : Result Value} :
    Serves R (c.teardown slot reg) exchanges c' result ↔ ∃ c₁ reply,
      R (c.withdrawing slot reg) c₁ ∧ exchanges = [(reg.withdrawal, reply)] ∧
      c' = c₁.endTeardown slot reg true ∧
      result = (Reply.expectDone reg.withdrawal.method reply).map fun _ => .unit := by
  have claim : c.registry.claim? slot reg.id reg.space = some (c.registry.claimed slot) :=
    Registry.claim?_eq_some.mpr ⟨⟨reg, live, rfl, rfl⟩, unclaimed, rfl⟩
  have begun : c.beginTeardown slot reg =
      some (c.withRegistry ((c.registry.claimed slot).guard slot), true) := by
    simp [beginTeardown, claim, unguarded]
  exact serves_begun_iff begun

/-- All is as it was before a registration on a channel, but that the loop may run: the live
registrations, their claims and callbacks, and the references to the channels. So are the names in
the tree, if those of the channel did not exist. -/
structure Cleared (c : Client κ) (key : ChannelKey) (c' : Client κ) : Prop where
  registry : c'.registry.Alike c.registry
  references : ∀ other, c'.channels.refs other = c.channels.refs other
  entries : c.channels.Absent key → c.channels.SameEntries c'.channels

/-- An arbiter that accepts whatever it is asked lets a registration into this slot. -/
structure Grantable (c : Client κ) (o : Operation κ) (slot : Nat) (reg : Registration) (v : Value) :
    Prop where
  possible : ∃ c', Serves Attended (c.call o) [(reg.announcement, .ok .done)] c' (.ok v)
  certain : ∀ exchanges c' result, Serves Attended (c.call o) exchanges c' result →
    (∀ x ∈ exchanges, x.2 = .ok .done) →
    result = .ok v ∧ c'.registry.registration? slot = some reg

namespace Enlisted

theorem live (enlisted : c.Enlisted o slot reg callback c') :
    c'.registry.registration? slot = some reg ∧ c'.registry.isClosing slot = false ∧
      c'.registry.isGuarded slot = false := by
  obtain ⟨room, -, unguarded⟩ := Registry.vacancy?_spec enlisted.vacant
  rw [enlisted.registry, Registry.registration?_entered _ _ _ room, Registry.isClosing_entered,
    Registry.isGuarded_entered, if_pos rfl, if_pos rfl]
  exact ⟨rfl, rfl, unguarded⟩

section Withdrawing

variable {c₁ : Client κ}

theorem registry_endTeardown (enlisted : c.Enlisted o slot reg callback c')
    (attended : (c'.withdrawing slot reg).Attended c₁) :
    (c₁.endTeardown slot reg true).registry = (((((c.registry.entered slot reg callback).claimed
      slot).guard slot).freed slot).unbind slot reg.id reg.space).unguard slot := by
  have held : ((c'.registry.claimed slot).guard slot).Holds slot reg.id reg.space :=
    ⟨reg, by simp [enlisted.live], rfl, rfl⟩
  have same : c₁.registry = (c'.registry.claimed slot).guard slot := attended.registry
  change ((c₁.registry.release slot reg.id reg.space).unbind slot reg.id reg.space).unguard slot = _
  rw [same, Registry.release_of_holds held, enlisted.registry]

theorem alike_endTeardown (enlisted : c.Enlisted o slot reg callback c')
    (attended : (c'.withdrawing slot reg).Attended c₁) :
    (c₁.endTeardown slot reg true).registry.Alike c.registry := by
  obtain ⟨room, empty, -⟩ := Registry.vacancy?_spec enlisted.vacant
  rw [enlisted.registry_endTeardown attended]
  refine .trans (.unguard slot _) (.trans (.unbind slot _ _ ?_) ?_)
  · simp [Registry.registration?_freed]
  · exact .trans (.freed (.guard slot _) slot) (.unentered slot room empty)

theorem cleared (balanced : c.Balanced) (enlisted : c.Enlisted o slot reg callback c')
    (attended : (c'.withdrawing slot reg).Attended c₁) :
    c.Cleared reg.channel (c₁.endTeardown slot reg true) := by
  obtain ⟨channels, opened, stirred⟩ := enlisted.opened
  have stirred := stirred.trans attended.stirred
  refine ⟨enlisted.alike_endTeardown attended, ?_, ?_⟩
  · exact Channels.refs_closeChannel_openChannel opened stirred.kept
  · exact (Channels.closedAgain balanced.counted balanced.sound opened stirred).sameEntries
      balanced.sound

/-- The slot that was given back is the next one again. -/
theorem vacancy?_endTeardown (enlisted : c.Enlisted o slot reg callback c')
    (attended : (c'.withdrawing slot reg).Attended c₁) :
    (c₁.endTeardown slot reg true).registry.vacancy? = some slot := by
  obtain ⟨room, -, unguarded⟩ := Registry.vacancy?_spec enlisted.vacant
  rw [← enlisted.vacant]
  apply Registry.vacancy?_congr
  · rw [enlisted.registry_endTeardown attended]
    simp only [Registry.unguard, Registry.unbind, Registry.freed, Registry.guard,
      Registry.claimed, Registry.entered, Registry.capacity_modify]
  · exact (enlisted.alike_endTeardown attended).registration
  · intro i
    have live : (((c.registry.entered slot reg callback).claimed slot).registration?
        slot).isSome := by simp [Registry.registration?_entered _ _ _ room]
    rw [enlisted.registry_endTeardown attended, Registry.isGuarded_unguard,
      Registry.isGuarded_unbind, Registry.isGuarded_freed, Registry.isGuarded_guard_of_live live]
    by_cases here : slot = i
    · rw [if_pos here, ← here, unguarded]
    · simp [here]

/-- What was registered and ended can be registered again, in the same slot. -/
theorem again (balanced : c.Balanced) (brought : o.callback? = some callback)
    (enlisted : c.Enlisted o slot reg callback c')
    (attended : (c'.withdrawing slot reg).Attended c₁)
    (unhindered : (c₁.endTeardown slot reg true).faults.opens = []) :
    (c₁.endTeardown slot reg true).Grantable o slot reg (registered reg) := by
  have vacant := enlisted.vacancy?_endTeardown attended
  have alike := enlisted.alike_endTeardown attended
  obtain ⟨init, drafted, rfl⟩ := enlisted.drafted
  obtain ⟨channels, opened, stirred⟩ := enlisted.opened
  obtain ⟨channels', opens⟩ := (Channels.closedAgain balanced.counted balanced.sound opened
    (stirred.trans attended.stirred)).openChannel
  have pid : (c₁.endTeardown slot (init slot) true).pid = c.pid := attended.pid.trans enlisted.pid
  have drafted' := (draft_congr pid o).trans drafted
  have fresh := (alike.has_eq (init slot).id (init slot).space).trans enlisted.fresh
  have running : (c₁.endTeardown slot (init slot) true).running = true :=
    attended.running.trans enlisted.running
  obtain ⟨c₂, asks, running₂, -, enlists⟩ :=
    asks_of_vacant brought drafted' vacant fresh unhindered opens
  constructor
  · rw [asks]
    have startable : c₂.running = true := running₂.trans running
    exact ⟨c₂.started, .of_reply rfl (.refl c₂) (announced_done (.inl startable))⟩
  · intro exchanges c'' result serves accepting
    rw [asks] at serves
    cases serves with
    | @answered _ c₃ _ _ _ _ _ attended' reply rest =>
      obtain rfl : reply = .ok .done := accepting _ List.mem_cons_self
      have startable : c₃.running = true := attended'.running.trans (running₂.trans running)
      change Serves Attended (c₃.announced slot (init slot) (.ok .done)) _ _ _ at rest
      rw [announced_done (.inl startable)] at rest
      cases rest
      exact ⟨rfl, (enlists c₃ attended').live.1⟩

end Withdrawing

theorem ending (enlisted : c.Enlisted o slot reg callback c') :
    (o.ending? (registered reg) = some (.unregister reg.id) ∧ reg.space = .focus ∧
      reg.id ≠ Registry.freeId) ∨
    (o.ending? (registered reg) = some (.unwatch reg.id) ∧ reg.space = .watch ∧
      reg.id = watchId slot) := by
  obtain ⟨init, drafted, rfl⟩ := enlisted.drafted
  rcases draft_cases drafted with
    ⟨id, owner, streamType, session, callback, pid, rfl, natural, rfl⟩ |
      ⟨owner, filter, session, callback, pid, rfl, rfl⟩
  · refine .inl ⟨rfl, rfl, ?_⟩
    rintro rfl
    exact natural (by decide)
  · exact .inr ⟨rfl, rfl, rfl⟩

/-- Nobody but the newcomer has its handle. -/
theorem eq_of_holds (enlisted : c.Enlisted o slot reg callback c') {i : Nat}
    (held : c'.registry.Holds i reg.id reg.space) : i = slot := by
  by_cases other : i = slot
  · exact other
  obtain ⟨room, -, -⟩ := Registry.vacancy?_spec enlisted.vacant
  rw [enlisted.registry] at held
  unfold Registry.Holds at held
  rw [Registry.registration?_entered _ _ _ room, if_neg (Ne.symm other)] at held
  have known := Registry.has_iff.mpr ⟨i, held⟩
  simp [enlisted.fresh] at known

theorem call_ending (enlisted : c.Enlisted o slot reg callback c') {ending : Operation κ}
    (ends : o.ending? (registered reg) = some ending)
    (small : reg.space = .watch → slot < watchLimit) :
    c'.call ending = c'.teardown slot reg := by
  obtain ⟨live, -⟩ := enlisted.live
  rcases enlisted.ending with ⟨ends', focus, named⟩ | ⟨ends', watch, id⟩
  · obtain rfl := Option.some.inj (ends.symm.trans ends')
    obtain ⟨first, found⟩ := Registry.exists_find? named ⟨reg, live, rfl, rfl⟩
    obtain rfl := enlisted.eq_of_holds (Registry.holds_of_find? found)
    rw [focus] at found
    simp [call, Client.focus, found, live, orRefuse]
  · obtain rfl := Option.some.inj (ends.symm.trans ends')
    have place : watchSlot reg.id = .ok slot := by
      rw [id]
      exact watchSlot_watchId (small watch)
    simp [call, Client.watch, place, live, watch, orRefuse, bind, Except.bind, pure, Except.pure]

/-- The id of a watch in a slot that 32 bits cannot count leads nowhere. -/
theorem call_ending_of_large (enlisted : c.Enlisted o slot reg callback c') {ending : Operation κ}
    (ends : o.ending? (registered reg) = some ending) (watch : reg.space = .watch)
    (large : watchLimit ≤ slot) : ∃ e, c'.call ending = (c', .finished (.error e)) := by
  rcases enlisted.ending with ⟨-, focus, -⟩ | ⟨ends', -, id⟩
  · cases watch.symm.trans focus
  · obtain rfl := Option.some.inj (ends.symm.trans ends')
    cases found : c'.watch reg.id with
    | error e => exact ⟨e, by simp [call, found, orRefuse]⟩
    | ok x =>
      obtain ⟨i, other⟩ := x
      obtain ⟨live, same⟩ := watch_live found
      obtain rfl := enlisted.eq_of_holds ⟨other, live, same.1, same.2.trans watch.symm⟩
      have small := small_of_watchSlot (watchSlot_of_watch found)
      omega

end Enlisted

end Client

namespace Session

/-- A registration that succeeds and is then ended leaves the client as it was before, whatever the
arbiter does meanwhile and whatever it replies in the end, and the same registration would get the
same slot and id again. That a watch has a slot which 32 bits cannot count is the only obstacle: its
end is refused, and nothing happens. -/
theorem round_trip {s : Session} (reach : Reach .none s) {o : Operation Nat} {callback : Nat}
    (registers : o.callback? = some callback) {exchanges : List (Request × Result Reply)}
    {c : Client Nat} {v : Value}
    (serves : Client.Serves Client.Attended (s.client.call o) exchanges c (.ok v)) :
    ∃ slot reg ending, s.client.registry.vacancy? = some slot ∧
      c.registry.registration? slot = some reg ∧ o.ending? v = some ending ∧
      (reg.space = .watch → watchLimit ≤ slot →
        ∃ e, c.call ending = (c, .finished (.error e))) ∧
      ((reg.space = .watch → slot < watchLimit) →
        (∀ reply, ∃ c', Client.Serves Client.Attended (c.call ending) [(reg.withdrawal, reply)] c'
          ((Reply.expectDone reg.withdrawal.method reply).map fun _ => .unit)) ∧
        ∀ exchanges' c' result,
          Client.Serves Client.Attended (c.call ending) exchanges' c' result →
          s.client.Cleared reg.channel c' ∧ (∃ reply, exchanges' = [(reg.withdrawal, reply)]) ∧
          (c'.faults.opens = [] → c'.Grantable o slot reg v)) := by
  have balanced := (accounted_of_reach reach).balanced
  obtain ⟨slot, reg, enlisted, rfl, rfl⟩ := Client.enlisted_of_serves registers serves
  obtain ⟨live, unclaimed, unguarded⟩ := enlisted.live
  obtain ⟨ending, ends⟩ : ∃ ending, o.ending? (Client.registered reg) = some ending := by
    rcases enlisted.ending with ⟨ends, -⟩ | ⟨ends, -⟩
    · exact ⟨_, ends⟩
    · exact ⟨_, ends⟩
  refine ⟨slot, reg, ending, enlisted.vacant, live, ends, enlisted.call_ending_of_large ends,
    fun small => ?_⟩
  rw [enlisted.call_ending ends small]
  constructor
  · intro reply
    exact ⟨_, (Client.serves_teardown_iff live unclaimed unguarded).mpr
      ⟨_, reply, .refl _, rfl, rfl, rfl⟩⟩
  · intro exchanges' c' result ended
    obtain ⟨c₁, reply, attended, rfl, rfl, rfl⟩ :=
      (Client.serves_teardown_iff live unclaimed unguarded).mp ended
    exact ⟨enlisted.cleared balanced attended, ⟨reply, rfl⟩,
      enlisted.again balanced registers attended⟩

/-- A watch shares its channel with another one, and the arbiter refuses to withdraw it. -/
theorem round_trip_of_shared_watch :
    let s := played .none 3 [.call (.watch 0 .both false 0), .reply (.ok .done)]
    let o : Operation Nat := .watch 0 .playback false 1
    let announced : List (Request × Result Reply) := [(.setWatch 7 2 .playback false, .ok .done)]
    Reach .none s ∧ ∃ c,
      Client.Serves Client.Attended (s.client.call o) announced c (.ok (.id 2)) ∧
      ∃ c', Client.Serves Client.Attended (c.call (.unwatch 2))
          [(.unsetWatch 7 2 false, .error (.rejected 3))] c' (.error (.rejected 3)) ∧
        s.client.Cleared (.watch 7) c' ∧ c'.channels.pending = true ∧
        ∃ c'', Client.Serves Client.Attended (c'.call o) announced c'' (.ok (.id 2)) := by
  intro s o announced
  let reg : Registration := .ofWatch 7 .playback false 1
  let c := (s.client.call o).1.started
  have reach : Reach .none s := reach_played (by decide) (by decide)
  have serves : Client.Serves Client.Attended (s.client.call o) announced c (.ok (.id 2)) :=
    .of_reply (p := .registering 1 reg) rfl (.refl _) rfl
  obtain ⟨slot, reg', ending, vacant, live, ends, -, small⟩ := round_trip reach rfl serves
  obtain rfl : 1 = slot := Option.some.inj vacant
  obtain rfl : reg = reg' := Option.some.inj live
  obtain rfl : .unwatch 2 = ending := Option.some.inj ends
  obtain ⟨-, all⟩ := small (by decide)
  -- Before it refuses, it sends an event to the other watch.
  let asking : Session := { client := (c.call (.unwatch 2)).1 }
  have attended := attended_of_play (s := asking) (n := .none)
    [.push (.watch 7) ⟨1, 5, .playback, .acquired, "", "", ""⟩] (by decide)
    (by simp [Move.KeepsNames]) rfl
  have ended : Client.Serves Client.Attended (c.call (.unwatch 2))
      [(.unsetWatch 7 2 false, .error (.rejected 3))] _ (.error (.rejected 3)) :=
    .of_reply (p := .tearingDown 1 reg true none) rfl attended rfl
  obtain ⟨cleared, -, again⟩ := all _ _ _ ended
  obtain ⟨⟨c'', again⟩, -⟩ := again rfl
  exact ⟨reach, c, serves, _, ended, cleared, rfl, c'', again⟩

/-- Focus handles with the ids from 0 are in the first slots, and nothing else is going on. -/
structure Filled (n k : Nat) (s : Session) : Prop where
  reach : Reach .none s
  idle : s.frames = []
  capacity : s.client.registry.capacity = n
  registration : ∀ i, s.client.registry.registration? i =
    if i < k then some (.ofFocus s.client.pid (Int32.ofNat i) false "media") else none
  guards : ∀ i, s.client.registry.isGuarded i = false
  memory : ∃ m, s.client.channels = .memory m
  unhindered : s.client.faults = {}

section Filled

variable {n k : Nat} {s : Session}

theorem filled_fresh (some_ : n ≠ 0) : Filled n 0 (fresh n) where
  reach := by
    have reach : Reach .none (played .none n []) := reach_played some_ rfl
    exact reach
  idle := rfl
  capacity := by simp [fresh, Registry.capacity, Registry.ofCapacity]
  registration i := by simp [fresh]
  guards i := by simp [fresh]
  memory := ⟨{}, rfl⟩
  unhindered := rfl

theorem Filled.vacancy (filled : Filled n k s) (room : k < n) :
    s.client.registry.vacancy? = some k := by
  apply Registry.vacancy?_eq_some
  · rw [filled.capacity]
    exact room
  · simp [filled.registration]
  · exact filled.guards k
  · intro i before
    simp [filled.registration, before]

/-- A registration that the table has room for and no other handle bars goes through. -/
theorem Filled.asks (filled : Filled n k s) (room : k < n) {o : Operation Nat} {callback : Nat}
    (registers : o.callback? = some callback) {init : Nat → Registration}
    (drafted : s.client.draft o = some (.ok init))
    (fresh : s.client.registry.has (init k).id (init k).space = false) :
    ∃ c₁, s.client.call o = (c₁, .asking (init k).announcement (.registering k (init k))) ∧
      c₁.faults = {} ∧ s.client.Enlisted o k (init k) callback c₁.started ∧
      c₁.resume (.registering k (init k)) (.ok .done) =
        (c₁.started, .finished (.ok (Client.registered (init k)))) := by
  obtain ⟨m, memory⟩ := filled.memory
  obtain ⟨c₁, asks, -, faults, enlists⟩ := Client.asks_of_vacant registers drafted
    (filled.vacancy room) fresh (by rw [filled.unhindered]) (by rw [memory]; rfl)
  have faults := faults.trans filled.unhindered
  exact ⟨c₁, asks, faults, enlists c₁ (.refl c₁), Client.announced_done (.inr (by rw [faults]))⟩

/-- The arbiter grants a registration, and the session goes on after it. -/
theorem runs_of_granted {o : Operation Nat} (numbered : o.callback?.all (· = s.begun))
    (goesOn : o.stops = false) (idle : s.waits = false) {c₁ c₂ : Client Nat} {request : Request}
    {p : Pending} {result : Result Value} (asks : s.client.call o = (c₁, .asking request p))
    (granted : c₁.resume p (.ok .done) = (c₂, .finished result)) :
    ∃ t, Runs .none s t ∧ t.client = c₂ ∧ t.frames = s.frames := by
  have called : s.step (.call o) = some (s.numbered.advance s.begun (c₁, .asking request p)) := by
    rw [← asks]
    simp [step, numbered, goesOn]
  have replied : (s.numbered.advance s.begun (c₁, .asking request p)).step (.reply (.ok .done)) =
      some (((s.numbered.advance s.begun (c₁, .asking request p)).answered s.begun s.book.length p
        s.frames (.ok .done)).advance s.begun (c₂, .finished result)) := by
    rw [← granted]
    rfl
  exact ⟨_, .step _ (.step _ .refl (fun _ => idle) called) (by simp [Nesting.Allows, Move.begins])
    replied, rfl, rfl⟩

theorem Filled.succ (filled : Filled n k s) (room : k < n) (small : k ≤ watchLimit) :
    ∃ t, Filled n (k + 1) t := by
  let id := Int32.ofNat k
  have value : id.toInt = k := toInt_ofNat_of_le small
  have natural : ¬ id < 0 := by
    rw [Int32.lt_iff_toInt_lt, value]
    simp
  have drafted : s.client.draft (.register id 0 "media" false s.begun) =
      some (.ok fun _ => .ofFocus s.client.pid id false "media") := by
    simp [Client.draft, Client.checkRegister, natural, Client.owner, Except.map]
  have fresh : s.client.registry.has id .focus = false := by
    rw [Bool.eq_false_iff]
    intro known
    obtain ⟨i, reg, live, same, -⟩ := Registry.has_iff.mp known
    rw [filled.registration] at live
    split at live
    · rename_i before
      obtain rfl := Option.some.inj live
      have other : (Int32.ofNat i).toInt = i := toInt_ofNat_of_le (by omega)
      have equal : (Int32.ofNat i).toInt = id.toInt := congrArg Int32.toInt same
      omega
    · contradiction
  obtain ⟨c₁, asks, faults, enlisted, granted⟩ := filled.asks room rfl drafted fresh
  obtain ⟨t, runs, client, frames⟩ :=
    runs_of_granted (by simp [Operation.callback?]) rfl (by simp [waits, filled.idle]) asks granted
  rw [← client] at enlisted
  refine ⟨t, filled.reach.next runs, frames.trans filled.idle, ?_, fun i => ?_, fun i => ?_, ?_, ?_⟩
  · rw [enlisted.registry, Registry.entered, Registry.capacity_modify, filled.capacity]
  · have inside : k < s.client.registry.capacity := by rw [filled.capacity]; exact room
    rw [enlisted.registry, Registry.registration?_entered _ _ _ inside, filled.registration,
      enlisted.pid]
    by_cases here : k = i
    · subst here
      simp [id]
    · have split : i < k + 1 ↔ i < k := by omega
      simp only [if_neg here, split]
  · rw [enlisted.registry, Registry.isGuarded_entered, filled.guards]
  · obtain ⟨m, memory⟩ := filled.memory
    obtain ⟨channels, opened, stirred⟩ := enlisted.opened
    rw [memory] at opened
    obtain rfl := (Prod.mk.inj opened).2
    exact stirred.entries.memory
  · rw [client]
    exact faults

theorem exists_filled (some_ : n ≠ 0) (room : k ≤ n) (small : k ≤ watchLimit + 1) :
    ∃ s, Filled n k s := by
  induction k with
  | zero => exact ⟨fresh n, filled_fresh some_⟩
  | succ k ih =>
    obtain ⟨s, filled⟩ := ih (by omega) (by omega)
    exact filled.succ (by omega) (by omega)

/-- A client with more slots than 32 bits can count comes to a state in which a watch is set, and
stays set when its id is unset. -/
theorem exists_watch_without_end (large : watchLimit + 1 < n) :
    ∃ s t : Session, Reach .none s ∧ s.frames = [] ∧ s.client.registry.capacity = n ∧
      s.client.registry.registration? (watchLimit + 1) = none ∧ Reach .none t ∧ t.frames = [] ∧
      t.client.registry.capacity = n ∧
      t.client.registry.registration? (watchLimit + 1) =
        some (.ofWatch t.client.pid .both false (watchLimit + 1)) ∧
      ∃ o exchanges e, Client.Serves Client.Attended (s.client.call o) exchanges t.client
          (.ok (.id (watchId (watchLimit + 1)))) ∧
        o.ending? (.id (watchId (watchLimit + 1))) =
          some (.unwatch (watchId (watchLimit + 1))) ∧
        t.client.call (.unwatch (watchId (watchLimit + 1))) =
          (t.client, .finished (.error e)) := by
  obtain ⟨s, filled⟩ := exists_filled (n := n) (k := watchLimit + 1) (by omega) (by omega)
    (Nat.le_refl _)
  have drafted : s.client.draft (.watch 0 .both false s.begun) =
      some (.ok (.ofWatch s.client.pid .both false)) := by
    simp [Client.draft, Client.owner, Except.map]
  have fresh : s.client.registry.has (watchId (watchLimit + 1)) .watch = false := by
    rw [Bool.eq_false_iff]
    intro known
    obtain ⟨i, reg, live, -, space⟩ := Registry.has_iff.mp known
    rw [filled.registration] at live
    split at live
    · obtain rfl := Option.some.inj live
      contradiction
    · contradiction
  obtain ⟨c₁, asks, -, enlisted, granted⟩ := filled.asks large rfl drafted fresh
  obtain ⟨t, runs, client, frames⟩ :=
    runs_of_granted (by simp [Operation.callback?]) rfl (by simp [waits, filled.idle]) asks granted
  have serves := Client.Serves.of_reply (R := Client.Attended) asks (.refl c₁) granted
  rw [← client] at enlisted serves
  have ends : (Operation.watch 0 .both false s.begun).ending? (.id (watchId (watchLimit + 1))) =
      some (.unwatch (watchId (watchLimit + 1))) := rfl
  obtain ⟨e, refused⟩ := enlisted.call_ending_of_large ends rfl (Nat.le_succ _)
  have vacant : s.client.registry.registration? (watchLimit + 1) = none := by
    rw [filled.registration, if_neg (Nat.lt_irrefl _)]
  have capacity : t.client.registry.capacity = n := by
    rw [enlisted.registry, Registry.entered, Registry.capacity_modify, filled.capacity]
  exact ⟨s, t, filled.reach, filled.idle, filled.capacity, vacant, filled.reach.next runs,
    frames.trans filled.idle, capacity, enlisted.pid ▸ enlisted.live.1, _, _, e, serves, ends,
    refused⟩

/-- The watch gets slot 2147483648 and the id -2147483647. Its end is refused, and it keeps the
slot. -/
theorem registered_after_unset :
    ∃ s t : Session, Reach .none s ∧ s.frames = [] ∧ s.client.registry.capacity = 2147483649 ∧
      ∃ o exchanges e, Client.Serves Client.Attended (s.client.call o) exchanges t.client
          (.ok (.id (-2147483647))) ∧
        o.ending? (.id (-2147483647)) = some (.unwatch (-2147483647)) ∧
        t.client.call (.unwatch (-2147483647)) = (t.client, .finished (.error e)) ∧
        s.client.registry.registration? 2147483648 = none ∧
        t.client.registry.Holds 2147483648 (-2147483647) .watch := by
  obtain ⟨s, t, reach, idle, capacity, vacant, -, -, -, live, o, exchanges, e, serves, ends,
    refused⟩ := exists_watch_without_end (n := 2147483649) (by decide)
  exact ⟨s, t, reach, idle, capacity, o, exchanges, e, serves, ends, refused, vacant, _, live, rfl,
    rfl⟩

end Filled

end Session
end AudioFocus
