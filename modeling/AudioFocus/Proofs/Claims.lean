import AudioFocus.Proofs.Occupancy

/-!
Claims. A registration that some operation has claimed is taken apart by that operation alone: the
operation waits meanwhile, and finds the registration in place when it goes on. So every move of a
session comes down to the parts of an operation, and what they all keep holds throughout.
-/
namespace AudioFocus
namespace Session

/-- What is claimed is claimed by one thing under way, which may be the operation that goes on just
now, and the handle that it has claimed is still there. -/
structure Claimed (occupants : Nat → Option Occupant) (held : Option Nat) (frames : List Frame) :
    Prop where
  closing : ∀ i, (occupants i).any (·.closing) = true ↔
    i ∈ held.toList ++ frames.filterMap Frame.claim?
  alone : (held.toList ++ frames.filterMap Frame.claim?).Nodup
  there : ∀ op place p, .asking op place p ∈ frames → ∀ slot reg, p.claim? = some (slot, reg) →
    ∃ o, occupants slot = some o ∧ o.reg.id = reg.id ∧ o.reg.space = reg.space

/-- Each operation that waits has its own request in the book, which has no reply yet. -/
structure Filed (frames : List Frame) (book : List Exchange) : Prop where
  sent : ∀ op place p, .asking op place p ∈ frames →
    ∃ x, book[place]? = some x ∧ x.op = op ∧ x.reply = none ∧
      ∀ slot reg, p = .registering slot reg → x.request = reg.announcement
  apart : (frames.filterMap Frame.place?).Nodup

/-- Every live registration has the callback that it brought, and no two were brought by one
operation. -/
structure Tenanted (occupants : Nat → Option Occupant) (begun : Nat) : Prop where
  brought : ∀ i o, occupants i = some o → ∃ n, o.tenant = some n ∧ n < begun ∧
    o.binding = some ⟨o.reg.id, o.reg.space, n⟩
  distinct : ∀ i j o o', occupants i = some o → occupants j = some o' → o.tenant = o'.tenant → i = j

/-- What holds of the slots and of what is under way; the operation that goes on just now may have
claimed a slot. -/
structure Consistent (s : Session) (held : Option Nat) : Prop where
  claimed : Claimed s.occupant? held s.frames
  filed : Filed s.frames s.book
  tenanted : Tenanted s.occupant? s.begun

namespace Claimed

variable {occupants : Nat → Option Occupant} {held : Option Nat} {f : Frame} {frames : List Frame}
  {slot : Nat}

theorem answer {op place : Nat} {p : Pending}
    (claimed : Claimed occupants none (.asking op place p :: frames)) :
    Claimed occupants (p.claim?.map Prod.fst) frames where
  closing i := by
    rw [claimed.closing]
    cases h : p.claim? <;> simp [Frame.claim?, h]
  alone := by
    have alone := claimed.alone
    cases h : p.claim? <;> simpa [Frame.claim?, h] using alone
  there op place p member := claimed.there op place p (List.mem_cons_of_mem _ member)

theorem cons_iff (claims : f.claim? = none) :
    Claimed occupants held (f :: frames) ↔ Claimed occupants held frames := by
  have same : (f :: frames).filterMap Frame.claim? = frames.filterMap Frame.claim? := by
    simp [claims]
  constructor
  · intro ⟨closing, alone, there⟩
    rw [same] at closing alone
    exact ⟨closing, alone, fun op place p member =>
      there op place p (List.mem_cons_of_mem _ member)⟩
  · intro ⟨closing, alone, there⟩
    rw [← same] at closing alone
    refine ⟨closing, alone, fun op place p member slot reg claim => ?_⟩
    rcases List.mem_cons.mp member with rfl | member
    · simp [Frame.claim?, claim] at claims
    · exact there op place p member slot reg claim

theorem pass (claimed : Claimed occupants (some slot) frames) (claims : f.claim? = some slot)
    (there : ∀ op place p reg, f = .asking op place p → p.claim? = some (slot, reg) →
      ∃ o, occupants slot = some o ∧ o.reg.id = reg.id ∧ o.reg.space = reg.space) :
    Claimed occupants none (f :: frames) := by
  have same : (none : Option Nat).toList ++ (f :: frames).filterMap Frame.claim? =
      (some slot).toList ++ frames.filterMap Frame.claim? := by simp [claims]
  refine ⟨by rw [same]; exact claimed.closing, by rw [same]; exact claimed.alone, ?_⟩
  intro op place p member slot' reg claim
  rcases List.mem_cons.mp member with rfl | member
  · obtain rfl : slot' = slot := by simpa [Frame.claim?, claim] using claims
    exact there op place p reg rfl claim
  · exact claimed.there op place p member slot' reg claim

theorem refill {o : Option Occupant} (claimed : Claimed occupants held frames)
    (own : held = none ∨ held = some slot) (apart : slot ∉ frames.filterMap Frame.claim?)
    (after : o.any (·.closing) = false) :
    Claimed (refill occupants slot o) none frames := by
  refine ⟨fun i => ?_, ?_, fun op place p member i reg claim => ?_⟩
  · unfold Session.refill
    by_cases h : slot = i
    · subst h
      simpa [after] using apart
    · rw [if_neg h, claimed.closing]
      rcases own with rfl | rfl
      · rfl
      · simp [Ne.symm h]
  · exact (List.nodup_append.mp claimed.alone).2.1
  · have other : slot ≠ i := by
      rintro rfl
      exact apart (List.mem_filterMap.mpr ⟨_, member, by simp [Frame.claim?, claim]⟩)
    unfold Session.refill
    rw [if_neg other]
    exact claimed.there op place p member i reg claim

theorem not_mem_of_unclaimed (claimed : Claimed occupants none frames)
    (unclaimed : (occupants slot).any (·.closing) = false) :
    slot ∉ frames.filterMap Frame.claim? := by
  intro member
  have closing := (claimed.closing slot).mpr (by simpa using member)
  cases unclaimed.symm.trans closing

theorem not_mem_of_held (claimed : Claimed occupants (some slot) frames) :
    slot ∉ frames.filterMap Frame.claim? := by
  have alone := claimed.alone
  simp only [Option.toList_some, List.singleton_append, List.nodup_cons] at alone
  exact alone.1

theorem claim {o : Occupant} (claimed : Claimed occupants none frames)
    (found : occupants slot = some o) (unclaimed : o.closing = false) :
    Claimed (Session.refill occupants slot (some { o with closing := true })) (some slot)
      frames := by
  have apart := claimed.not_mem_of_unclaimed
    (show (occupants slot).any (·.closing) = false by simp [found, unclaimed])
  refine ⟨fun i => ?_, ?_, fun op place p member i reg claim => ?_⟩
  · unfold Session.refill
    by_cases h : slot = i
    · simp [h]
    · rw [if_neg h, claimed.closing]
      simp [Ne.symm h]
  · simpa using ⟨by simpa using apart, by simpa using claimed.alone⟩
  · obtain ⟨other, there, same⟩ := claimed.there op place p member i reg claim
    unfold Session.refill
    by_cases h : slot = i
    · subst h
      obtain rfl : o = other := Option.some.inj (found.symm.trans there)
      exact ⟨_, if_pos rfl, same⟩
    · exact ⟨other, by rw [if_neg h, there], same⟩

end Claimed

namespace Filed

variable {f : Frame} {frames : List Frame} {book : List Exchange} {op place : Nat} {p : Pending}

theorem cons (filed : Filed frames book) (waits : f.place? = none) : Filed (f :: frames) book where
  sent op place p member := by
    rcases List.mem_cons.mp member with rfl | member
    · contradiction
    · exact filed.sent op place p member
  apart := by
    rw [List.filterMap_cons_none waits]
    exact filed.apart

theorem tail (filed : Filed (f :: frames) book) : Filed frames book where
  sent op place p member := filed.sent op place p (List.mem_cons_of_mem _ member)
  apart := by
    have apart := filed.apart
    cases h : f.place? with
    | none => rwa [List.filterMap_cons_none h] at apart
    | some place =>
      rw [List.filterMap_cons_some h] at apart
      exact (List.nodup_cons.mp apart).2

theorem filterMap_place? :
    (Frame.asking op place p :: frames).filterMap Frame.place? =
      place :: frames.filterMap Frame.place? := rfl

theorem ask (filed : Filed frames book) (request : Request)
    (announces : ∀ slot reg, p = .registering slot reg → request = reg.announcement) :
    Filed (.asking op book.length p :: frames) (book ++ [{ op := op, request := request }]) where
  sent op' place p' member := by
    rcases List.mem_cons.mp member with same | member
    · obtain ⟨rfl, rfl, rfl⟩ := Frame.asking.inj same
      exact ⟨{ op := op', request }, by simp, rfl, rfl, announces⟩
    · obtain ⟨x, found, known⟩ := filed.sent op' place p' member
      have inside := (List.getElem?_eq_some_iff.mp found).1
      exact ⟨x, by rw [List.getElem?_append_left inside, found], known⟩
  apart := by
    rw [filterMap_place?, List.nodup_cons]
    refine ⟨fun member => ?_, filed.apart⟩
    obtain ⟨f, member, place⟩ := List.mem_filterMap.mp member
    cases f with
    | asking op' place' p' =>
      obtain ⟨x, found, -⟩ := filed.sent op' place' p' member
      obtain rfl := Option.some.inj place
      simp at found
    | callback => contradiction
    | blocked => contradiction

theorem answer (filed : Filed (.asking op place p :: frames) book) (reply : Option (Result Reply)) :
    Filed frames (book.modify place fun x => { x with reply }) where
  sent op' place' p' member := by
    obtain ⟨x, found, known⟩ := filed.tail.sent op' place' p' member
    have apart := filed.apart
    rw [filterMap_place?, List.nodup_cons] at apart
    have other : place ≠ place' := by
      rintro rfl
      exact apart.1 (List.mem_filterMap.mpr ⟨_, member, rfl⟩)
    exact ⟨x, by simp [found, other], known⟩
  apart := filed.tail.apart

end Filed

section Replies

variable {s : Session} {op place : Nat} {pending : Pending} {frames : List Frame}

theorem holds_of_claimed {slot : Nat} {reg : Registration} {held : Option Nat}
    (claimed : Claimed s.occupant? held s.frames) (member : .asking op place pending ∈ s.frames)
    (claims : pending.claim? = some (slot, reg)) :
    s.client.registry.Holds slot reg.id reg.space := by
  obtain ⟨o, found, same⟩ := claimed.there op place pending member slot reg claims
  obtain ⟨current, live, rfl⟩ := Option.map_eq_some_iff.mp found
  exact ⟨current, live, same⟩

theorem isClosing_of_not_mem {slot : Nat} {reg : Registration} {held : Option Nat}
    (claimed : Claimed s.occupant? held s.frames)
    (apart : slot ∉ held.toList ++ s.frames.filterMap Frame.claim?)
    (live : s.client.registry.registration? slot = some reg) :
    s.client.registry.isClosing slot = false := by
  rw [← claimed.closing, occupant?_live live] at apart
  simpa using apart

theorem parts_reply (consistent : s.Consistent none)
    (top : s.frames = .asking op place pending :: frames) (reply : Result Reply) :
    (s.answered op place pending frames reply).Parts op (pending.claim?.map Prod.fst)
      (s.losses op pending reply)
      ((s.answered op place pending frames reply).advance op (s.client.resume pending reply)) := by
  have member : .asking op place pending ∈ s.frames := by simp [top]
  cases pending with
  | query q => exact .one (.quiet (turns_finished (occupant?_of_alike _ (.refl _))))
  | registering slot reg =>
    obtain ⟨x, found, by_, -, announced⟩ := consistent.filed.sent op place _ member
    refine .one (part_announced fun notDone => ⟨{ x with reply := some reply }, ?_, by_, ?_, reply,
      rfl, notDone⟩)
    · exact List.mem_of_getElem? (i := place) (by simp [answered, found])
    · simp [announced slot reg rfl]
  | undoing slot reg cause =>
    have held := holds_of_claimed consistent.claimed member rfl
    exact .one (part_undoing (s := s.answered op place _ frames reply) cause held)
  | tearingDown slot reg guarded rest =>
    have held := holds_of_claimed consistent.claimed member rfl
    cases rest with
    | none =>
      exact .one (part_endTeardown (s := s.answered op place _ frames reply) guarded held _)
    | some rest =>
      exact parts_endTeardown (s := s.answered op place _ frames reply) guarded held rest
  | reportingExit signal => exact .one (.quiet (turns_finished (occupant?_of_alike _ (.refl _))))
  | notifyingExit => exact .one (.quiet (turns_finished (occupant?_of_alike _ (.refl _))))

theorem Consistent.answered (consistent : s.Consistent none)
    (top : s.frames = .asking op place pending :: frames) (reply : Result Reply) :
    (s.answered op place pending frames reply).Consistent (pending.claim?.map Prod.fst) := by
  obtain ⟨claimed, filed, tenanted⟩ := consistent
  rw [top] at claimed filed
  exact ⟨claimed.answer, filed.answer (some reply), tenanted⟩

end Replies

/-- An occupant is the one that was there before, or it was claimed meanwhile. -/
structure Stays (o o' : Occupant) : Prop where
  reg : o'.reg = o.reg
  tenant : o'.tenant = o.tenant
  binding : o'.binding = o.binding
  closing : o.closing = true → o'.closing = true

protected theorem Stays.trans {o o' o'' : Occupant} (earlier : Stays o o') (later : Stays o' o'') :
    Stays o o'' where
  reg := later.reg.trans earlier.reg
  tenant := later.tenant.trans earlier.tenant
  binding := later.binding.trans earlier.binding
  closing := later.closing ∘ earlier.closing

section Stays

variable {s t : Session} {op : Nat} {held : Option Nat} {lost : List Nat} {i : Nat} {o' : Occupant}

theorem stays_of_refill {occupants : Nat → Option Occupant} {slot : Nat} {o : Occupant}
    (found : occupants slot = some o)
    (there : refill occupants slot (some { o with closing := true }) i = some o') :
    ∃ o, occupants i = some o ∧ Stays o o' := by
  unfold refill at there
  split at there
  · rename_i same
    exact ⟨o, same ▸ found, Option.some.inj there ▸ ⟨rfl, rfl, rfl, fun _ => rfl⟩⟩
  · exact ⟨o', there, rfl, rfl, rfl, id⟩

theorem stays_of_refill_none {occupants : Nat → Option Occupant} {slot : Nat}
    (there : refill occupants slot none i = some o') : ∃ o, occupants i = some o ∧ Stays o o' := by
  unfold refill at there
  split at there
  · contradiction
  · exact ⟨o', there, rfl, rfl, rfl, id⟩

theorem Part.stays (part : s.Part op held lost t) (there : t.occupant? i = some o') :
    ∃ o, s.occupant? i = some o ∧ Stays o o' := by
  cases part with
  | quiet turns | asked turns | stuck turns =>
    rw [turns.occupants] at there
    exact ⟨o', there, rfl, rfl, rfl, id⟩
  | withdrew found _ turns | seized found _ turns =>
    rw [turns.occupants] at there
    exact stays_of_refill found there
  | freed turns | dropped _ _ turns =>
    rw [turns.occupants] at there
    exact stays_of_refill_none there

theorem Part.begun (part : s.Part op held lost t) : t.begun = s.begun := by
  cases part with
  | quiet turns | asked turns | freed turns | stuck turns => exact turns.begun
  | withdrew _ _ turns | dropped _ _ turns | seized _ _ turns => exact turns.begun

end Stays

namespace Tenanted

variable {occupants later : Nat → Option Occupant} {begun : Nat}

theorem of_stays (tenanted : Tenanted occupants begun)
    (stays : ∀ i o', later i = some o' → ∃ o, occupants i = some o ∧ Stays o o') :
    Tenanted later begun where
  brought i o' found := by
    obtain ⟨o, before, same⟩ := stays i o' found
    rw [same.tenant, same.binding, same.reg]
    exact tenanted.brought i o before
  distinct i j o₁ o₂ found found' equal := by
    obtain ⟨o, before, same⟩ := stays i o₁ found
    obtain ⟨o', before', same'⟩ := stays j o₂ found'
    rw [same.tenant, same'.tenant] at equal
    exact tenanted.distinct i j o o' before before' equal

theorem succ (tenanted : Tenanted occupants begun) : Tenanted occupants (begun + 1) where
  brought i o found := by
    obtain ⟨n, tenant, old, binding⟩ := tenanted.brought i o found
    exact ⟨n, tenant, Nat.lt_succ_of_lt old, binding⟩
  distinct := tenanted.distinct

theorem enter (tenanted : Tenanted occupants begun) (slot : Nat) (reg : Registration) :
    Tenanted (refill occupants slot (some {
      reg, closing := false, tenant := some begun
      binding := some ⟨reg.id, reg.space, begun⟩ })) (begun + 1) := by
  have older {i : Nat} {o : Occupant} (found : occupants i = some o) : o.tenant ≠ some begun := by
    obtain ⟨n, tenant, old, -⟩ := tenanted.brought i o found
    rw [tenant]
    exact fun same => Nat.ne_of_lt old (Option.some.inj same)
  constructor
  · intro i o found
    unfold refill at found
    split at found
    · obtain rfl := Option.some.inj found
      exact ⟨begun, rfl, Nat.lt_succ_self _, rfl⟩
    · exact tenanted.succ.brought i o found
  · intro i j o o' found found' equal
    unfold refill at found found'
    split at found <;> split at found'
    · rename_i here here'
      exact here.symm.trans here'
    · obtain rfl := Option.some.inj found
      exact absurd equal.symm (older found')
    · obtain rfl := Option.some.inj found'
      exact absurd equal (older found)
    · exact tenanted.distinct i j o o' found found' equal

end Tenanted

section Parts

variable {s t : Session} {op : Nat} {held : Option Nat} {lost : List Nat}

theorem Claimed.part (claimed : Claimed s.occupant? held s.frames) (part : s.Part op held lost t) :
    Claimed t.occupant? none t.frames := by
  cases part with
  | quiet turns =>
    rw [turns.occupants, turns.frames]
    exact claimed
  | asked turns _ _ claims =>
    rw [turns.occupants, turns.frames, Claimed.cons_iff (by simp [Frame.claim?, claims])]
    exact claimed
  | @withdrew _ slot o reg request pending _ found unclaimed turns claims same =>
    rw [turns.occupants, turns.frames]
    refine (claimed.claim found unclaimed).pass (by simp [Frame.claim?, claims]) ?_
    intro op' place p reg' asks claims'
    obtain ⟨-, -, rfl⟩ := Frame.asking.inj asks
    obtain rfl : reg' = reg := by simpa [claims'] using claims
    exact ⟨{ o with closing := true }, if_pos rfl, same⟩
  | freed turns =>
    rw [turns.occupants, turns.frames]
    exact claimed.refill (.inr rfl) claimed.not_mem_of_held rfl
  | stuck turns =>
    rw [turns.occupants, turns.frames]
    exact claimed.pass rfl (by simp)
  | dropped found unclaimed turns =>
    rw [turns.occupants, turns.frames]
    exact claimed.refill (.inl rfl) (claimed.not_mem_of_unclaimed (by simp [found, unclaimed])) rfl
  | seized found unclaimed turns =>
    rw [turns.occupants, turns.frames]
    exact (claimed.claim found unclaimed).pass rfl (by simp)

theorem Filed.part (filed : Filed s.frames s.book) (part : s.Part op held lost t) :
    Filed t.frames t.book := by
  cases part with
  | quiet turns | freed turns =>
    rw [turns.frames, turns.book, List.append_nil]
    exact filed
  | dropped _ _ turns =>
    rw [turns.frames, turns.book, List.append_nil]
    exact filed
  | asked turns _ _ _ registers =>
    rw [turns.frames, turns.book]
    exact filed.ask _ fun slot reg same => absurd same (registers slot reg)
  | withdrew _ _ turns claims =>
    rw [turns.frames, turns.book]
    refine filed.ask _ fun slot reg same => ?_
    rw [same] at claims
    contradiction
  | stuck turns =>
    rw [turns.frames, turns.book, List.append_nil]
    exact filed.cons rfl
  | seized _ _ turns =>
    rw [turns.frames, turns.book, List.append_nil]
    exact filed.cons rfl

namespace Consistent

theorem part (consistent : s.Consistent held) (part : s.Part op held lost t) :
    t.Consistent none where
  claimed := consistent.claimed.part part
  filed := consistent.filed.part part
  tenanted := by
    rw [part.begun]
    exact consistent.tenanted.of_stays fun i o' there => part.stays there

theorem numbered (consistent : s.Consistent none) : s.numbered.Consistent none :=
  ⟨consistent.claimed, consistent.filed, consistent.tenanted.succ⟩

theorem entered {slot : Nat} {reg : Registration} (consistent : s.Consistent none)
    (entered : s.numbered.Entered s.begun t slot reg) : t.Consistent none := by
  obtain ⟨claimed, filed, tenanted⟩ := consistent
  obtain ⟨vacant, -, occupants, frames, book, begun⟩ := entered
  refine ⟨?_, ?_, ?_⟩
  · rw [occupants, frames, Claimed.cons_iff rfl]
    exact claimed.refill (.inl rfl)
      (claimed.not_mem_of_unclaimed (by rw [show s.occupant? slot = none from vacant]; rfl)) rfl
  · rw [frames, book]
    refine filed.ask _ fun slot' reg' same => ?_
    obtain ⟨-, rfl⟩ := Pending.registering.inj same
    rfl
  · rw [occupants, begun]
    exact tenanted.enter slot reg

end Consistent

end Parts

inductive Moved (s t : Session) : Prop
  | began (part : s.numbered.Part s.begun none [] t) (lost : t.lost = s.lost)
  | entered {slot : Nat} {reg : Registration} (entered : s.numbered.Entered s.begun t slot reg)
      (lost : t.lost = s.lost)
  | went {op place : Nat} {pending : Pending} {frames : List Frame} (reply : Result Reply)
      (top : s.frames = .asking op place pending :: frames)
      (parts : (s.answered op place pending frames reply).Parts op (pending.claim?.map Prod.fst)
        (s.losses op pending reply) t)
      (lost : t.lost = s.lost ++ s.losses op pending reply)
  /-- A callback starts or returns, or nothing at all. -/
  | aside (turns : s.Turns t s.occupant? t.frames []) (lost : t.lost = s.lost)
      (frames : t.frames = s.frames ∨ ∃ f, f.isCallback = true ∧
        (t.frames = f :: s.frames ∨ s.frames = f :: t.frames))

theorem none_of_isCallback {f : Frame} (callback : f.isCallback = true) :
    f.claim? = none ∧ f.place? = none := by
  cases f with
  | callback => exact ⟨rfl, rfl⟩
  | asking => contradiction
  | blocked => contradiction

theorem lost_advance (s : Session) (op : Nat) (r : Client Nat × Progress) :
    (s.advance op r).lost = s.lost := by
  obtain ⟨c, p⟩ := r
  cases p <;> rfl

theorem Moved.of_happened {s t : Session} {m : Move} (consistent : s.Consistent none)
    (happened : s.Happened m t) : s.Moved t := by
  cases happened with
  | called o named =>
    rcases part_call (s := s.numbered) named with part | ⟨slot, reg, entered⟩
    · exact .began part (lost_advance ..)
    · exact .entered entered (lost_advance ..)
  | raised signal => exact .began (part_raise signal) (lost_advance ..)
  | replied reply top => exact .went reply top (parts_reply consistent top reply) (lost_advance ..)
  | started _ _ _ guarded =>
    refine .aside ⟨funext fun i => ?_, rfl, by simp, rfl⟩ rfl (.inr ⟨_, rfl, .inl rfl⟩)
    simp [occupant?, guarded]
  | @returned slot callback key e frames top =>
    refine .aside ⟨funext fun i => ?_, rfl, by simp, rfl⟩ rfl (.inr ⟨_, rfl, .inr top⟩)
    simp [occupant?, Client.finish, Dispatcher.finish, Client.withDispatcher]
  | took _ _ _ _ registry | aside registry =>
    refine .aside ⟨funext fun i => ?_, rfl, by simp, rfl⟩ rfl (.inl rfl)
    simp [occupant?, registry]

theorem Consistent.moved {s t : Session} (consistent : s.Consistent none) (moved : s.Moved t) :
    t.Consistent none := by
  cases moved with
  | began part => exact consistent.numbered.part part
  | entered entered => exact consistent.entered entered
  | went reply top parts =>
    have answered := consistent.answered top reply
    cases parts with
    | one part => exact answered.part part
    | two first second => exact (answered.part first).part second
  | aside turns _ frames =>
    obtain ⟨claimed, filed, tenanted⟩ := consistent
    obtain ⟨occupants, -, book, begun⟩ := turns
    rw [List.append_nil] at book
    refine ⟨?_, ?_, by rwa [occupants, begun]⟩ <;>
      rcases frames with same | ⟨f, callback, more | less⟩
    · rwa [occupants, same]
    · rwa [occupants, more, Claimed.cons_iff (none_of_isCallback callback).1]
    · rw [less, Claimed.cons_iff (none_of_isCallback callback).1] at claimed
      rwa [occupants]
    · rwa [book, same]
    · rw [book, more]
      exact filed.cons (none_of_isCallback callback).2
    · rw [less] at filed
      rw [book]
      exact filed.tail

section Stays

variable {s t : Session} {op : Nat} {held : Option Nat} {lost : List Nat} {i : Nat} {o' : Occupant}

theorem Moved.stays (moved : s.Moved t) : ∃ arrival : Option Nat, ∀ i o', t.occupant? i = some o' →
    (∃ o, s.occupant? i = some o ∧ Stays o o') ∨
      arrival = some i ∧ s.occupant? i = none ∧ o'.tenant = some s.begun ∧
        o'.binding = some ⟨o'.reg.id, o'.reg.space, s.begun⟩ ∧ t.begun = s.begun + 1 := by
  cases moved with
  | began part => exact ⟨none, fun i o' there => .inl (part.stays there)⟩
  | @entered slot reg entered =>
    obtain ⟨vacant, -, occupants, -, -, begun⟩ := entered
    refine ⟨some slot, fun i o' there => ?_⟩
    rw [occupants] at there
    unfold refill at there
    split at there
    · rename_i same
      obtain rfl := Option.some.inj there
      exact .inr ⟨congrArg some same, same ▸ vacant, rfl, rfl, begun⟩
    · exact .inl ⟨o', there, rfl, rfl, rfl, id⟩
  | went reply top parts =>
    refine ⟨none, fun i o' there => .inl ?_⟩
    cases parts with
    | one part => exact part.stays there
    | two first second =>
      obtain ⟨o, between, later⟩ := second.stays there
      obtain ⟨o₀, before, earlier⟩ := first.stays between
      exact ⟨o₀, before, earlier.trans later⟩
  | aside turns =>
    refine ⟨none, fun i o' there => .inl ?_⟩
    rw [turns.occupants] at there
    exact ⟨o', there, rfl, rfl, rfl, id⟩

theorem Moved.begun_le (moved : s.Moved t) : s.begun ≤ t.begun := by
  cases moved with
  | began part => exact part.begun ▸ Nat.le_succ _
  | entered entered => exact entered.turns.begun ▸ Nat.le_succ _
  | went reply top parts =>
    cases parts with
    | one part => exact Nat.le_of_eq part.begun.symm
    | two first second => exact Nat.le_of_eq (second.begun.trans first.begun).symm
  | aside turns => exact Nat.le_of_eq turns.begun.symm

end Stays

theorem consistent_new {client : Client Nat} {capacity : Nat}
    (registry : client.registry = .ofCapacity capacity) :
    ({ client } : Session).Consistent none where
  claimed := ⟨by simp [occupant?, registry], by simp, by simp⟩
  filed := ⟨by simp, by simp⟩
  tenanted := ⟨by simp [occupant?, registry], by simp [occupant?, registry]⟩

theorem consistent_of_reach {n : Nesting} {s : Session} (reach : Reach n s) :
    s.Consistent none := by
  apply reach.induct
  · intro config pid channels signals faults client created _
    exact consistent_new (Client.create_eq_ok created).2.1
  · intro s m t _ consistent _ moved
    exact consistent.moved (.of_happened consistent (step_happened moved))

end Session

/-- What a new client has, every part of an operation keeps, and nothing else can upset, holds
throughout. Of the operation in hand it is told which slot that has claimed, and which
registrations were lost before. -/
theorem Reach.induct_parts {P : Session → Option Nat → List Nat → Prop} {n : Nesting} {s : Session}
    (reach : Reach n s)
    (new : ∀ s : Session, (∀ i, s.occupant? i = none) → s.frames = [] → s.book = [] → P s none [])
    (numbered : ∀ s lost, P s none lost → P s.numbered none lost)
    (entered : ∀ s t slot reg lost, s.Consistent none → P s none lost →
      s.numbered.Entered s.begun t slot reg → P t none lost)
    (answered : ∀ s op place pending frames reply lost, s.Consistent none → P s none lost →
      s.frames = .asking op place pending :: frames →
      P (s.answered op place pending frames reply) (pending.claim?.map Prod.fst) lost)
    (part : ∀ s op held lost more t, s.Consistent held → P s held lost →
      s.Part op held more t → P t none (lost ++ more))
    (aside : ∀ s t lost, P s none lost → s.Turns t s.occupant? t.frames [] →
      (∀ f ∈ t.frames, f ∈ s.frames ∨ f.isCallback = true) → P t none lost) :
    P s none s.lost := by
  suffices both : s.Consistent none ∧ P s none s.lost from both.2
  apply reach.induct
  · intro config pid channels signals faults client created unused
    obtain ⟨-, registry, -⟩ := Client.create_eq_ok created
    refine ⟨Session.consistent_new registry, new _ (fun i => ?_) rfl rfl⟩
    simp [Session.occupant?, registry]
  · rintro s m t - ⟨consistent, kept⟩ - moved
    have moved := Session.Moved.of_happened consistent (Session.step_happened moved)
    refine ⟨consistent.moved moved, ?_⟩
    cases moved with
    | began now lost =>
      rw [lost, ← List.append_nil s.lost]
      exact part _ _ _ _ _ _ consistent.numbered (numbered _ _ kept) now
    | entered now lost =>
      rw [lost]
      exact entered _ _ _ _ _ consistent kept now
    | went reply top parts lost =>
      have before := answered _ _ _ _ _ reply _ consistent kept top
      rw [lost]
      cases parts with
      | one now => exact part _ _ _ _ _ _ (consistent.answered top reply) before now
      | two first second =>
        -- The slot is free before the next registration is claimed.
        have between := part _ _ _ _ _ _ (consistent.answered top reply) before first
        rw [List.append_nil] at between
        exact part _ _ _ _ _ _ ((consistent.answered top reply).part first) between second
    | aside turns lost frames =>
      rw [lost]
      refine aside _ _ _ kept turns fun f member => ?_
      rcases frames with same | ⟨g, callback, more | less⟩
      · exact .inl (same ▸ member)
      · rw [more, List.mem_cons] at member
        rcases member with rfl | member
        · exact .inr callback
        · exact .inl member
      · exact .inl (by simp [less, member])

end AudioFocus
