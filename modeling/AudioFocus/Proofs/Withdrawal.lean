import AudioFocus.Proofs.Claims

/-!
Announcements and withdrawals. What the arbiter has accepted is either still live, and nobody has
withdrawn it, or was withdrawn exactly once — but for the registrations that were taken away in
place of others: by the rollback of a registration that had the same slot and id before, or by a
`finalize` that had found another owner's registration there. Those are neither.
-/
namespace AudioFocus

/-- The requests sent after that at a place, up to the next announcement of the same handle. -/
def since (requests : List Request) (place : Nat) : List Request :=
  match requests[place]? with
  | some r => (requests.drop (place + 1)).takeWhile (·.announces ≠ r.announces)
  | none => []

def withdrawals (requests : List Request) (place : Nat) : Nat :=
  (since requests place).countP fun y => some y = (requests[place]?).bind Request.undo

/-- Nobody has announced the same handle after a place. -/
def Latest (requests : List Request) (place : Nat) (r : Request) : Prop :=
  ∀ y ∈ requests.drop (place + 1), y.announces ≠ r.announces

section Requests

variable {requests : List Request} {place : Nat} {r z : Request}

theorem takeWhile_append_of_mem {α : Type} {p : α → Bool} {a : α} {l : List α} (member : a ∈ l)
    (stops : p a = false) (l' : List α) : (l ++ l').takeWhile p = l.takeWhile p := by
  induction l with
  | nil => contradiction
  | cons b l ih =>
    cases keeps : p b with
    | false => simp [keeps]
    | true =>
      have later : a ∈ l := by
        rcases List.mem_cons.mp member with rfl | later
        · cases stops.symm.trans keeps
        · exact later
      simp [keeps, ih later]

theorem since_eq (found : requests[place]? = some r) : since requests place =
    (requests.drop (place + 1)).takeWhile (·.announces ≠ r.announces) := by
  simp only [since, found]

theorem since_of_latest (found : requests[place]? = some r) (latest : Latest requests place r) :
    since requests place = requests.drop (place + 1) := by
  rw [since_eq found, ← List.append_nil (requests.drop (place + 1)),
    List.takeWhile_append_of_pos fun y member => by simpa using latest y member]
  rfl

theorem getElem?_append_of_some {α : Type} {l : List α} {a : α} (found : l[place]? = some a)
    (more : List α) : (l ++ more)[place]? = some a := by
  rw [List.getElem?_append_left (List.getElem?_eq_some_iff.mp found).1, found]

theorem mem_drop_of_lt {q : Nat} (found : requests[place]? = some r) (before : q < place) :
    r ∈ requests.drop (q + 1) := by
  apply List.mem_of_getElem? (i := place - (q + 1))
  rw [List.getElem?_drop, show q + 1 + (place - (q + 1)) = place by omega, found]

theorem drop_append_of_some (found : requests[place]? = some r) (more : List Request) :
    (requests ++ more).drop (place + 1) = requests.drop (place + 1) ++ more :=
  List.drop_append_of_le_length (List.getElem?_eq_some_iff.mp found).1

theorem since_append_of_not_latest (found : requests[place]? = some r)
    (older : ¬ Latest requests place r) (more : List Request) :
    since (requests ++ more) place = since requests place := by
  rw [since_eq (getElem?_append_of_some found more), since_eq found, drop_append_of_some found]
  obtain ⟨y, member, same⟩ : ∃ y ∈ requests.drop (place + 1), y.announces = r.announces := by
    simpa [Latest] using older
  exact takeWhile_append_of_mem member (by simpa using same) more

theorem since_append_of_latest (found : requests[place]? = some r)
    (latest : Latest requests place r) (more : List Request) : since (requests ++ more) place =
      since requests place ++ more.takeWhile (·.announces ≠ r.announces) := by
  rw [since_eq (getElem?_append_of_some found more), drop_append_of_some found,
    List.takeWhile_append_of_pos fun y member => by simpa using latest y member,
    since_of_latest found latest]

theorem withdrawals_append_of_ne {more : List Request} (found : requests[place]? = some r)
    (other : ∀ z ∈ more, some z ≠ r.undo) :
    withdrawals (requests ++ more) place = withdrawals requests place := by
  unfold withdrawals
  rw [getElem?_append_of_some found, found]
  by_cases latest : Latest requests place r
  · rw [since_append_of_latest found latest, List.countP_append, Nat.add_eq_left,
      List.countP_eq_zero]
    intro z member
    simpa using other z ((List.takeWhile_sublist _).subset member)
  · rw [since_append_of_not_latest found latest]

theorem withdrawals_append_of_not_latest (found : requests[place]? = some r)
    (older : ¬ Latest requests place r) (more : List Request) :
    withdrawals (requests ++ more) place = withdrawals requests place := by
  unfold withdrawals
  rw [getElem?_append_of_some found, found, since_append_of_not_latest found older]

theorem withdrawals_append_of_latest (found : requests[place]? = some r)
    (latest : Latest requests place r) (announced : r.announces ≠ none)
    (announces : z.announces = none) : withdrawals (requests ++ [z]) place =
      withdrawals requests place + if some z = r.undo then 1 else 0 := by
  unfold withdrawals
  rw [getElem?_append_of_some found, found, since_append_of_latest found latest]
  simp [List.countP_append, List.countP_cons, announces, announced.symm]

theorem withdraws_of_undo (undoes : some z = r.undo) : z.withdraws = r.announces := by
  cases r <;> simp [Request.undo] at undoes <;> subst undoes <;> rfl

theorem withdrawals_eq_zero (found : requests[place]? = some r)
    (kept : ∀ y ∈ since requests place, y.withdraws ≠ r.announces) :
    withdrawals requests place = 0 := by
  unfold withdrawals
  rw [found, List.countP_eq_zero]
  intro y member
  have undoes := mt withdraws_of_undo (kept y member)
  simpa using undoes

end Requests

namespace Session

def requests (book : List Exchange) : List Request := book.map (·.request)

structure Announcement (book : List Exchange) (p : Nat) (x : Exchange) : Prop where
  found : book[p]? = some x
  announces : x.request.announces ≠ none

/-- A registration that is over was withdrawn once, or it was lost, or it was refused. -/
def Settled (book : List Exchange) (lost : List Nat) (p : Nat) (x : Exchange) : Prop :=
  withdrawals (requests book) p = 1 ∧ x.op ∉ lost ∨
    withdrawals (requests book) p = 0 ∧ (x.op ∈ lost ∨
      x.op ∉ lost ∧ ∃ reply, x.reply = some reply ∧ reply ≠ .ok .done)

/-- The announcement at a place is that of an occupant, and nobody has withdrawn it while that is
unclaimed. -/
structure InForce (book : List Exchange) (lost : List Nat) (p : Nat) (x : Exchange)
    (o : Occupant) : Prop where
  found : book[p]? = some x
  tenant : o.tenant = some x.op
  request : x.request = o.reg.announcement
  latest : Latest (requests book) p x.request
  kept : o.closing = false → x.op ∉ lost ∧
    ∀ y ∈ (requests book).drop (p + 1), y.withdraws ≠ x.request.announces

/-- What the book tells of the registrations, live or over. -/
structure Recorded (occupants : Nat → Option Occupant) (book : List Exchange) (begun : Nat)
    (lost : List Nat) : Prop where
  numbered : ∀ p x, Announcement book p x → x.op < begun
  once : ∀ p q x y, Announcement book p x → Announcement book q y → x.op = y.op → p = q
  old : ∀ n ∈ lost, n < begun
  live : ∀ i o, occupants i = some o → ∃ p x, InForce book lost p x o
  settled : ∀ p x, Announcement book p x →
    (∀ i o, occupants i = some o → o.tenant = some x.op → o.closing = true) →
      Settled book lost p x

theorem requests_append (book more : List Exchange) :
    requests (book ++ more) = requests book ++ requests more := List.map_append

theorem found_requests {book : List Exchange} {p : Nat} {x : Exchange}
    (found : book[p]? = some x) : (requests book)[p]? = some x.request := by
  simp [requests, found]

section Entries

variable {book : List Exchange} {lost : List Nat} {p : Nat} {x : Exchange} {o : Occupant}

namespace InForce

theorem announcement (force : InForce book lost p x o) : Announcement book p x :=
  ⟨force.found, by simp [force.request]⟩

theorem handle (force : InForce book lost p x o) :
    x.request.announces = some (o.reg.space, o.reg.id) := by
  simp [force.request]

theorem undo (force : InForce book lost p x o) : x.request.undo = some o.reg.withdrawal := by
  simp [force.request]

/-- Of two announcements of one handle only the later one is in force. -/
theorem not_latest {q : Nat} {y : Exchange} (force : InForce book lost p x o)
    (other : Announcement book q y) (same : y.request.announces = x.request.announces)
    (apart : q ≠ p) : ¬ Latest (requests book) q y.request := by
  intro latest
  rcases Nat.lt_or_gt_of_ne apart with before | after
  · exact latest _ (mem_drop_of_lt (found_requests force.found) before) same.symm
  · exact force.latest _ (mem_drop_of_lt (found_requests other.found) after) same

end InForce

variable {sent : List Exchange}

theorem InForce.append (force : InForce book lost p x o)
    (announces : ∀ z ∈ sent, z.request.announces ≠ x.request.announces)
    (other : o.closing = false → ∀ z ∈ sent, z.request.withdraws ≠ x.request.announces) :
    InForce (book ++ sent) lost p x o where
  found := getElem?_append_of_some force.found sent
  tenant := force.tenant
  request := force.request
  latest y member := by
    rw [requests_append, drop_append_of_some (found_requests force.found),
      List.mem_append] at member
    rcases member with before | after
    · exact force.latest y before
    · obtain ⟨z, member, rfl⟩ := List.mem_map.mp after
      exact announces z member
  kept unclaimed := by
    obtain ⟨safe, kept⟩ := force.kept unclaimed
    refine ⟨safe, fun y member => ?_⟩
    rw [requests_append, drop_append_of_some (found_requests force.found),
      List.mem_append] at member
    rcases member with before | after
    · exact kept y before
    · obtain ⟨z, member, rfl⟩ := List.mem_map.mp after
      exact other unclaimed z member

theorem InForce.lose {more : List Nat} (force : InForce book lost p x o) (apart : x.op ∉ more) :
    InForce book (lost ++ more) p x o where
  found := force.found
  tenant := force.tenant
  request := force.request
  latest := force.latest
  kept unclaimed := by
    obtain ⟨safe, kept⟩ := force.kept unclaimed
    exact ⟨by simp [safe, apart], kept⟩

theorem InForce.claim (force : InForce book lost p x o) (lost' : List Nat) :
    InForce book lost' p x { o with closing := true } :=
  ⟨force.found, force.tenant, force.request, force.latest, by simp⟩

theorem announcement_append (known : Announcement (book ++ sent) p x) :
    Announcement book p x ∨ book.length ≤ p ∧ x ∈ sent := by
  by_cases inside : p < book.length
  · exact .inl ⟨by rw [← List.getElem?_append_left inside]; exact known.found, known.announces⟩
  · have found := known.found
    rw [List.getElem?_append_right (Nat.le_of_not_lt inside)] at found
    exact .inr ⟨Nat.le_of_not_lt inside, List.mem_of_getElem? found⟩

theorem announcement_of_append (announces : ∀ z ∈ sent, z.request.announces = none)
    (known : Announcement (book ++ sent) p x) : Announcement book p x := by
  rcases announcement_append known with before | ⟨-, member⟩
  · exact before
  · exact absurd (announces x member) known.announces

theorem requests_modify (place : Nat) (reply : Result Reply) :
    requests (book.modify place fun x => { x with reply := some reply }) = requests book := by
  apply List.ext_getElem?
  intro i
  simp only [requests, List.getElem?_map, List.getElem?_modify]
  cases book[i]? <;> simp
  split <;> rfl

theorem announcement_modify {place : Nat} {reply : Result Reply}
    (known : Announcement (book.modify place fun x => { x with reply := some reply }) p x) :
    ∃ x₀, Announcement book p x₀ ∧ x₀.op = x.op ∧ (p ≠ place → x₀ = x) := by
  obtain ⟨found, announces⟩ := known
  rw [List.getElem?_modify] at found
  obtain ⟨x₀, before, rfl⟩ := Option.map_eq_some_iff.mp found
  by_cases h : place = p
  · simp only [if_pos h] at announces ⊢
    exact ⟨x₀, ⟨before, announces⟩, rfl, fun other => absurd h.symm other⟩
  · simp only [if_neg h] at announces ⊢
    exact ⟨x₀, ⟨before, announces⟩, rfl, fun _ => rfl⟩

theorem InForce.answer (force : InForce book lost p x o) (place : Nat) (reply : Result Reply) :
    ∃ y, InForce (book.modify place fun x => { x with reply := some reply }) lost p y o := by
  obtain ⟨found, tenant, request, latest, kept⟩ := force
  rw [← requests_modify place reply] at latest kept
  by_cases h : place = p
  · exact ⟨{ x with reply := some reply }, by simp [h, found], tenant, request, latest, kept⟩
  · exact ⟨x, by simp [h, found], tenant, request, latest, kept⟩

theorem Settled.append_of_eq (settled : Settled book lost p x)
    (same : withdrawals (requests book ++ requests sent) p = withdrawals (requests book) p) :
    Settled (book ++ sent) lost p x := by
  unfold Settled
  rw [requests_append, same]
  exact settled

theorem Settled.append (settled : Settled book lost p x) (known : Announcement book p x)
    (other : ∀ z ∈ sent, some z.request ≠ x.request.undo) : Settled (book ++ sent) lost p x := by
  apply settled.append_of_eq
  apply withdrawals_append_of_ne (found_requests known.found)
  intro y member
  obtain ⟨z, inSent, rfl⟩ := List.mem_map.mp member
  exact other z inSent

theorem Settled.lose {more : List Nat} (settled : Settled book lost p x) (apart : x.op ∉ more) :
    Settled book (lost ++ more) p x := by
  simpa [Settled, apart] using settled

end Entries

namespace Recorded

variable {occupants : Nat → Option Occupant} {book : List Exchange} {begun : Nat}
  {lost : List Nat}

theorem handles_distinct (recorded : Recorded occupants book begun lost)
    (tenanted : Tenanted occupants begun) {i j : Nat} {o o' : Occupant}
    (found : occupants i = some o) (found' : occupants j = some o')
    (same : o.reg.space = o'.reg.space ∧ o.reg.id = o'.reg.id) : i = j := by
  obtain ⟨p, x, force⟩ := recorded.live i o found
  obtain ⟨q, y, force'⟩ := recorded.live j o' found'
  have equal : y.request.announces = x.request.announces := by
    rw [force.handle, force'.handle, same.1, same.2]
  by_cases h : q = p
  · subst h
    obtain rfl : x = y := Option.some.inj (force.found.symm.trans force'.found)
    exact tenanted.distinct i j o o' found found' (force.tenant.trans force'.tenant.symm)
  · exact absurd force'.latest (force.not_latest force'.announcement equal h)

theorem ask (recorded : Recorded occupants book begun lost) {z : Exchange}
    (announces : z.request.announces = none) (withdraws : z.request.withdraws = none) :
    Recorded occupants (book ++ [z]) begun lost where
  numbered p x known := recorded.numbered p x (announcement_of_append (by simpa) known)
  once p q x y known known' := recorded.once p q x y (announcement_of_append (by simpa) known)
    (announcement_of_append (by simpa) known')
  old := recorded.old
  live i o found := by
    obtain ⟨p, x, force⟩ := recorded.live i o found
    exact ⟨p, x, force.append (by simp [announces, force.handle])
      (by simp [withdraws, force.handle])⟩
  settled p x known idle := by
    have known := announcement_of_append (by simpa) known
    refine (recorded.settled p x known idle).append known ?_
    simp only [List.mem_singleton, forall_eq]
    intro undoes
    exact known.announces (by rw [← withdraws_of_undo undoes, withdraws])

theorem free (recorded : Recorded occupants book begun lost) {slot : Nat}
    (closing : (occupants slot).all (·.closing) = true) :
    Recorded (refill occupants slot none) book begun lost where
  numbered := recorded.numbered
  once := recorded.once
  old := recorded.old
  live i o found := by
    unfold refill at found
    split at found
    · contradiction
    · exact recorded.live i o found
  settled p x known idle := by
    refine recorded.settled p x known fun i o found tenant => ?_
    by_cases h : slot = i
    · simpa [h, found] using closing
    · exact idle i o (by rw [refill, if_neg h, found]) tenant

theorem settled_of_other {p q : Nat} {x y : Exchange} {o : Occupant} {sent : List Exchange}
    (force : InForce book lost p x o)
    (withdraws : ∀ z ∈ sent, z.request.withdraws = some (o.reg.space, o.reg.id))
    (known : Announcement book q y) (other : q ≠ p) (settled : Settled book lost q y) :
    Settled (book ++ sent) lost q y := by
  by_cases same : y.request.announces = x.request.announces
  · -- The handle has been announced again since, so what is sent now counts for that.
    exact settled.append_of_eq (withdrawals_append_of_not_latest (found_requests known.found)
      (force.not_latest known same other) _)
  · refine settled.append known fun z member undoes => same ?_
    rw [← withdraws_of_undo undoes, withdraws z member, force.handle]

theorem claim (recorded : Recorded occupants book begun lost) (tenanted : Tenanted occupants begun)
    {slot : Nat} {o : Occupant} (found : occupants slot = some o) {sent : List Exchange}
    {more : List Nat} (announces : ∀ z ∈ sent, z.request.announces = none)
    (withdraws : ∀ z ∈ sent, z.request.withdraws = some (o.reg.space, o.reg.id))
    (loses : ∀ n ∈ more, o.tenant = some n)
    (settles : ∀ p x, InForce book lost p x o → Settled (book ++ sent) (lost ++ more) p x) :
    Recorded (refill occupants slot (some { o with closing := true })) (book ++ sent) begun
      (lost ++ more) := by
  obtain ⟨p₀, x₀, force⟩ := recorded.live slot o found
  have apart {n : Nat} (other : n ≠ x₀.op) : n ∉ more := by
    intro member
    exact other (Option.some.inj ((loses n member).symm.trans force.tenant))
  constructor
  case numbered =>
    exact fun p x known => recorded.numbered p x (announcement_of_append announces known)
  case once =>
    exact fun p q x y known known' => recorded.once p q x y
      (announcement_of_append announces known) (announcement_of_append announces known')
  case old =>
    intro n member
    rcases List.mem_append.mp member with before | now
    · exact recorded.old n before
    · obtain ⟨m, tenant, old, -⟩ := tenanted.brought slot o found
      rwa [← Option.some.inj (tenant.symm.trans (loses n now))]
  case live =>
    intro i o' found'
    unfold refill at found'
    split at found'
    · obtain rfl := Option.some.inj found'
      refine ⟨p₀, x₀, (force.claim _).append (fun z member => ?_) (by simp)⟩
      simp [announces z member, force.handle]
    · rename_i other
      obtain ⟨p, x, force'⟩ := recorded.live i o' found'
      refine ⟨p, x, (force'.append (fun z member => ?_) ?_).lose ?_⟩
      · simp [announces z member, force'.handle]
      · intro _ z member same
        rw [withdraws z member, force'.handle, Option.some.injEq, Prod.mk.injEq] at same
        exact other (recorded.handles_distinct tenanted found found' same)
      · refine apart fun same => other (tenanted.distinct slot i o o' found found' ?_)
        rw [force.tenant, force'.tenant, same]
  case settled =>
    intro p x known idle
    have known := announcement_of_append announces known
    by_cases h : p = p₀
    · subst h
      obtain rfl : x₀ = x := Option.some.inj (force.found.symm.trans known.found)
      exact settles p x₀ force
    · have different : x.op ≠ x₀.op := fun same => h (recorded.once p p₀ x x₀ known
        force.announcement same)
      have before := recorded.settled p x known fun i o' found' tenant => by
        by_cases here : slot = i
        · subst here
          obtain rfl : o = o' := Option.some.inj (found.symm.trans found')
          exact absurd (Option.some.inj (tenant.symm.trans force.tenant)) different
        · exact idle i o' (by rw [refill, if_neg here, found']) tenant
      exact (settled_of_other force withdraws known h before).lose (apart different)

theorem withdrawals_of_inForce {p : Nat} {x : Exchange} {o : Occupant}
    (force : InForce book lost p x o) (unclaimed : o.closing = false) :
    withdrawals (requests book) p = 0 := by
  apply withdrawals_eq_zero (found_requests force.found)
  rw [since_of_latest (found_requests force.found) force.latest]
  exact (force.kept unclaimed).2

theorem withdraw (recorded : Recorded occupants book begun lost)
    (tenanted : Tenanted occupants begun) {slot : Nat} {o : Occupant}
    (found : occupants slot = some o) (unclaimed : o.closing = false) {z : Exchange}
    (announces : z.request.announces = none)
    (withdraws : z.request.withdraws = some (o.reg.space, o.reg.id)) :
    Recorded (refill occupants slot (some { o with closing := true })) (book ++ [z]) begun
      (lost ++ if z.request = o.reg.withdrawal then [] else o.tenant.toList) := by
  apply recorded.claim tenanted found (by simpa) (by simpa)
  · intro n member
    split at member
    · contradiction
    · simpa using member
  · intro p x force
    have safe := (force.kept unclaimed).1
    have count : withdrawals (requests (book ++ [z])) p =
        if z.request = o.reg.withdrawal then 1 else 0 := by
      rw [requests_append]
      refine (withdrawals_append_of_latest (found_requests force.found) force.latest
        force.announcement.announces announces).trans ?_
      rw [withdrawals_of_inForce force unclaimed, force.undo]
      simp
    unfold Settled
    rw [count]
    by_cases right : z.request = o.reg.withdrawal
    · simp [right, safe]
    · simp [right, force.tenant]

theorem refuse (recorded : Recorded occupants book begun lost) (tenanted : Tenanted occupants begun)
    {slot op : Nat} {o : Occupant} (found : occupants slot = some o) (unclaimed : o.closing = false)
    (refused : ∃ x ∈ book, x.op = op ∧ x.request.announces.isSome ∧
      ∃ reply, x.reply = some reply ∧ reply ≠ .ok .done) :
    Recorded (refill occupants slot (some { o with closing := true })) book begun
      (lost ++ if o.tenant = some op then [] else o.tenant.toList) := by
  rw [← List.append_nil book]
  apply recorded.claim tenanted found (by simp) (by simp)
  · intro n member
    split at member
    · contradiction
    · simpa using member
  · intro p x force
    have safe := (force.kept unclaimed).1
    rw [List.append_nil]
    refine .inr ⟨withdrawals_of_inForce force unclaimed, ?_⟩
    by_cases own : o.tenant = some op
    · obtain ⟨y, member, by_, announces, reply, replied, notDone⟩ := refused
      obtain ⟨q, there⟩ := List.getElem?_of_mem member
      have same : p = q := recorded.once p q x y force.announcement
        ⟨there, Option.isSome_iff_ne_none.mp announces⟩ (by
          rw [by_]
          exact Option.some.inj (force.tenant.symm.trans own))
      subst same
      obtain rfl : x = y := Option.some.inj (force.found.symm.trans there)
      exact .inr ⟨by simp [own, safe], reply, replied, notDone⟩
    · exact .inl (by rw [if_neg own, force.tenant]; simp)

theorem enter (recorded : Recorded occupants book begun lost) {slot : Nat} {reg : Registration}
    (vacant : occupants slot = none)
    (fresh : ∀ i o, occupants i = some o → ¬ (o.reg.id = reg.id ∧ o.reg.space = reg.space)) :
    Recorded (refill occupants slot (some {
        reg, closing := false, tenant := some begun
        binding := some ⟨reg.id, reg.space, begun⟩ }))
      (book ++ [{ op := begun, request := reg.announcement }]) (begun + 1) lost := by
  have older {p : Nat} {x : Exchange} (known : Announcement book p x) : x.op ≠ begun :=
    Nat.ne_of_lt (recorded.numbered p x known)
  constructor
  case numbered =>
    intro p x known
    rcases announcement_append known with before | ⟨-, new⟩
    · exact Nat.lt_succ_of_lt (recorded.numbered p x before)
    · obtain rfl := List.mem_singleton.mp new
      exact Nat.lt_succ_self begun
  case once =>
    intro p q x y known known' same
    have inside := (List.getElem?_eq_some_iff.mp known.found).1
    have inside' := (List.getElem?_eq_some_iff.mp known'.found).1
    rw [List.length_append, List.length_singleton] at inside inside'
    rcases announcement_append known with before | ⟨last, new⟩ <;>
      rcases announcement_append known' with before' | ⟨last', new'⟩
    · exact recorded.once p q x y before before' same
    · obtain rfl := List.mem_singleton.mp new'
      exact absurd same (older before)
    · obtain rfl := List.mem_singleton.mp new
      exact absurd same.symm (older before')
    · omega
  case old => exact fun n member => Nat.lt_succ_of_lt (recorded.old n member)
  case live =>
    intro i o found
    unfold refill at found
    split at found
    · obtain rfl := Option.some.inj found
      have nothing : (requests (book ++ [{ op := begun, request := reg.announcement }])).drop
          (book.length + 1) = [] := by simp [requests]
      exact ⟨book.length, ⟨begun, reg.announcement, none⟩, by simp, rfl, rfl,
        by simp [Latest, nothing], fun _ =>
          ⟨fun member => Nat.lt_irrefl _ (recorded.old begun member), by simp [nothing]⟩⟩
    · obtain ⟨p, x, force⟩ := recorded.live i o found
      refine ⟨p, x, force.append ?_ (by simp [force.handle])⟩
      simp only [List.mem_singleton, forall_eq, Registration.announces_announcement, force.handle]
      intro same
      obtain ⟨space, id⟩ := Prod.mk.inj (Option.some.inj same)
      exact fresh i o found ⟨id.symm, space.symm⟩
  case settled =>
    intro p x known idle
    rcases announcement_append known with before | ⟨-, new⟩
    · refine (recorded.settled p x before fun i o found tenant => ?_).append before ?_
      · refine idle i o ?_ tenant
        rw [refill, if_neg, found]
        rintro rfl
        cases vacant.symm.trans found
      · simp only [List.mem_singleton, forall_eq]
        intro undoes
        exact before.announces (by rw [← withdraws_of_undo undoes]; simp)
    · obtain rfl := List.mem_singleton.mp new
      have unclaimed := idle slot _ (if_pos rfl) rfl
      contradiction

theorem answer (recorded : Recorded occupants book begun lost) {place : Nat} {x : Exchange}
    (sent : book[place]? = some x) (waits : x.reply = none) (reply : Result Reply) :
    Recorded occupants (book.modify place fun x => { x with reply := some reply }) begun lost := by
  constructor
  case numbered =>
    intro p y known
    obtain ⟨y₀, before, op, -⟩ := announcement_modify known
    exact op ▸ recorded.numbered p y₀ before
  case once =>
    intro p q y z known known' same
    obtain ⟨y₀, before, op, -⟩ := announcement_modify known
    obtain ⟨z₀, before', op', -⟩ := announcement_modify known'
    exact recorded.once p q y₀ z₀ before before' (op.trans (same.trans op'.symm))
  case old => exact recorded.old
  case live =>
    intro i o found
    obtain ⟨p, y, force⟩ := recorded.live i o found
    obtain ⟨y', force'⟩ := force.answer place reply
    exact ⟨p, y', force'⟩
  case settled =>
    intro p y known idle
    obtain ⟨y₀, before, op, same⟩ := announcement_modify known
    have settled := recorded.settled p y₀ before (by rwa [op])
    unfold Settled at settled ⊢
    rw [requests_modify, ← op]
    rcases settled with once | ⟨never, lost | ⟨kept, reply', replied, notDone⟩⟩
    · exact .inl once
    · exact .inr ⟨never, .inl lost⟩
    · have other : p ≠ place := by
        rintro rfl
        obtain rfl : y₀ = x := Option.some.inj (before.found.symm.trans sent)
        cases waits.symm.trans replied
      exact .inr ⟨never, .inr ⟨kept, reply', same other ▸ replied, notDone⟩⟩

theorem succ (recorded : Recorded occupants book begun lost) :
    Recorded occupants book (begun + 1) lost :=
  { recorded with
    numbered := fun p x known => Nat.lt_succ_of_lt (recorded.numbered p x known)
    old := fun n member => Nat.lt_succ_of_lt (recorded.old n member) }

end Recorded

theorem refill_refill (occupants : Nat → Option Occupant) (slot : Nat) (o o' : Option Occupant) :
    refill (refill occupants slot o) slot o' = refill occupants slot o' := by
  funext i
  by_cases h : slot = i <;> simp [refill, h]

theorem Recorded.part {s t : Session} {op : Nat} {held : Option Nat} {lost more : List Nat}
    (recorded : Recorded s.occupant? s.book s.begun lost) (consistent : s.Consistent held)
    (part : s.Part op held more t) : Recorded t.occupant? t.book t.begun (lost ++ more) := by
  rw [part.begun]
  cases part with
  | quiet turns | stuck turns =>
    rw [turns.occupants, turns.book, List.append_nil, List.append_nil]
    exact recorded
  | asked turns announces withdraws =>
    rw [turns.occupants, turns.book, List.append_nil]
    exact recorded.ask announces withdraws
  | withdrew found unclaimed turns _ _ announces withdraws loss =>
    rw [turns.occupants, turns.book, loss]
    exact recorded.withdraw consistent.tenanted found unclaimed announces withdraws
  | @freed _ slot turns =>
    rw [turns.occupants, turns.book, List.append_nil, List.append_nil]
    apply recorded.free
    have closing := (consistent.claimed.closing slot).mpr (by simp)
    cases found : s.occupant? slot <;> simp_all
  | dropped found unclaimed turns refused loss =>
    rw [turns.occupants, turns.book, List.append_nil, loss, ← refill_refill]
    exact (recorded.refuse consistent.tenanted found unclaimed refused).free (by simp [refill])
  | seized found unclaimed turns refused loss =>
    rw [turns.occupants, turns.book, List.append_nil, loss]
    exact recorded.refuse consistent.tenanted found unclaimed refused

theorem recorded_of_reach {n : Nesting} {s : Session} (reach : Reach n s) :
    Recorded s.occupant? s.book s.begun s.lost := by
  apply reach.induct_parts (P := fun s _ lost => Recorded s.occupant? s.book s.begun lost)
  · intro s empty _ book
    have none_ : ∀ p x, ¬ Announcement s.book p x := fun p x known => by
      simpa [book] using known.found
    exact ⟨fun p x known => absurd known (none_ p x), fun p q x y known => absurd known (none_ p x),
      by simp, by simp [empty], fun p x known => absurd known (none_ p x)⟩
  · intro s lost recorded
    exact recorded.succ
  · intro s t slot reg lost consistent recorded entered
    obtain ⟨vacant, fresh, occupants, frames, book, begun⟩ := entered
    rw [occupants, book, begun]
    exact recorded.enter vacant fresh
  · intro s op place pending frames reply lost consistent recorded top
    obtain ⟨x, found, -, waits, -⟩ :=
      consistent.filed.sent op place pending (top ▸ List.mem_cons_self)
    exact recorded.answer found waits reply
  · intro s op held lost more t consistent recorded part
    exact recorded.part consistent part
  · intro s t lost recorded turns _
    rw [turns.occupants, turns.book, turns.begun, List.append_nil]
    exact recorded

/-- What an announcement has registered is live, and nobody has withdrawn its handle since. -/
def Registered (s : Session) (p : Nat) (x : Exchange) : Prop :=
  (∃ slot reg, s.client.registry.registration? slot = some reg ∧ s.tenants slot = some x.op ∧
    x.request = reg.announcement) ∧
  ∀ y ∈ since (requests s.book) p, y.withdraws ≠ x.request.announces

/-- An announcement was taken back once, with the same owner, id and session flag. -/
def Withdrawn (s : Session) (p : Nat) : Prop := withdrawals (requests s.book) p = 1

theorem unclaimed_of_idle {s : Session} (consistent : s.Consistent none)
    (idle : ∀ f ∈ s.frames, f.isCallback = true) {i : Nat} {o : Occupant}
    (found : s.occupant? i = some o) : o.closing = false := by
  have claims : s.frames.filterMap Frame.claim? = [] :=
    List.filterMap_eq_nil_iff.mpr fun f member => (none_of_isCallback (idle f member)).1
  simpa [claims, found] using consistent.claimed.closing i

/-- When no operation is under way, an announcement that the arbiter has accepted is in exactly one
of two situations, in force or withdrawn once, unless its registration was taken away in place of
another. -/
theorem registered_iff_not_withdrawn {s : Session} (reach : Reach .full s)
    (idle : ∀ f ∈ s.frames, f.isCallback = true) {p : Nat} {x : Exchange}
    (sent : s.book[p]? = some x) (announced : x.request.announces ≠ none)
    (accepted : x.reply = some (.ok .done)) :
    (s.Registered p x ↔ ¬ s.Withdrawn p) ↔ x.op ∉ s.lost := by
  have recorded := recorded_of_reach reach
  have consistent := consistent_of_reach reach
  by_cases live : ∃ i o, s.occupant? i = some o ∧ o.tenant = some x.op
  · obtain ⟨i, o, found, tenant⟩ := live
    have unclaimed := unclaimed_of_idle consistent idle found
    obtain ⟨q, y, force⟩ := recorded.live i o found
    have same : q = p := recorded.once q p y x force.announcement ⟨sent, announced⟩
      (Option.some.inj (force.tenant.symm.trans tenant))
    subst same
    obtain rfl : y = x := Option.some.inj (force.found.symm.trans sent)
    obtain ⟨safe, kept⟩ := force.kept unclaimed
    rw [← since_of_latest (found_requests force.found) force.latest] at kept
    have registered : s.Registered q y := by
      obtain ⟨reg, taken, rfl⟩ := Option.map_eq_some_iff.mp found
      exact ⟨⟨i, reg, taken, tenant, force.request⟩, kept⟩
    have never : ¬ s.Withdrawn q := by
      rw [Withdrawn, Recorded.withdrawals_of_inForce force unclaimed]
      exact Nat.zero_ne_one
    exact iff_of_true (iff_of_true registered never) safe
  · have gone : ¬ s.Registered p x := by
      rintro ⟨⟨i, reg, taken, tenant, -⟩, -⟩
      exact live ⟨i, _, occupant?_live taken, tenant⟩
    have settled := recorded.settled p x ⟨sent, announced⟩ fun i o found tenant =>
      absurd ⟨i, o, found, tenant⟩ live
    rcases settled with ⟨once, safe⟩ | ⟨never, lost | ⟨-, reply, replied, notDone⟩⟩
    · exact iff_of_true (iff_of_false gone (not_not_intro once)) safe
    · refine iff_of_false (fun same => ?_) (not_not_intro lost)
      exact gone (same.mpr (by rw [Withdrawn, never]; exact Nat.zero_ne_one))
    · exact absurd (Option.some.inj (replied.symm.trans accepted)) notDone

/-- While the arbiter serves operation 0, operation 1 ends its registration and operation 2 brings
another one with the same id; then the arbiter refuses operation 0. -/
theorem registered_iff_not_withdrawn_of_rollback :
    let s := played .full 2 [.call (.register 5 0 "media" false 0), .call (.unregister 5),
      .reply (.ok .done), .call (.register 5 0 "media" false 2), .reply (.ok .done),
      .reply (.error (.rejected 7))]
    let x : Exchange := ⟨2, .registerFocus 7 5 "media" false, some (.ok .done)⟩
    s.book[2]? = some x ∧ s.lost = [2] ∧ s.client.registry.live = [] ∧
      ¬ (s.Registered 2 x ↔ ¬ s.Withdrawn 2) := by
  intro s x
  have reach : Reach .full s := reach_played (by decide) (by decide +kernel)
  have sent : s.book[2]? = some x := rfl
  have lost : s.lost = [2] := by decide +kernel
  refine ⟨sent, lost, by decide +kernel, ?_⟩
  rw [registered_iff_not_withdrawn reach (by decide +kernel) sent (by decide) rfl, lost]
  decide

end Session
end AudioFocus
