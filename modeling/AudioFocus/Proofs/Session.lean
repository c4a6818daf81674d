import AudioFocus.Client.Call
import AudioFocus.Proofs.Channels

/-!
Runs of a client with all that it cannot foresee: which operations are called and when, what the
arbiter replies, what callbacks do while they run, which system calls fail, what others do to the
channels. A session keeps what is under way on a stack, and what a run has shown so far: each
request with its reply, and which operation each live registration comes from.

Threads do not appear. Whichever thread an operation runs on, it does the same to the client; a
wait for a guard that a running callback holds ends in vain on all of them. The loop is a party of
its own: it takes an event and finds its handle in one move, and goes on with it in another, for
which it may have to wait while others move. Who stops the loop waits until it has nothing in hand;
who stops it from another thread while a callback runs appears when that has returned.
-/
namespace AudioFocus

/-- The callback that an operation brings. -/
def Operation.callback? {κ : Type} : Operation κ → Option κ
  | .register _ _ _ _ callback => some callback
  | .watch _ _ _ callback => some callback
  | _ => none

/-- A request that was sent, by which operation, and the reply once there is one. -/
structure Exchange where
  op : Nat
  request : Request
  reply : Option (Result Reply) := none

inductive Frame
  /-- An operation waits for the reply to the request at a place of the book. -/
  | asking (op place : Nat) (pending : Pending)
  /-- A callback runs for an event. -/
  | callback (slot : Nat) (key : ChannelKey) (e : Event) (callback : Nat)
  /-- An operation waits for a guard that nobody will let go of. -/
  | blocked (op slot : Nat)

def Frame.isCallback : Frame → Bool
  | callback .. => true
  | _ => false

/-- Of a callback: its slot, channel and event, and whose it is. -/
def Frame.callback? : Frame → Option (Nat × ChannelKey × Event × Nat)
  | callback slot key e n => some (slot, key, e, n)
  | _ => none

def Frame.op? : Frame → Option Nat
  | asking op .. | blocked op _ => some op
  | callback .. => none

/-- A client whose callbacks are named by the numbers of the operations that bring them. -/
structure Session where
  client : Client Nat
  /-- The innermost first. -/
  frames : List Frame := []
  /-- Operations that have begun. The next one gets this number. -/
  begun : Nat := 0
  /-- The requests in the order in which they were sent. -/
  book : List Exchange := []
  /-- The operation that each taken slot was filled by. -/
  tenants : Nat → Option Nat := fun _ => none
  /-- Registrations that were taken away in place of others. -/
  lost : List Nat := []
  /-- The event that the loop has in hand: it has found the handle, and has not got the guard. -/
  errand : Option Errand := none

inductive Move
  /-- An operation is called: by the application, by a callback, by what an arbiter does first. -/
  | call (o : Operation Nat)
  /-- The arbiter replies to the innermost operation. -/
  | reply (r : Result Reply)
  | raise (signal : FatalSignal)
  /-- The loop waits for an event, and finds the handle that it names. -/
  | take
  /-- The loop gets the guard, and goes on with the event that it has in hand. -/
  | enter
  /-- The innermost callback returns, or panics. -/
  | returns
  /-- From now on these system calls fail. -/
  | inject (faults : Faults)
  /-- The arbiter sends an event in memory. -/
  | push (key : ChannelKey) (e : Event)
  /-- The arbiter takes an acknowledgement in memory. -/
  | takeAck
  /-- Others change files and FIFOs. -/
  | files (fs : FileSystem)

namespace Session

/-- Who has each slot after an operation. One who has a slot keeps it as long as it is taken. -/
def tenantsAfter (s : Session) (op : Nat) (r : Registry Nat) : Nat → Option Nat := fun slot =>
  if (r.registration? slot).isNone then none
  else if (s.client.registry.registration? slot).isSome then s.tenants slot
  else some op

/-- Goes on after a part of an operation: its request, if there is one, is entered in the book. -/
def advance (s : Session) (op : Nat) (r : Client Nat × Progress) : Session :=
  let s := { s with client := r.1, tenants := s.tenantsAfter op r.1.registry }
  match r.2 with
  | .finished _ => s
  | .asking request pending => { s with
      frames := .asking op s.book.length pending :: s.frames
      book := s.book ++ [{ op, request }] }
  | .stuck slot => { s with frames := .blocked op slot :: s.frames }

/-- The registration that the next of several teardowns takes away in place of the one that it was
to take away: another owner has the handle by now. -/
def mistaken (r : Registry Nat) (tenants : Nat → Option Nat) (rest : List (Nat × Registration)) :
    List Nat :=
  match rest.find? fun e => (r.claim? e.1 e.2.id e.2.space).isSome with
  | some (slot, reg) =>
    if (r.registration? slot).any (·.withdrawal ≠ reg.withdrawal) then (tenants slot).toList else []
  | none => []

/-- Registrations that an operation takes away in place of others when it goes on after a reply. A
registration that was refused is taken back from whoever has its slot and id by now; a `finalize`
withdraws the handles that it has found, whoever owns them by now. -/
def losses (s : Session) (op : Nat) : Pending → Result Reply → List Nat
  | .registering _ _, .ok .done => []
  | .registering slot reg, _ =>
    if (s.client.registry.claim? slot reg.id reg.space).isSome ∧ s.tenants slot ≠ some op then
      (s.tenants slot).toList
    else []
  | .tearingDown slot reg guarded (some rest), _ =>
    mistaken (s.client.endTeardown slot reg guarded).registry s.tenants rest
  | _, _ => []

/-- The arbiter has replied to the innermost operation, which has not gone on yet. -/
def answered (s : Session) (op place : Nat) (pending : Pending) (frames : List Frame)
    (reply : Result Reply) : Session :=
  { s with
    frames
    book := s.book.modify place fun x => { x with reply := some reply }
    lost := s.lost ++ s.losses op pending reply }

/-- An operation has got its number, and has done nothing yet. -/
def numbered (s : Session) : Session := { s with begun := s.begun + 1 }

/-- What happens next, if it can. A loop that meets a guard which is held waits with its event in
hand. -/
def step (s : Session) : Move → Option Session
  | .call o =>
    if o.callback?.all (· = s.begun) && !(o.stops && s.errand.isSome) then
      some (s.numbered.advance s.begun (s.client.call o))
    else none
  | .raise signal => some (s.numbered.advance s.begun (s.client.raise signal))
  | .reply reply =>
    match s.frames with
    | .asking op place pending :: frames =>
      some ((s.answered op place pending frames reply).advance op (s.client.resume pending reply))
    | _ => none
  | .take =>
    if s.client.running && s.errand.isNone then
      match s.client.nextEvent with
      | (none, d) => some { s with client := s.client.withDispatcher d }
      | (some (key, e), d) =>
        some { s with client := s.client.withDispatcher d, errand := d.address? key e }
    else none
  | .enter =>
    match s.errand with
    | none => none
    | some x =>
      match s.client.enter x with
      | (.waiting _, _) => none
      | (.running slot callback, c) => some { s with
          client := c
          frames := .callback slot x.key x.event callback :: s.frames
          errand := none }
      | (_, c) => some { s with client := c, errand := none }
  | .returns =>
    match s.frames with
    | .callback slot key e _ :: frames =>
      some { s with client := s.client.finish slot key e.handle, frames }
    | _ => none
  | .inject faults => some { s with client := { s.client with faults } }
  | .push key e =>
    match s.client.channels with
    | .memory m =>
      match m.push key e with
      | .ok m => some { s with client := { s.client with channels := .memory m } }
      | .error _ => none
    | .fifo .. => none
  | .takeAck =>
    match s.client.channels with
    | .memory m => some { s with client := { s.client with channels := .memory m.receiveAck.2 } }
    | .fifo .. => none
  | .files fs =>
    match s.client.channels with
    | .memory _ => none
    | .fifo c _ =>
      if fs.Sound then some { s with client := { s.client with channels := .fifo c fs } } else none

/-- Whether the innermost thing under way is an operation that waits. -/
def waits (s : Session) : Bool :=
  match s.frames with
  | .asking .. :: _ | .blocked .. :: _ => true
  | _ => false

end Session

def Move.begins : Move → Bool
  | .call _ | .raise _ | .take | .enter => true
  | _ => false

/-- What an arbiter lets happen while it serves a request. -/
inductive Nesting
  /-- Nothing of the client begins before the reply. -/
  | none
  /-- Anything may: operations, signals, deliveries, each with all that they lead to. -/
  | full

def Nesting.Allows : Nesting → Session → Move → Prop
  | none, s, m => m.begins = true → s.waits = false
  | full, _, _ => True

instance : (n : Nesting) → (s : Session) → (m : Move) → Decidable (n.Allows s m)
  | .none, s, m => inferInstanceAs (Decidable (m.begins = true → s.waits = false))
  | .full, _, _ => isTrue trivial

inductive Runs (n : Nesting) (s : Session) : Session → Prop
  | refl : Runs n s s
  | step {t u : Session} (m : Move) : Runs n s t → n.Allows t m → t.step m = some u → Runs n s u

/-- The states that a new client can come to. -/
def Reach (n : Nesting) (s : Session) : Prop :=
  ∃ config pid channels signals faults client,
    Client.create config pid channels signals faults = .ok client ∧ channels.Unused ∧
      Runs n { client } s

/-- What every new client has, and every move keeps, holds throughout. -/
theorem Reach.induct {n : Nesting} {P : Session → Prop} {s : Session} (reach : Reach n s)
    (new : ∀ config pid channels signals faults client,
      Client.create config pid channels signals faults = .ok client → channels.Unused →
        P { client })
    (next : ∀ s m t, Reach n s → P s → n.Allows s m → s.step m = some t → P t) : P s := by
  obtain ⟨config, pid, channels, signals, faults, client, created, unused, runs⟩ := reach
  induction runs with
  | refl => exact new config pid channels signals faults client created unused
  | step m before allowed moved ih =>
    exact next _ m _ ⟨config, pid, channels, signals, faults, client, created, unused, before⟩ ih
      allowed moved

protected theorem Runs.trans {n : Nesting} {s t u : Session} (first : Runs n s t)
    (second : Runs n t u) : Runs n s u := by
  induction second with
  | refl => exact first
  | step m _ allowed moved ih => exact ih.step m allowed moved

theorem Reach.next {n : Nesting} {s t : Session} (reach : Reach n s) (runs : Runs n s t) :
    Reach n t := by
  obtain ⟨config, pid, channels, signals, faults, client, created, unused, before⟩ := reach
  exact ⟨config, pid, channels, signals, faults, client, created, unused, before.trans runs⟩

def Session.play (n : Nesting) (s : Session) (moves : List Move) : Option Session :=
  moves.foldlM (fun s m => if n.Allows s m then s.step m else .none) s

theorem Runs.of_play {n : Nesting} {s t u : Session} {moves : List Move} (before : Runs n s t)
    (played : t.play n moves = some u) : Runs n s u := by
  induction moves generalizing t with
  | nil => exact Option.some.inj played ▸ before
  | cons m moves ih =>
    obtain ⟨v, moved, rest⟩ := Option.bind_eq_some_iff.mp played
    dsimp only at moved
    split at moved
    · rename_i allowed
      exact ih (before.step m allowed moved) rest
    · contradiction

/-- A new client of process 7, with memory channels and no crash guard. -/
def Session.fresh (capacity : Nat) : Session where
  client := {
    registry := .ofCapacity capacity, channels := .memory {}, pid := 7
    signals := .uniform .ignored
    config := { maxHandles := capacity, installCrashGuard := false } }

/-- What several moves make of a new client, if they can all happen. -/
def Session.played (n : Nesting) (capacity : Nat) (moves : List Move) : Session :=
  ((fresh capacity).play n moves).getD (fresh capacity)

namespace Session

variable {n : Nesting} {capacity : Nat} {moves more : List Move}

theorem play_append (s : Session) :
    s.play n (moves ++ more) = (s.play n moves).bind (·.play n more) :=
  List.foldlM_append

theorem play_played (possible : ((fresh capacity).play n (moves ++ more)).isSome) :
    (played n capacity moves).play n more = some (played n capacity (moves ++ more)) := by
  obtain ⟨t, all⟩ := Option.isSome_iff_exists.mp possible
  have split := all
  rw [play_append] at split
  obtain ⟨s, first, rest⟩ := Option.bind_eq_some_iff.mp split
  rw [played, first, played, all]
  exact rest

theorem runs_played (possible : ((fresh capacity).play n (moves ++ more)).isSome) :
    Runs n (played n capacity moves) (played n capacity (moves ++ more)) :=
  Runs.refl.of_play (play_played possible)

theorem reach_played (some_ : capacity ≠ 0) (possible : ((fresh capacity).play n moves).isSome) :
    Reach n (played n capacity moves) := by
  have new : Client.create { maxHandles := capacity, installCrashGuard := false } 7 (.memory {})
      (.uniform .ignored) {} = .ok (fresh capacity).client := by
    simp only [Client.create, some_, if_false]
    rfl
  obtain ⟨s, played_⟩ := Option.isSome_iff_exists.mp possible
  refine ⟨_, _, _, _, _, _, new, rfl, ?_⟩
  rw [played, played_]
  exact Runs.refl.of_play played_

theorem step_played {m : Move} (possible : ((fresh capacity).play n (moves ++ [m])).isSome) :
    (played n capacity moves).step m = some (played n capacity (moves ++ [m])) := by
  have one := play_played possible
  simp only [play, List.foldlM_cons, List.foldlM_nil, bind_pure] at one
  split at one
  · exact one
  · contradiction

end Session

end AudioFocus
