import AudioFocus.Proofs.Origins
import AudioFocus.Proofs.Serving
import AudioFocus.Proofs.Signals

/-!
Fatal signals that arrive while a client is used. Each is reported once, if something is owned when
it arrives for the first time, and then it is raised again, and does what it did before the client
was there. What carries it is an invariant of the client and its past: the guard has exactly those
signals that have not been raised yet, and it is there until the first `finalize` returns.
-/
namespace AudioFocus

/-- The signal whose report is waited for. -/
def Frame.report? : Frame → Option FatalSignal
  | asking _ _ p => p.report?
  | _ => none

/-- Whether it is a `finalize` that waits. -/
def Frame.finalizes : Frame → Bool
  | asking _ _ p => p.finalizes
  | _ => false

def Move.finalizes : Move → Bool
  | call .finalize => true
  | _ => false

namespace Session

/-- The signal that is being reported. -/
def report? (s : Session) : Option FatalSignal := s.frames.head?.bind Frame.report?

/-- How many `finalize`s are under way. -/
def finalizing (s : Session) : Nat := s.frames.countP Frame.finalizes

/-- A `finalize` has returned: fewer are under way than were called. -/
def Finalized (moves : List Move) (s : Session) : Prop :=
  s.finalizing < moves.countP Move.finalizes

/-- Why a signal that arrives now is reported: it is there for the first time, the guard still is,
and the process owns something. -/
structure Owed (pid : Int32) (moves : List Move) (s : Session) (signal : FatalSignal) : Prop where
  first : .raise signal ∉ moves
  unfinalized : ¬ Finalized moves s
  owns : ∃ slot reg, s.client.registry.registration? slot = some reg ∧ reg.owner = pid

end Session

/-- What moves make of a new client, the last move first, if they can happen. Signals may arrive at
any time, but nothing begins while one of them is being reported. -/
def Client.course (client : Client Nat) : List Move → Option Session
  | [] => some { client }
  | m :: moves => do
    let s ← client.course moves
    if m.begins ∧ s.report?.isSome then none else s.step m

/-- A client after some requests of which the trace tells. -/
def Client.told {κ : Type} (c : Client κ) (requests : List Request) : Client κ :=
  c.withDispatcher { c.toDispatcher with trace := c.trace ++ requests.map .request }

theorem Pending.report?_of_finalizes {p : Pending} (finalizes : p.finalizes = true) :
    p.report? = none := by
  cases p with
  | reportingExit => contradiction
  | _ => rfl

namespace Session

variable {pid : Int32} {before : FatalSignal → Disposition} {moves : List Move} {s t : Session}
  {m : Move} {signal : FatalSignal}

/-- None of these is a report. -/
def Quiet (frames : List Frame) : Prop := ∀ f ∈ frames, f.report? = none

/-- What waits beneath something else is not a report. -/
def Shielded (s : Session) : Prop := Quiet s.frames.tail

section Frames

theorem report?_of_quiet (quiet : Quiet s.frames) : s.report? = none := by
  unfold report?
  cases frames : s.frames with
  | nil => rfl
  | cons f rest => exact quiet f (by simp [frames])

theorem Shielded.of_quiet (quiet : Quiet s.frames) : s.Shielded :=
  fun f member => quiet f (List.mem_of_mem_tail member)

theorem Shielded.quiet (shielded : s.Shielded) (clear : s.report? = none) : Quiet s.frames := by
  unfold Shielded at shielded
  unfold report? at clear
  cases frames : s.frames with
  | nil => simp [Quiet]
  | cons f rest =>
    rw [frames] at shielded clear
    exact List.forall_mem_cons.mpr ⟨clear, shielded⟩

theorem finalizing_eq {frames : List Frame} (same : s.frames = frames) :
    s.finalizing = frames.countP Frame.finalizes := congrArg _ same

end Frames

/-- What a move does about the guard. -/
inductive Turn (s : Session) (m : Move) (t : Session) : Prop
  | steady (steady : s.client.Steady t.client) (unraised : ∀ x, m ≠ .raise x)
      (report : t.report? = s.report?) (shielded : t.Shielded)
      (count : t.finalizing = s.finalizing + if m.finalizes then 1 else 0)
  /-- A `finalize` returns. -/
  | ended {c : Client Nat} (steady : s.client.Steady c) (removed : t.client = c.removeGuard)
      (unraised : ∀ x, m ≠ .raise x) (clear : s.report? = none) (quiet : Quiet t.frames)
      (count : t.finalizing + 1 = s.finalizing + if m.finalizes then 1 else 0)
  | unhandled (signal : FatalSignal) (raised : m = .raise signal)
      (other : s.client.signals.current signal ≠ .handler)
      (client : t.client = s.client.meet signal) (frames : t.frames = s.frames)
  /-- There is nothing to report. -/
  | restored (signal : FatalSignal) (raised : m = .raise signal)
      (handled : s.client.signals.current signal = .handler) (clear : s.report? = none)
      (client : t.client = (s.client.meet signal).reraise signal) (frames : t.frames = s.frames)
  | reporting (signal : FatalSignal) (raised : m = .raise signal)
      (handled : s.client.signals.current signal = .handler) (clear : s.report? = none)
      (steady : s.client.Steady t.client)
      (frames : ∃ op place, t.frames = .asking op place (.reportingExit signal) :: s.frames)
  | reported (signal : FatalSignal) (unraised : ∀ x, m ≠ .raise x) (plain : m.finalizes = false)
      (clear : s.report? = some signal) (client : t.client = s.client.reraise signal)
      (frames : ∃ op place, s.frames = .asking op place (.reportingExit signal) :: t.frames)

section Turn

theorem turn_of_quiet (steady : s.client.Steady t.client) (unraised : ∀ x, m ≠ .raise x)
    (clear : s.report? = none) (quiet : Quiet t.frames)
    (count : t.finalizing = s.finalizing + if m.finalizes then 1 else 0) : s.Turn m t :=
  .steady steady unraised ((report?_of_quiet quiet).trans clear.symm) (.of_quiet quiet) count

/-- A part of an operation that neither reports nor finalizes, with these frames under it. -/
theorem turn_of_apart {u : Session} {op : Nat} {result : Client Nat × Progress}
    (apart : s.client.Apart result) (unraised : ∀ x, m ≠ .raise x) (clear : s.report? = none)
    (quiet : Quiet u.frames) (count : u.finalizing = s.finalizing + if m.finalizes then 1 else 0) :
    s.Turn m (u.advance op result) := by
  obtain ⟨steady, asks⟩ := apart
  have steady' : s.client.Steady (u.advance op result).client := by
    rw [client_advance]
    exact steady
  obtain ⟨c, progress⟩ := result
  cases progress with
  | finished => exact turn_of_quiet steady' unraised clear quiet count
  | stuck slot =>
    exact turn_of_quiet steady' unraised clear (List.forall_mem_cons.mpr ⟨rfl, quiet⟩) count
  | asking request p =>
    obtain ⟨silent, other⟩ := asks request p rfl
    refine turn_of_quiet steady' unraised clear (List.forall_mem_cons.mpr ⟨silent, quiet⟩) ?_
    have more := List.countP_cons_of_neg (p := Frame.finalizes) (l := u.frames)
      (a := .asking op u.book.length p) (by simp [Frame.finalizes, other])
    exact more.trans count

/-- A part of a `finalize`. Its own frame, if it had one, is not counted any more. -/
theorem turn_of_finalizing {u : Session} {op : Nat} {result : Client Nat × Progress}
    (finalizing : s.client.Finalizing result) (unraised : ∀ x, m ≠ .raise x)
    (clear : s.report? = none) (quiet : Quiet u.frames)
    (count : u.finalizing + 1 = s.finalizing + if m.finalizes then 1 else 0) :
    s.Turn m (u.advance op result) := by
  cases finalizing with
  | @goesOn c steady request p finalizes =>
    have silent := Pending.report?_of_finalizes finalizes
    refine turn_of_quiet steady unraised clear (List.forall_mem_cons.mpr ⟨silent, quiet⟩) ?_
    have more := List.countP_cons_of_pos (p := Frame.finalizes) (l := u.frames)
      (a := .asking op u.book.length p) finalizes
    exact more.trans count
  | ends steady => exact .ended steady rfl unraised clear quiet count

theorem turn_of_call {o : Operation Nat} (clear : s.report? = none) (quiet : Quiet s.frames) :
    s.Turn (.call o) (s.numbered.advance s.begun (s.client.call o)) := by
  have unraised : ∀ x, Move.call o ≠ .raise x := by simp
  by_cases final : o = .finalize
  · subst final
    exact turn_of_finalizing (Client.finalizing_call _) unraised clear quiet rfl
  · have plain : (Move.call o).finalizes = false := by
      cases o with
      | finalize => contradiction
      | _ => rfl
    have quiet' : Quiet s.numbered.frames := quiet
    apply turn_of_apart (Client.apart_call final) unraised clear quiet'
    rw [plain]
    rfl

theorem turn_of_raise (signal : FatalSignal) (clear : s.report? = none) :
    s.Turn (.raise signal) (s.numbered.advance s.begun (s.client.raise signal)) := by
  unfold Client.raise
  split
  · rename_i handled
    split
    · exact .restored signal rfl handled clear rfl rfl
    · exact .reporting signal rfl handled clear ⟨rfl, rfl, rfl, rfl⟩ ⟨_, _, rfl⟩
  · rename_i other
    exact .unhandled signal rfl other rfl rfl

theorem turn_of_reply {op place : Nat} {pending : Pending} {frames : List Frame}
    (reply : Result Reply) (top : s.frames = .asking op place pending :: frames)
    (shielded : s.Shielded) : s.Turn (.reply reply)
      ((s.answered op place pending frames reply).advance op (s.client.resume pending reply)) := by
  have unraised : ∀ x, Move.reply reply ≠ .raise x := by simp
  have report : s.report? = pending.report? := by
    rw [report?, top]
    rfl
  have quiet : Quiet frames := by
    rw [Shielded, top] at shielded
    exact shielded
  have counted := finalizing_eq top
  rw [List.countP_cons] at counted
  cases silent : pending.report? with
  | some signal =>
    cases pending with
    | reportingExit signal' =>
      obtain rfl := Option.some.inj silent
      exact .reported signal' unraised rfl report rfl ⟨op, place, top⟩
    | _ => contradiction
  | none =>
    cases finalizes : pending.finalizes with
    | true =>
      rw [show Frame.finalizes (.asking op place pending) = true from finalizes] at counted
      exact turn_of_finalizing (Client.finalizing_resume finalizes reply) unraised
        (report.trans silent) quiet counted.symm
    | false =>
      rw [show Frame.finalizes (.asking op place pending) = false from finalizes] at counted
      exact turn_of_apart (Client.apart_resume silent finalizes reply) unraised
        (report.trans silent) quiet counted.symm

theorem turn_of_loop (loops : m = .take ∨ m = .enter) (moved : s.step m = some t)
    (clear : s.report? = none) (quiet : Quiet s.frames) : s.Turn m t := by
  have unraised : ∀ x, m ≠ .raise x := by rcases loops with rfl | rfl <;> simp
  have plain : m.finalizes = false := by rcases loops with rfl | rfl <;> rfl
  obtain ⟨d, same⟩ := dispatcher_of_loop loops moved
  have happened := step_happened moved
  have busy : t.client.registry.busy = s.client.registry.busy := by
    cases happened with
    | started _ _ _ guarded => exact (congrArg Registry.busy guarded :)
    | took _ _ _ _ kept | aside kept => exact congrArg Registry.busy kept
    | called | raised | replied | returned => simp at loops
  have steady : s.client.Steady t.client := by
    rw [same] at busy ⊢
    exact Client.steady_withDispatcher busy
  cases happened with
  | started =>
    exact turn_of_quiet steady unraised clear (List.forall_mem_cons.mpr ⟨rfl, quiet⟩) rfl
  | took | aside => exact turn_of_quiet steady unraised clear quiet (by rw [plain]; rfl)
  | called | raised | replied | returned => simp at loops

theorem turn_of_returns (moved : s.step .returns = some t) (shielded : s.Shielded) :
    s.Turn .returns t := by
  simp only [step] at moved
  split at moved
  · rename_i slot key e callback frames top
    obtain rfl := Option.some.inj moved
    have clear : s.report? = none := by
      rw [report?, top]
      rfl
    have quiet : Quiet frames := by
      rw [Shielded, top] at shielded
      exact shielded
    apply turn_of_quiet _ (by simp) clear quiet
    · exact (finalizing_eq top).symm
    · apply Client.steady_withDispatcher
      rw [Dispatcher.finish, Dispatcher.sendAck_registry]
      rfl
  · contradiction

theorem turn_of_outside (outside : m.outside = true) (moved : s.step m = some t)
    (shielded : s.Shielded) : s.Turn m t := by
  obtain ⟨beside, frames, -⟩ := beside_of_step outside moved
  have steady : s.client.Steady t.client :=
    ⟨beside.signals, beside.guarding, beside.pid, congrArg Registry.busy beside.registry⟩
  refine .steady steady ?_ ?_ ?_ ?_
  · rintro x rfl
    contradiction
  · rw [report?, frames]
    rfl
  · rw [Shielded, frames]
    exact shielded
  · rw [finalizing_eq frames]
    cases m with
    | call => contradiction
    | _ => rfl

/-- Every move does one of these things, where nothing begins while a signal is reported. -/
theorem turn_of_step (moved : s.step m = some t) (clear : m.begins = true → s.report? = none)
    (shielded : s.Shielded) : s.Turn m t := by
  cases m with
  | call o =>
    simp only [step] at moved
    split at moved
    · obtain rfl := Option.some.inj moved
      exact turn_of_call (clear rfl) (shielded.quiet (clear rfl))
    · contradiction
  | raise signal =>
    obtain rfl := Option.some.inj moved
    exact turn_of_raise signal (clear rfl)
  | reply reply =>
    simp only [step] at moved
    split at moved
    · rename_i op place pending frames top
      obtain rfl := Option.some.inj moved
      exact turn_of_reply reply top shielded
    · contradiction
  | take => exact turn_of_loop (.inl rfl) moved (clear rfl) (shielded.quiet (clear rfl))
  | enter => exact turn_of_loop (.inr rfl) moved (clear rfl) (shielded.quiet (clear rfl))
  | returns => exact turn_of_returns moved shielded
  | inject | push | takeAck | files => exact turn_of_outside rfl moved shielded

end Turn

/-- The guard still has a signal: it has not arrived yet, or is being reported. -/
def Awaited (moves : List Move) (s : Session) (signal : FatalSignal) : Prop :=
  s.client.guarding = true ∧ (.raise signal ∉ moves ∨ s.report? = some signal)

/-- A client in its course, with a guard that has found the signals like this. -/
structure Warded (pid : Int32) (before : FatalSignal → Disposition) (moves : List Move)
    (s : Session) : Prop where
  pid : s.client.pid = pid
  idle : s.client.registry.busy = false
  shielded : s.Shielded
  reported : ∀ x, s.report? = some x → .raise x ∈ moves ∧ s.client.guarding = true
  guarded : s.client.guarding = true → s.client.signals.Guarded before
  awaited : ∀ x, Awaited moves s x → s.client.signals.current x = .handler
  others : ∀ x, ¬ Awaited moves s x → s.client.signals.current x = before x
  called : s.finalizing ≤ moves.countP Move.finalizes
  installed : s.client.guarding = true ↔ s.finalizing = moves.countP Move.finalizes

section Warded

variable {client : Client Nat} {config : Config} {channels : Channels} {signals : Signals}
  {faults : Faults}

theorem warded_new
    (created : Client.create config pid channels signals faults = .ok client)
    (installed : config.installCrashGuard = true) : Warded pid signals.current [] { client } := by
  obtain ⟨guarding, same, guard⟩ := Client.create_guard created
  rw [installed] at guarding
  rw [if_pos installed] at guard
  obtain ⟨-, made⟩ := Signals.install_eq_ok guard
  obtain ⟨-, registry, -⟩ := Client.create_eq_ok created
  have idle : client.registry.busy = false := by
    rw [registry]
    rfl
  have guarded : client.signals.Guarded signals.current := by
    rw [made]
    exact ⟨rfl, rfl⟩
  refine ⟨same, idle, by simp [Shielded, Quiet], by simp [report?], fun _ => guarded, ?_, ?_,
    Nat.le_refl _, iff_of_true guarding rfl⟩
  · intro x _
    change client.signals.current x = .handler
    rw [made]
  · intro x early
    exact absurd ⟨guarding, .inl List.not_mem_nil⟩ early

/-- A move that leaves the guard as it is, which has the same signals after it. -/
theorem Warded.kept (warded : Warded pid before moves s) (steady : s.client.Steady t.client)
    (shielded : t.Shielded)
    (same : ∀ x, Awaited (m :: moves) t x ↔ Awaited moves s x)
    (reported : ∀ x, t.report? = some x → .raise x ∈ m :: moves ∧ s.client.guarding = true)
    (count : t.finalizing = s.finalizing + if m.finalizes then 1 else 0) :
    Warded pid before (m :: moves) t where
  pid := steady.pid.trans warded.pid
  idle := steady.busy.trans warded.idle
  shielded := shielded
  reported := by
    rw [steady.guarding]
    exact reported
  guarded := by
    rw [steady.guarding, steady.signals]
    exact warded.guarded
  awaited x := by
    rw [same, steady.signals]
    exact warded.awaited x
  others x := by
    rw [same, steady.signals]
    exact warded.others x
  called := by
    have called := warded.called
    rw [List.countP_cons, count]
    omega
  installed := by
    rw [List.countP_cons, count, steady.guarding, warded.installed]
    omega

/-- A move after which the guard has given a signal back. -/
theorem Warded.given (warded : Warded pid before moves s) (guarding : s.client.guarding = true)
    {met : List (FatalSignal × Disposition)}
    (client : t.client = { s.client with signals := s.client.signals.restore signal, met })
    (quiet : Quiet t.frames)
    (fewer : ∀ x, Awaited (m :: moves) t x ↔ x ≠ signal ∧ Awaited moves s x)
    (plain : m.finalizes = false) (count : t.finalizing = s.finalizing) :
    Warded pid before (m :: moves) t := by
  have guarded := warded.guarded guarding
  rw [guarded.restore_eq] at client
  have counted : (m :: moves).countP Move.finalizes = moves.countP Move.finalizes :=
    List.countP_cons_of_neg (by simp [plain])
  constructor
  · rw [client]
    exact warded.pid
  · rw [client]
    exact warded.idle
  · exact .of_quiet quiet
  · intro x reported
    rw [report?_of_quiet quiet] at reported
    contradiction
  · intro _
    rw [client]
    exact guarded.set signal _
  · intro x awaited
    obtain ⟨other, earlier⟩ := (fewer x).mp awaited
    rw [client, Signals.current_set, if_neg other]
    exact warded.awaited x earlier
  · intro x gone
    rw [client, Signals.current_set]
    split
    · rename_i here
      rw [here]
    · rename_i other
      exact warded.others x fun earlier => gone ((fewer x).mpr ⟨other, earlier⟩)
  · rw [counted, count]
    exact warded.called
  · rw [counted, count, client]
    exact warded.installed

/-- The first `finalize` that returns takes the guard away, and nothing is left of it. -/
theorem Warded.ended (warded : Warded pid before moves s) {c : Client Nat}
    (steady : s.client.Steady c) (removed : t.client = c.removeGuard) (quiet : Quiet t.frames)
    (count : t.finalizing + 1 = s.finalizing + if m.finalizes then 1 else 0) :
    Warded pid before (m :: moves) t := by
  have called := warded.called
  have off : t.client.guarding = false := by rw [removed, Client.guarding_removeGuard]
  have current : t.client.signals.current = before := by
    rw [removed, Client.signals_removeGuard, steady.guarding, steady.signals]
    split
    · rename_i guarding
      rw [(warded.guarded guarding).remove_eq]
    · rename_i already
      funext x
      exact warded.others x fun awaited => already awaited.1
  constructor
  · rw [removed, Client.pid_removeGuard, steady.pid, warded.pid]
  · rw [removed, Client.removeGuard_dispatcher, steady.busy, warded.idle]
  · exact .of_quiet quiet
  · intro x reported
    rw [report?_of_quiet quiet] at reported
    contradiction
  · intro guarding
    rw [off] at guarding
    contradiction
  · rintro x ⟨guarding, -⟩
    rw [off] at guarding
    contradiction
  · intro x _
    rw [current]
  · rw [List.countP_cons]
    omega
  · rw [List.countP_cons, off]
    simp only [Bool.false_eq_true, false_iff]
    omega

/-- A signal that goes to the guard's handler is one that the guard has. -/
theorem Warded.awaited_of_handled (warded : Warded pid before moves s)
    (free : ∀ x, before x ≠ .handler) (handled : s.client.signals.current signal = .handler) :
    Awaited moves s signal := by
  by_contra other
  exact free signal ((warded.others signal other).symm.trans handled)

theorem Warded.unhandled (warded : Warded pid before moves s)
    (other : s.client.signals.current signal ≠ .handler) (client : t.client = s.client.meet signal)
    (frames : t.frames = s.frames) : Warded pid before (.raise signal :: moves) t := by
  have steady : s.client.Steady t.client := by
    rw [client]
    exact ⟨rfl, rfl, rfl, rfl⟩
  have report : t.report? = s.report? := congrArg (·.head?.bind Frame.report?) frames
  apply warded.kept steady
  · rw [Shielded, frames]
    exact warded.shielded
  · intro x
    rw [Awaited, Awaited, steady.guarding, report]
    constructor
    · rintro ⟨guarding, unraised | reported⟩
      · exact ⟨guarding, .inl fun member => unraised (List.mem_cons_of_mem _ member)⟩
      · exact ⟨guarding, .inr reported⟩
    · rintro ⟨guarding, unraised | reported⟩
      · refine ⟨guarding, .inl fun member => ?_⟩
        rcases List.mem_cons.mp member with here | earlier
        · obtain rfl : x = signal := by simpa using here
          exact other (warded.awaited x ⟨guarding, .inl unraised⟩)
        · exact unraised earlier
      · exact ⟨guarding, .inr reported⟩
  · intro x reported
    rw [report] at reported
    obtain ⟨earlier, guarding⟩ := warded.reported x reported
    exact ⟨List.mem_cons_of_mem _ earlier, guarding⟩
  · exact finalizing_eq frames

theorem Warded.restored (warded : Warded pid before moves s) (awaited : Awaited moves s signal)
    (clear : s.report? = none) (client : t.client = (s.client.meet signal).reraise signal)
    (frames : t.frames = s.frames) : Warded pid before (.raise signal :: moves) t := by
  have quiet : Quiet t.frames := by
    rw [frames]
    exact warded.shielded.quiet clear
  apply warded.given awaited.1 client quiet _ rfl (finalizing_eq frames)
  intro x
  have guarding : t.client.guarding = s.client.guarding := by rw [client]; rfl
  simp only [Awaited, report?_of_quiet quiet, clear, guarding, List.mem_cons, Move.raise.injEq]
  tauto

theorem Warded.reporting (warded : Warded pid before moves s) (awaited : Awaited moves s signal)
    (clear : s.report? = none) (steady : s.client.Steady t.client) {op place : Nat}
    (top : t.frames = .asking op place (.reportingExit signal) :: s.frames) :
    Warded pid before (.raise signal :: moves) t := by
  obtain ⟨guarding, first⟩ := awaited
  have report : t.report? = some signal := congrArg (·.head?.bind Frame.report?) top
  apply warded.kept steady
  · rw [Shielded, top]
    exact warded.shielded.quiet clear
  · intro x
    rw [clear] at first
    simp only [Awaited, steady.guarding, report, clear, List.mem_cons, Move.raise.injEq]
    by_cases here : x = signal
    · subst here
      simpa [guarding] using first
    · simp [here, Ne.symm here]
  · intro x reported
    obtain rfl : signal = x := Option.some.inj (report.symm.trans reported)
    exact ⟨List.mem_cons_self, guarding⟩
  · have counted := finalizing_eq top
    exact counted.trans (List.countP_cons_of_neg (by simp [Frame.finalizes, Pending.finalizes]))

theorem Warded.answered (warded : Warded pid before moves s) (unraised : ∀ x, m ≠ .raise x)
    (plain : m.finalizes = false) (report : s.report? = some signal)
    (client : t.client = s.client.reraise signal)
    {op place : Nat} (top : s.frames = .asking op place (.reportingExit signal) :: t.frames) :
    Warded pid before (m :: moves) t := by
  obtain ⟨earlier, guarding⟩ := warded.reported signal report
  have quiet : Quiet t.frames := by
    have shielded := warded.shielded
    rw [Shielded, top] at shielded
    exact shielded
  apply warded.given guarding client quiet _ plain (finalizing_eq top).symm
  intro x
  have past : .raise x ∈ m :: moves ↔ .raise x ∈ moves := by
    simp [Ne.symm (unraised x)]
  have same : t.client.guarding = s.client.guarding := by rw [client]; rfl
  simp only [Awaited, report?_of_quiet quiet, report, same, past, Option.some.injEq]
  by_cases here : x = signal
  · subst here
    simp [earlier]
  · simp [here, Ne.symm here]

theorem Warded.turn (warded : Warded pid before moves s) (free : ∀ x, before x ≠ .handler)
    (turn : s.Turn m t) : Warded pid before (m :: moves) t := by
  cases turn with
  | steady steady unraised report shielded count =>
    have past (x : FatalSignal) : .raise x ∈ m :: moves ↔ .raise x ∈ moves := by
      simp [Ne.symm (unraised x)]
    apply warded.kept steady shielded _ _ count
    · intro x
      rw [Awaited, Awaited, steady.guarding, report, past]
    · intro x
      rw [report, past]
      exact warded.reported x
  | ended steady removed _ _ quiet count => exact warded.ended steady removed quiet count
  | unhandled signal raised other client frames =>
    subst raised
    exact warded.unhandled other client frames
  | restored signal raised handled clear client frames =>
    subst raised
    exact warded.restored (warded.awaited_of_handled free handled) clear client frames
  | reporting signal raised handled clear steady frames =>
    subst raised
    obtain ⟨op, place, top⟩ := frames
    exact warded.reporting (warded.awaited_of_handled free handled) clear steady top
  | reported signal unraised plain report client frames =>
    obtain ⟨op, place, top⟩ := frames
    exact warded.answered unraised plain report client top

theorem warded_of_course
    (created : Client.create config pid channels signals faults = .ok client)
    (installed : config.installCrashGuard = true)
    (free : ∀ x, signals.current x ≠ .handler) (came : client.course moves = some s) :
    Warded pid signals.current moves s := by
  induction moves generalizing s with
  | nil =>
    obtain rfl := Option.some.inj came
    exact warded_new created installed
  | cons m moves ih =>
    obtain ⟨u, before, moved⟩ := Option.bind_eq_some_iff.mp came
    split at moved
    · contradiction
    · rename_i allowed
      have clear : m.begins = true → u.report? = none := by
        intro begins
        simpa [begins] using allowed
      have warded := ih before
      exact warded.turn free (turn_of_step moved clear warded.shielded)

theorem Warded.awaited_iff (warded : Warded pid before moves s) (clear : s.report? = none)
    (signal : FatalSignal) :
    Awaited moves s signal ↔ .raise signal ∉ moves ∧ ¬ Finalized moves s := by
  have called := warded.called
  simp only [Awaited, clear, reduceCtorEq, or_false, warded.installed, Finalized]
  constructor
  · rintro ⟨all, first⟩
    exact ⟨first, by omega⟩
  · rintro ⟨first, unfinalized⟩
    exact ⟨by omega, first⟩

/-- What happens when a signal arrives: it does what it does anyhow, if the guard has not got it;
else it is given back and raised again, after a report if something is owned. -/
theorem Warded.raise_cases (warded : Warded pid before moves s) (free : ∀ x, before x ≠ .handler)
    (clear : s.report? = none) (signal : FatalSignal) :
    (¬ Awaited moves s signal ∧
      s.client.raise signal = (s.client.meet signal, .finished (.ok .unit))) ∨
    (Awaited moves s signal ∧ ¬ Owed pid moves s signal ∧ s.client.raise signal =
      ((s.client.meet signal).reraise signal, .finished (.ok .unit))) ∨
    (Awaited moves s signal ∧ Owed pid moves s signal ∧ s.client.raise signal =
      (s.client.meet signal).ask (.emergentExit pid) (.reportingExit signal)) := by
  obtain rfl := warded.pid
  by_cases awaited : Awaited moves s signal
  · obtain ⟨first, unfinalized⟩ := (warded.awaited_iff clear signal).mp awaited
    have owned := Registry.ownedBy?_of_idle warded.idle s.client.pid
    rw [Client.raise, if_pos (warded.awaited signal awaited)]
    by_cases nothing : s.client.registry.ownedBy? s.client.pid = some 0
    · rw [if_pos nothing]
      refine .inr (.inl ⟨awaited, ?_, rfl⟩)
      rintro ⟨-, -, slot, reg, live, owner⟩
      rw [owned, Option.some.injEq, List.countP_eq_zero] at nothing
      exact nothing (slot, reg) (Registry.mem_live.mpr live) (by simpa using owner)
    · rw [if_neg nothing]
      refine .inr (.inr ⟨awaited, ⟨first, unfinalized, ?_⟩, rfl⟩)
      rw [owned, Option.some.injEq] at nothing
      obtain ⟨⟨slot, reg⟩, member, owner⟩ := List.countP_pos_iff.mp (Nat.pos_of_ne_zero nothing)
      exact ⟨slot, reg, Registry.mem_live.mp member, by simpa using owner⟩
  · refine .inl ⟨awaited, ?_⟩
    have other : s.client.signals.current signal ≠ .handler := by
      rw [warded.others signal awaited]
      exact free signal
    rw [Client.raise, if_neg other]

/-- A signal that the guard gives back does, when it is raised again, what it did before. -/
theorem Warded.reraise_eq (warded : Warded pid before moves s) (guarding : s.client.guarding = true)
    {c : Client Nat} (same : c.signals = s.client.signals) (signal : FatalSignal) :
    c.reraise signal = { c with
      signals := s.client.signals.set signal (before signal)
      met := c.met ++ [(signal, before signal)] } := by
  have restored : c.signals.restore signal = s.client.signals.set signal (before signal) := by
    rw [same, (warded.guarded guarding).restore_eq]
  rw [Client.reraise, Client.meet, restored, Signals.current_set, if_pos rfl]

end Warded

/-- A fatal signal is reported when it arrives for the first time, if the process owns something
then and no `finalize` has returned yet: with one request, whatever the arbiter replies. After that
it is raised again, and does then what it did before the client was created. Nothing else changes
but for what happens beside the report. When it comes again, or after a `finalize`, it does so at
once. -/
theorem fatal_signal_reported_once {config : Config} {channels : Channels} {signals : Signals}
    {faults : Faults} {client : Client Nat}
    (created : Client.create config pid channels signals faults = .ok client)
    (installed : config.installCrashGuard = true)
    (returning : ∀ x, (signals.current x).returns = true)
    (came : client.course moves = some s) (clear : s.report? = none) (signal : FatalSignal) :
    (∀ reply, ∃ exchanges c, (∀ x ∈ exchanges, x.2 = reply) ∧
      Client.Serves Client.Beside (s.client.raise signal) exchanges c (.ok .unit)) ∧
    (∀ exchanges c result,
      Client.Serves Client.Beside (s.client.raise signal) exchanges c result →
      result = .ok .unit ∧
      (Owed pid moves s signal → exchanges.map Prod.fst = [.emergentExit pid]) ∧
      (¬ Owed pid moves s signal → exchanges = []) ∧
      (.raise signal ∉ moves → ¬ Finalized moves s →
        ∃ c₁, ((s.client.meet signal).told (exchanges.map Prod.fst)).Beside c₁ ∧
          c = { c₁ with
            signals := s.client.signals.set signal (signals.current signal)
            met := c₁.met ++ [(signal, signals.current signal)] })) ∧
    (.raise signal ∈ moves ∨ Finalized moves s →
      s.client.signals.current signal = signals.current signal ∧
        s.client.raise signal = ({ s.client with
          met := s.client.met ++ [(signal, signals.current signal)] }, .finished (.ok .unit))) := by
  have free (x : FatalSignal) : signals.current x ≠ .handler := by
    intro handled
    have returns := returning x
    rw [handled] at returns
    contradiction
  have warded := warded_of_course created installed free came
  have spent : .raise signal ∈ moves ∨ Finalized moves s ↔ ¬ Awaited moves s signal := by
    rw [warded.awaited_iff clear]
    tauto
  rcases warded.raise_cases free clear signal with
    ⟨unawaited, raise⟩ | ⟨awaited, unowed, raise⟩ | ⟨awaited, owed, raise⟩
  · -- The guard has not got the signal, which does what it did before.
    have unowed : ¬ Owed pid moves s signal := fun owed =>
      unawaited ((warded.awaited_iff clear signal).mpr ⟨owed.first, owed.unfinalized⟩)
    have same := warded.others signal unawaited
    rw [raise]
    refine ⟨fun reply => ⟨[], _, by simp, .finished _ _⟩, fun exchanges c result serves => ?_,
      fun _ => ⟨same, by rw [Client.meet, same]⟩⟩
    cases serves
    refine ⟨rfl, fun owed => absurd owed unowed, fun _ => rfl, fun first unfinalized => ?_⟩
    exact absurd ((warded.awaited_iff clear signal).mpr ⟨first, unfinalized⟩) unawaited
  · -- There is nothing to report.
    rw [raise]
    refine ⟨fun reply => ⟨[], _, by simp, .finished _ _⟩, fun exchanges c result serves => ?_,
      fun before => absurd awaited (spent.mp before)⟩
    cases serves
    refine ⟨rfl, fun owed => absurd owed unowed, fun _ => rfl,
      fun _ _ => ⟨s.client.meet signal, ?_, ?_⟩⟩
    · have same : (s.client.meet signal).told [] = s.client.meet signal := by
        simp [Client.told, Client.withDispatcher]
      rw [List.map_nil, same]
      exact .refl _
    · exact warded.reraise_eq (c := s.client.meet signal) awaited.1 rfl signal
  · -- The arbiter is told, and may reply what it likes.
    rw [raise]
    refine ⟨fun reply => ⟨[(_, reply)], _, by simp, .answered (.refl _) reply (.finished _ _)⟩,
      fun exchanges c result serves => ?_, fun before => absurd awaited (spent.mp before)⟩
    cases serves with
    | @answered _ c₁ _ _ _ _ _ beside reply rest =>
      cases rest
      exact ⟨rfl, fun _ => rfl, fun unowed => absurd owed unowed,
        fun _ _ => ⟨c₁, beside, warded.reraise_eq awaited.1 beside.signals signal⟩⟩

/-- While only a session's process owns something, a signal goes unreported. The next one finds a
registration of the client's own, and the arbiter refuses to hear of it. -/
theorem fatal_signal_reported_once_of_two_signals :
    let config : Config := { maxHandles := 2, installCrashGuard := true }
    let client : Client Nat := {
      registry := .ofCapacity 2, channels := .memory {}, config, pid := 7
      signals := ((Signals.uniform .ignored).install none fun _ => none).2, guarding := true }
    let moves : List Move := [.reply (.ok .done), .call (.register 6 0 "media" false 2),
      .raise .terminate, .reply (.ok .done), .call (.register 5 12 "media" true 0)]
    let s := (client.course moves).getD { client }
    Client.create config 7 (.memory {}) (.uniform .ignored) {} = .ok client ∧
      client.course moves = some s ∧ s.report? = none ∧ Owed 7 moves s .interrupt ∧
      s.client.signals.current .interrupt = .handler ∧
      (∃ c, Client.Serves Client.Beside (s.client.raise .interrupt)
        [(.emergentExit 7, .error (.rejected 3))] c (.ok .unit) ∧
        c.signals.current .interrupt = .ignored ∧ c.met.getLast? = some (.interrupt, .ignored)) ∧
      (s.client.raise .terminate).1.met.getLast? = some (.terminate, .ignored) := by
  intro config client moves s
  have created : Client.create config 7 (.memory {}) (.uniform .ignored) {} = .ok client := rfl
  have returning : ∀ x, ((Signals.uniform .ignored).current x).returns = true := fun _ => rfl
  have possible : (client.course moves).isSome = true := by decide +kernel
  have came : client.course moves = some s := by
    obtain ⟨t, came⟩ := Option.isSome_iff_exists.mp possible
    simp only [s, came, Option.getD_some]
  have clear : s.report? = none := by decide +kernel
  have owed : Owed 7 moves s .interrupt := by
    refine ⟨by simp [moves], by unfold Finalized; decide +kernel, 1, ?_⟩
    exact ⟨.ofFocus 7 6 false "media", by decide +kernel, rfl⟩
  obtain ⟨completes, all, -⟩ :=
    fatal_signal_reported_once created rfl returning came clear .interrupt
  obtain ⟨exchanges, c, each, serves⟩ := completes (.error (.rejected 3))
  obtain ⟨-, requests, -, reached⟩ := all exchanges c _ serves
  obtain ⟨c₁, -, made⟩ := reached owed.first owed.unfinalized
  obtain ⟨x, rfl, request⟩ := List.map_eq_singleton_iff.mp (requests owed)
  have reply : x.2 = .error (.rejected 3) := each x List.mem_cons_self
  have exchange : x = (.emergentExit 7, .error (.rejected 3)) := Prod.ext request reply
  obtain ⟨-, -, again⟩ := fatal_signal_reported_once created rfl returning came clear .terminate
  refine ⟨created, came, clear, owed, by decide +kernel, ⟨c, exchange ▸ serves, ?_, ?_⟩, ?_⟩
  · rw [made]
    rfl
  · rw [made]
    exact List.getLast?_concat
  · rw [(again (.inl (by simp [moves]))).2]
    exact List.getLast?_concat

end Session
end AudioFocus
