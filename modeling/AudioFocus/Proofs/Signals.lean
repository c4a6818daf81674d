import AudioFocus.Proofs.Lookup
import AudioFocus.Proofs.Operation

/-!
The crash guard. Installing it saves what every signal did, or changes nothing at all; removing it
gives all that back. In between, an operation of a client leaves the guard as it is, unless it is
the end of a `finalize`: then it removes the guard that the client has.
-/
namespace AudioFocus

theorem FatalSignal.mem_all (signal : FatalSignal) : signal ∈ all := by
  cases signal <;> decide

namespace Signals

variable {s s' : Signals} {signal other : FatalSignal} {before : FatalSignal → Disposition}

@[simp] theorem current_set (s : Signals) (d : Disposition) :
    (s.set signal d).current other = if other = signal then d else s.current other := rfl

/-- What signals do, as a list. -/
def record (before : FatalSignal → Disposition) (signals : List FatalSignal) :
    List (FatalSignal × Disposition) :=
  signals.map fun signal => (signal, before signal)

section Record

variable {signals done rest : List FatalSignal} {refusals : FatalSignal → Option Int32}

theorem find?_record (member : signal ∈ signals) :
    (record before signals).find? (·.1 = signal) = some (signal, before signal) := by
  induction signals with
  | nil => contradiction
  | cons first signals ih =>
    change List.find? _ ((first, before first) :: record before signals) = _
    rw [List.find?_cons]
    by_cases same : first = signal
    · simp [same]
    · simp only [same, decide_false]
      exact ih ((List.mem_cons.mp member).resolve_left (Ne.symm same))

theorem putBack_record (s : Signals) (before : FatalSignal → Disposition)
    (signals : List FatalSignal) : s.putBack (record before signals) =
      { s with current := fun x => if x ∈ signals then before x else s.current x } := by
  induction signals generalizing s with
  | nil => rfl
  | cons first signals ih =>
    have shift : s.putBack (record before (first :: signals)) =
        (s.set first (before first)).putBack (record before signals) := rfl
    rw [shift, ih]
    simp only [set, Signals.mk.injEq, and_true]
    funext x
    by_cases here : x = first
    · subst here
      simp
    · simp [here]

/-- `done` has been taken over, and what it did before is at hand. -/
theorem takeOver_cases (distinct : (done ++ rest).Nodup)
    (untouched : ∀ x, x ∉ done → s.current x = before x) :
    ((∀ x ∈ rest, refusals x = none) ∧ s.takeOver refusals (record before done) rest =
      (.ok (record before (done ++ rest)),
        { s with current := fun x => if x ∈ rest then .handler else s.current x })) ∨
    ∃ x ∈ rest, ∃ n, refusals x = some n ∧ s.takeOver refusals (record before done) rest =
      (.error n, { s with current := before }) := by
  induction rest generalizing s done with
  | nil =>
    refine .inl ⟨by simp, ?_⟩
    simp [takeOver]
  | cons first rest ih =>
    have next : done ++ first :: rest = (done ++ [first]) ++ rest := by simp
    have fresh : first ∉ done := by
      intro member
      exact (List.nodup_append.mp distinct).2.2 first member first List.mem_cons_self rfl
    cases refused : refusals first with
    | some n =>
      refine .inr ⟨first, List.mem_cons_self, n, refused, ?_⟩
      have back : (fun x => if x ∈ done then before x else s.current x) = before := by
        funext x
        split
        · rfl
        · exact untouched x ‹_›
      simp only [takeOver, refused, putBack_record, back]
    | none =>
      have taken : record before done ++ [(first, s.current first)] =
          record before (done ++ [first]) := by
        simp [record, untouched first fresh]
      have step : s.takeOver refusals (record before done) (first :: rest) =
          (s.set first .handler).takeOver refusals (record before (done ++ [first])) rest := by
        simp only [takeOver, refused, taken]
      rw [step, next]
      have others : ∀ x, x ∉ done ++ [first] → (s.set first .handler).current x = before x := by
        intro x apart
        rw [List.mem_append, List.mem_singleton, not_or] at apart
        rw [current_set, if_neg apart.2]
        exact untouched x apart.1
      rcases ih (next ▸ distinct) others with ⟨free, result⟩ | ⟨x, member, n, refusal, result⟩
      · refine .inl ⟨List.forall_mem_cons.mpr ⟨refused, free⟩, ?_⟩
        rw [result]
        simp only [set, Prod.mk.injEq, Signals.mk.injEq, and_true, true_and]
        funext x
        by_cases here : x = first <;> simp [here]
      · exact .inr ⟨x, List.mem_cons_of_mem _ member, n, refusal, result⟩

end Record

/-- A guard is installed that has found the signals like this. -/
structure Guarded (s : Signals) (before : FatalSignal → Disposition) : Prop where
  installed : s.installed = true
  saved : s.saved = some (record before FatalSignal.all)

/-- No guard is installed. -/
structure Bare (s : Signals) : Prop where
  installed : s.installed = false
  saved : s.saved = none

section Install

variable {threads : Option Int32} {refusals : FatalSignal → Option Int32}

theorem install_of_installed (installed : s.installed = true) :
    s.install threads refusals = (refuse .guardInstalled, s) := by
  simp [install, installed]

/-- A guard that is installed has all signals and the list of what they did. One that is not has
left everything as it was. -/
theorem install_cases (free : s.installed = false) (threads : Option Int32)
    (refusals : FatalSignal → Option Int32) :
    (threads = none ∧ (∀ x, refusals x = none) ∧ s.install threads refusals =
      (.ok (), ⟨fun _ => .handler, true, some (record s.current FatalSignal.all)⟩)) ∨
    ¬ (threads = none ∧ ∀ x, refusals x = none) ∧ ∃ n s',
      s.install threads refusals = (.error (.system (.code n)), s') ∧
        (s.saved = none → s' = s) := by
  obtain ⟨current, installed, saved⟩ := s
  obtain rfl : installed = false := free
  cases threads with
  | some n => exact .inr ⟨by simp, n, _, rfl, fun _ => rfl⟩
  | none =>
    let begun : Signals := ⟨current, true, saved⟩
    have distinct : ([] ++ FatalSignal.all).Nodup := by decide
    have untouched : ∀ x, x ∉ ([] : List FatalSignal) → begun.current x = current x :=
      fun _ _ => rfl
    rcases takeOver_cases distinct untouched with ⟨none, result⟩ | ⟨x, -, n, refused, result⟩
    · refine .inl ⟨rfl, fun x => none x x.mem_all, ?_⟩
      have handled : (fun x => if x ∈ FatalSignal.all then .handler else begun.current x) =
          fun _ => Disposition.handler := by
        funext x
        rw [if_pos x.mem_all]
      rw [handled] at result
      change begun.takeOver refusals [] FatalSignal.all = _ at result
      simp only [install, begun, Bool.false_eq_true, if_false] at result ⊢
      rw [result]
      rfl
    · refine .inr ⟨fun all => ?_, n, Signals.remove ⟨current, true, saved⟩, ?_, ?_⟩
      · rw [all.2 x] at refused
        contradiction
      · change begun.takeOver refusals [] FatalSignal.all = _ at result
        simp only [install, begun, Bool.false_eq_true, if_false] at result ⊢
        rw [result]
      · rintro rfl
        rfl

theorem install_eq_ok (done : s.install threads refusals = (.ok (), s')) :
    s.installed = false ∧
      s' = ⟨fun _ => .handler, true, some (record s.current FatalSignal.all)⟩ := by
  cases installed : s.installed with
  | true =>
    rw [install_of_installed installed] at done
    simp [refuse] at done
  | false =>
    rcases install_cases installed threads refusals with
      ⟨-, -, result⟩ | ⟨-, n, s', result, -⟩
    · rw [result] at done
      exact ⟨rfl, (Prod.mk.inj done).2.symm⟩
    · rw [result] at done
      simp at done

theorem install_eq_error {e : FocusError} (saved : s.installed = false → s.saved = none)
    (failed : s.install threads refusals = (.error e, s')) : s' = s := by
  cases installed : s.installed with
  | true =>
    rw [install_of_installed installed] at failed
    exact (Prod.mk.inj failed).2.symm
  | false =>
    rcases install_cases installed threads refusals with
      ⟨-, -, result⟩ | ⟨-, n, s'', result, same⟩
    · rw [result] at failed
      simp at failed
    · rw [result] at failed
      exact (Prod.mk.inj failed).2.symm.trans (same (saved installed))

end Install

section Restore

variable (s)

@[simp] theorem installed_restore (signal : FatalSignal) :
    (s.restore signal).installed = s.installed := by
  unfold restore
  split <;> rfl

@[simp] theorem saved_restore (signal : FatalSignal) : (s.restore signal).saved = s.saved := by
  unfold restore
  split <;> rfl

end Restore

theorem Bare.restore (bare : s.Bare) (signal : FatalSignal) : (s.restore signal).Bare :=
  ⟨(s.installed_restore signal).trans bare.installed, (s.saved_restore signal).trans bare.saved⟩

namespace Guarded

variable (guarded : s.Guarded before)
include guarded

theorem set (signal : FatalSignal) (d : Disposition) : (s.set signal d).Guarded before :=
  ⟨guarded.installed, guarded.saved⟩

/-- Removing the guard leaves no trace of it. -/
theorem remove_eq : s.remove = { current := before } := by
  unfold remove
  rw [guarded.saved]
  simp only [putBack_record, Signals.mk.injEq, and_true]
  funext x
  rw [if_pos x.mem_all]

theorem restore_eq (signal : FatalSignal) : s.restore signal = s.set signal (before signal) := by
  unfold restore
  rw [guarded.saved, Option.bind_some, find?_record signal.mem_all]

theorem restore (signal : FatalSignal) : (s.restore signal).Guarded before :=
  ⟨(s.installed_restore signal).trans guarded.installed,
    (s.saved_restore signal).trans guarded.saved⟩

end Guarded

end Signals

namespace Registry

variable {κ : Type} (r : Registry κ)

@[simp] theorem busy_release (slot : Nat) (id : Int32) (space : IdSpace) :
    (r.release slot id space).busy = r.busy :=
  (r.after_frame (.release slot id space)).2

@[simp] theorem busy_vacate (slot : Nat) (id : Int32) (space : IdSpace) :
    (r.vacate slot id space).busy = r.busy := by
  unfold vacate
  split
  · rename_i freed got
    obtain rfl := release?_eq_some got
    rfl
  · rfl

end Registry

/-- The signal whose report is waited for. -/
def Pending.report? : Pending → Option FatalSignal
  | reportingExit signal => some signal
  | _ => none

/-- Whether it is a `finalize` that waits. -/
def Pending.finalizes : Pending → Bool
  | tearingDown _ _ _ (some _) => true
  | _ => false

namespace Client

variable {κ : Type} {c c' : Client κ}

theorem create_guard {config : Config} {pid : Int32} {channels : Channels} {before : Signals}
    {faults : Faults} (created : create config pid channels before faults = .ok c) :
    c.guarding = config.installCrashGuard ∧ c.pid = pid ∧
      if config.installCrashGuard then
        before.install faults.threads faults.handlers = (.ok (), c.signals)
      else c.signals = before := by
  unfold create at created
  split at created
  · contradiction
  · split at created
    · rename_i guard
      rw [guard]
      generalize before.install faults.threads faults.handlers = result at created
      obtain ⟨_ | _, signals⟩ := result
      · simp [Except.map, bind, Except.bind] at created
      · obtain rfl := Except.ok.inj created
        exact ⟨guard, rfl, rfl⟩
    · rename_i none
      obtain rfl := Except.ok.inj created
      refine ⟨rfl, rfl, ?_⟩
      rw [if_neg none]

theorem create_of_refused {config : Config} {pid : Int32} {channels : Channels}
    {before signals : Signals} {faults : Faults} {e : FocusError}
    (wanted : config.installCrashGuard = true)
    (refused : before.install faults.threads faults.handlers = (.error e, signals)) :
    (create config pid channels before faults : Result (Client κ)) =
      if config.maxHandles = 0 then refuse .noHandles else .error e := by
  unfold create
  rw [if_pos wanted, refused]
  rfl

theorem create_eq_error {config : Config} {pid : Int32} {channels : Channels} {before : Signals}
    {faults : Faults} {e : FocusError}
    (failed : (create config pid channels before faults : Result (Client κ)) = .error e) :
    (config.maxHandles = 0 ∧ e = .invalid .noHandles) ∨
    config.maxHandles ≠ 0 ∧ config.installCrashGuard = true ∧ ∃ signals,
      before.install faults.threads faults.handlers = (.error e, signals) := by
  unfold create at failed
  split at failed
  · rename_i none
    exact .inl ⟨none, (Except.error.inj failed).symm⟩
  · rename_i some_
    split at failed
    · rename_i guard
      generalize before.install faults.threads faults.handlers = result at failed
      obtain ⟨_ | _, signals⟩ := result
      · obtain rfl := Except.error.inj failed
        exact .inr ⟨some_, guard, signals, rfl⟩
      · contradiction
    · contradiction

section RemoveGuard

variable (c)

@[simp] theorem guarding_removeGuard : c.removeGuard.guarding = false := by
  unfold removeGuard
  split
  · rfl
  · simpa using ‹¬ c.guarding = true›

@[simp] theorem pid_removeGuard : c.removeGuard.pid = c.pid := by
  unfold removeGuard
  split <;> rfl

theorem signals_removeGuard :
    c.removeGuard.signals = if c.guarding then c.signals.remove else c.signals := by
  unfold removeGuard
  split <;> rfl

end RemoveGuard

/-- The guard, and what it looks at apart from the slots, are left alone. -/
structure Steady (c c' : Client κ) : Prop where
  signals : c'.signals = c.signals
  guarding : c'.guarding = c.guarding
  pid : c'.pid = c.pid
  busy : c'.registry.busy = c.registry.busy

protected theorem Steady.refl (c : Client κ) : c.Steady c := ⟨rfl, rfl, rfl, rfl⟩

protected theorem Steady.trans {c'' : Client κ} (first : c.Steady c') (second : c'.Steady c'') :
    c.Steady c'' where
  signals := second.signals.trans first.signals
  guarding := second.guarding.trans first.guarding
  pid := second.pid.trans first.pid
  busy := second.busy.trans first.busy

theorem steady_withDispatcher {d : Dispatcher κ} (same : d.registry.busy = c.registry.busy) :
    c.Steady (c.withDispatcher d) := ⟨rfl, rfl, rfl, same⟩

/-- A part of an operation that neither reports a signal nor finalizes. -/
structure Apart (c : Client κ) (result : Client κ × Progress) : Prop where
  steady : c.Steady result.1
  asks : ∀ request p, result.2 = .asking request p → p.report? = none ∧ p.finalizes = false

/-- A part of a `finalize`. -/
inductive Finalizing (c : Client κ) : Client κ × Progress → Prop
  | goesOn {c' : Client κ} (steady : c.Steady c') (request : Request) {p : Pending}
      (finalizes : p.finalizes = true) : Finalizing c (c', .asking request p)
  | ends {c' : Client κ} (steady : c.Steady c') :
    Finalizing c (c'.removeGuard, .finished (.ok .unit))

section Apart

theorem Apart.after {result : Client κ × Progress} (steady : c.Steady c')
    (apart : c'.Apart result) : c.Apart result := ⟨steady.trans apart.steady, apart.asks⟩

theorem apart_finished (steady : c.Steady c') (result : Result Value) :
    c.Apart (c', .finished result) := ⟨steady, by simp⟩

theorem apart_ask (steady : c.Steady c') (request : Request) {p : Pending}
    (plain : p.report? = none ∧ p.finalizes = false) : c.Apart (c'.ask request p) := by
  refine ⟨steady.trans ⟨rfl, rfl, rfl, rfl⟩, ?_⟩
  rintro _ _ ⟨⟩
  exact plain

theorem apart_giveBack (c : Client κ) (slot : Nat) (reg : Registration) (cause : FocusError) :
    c.Apart (c.giveBack slot reg cause) := by
  unfold giveBack
  split
  · exact ⟨.refl c, by simp⟩
  · apply apart_finished
    exact ⟨rfl, rfl, rfl, c.registry.busy_vacate slot reg.id reg.space⟩

theorem steady_beginTeardown {slot : Nat} {reg : Registration} {guarded : Bool}
    (begun : c.beginTeardown slot reg = some (c', guarded)) : c.Steady c' := by
  obtain ⟨-, -, -, rfl⟩ := beginTeardown_eq_some begun
  cases guarded <;> exact ⟨rfl, rfl, rfl, rfl⟩

theorem steady_endTeardown (c : Client κ) (slot : Nat) (reg : Registration) (guarded : Bool) :
    c.Steady (c.endTeardown slot reg guarded) := by
  have released := c.registry.busy_release slot reg.id reg.space
  refine ⟨rfl, rfl, rfl, ?_⟩
  change (if guarded then ((c.registry.release slot reg.id reg.space).unbind slot reg.id
    reg.space).unguard slot else c.registry.release slot reg.id reg.space).busy = _
  cases guarded <;> exact released

/-- Nothing but `finalize` makes the client give up its guard. -/
theorem apart_call {o : Operation κ} (other : o ≠ .finalize) : c.Apart (c.call o) := by
  have called := call_called c o
  generalize c.call o = result at called
  cases called with
  | ended => exact apart_finished (.refl c) _
  | asked => exact apart_ask (.refl c) _ ⟨rfl, rfl⟩
  | @entered slot reg callback d _ _ _ opened =>
    have kept : d.registry = c.registry.entered slot reg callback :=
      (Dispatcher.openChannel_kept opened).1
    have busy : d.registry.busy = c.registry.busy := by
      rw [kept]
      rfl
    apply apart_ask (steady_withDispatcher busy)
    exact ⟨rfl, rfl⟩
  | unopened =>
    apply apart_finished
    exact ⟨rfl, rfl, rfl, rfl⟩
  | torn _ _ begun =>
    apply apart_ask (steady_beginTeardown begun)
    exact ⟨rfl, rfl⟩
  | finalized final => exact absurd final other

theorem apart_announced (c : Client κ) (slot : Nat) (reg : Registration) (reply : Result Reply) :
    c.Apart (c.announced slot reg reply) := by
  have announced := announced_announced c slot reg reply
  generalize c.announced slot reg reply = result at announced
  have claimed : c.Steady (c.withRegistry (c.registry.claimed slot)) := ⟨rfl, rfl, rfl, rfl⟩
  cases announced with
  | served =>
    apply apart_finished
    exact ⟨rfl, rfl, rfl, rfl⟩
  | left => exact apart_finished (.refl c) _
  | refused =>
    have closed :
        c.Steady ((c.withRegistry (c.registry.claimed slot)).closeChannel reg.channel) :=
      ⟨rfl, rfl, rfl, rfl⟩
    exact .after closed (apart_giveBack _ slot reg _)
  | unstarted => exact apart_ask claimed _ ⟨rfl, rfl⟩

theorem apart_resume {p : Pending} (silent : p.report? = none) (other : p.finalizes = false)
    (reply : Result Reply) : c.Apart (c.resume p reply) := by
  cases p with
  | query | notifyingExit => exact apart_finished (.refl c) _
  | registering slot reg => exact apart_announced c slot reg reply
  | undoing slot reg cause =>
    have closed : c.Steady (c.closeChannel reg.channel) := ⟨rfl, rfl, rfl, rfl⟩
    exact .after closed (apart_giveBack _ slot reg cause)
  | tearingDown slot reg guarded rest =>
    cases rest with
    | none => exact apart_finished (steady_endTeardown c slot reg guarded) _
    | some => contradiction
  | reportingExit => contradiction

end Apart

section Finalizing

theorem Finalizing.after {result : Client κ × Progress} (steady : c.Steady c')
    (finalizing : c'.Finalizing result) : c.Finalizing result := by
  cases finalizing with
  | goesOn more request finalizes => exact .goesOn (steady.trans more) request finalizes
  | ends more => exact .ends (steady.trans more)

theorem finalizing_torn {entries : List (Nat × Registration)} {result : Client κ × Progress}
    (torn : Torn c entries result) : c.Finalizing result := by
  cases torn with
  | none => exact .ends (.refl c)
  | next _ _ _ begun =>
    refine .goesOn ((steady_beginTeardown begun).trans ?_) _ ?_
    · exact ⟨rfl, rfl, rfl, rfl⟩
    · rfl

theorem finalizing_call (c : Client κ) : c.Finalizing (c.call .finalize) := by
  have stopped : c.Steady c.stop := ⟨rfl, rfl, rfl, by rw [stop_registry]⟩
  exact (finalizing_torn (teardownAll_torn c.stop c.stop.registry.live)).after stopped

theorem finalizing_resume {p : Pending} (finalizes : p.finalizes = true) (reply : Result Reply) :
    c.Finalizing (c.resume p reply) := by
  cases p with
  | tearingDown slot reg guarded rest =>
    cases rest with
    | none => contradiction
    | some entries =>
      have ended := steady_endTeardown c slot reg guarded
      exact (finalizing_torn (teardownAll_torn _ entries)).after ended
  | _ => contradiction

end Finalizing

end Client
end AudioFocus
