import AudioFocus.Proofs.Arrivals

/-!
The guard of a process, which several clients may want, and others besides who install one for a
table of their own. What carries the results is that each event changes the signals in one of a few
ways: a guard comes, a guard goes, or one signal is given back while the guard stays.
-/
namespace AudioFocus

/-- Who may have the guard of a process. -/
inductive Holder
  | client (s : Session)
  /-- One that was installed for a table, and the requests that it has sent. -/
  | guard (registry : Registry Nat) (sent : List Request) (installed : Bool)

def Holder.guards : Holder → Bool
  | client s => s.client.guarding
  | guard _ _ installed => installed

def Move.raises : Move → Bool
  | raise _ => true
  | _ => false

namespace Session

/-- The signals belong to the process, not to one of its clients. -/
def withSignals (s : Session) (signals : Signals) : Session :=
  { s with client := { s.client with signals } }

/-- A signal arrives, and the arbiter makes this reply if it is reported. -/
def arrive (s : Session) (signal : FatalSignal) (reply : Result Reply) : Option Session := do
  let t ← s.step (.raise signal)
  if t.report?.isSome then t.step (.reply reply) else some t

end Session

/-- A process, and all who have ever had its guard or are clients of the arbiter. -/
structure Process where
  pid : Int32
  signals : Signals
  holders : List Holder := []

namespace Process

/-- What happens to a process that concerns its guard. -/
inductive Event
  /-- Somebody installs a guard for a table. -/
  | install (registry : Registry Nat) (threads : Option Int32)
      (refusals : FatalSignal → Option Int32)
  | create (config : Config) (channels : Channels) (faults : Faults)
  /-- A guard that was installed for a table is dropped. -/
  | drop (i : Nat)
  /-- The table of a guard changes. -/
  | enter (i : Nat) (registry : Registry Nat)
  /-- Something happens to a client. It is dropped by a `finalize`. -/
  | act (i : Nat) (m : Move)
  /-- A signal arrives, and the arbiter makes this reply if it is reported. -/
  | raise (signal : FatalSignal) (reply : Result Reply)

def install (p : Process) (registry : Registry Nat) (threads : Option Int32)
    (refusals : FatalSignal → Option Int32) : Result Unit × Process :=
  match p.signals.install threads refusals with
  | (.ok (), signals) =>
    (.ok (), { p with signals, holders := p.holders ++ [.guard registry [] true] })
  | (.error e, signals) => (.error e, { p with signals })

/-- Creates a client. Where that fails, an attempt at the guard may have been made. -/
def create (p : Process) (config : Config) (channels : Channels) (faults : Faults) :
    Result Unit × Process :=
  match Client.create config p.pid channels p.signals faults with
  | .ok client =>
    (.ok (), { p with
      signals := client.signals
      holders := p.holders ++ [.client { client }] })
  | .error e =>
    (.error e, { p with
      signals :=
        if config.maxHandles ≠ 0 ∧ config.installCrashGuard then
          (p.signals.install faults.threads faults.handlers).2
        else p.signals })

/-- A client has gone on, and the signals with it. -/
def put (p : Process) (i : Nat) (t : Session) : Process :=
  { p with signals := t.client.signals, holders := p.holders.set i (.client t) }

/-- What a guard tells the arbiter of the end of a process. -/
def notices (registry : Registry Nat) (pid : Int32) : List Request :=
  if registry.ownedBy? pid = some 0 then [] else [.emergentExit pid]

/-- A signal arrives. Whoever has the guard reports it, before it does what it did without one. -/
def raise (p : Process) (signal : FatalSignal) (reply : Result Reply) : Process :=
  if p.signals.current signal = .handler then
    match p.holders.findIdx? Holder.guards with
    | none => { p with signals := p.signals.restore signal }
    | some i =>
      match p.holders[i]? with
      | some (.client s) => (((s.withSignals p.signals).arrive signal reply).map (p.put i)).getD p
      | some (.guard registry sent installed) => { p with
          signals := p.signals.restore signal
          holders := p.holders.set i
            (.guard registry (sent ++ notices registry p.pid) installed) }
      | none => p
  else p

def after (p : Process) : Event → Process
  | .install registry threads refusals => (p.install registry threads refusals).2
  | .create config channels faults => (p.create config channels faults).2
  | .drop i =>
    match p.holders[i]? with
    | some (.guard registry sent true) => { p with
        signals := p.signals.remove
        holders := p.holders.set i (.guard registry sent false) }
    | _ => p
  | .enter i registry =>
    match p.holders[i]? with
    | some (.guard _ sent installed) =>
      { p with holders := p.holders.set i (.guard registry sent installed) }
    | _ => p
  | .act i m =>
    match p.holders[i]? with
    | some (.client s) =>
      if m.raises then p else (((s.withSignals p.signals).step m).map (p.put i)).getD p
    | _ => p
  | .raise signal reply => p.raise signal reply

def run (p : Process) (events : List Event) : Process := events.foldl after p

def flags (p : Process) : List Bool := p.holders.map Holder.guards

/-- Whether this one has the guard. -/
def Guards (p : Process) (i : Nat) : Prop := p.flags[i]? = some true

instance (p : Process) (i : Nat) : Decidable (p.Guards i) :=
  inferInstanceAs (Decidable (p.flags[i]? = some true))

/-- No report is under way. -/
def Quiet (p : Process) : Prop := ∀ s, .client s ∈ p.holders → Session.Quiet s.frames

/-- What an event does to the signals, and to who has the guard. -/
inductive Change (p q : Process) : Prop
  | idle (signals : q.signals = p.signals) (flags : q.flags = p.flags)
  | restored (signal : FatalSignal) (signals : q.signals = p.signals.restore signal)
      (flags : q.flags = p.flags)
  | removed (i : Nat) (guards : p.Guards i) (signals : q.signals = p.signals.remove)
      (flags : q.flags = p.flags.set i false)
  /-- A client comes that does not want the guard. -/
  | joined (signals : q.signals = p.signals) (flags : q.flags = p.flags ++ [false])
  | installed {threads : Option Int32} {refusals : FatalSignal → Option Int32}
      (done : p.signals.install threads refusals = (.ok (), q.signals))
      (flags : q.flags = p.flags ++ [true])

/-- The guard is installed as long as somebody has it, and only one can have it. -/
structure Sound (p : Process) : Prop where
  quiet : p.Quiet
  single : ∀ i j, p.Guards i → p.Guards j → i = j
  installed : p.signals.installed = true ↔ ∃ i, p.Guards i
  signals : p.signals.Bare ∨ ∃ before, p.signals.Guarded before

variable {p q : Process} {i : Nat} {h h' : Holder}

section Holders

theorem flags_of_found (found : p.holders[i]? = some h) : p.flags[i]? = some h.guards := by
  rw [flags, List.getElem?_map, found, Option.map_some]

theorem set_of_found {α : Type} {l : List α} {a : α} (found : l[i]? = some a) : l.set i a = l := by
  obtain ⟨room, rfl⟩ := List.getElem?_eq_some_iff.mp found
  exact List.set_getElem_self room

theorem flags_set (h' : Holder) :
    (p.holders.set i h').map Holder.guards = p.flags.set i h'.guards := List.map_set ..

theorem flags_set_of_same (found : p.holders[i]? = some h) (same : h'.guards = h.guards) :
    (p.holders.set i h').map Holder.guards = p.flags := by
  rw [flags_set, same, set_of_found (flags_of_found found)]

theorem Quiet.put (quiet : p.Quiet) {t : Session} (silent : Session.Quiet t.frames) :
    (p.put i t).Quiet := by
  intro s member
  rcases List.mem_or_eq_of_mem_set member with before | here
  · exact quiet s before
  · obtain rfl := Holder.client.inj here
    exact silent

theorem Quiet.set_guard (quiet : p.Quiet) {registry : Registry Nat} {sent : List Request}
    {installed : Bool} (signals : Signals) :
    Quiet { p with signals, holders := p.holders.set i (.guard registry sent installed) } := by
  intro s member
  rcases List.mem_or_eq_of_mem_set member with before | here
  · exact quiet s before
  · contradiction

theorem Quiet.append (quiet : p.Quiet) (signals : Signals)
    (silent : ∀ s, h = .client s → Session.Quiet s.frames) :
    Quiet { p with signals, holders := p.holders ++ [h] } := by
  intro s member
  rcases List.mem_append.mp member with before | last
  · exact quiet s before
  · exact silent s (List.mem_singleton.mp last).symm

end Holders

section Attempts

variable {registry : Registry Nat} {threads : Option Int32}
  {refusals : FatalSignal → Option Int32} {config : Config} {channels : Channels} {faults : Faults}
  {e : FocusError}

theorem Sound.saved (sound : p.Sound) (free : p.signals.installed = false) :
    p.signals.saved = none := by
  rcases sound.signals with bare | ⟨before, guarded⟩
  · exact bare.saved
  · rw [guarded.installed] at free
    contradiction

/-- An attempt at the guard that fails leaves everything as it is. -/
theorem install_eq_error (sound : p.Sound)
    (failed : p.install registry threads refusals = (.error e, q)) : q = p := by
  unfold install at failed
  split at failed
  · simp at failed
  · rename_i result
    obtain ⟨-, rfl⟩ := Prod.mk.inj failed
    rw [Signals.install_eq_error sound.saved result]

theorem create_eq_error (sound : p.Sound)
    (failed : p.create config channels faults = (.error e, q)) : q = p := by
  unfold create at failed
  split at failed
  · simp at failed
  · rename_i cause result
    obtain ⟨-, rfl⟩ := Prod.mk.inj failed
    rcases Client.create_eq_error result with ⟨none, -⟩ | ⟨some_, guard, signals, refused⟩
    · rw [if_neg (by simp [none])]
    · rw [if_pos ⟨some_, guard⟩, refused, Signals.install_eq_error sound.saved refused]

theorem change_install (sound : p.Sound) (registry : Registry Nat) (threads : Option Int32)
    (refusals : FatalSignal → Option Int32) :
    p.Change (p.install registry threads refusals).2 ∧
      (p.install registry threads refusals).2.Quiet := by
  cases result : p.install registry threads refusals with
  | mk outcome q =>
    cases outcome with
    | error e =>
      obtain rfl := install_eq_error sound result
      exact ⟨.idle rfl rfl, sound.quiet⟩
    | ok u =>
      unfold install at result
      split at result
      · rename_i signals done
        obtain ⟨-, rfl⟩ := Prod.mk.inj result
        exact ⟨.installed done (by simp [flags, Holder.guards]),
          sound.quiet.append signals (by simp)⟩
      · simp at result

theorem change_create (sound : p.Sound) (config : Config) (channels : Channels) (faults : Faults) :
    p.Change (p.create config channels faults).2 ∧
      (p.create config channels faults).2.Quiet := by
  cases result : p.create config channels faults with
  | mk outcome q =>
    cases outcome with
    | error e =>
      obtain rfl := create_eq_error sound result
      exact ⟨.idle rfl rfl, sound.quiet⟩
    | ok u =>
      unfold create at result
      split at result
      · rename_i client created
        obtain ⟨-, rfl⟩ := Prod.mk.inj result
        obtain ⟨guarding, -, guard⟩ := Client.create_guard created
        constructor
        · cases wanted : config.installCrashGuard with
          | true =>
            rw [wanted] at guarding
            rw [if_pos wanted] at guard
            exact .installed guard (by simp [flags, Holder.guards, guarding])
          | false =>
            rw [wanted] at guarding
            rw [if_neg (by simp [wanted])] at guard
            exact .joined guard (by simp [flags, Holder.guards, guarding])
        · apply sound.quiet.append
          rintro s ⟨⟩
          exact List.forall_mem_nil _
      · simp at result

end Attempts

section Events

variable {s t : Session} {m : Move} {signal : FatalSignal} {reply : Result Reply}

/-- A client goes on without a signal. -/
theorem change_act (quiet : p.Quiet) (found : p.holders[i]? = some (.client s))
    (unraised : ∀ x, m ≠ .raise x) (moved : (s.withSignals p.signals).step m = some t) :
    p.Change (p.put i t) ∧ (p.put i t).Quiet := by
  have silent : Session.Quiet (s.withSignals p.signals).frames :=
    quiet s (List.mem_of_getElem? found)
  have clear := Session.report?_of_quiet silent
  have same (guarding : t.client.guarding = s.client.guarding) : (p.put i t).flags = p.flags :=
    flags_set_of_same found guarding
  cases Session.turn_of_step moved (fun _ => clear) (.of_quiet silent) with
  | steady steady _ report shielded =>
    exact ⟨.idle steady.signals (same steady.guarding),
      quiet.put (shielded.quiet (report.trans clear))⟩
  | @ended c steady removed _ _ quiet' =>
    have off : t.client.guarding = false := by rw [removed, Client.guarding_removeGuard]
    have signals : t.client.signals =
        if s.client.guarding then p.signals.remove else p.signals := by
      rw [removed, Client.signals_removeGuard, steady.guarding, steady.signals]
      rfl
    refine ⟨?_, quiet.put quiet'⟩
    cases guarding : s.client.guarding with
    | true =>
      rw [guarding, if_pos rfl] at signals
      refine .removed i ?_ signals ?_
      · rw [Guards, flags_of_found found]
        exact congrArg some guarding
      · exact (flags_set (.client t)).trans (congrArg _ off)
    | false =>
      rw [guarding, if_neg Bool.false_ne_true] at signals
      exact .idle signals (same (off.trans guarding.symm))
  | unhandled x raised | restored x raised | reporting x raised => exact absurd raised (unraised x)
  | reported x _ _ reported =>
    rw [clear] at reported
    contradiction

/-- A client whose guard gets a signal gives it back, after the report if there is one. -/
theorem arrive_eq_some (silent : Session.Quiet s.frames)
    (handled : s.client.signals.current signal = .handler)
    (arrived : s.arrive signal reply = some t) :
    t.client.signals = s.client.signals.restore signal ∧
      t.client.guarding = s.client.guarding ∧ Session.Quiet t.frames := by
  have clear := Session.report?_of_quiet silent
  unfold Session.arrive at arrived
  obtain ⟨u, raised, after⟩ := Option.bind_eq_some_iff.mp arrived
  cases Session.turn_of_step raised (fun _ => clear) (.of_quiet silent) with
  | steady _ unraised => exact absurd rfl (unraised signal)
  | ended _ _ unraised => exact absurd rfl (unraised signal)
  | unhandled x same other =>
    obtain rfl := Move.raise.inj same
    exact absurd handled other
  | restored x same _ _ client frames =>
    obtain rfl := Move.raise.inj same
    have silent' : Session.Quiet u.frames := by
      rw [frames]
      exact silent
    rw [if_neg (by simp [Session.report?_of_quiet silent'])] at after
    obtain rfl := Option.some.inj after
    rw [client]
    exact ⟨rfl, rfl, silent'⟩
  | reporting x same _ _ steady frames =>
    obtain rfl := Move.raise.inj same
    obtain ⟨op, place, top⟩ := frames
    have reporting : u.report? = some signal := congrArg (·.head?.bind Frame.report?) top
    rw [if_pos (by simp [reporting])] at after
    simp only [Session.step, top, Option.some.injEq] at after
    subst after
    refine ⟨?_, steady.guarding, silent⟩
    rw [← steady.signals]
    rfl
  | reported x unraised => exact absurd rfl (unraised signal)

theorem change_raise (quiet : p.Quiet) (signal : FatalSignal) (reply : Result Reply) :
    p.Change (p.raise signal reply) ∧ (p.raise signal reply).Quiet := by
  unfold raise
  split
  · rename_i handled
    split
    · exact ⟨.restored signal rfl rfl, quiet⟩
    · rename_i i _
      split
      · rename_i s found
        cases arrived : (s.withSignals p.signals).arrive signal reply with
        | none => exact ⟨.idle rfl rfl, quiet⟩
        | some t =>
          have silent : Session.Quiet (s.withSignals p.signals).frames :=
            quiet s (List.mem_of_getElem? found)
          obtain ⟨signals, guarding, silent⟩ := arrive_eq_some silent handled arrived
          exact ⟨.restored signal signals (flags_set_of_same found guarding), quiet.put silent⟩
      · rename_i registry sent installed found
        exact ⟨.restored signal rfl (flags_set_of_same found rfl), quiet.set_guard _⟩
      · exact ⟨.idle rfl rfl, quiet⟩
  · exact ⟨.idle rfl rfl, quiet⟩

/-- Every event does one of these things. -/
theorem change_after (sound : p.Sound) (event : Event) :
    p.Change (p.after event) ∧ (p.after event).Quiet := by
  have quiet := sound.quiet
  cases event with
  | install registry threads refusals => exact change_install sound registry threads refusals
  | create config channels faults => exact change_create sound config channels faults
  | drop i =>
    simp only [after]
    split
    · rename_i registry sent found
      exact ⟨.removed i (flags_of_found found) rfl (flags_set _), quiet.set_guard _⟩
    · exact ⟨.idle rfl rfl, quiet⟩
  | enter i registry =>
    simp only [after]
    split
    · rename_i before sent installed found
      exact ⟨.idle rfl (flags_set_of_same found rfl), quiet.set_guard _⟩
    · exact ⟨.idle rfl rfl, quiet⟩
  | act i m =>
    simp only [after]
    split
    · rename_i s found
      split
      · exact ⟨.idle rfl rfl, quiet⟩
      · rename_i plain
        have unraised : ∀ x, m ≠ .raise x := by
          rintro x rfl
          exact plain rfl
        cases moved : (s.withSignals p.signals).step m with
        | none => exact ⟨.idle rfl rfl, quiet⟩
        | some t => exact change_act quiet found unraised moved
    · exact ⟨.idle rfl rfl, quiet⟩
  | raise signal reply => exact change_raise quiet signal reply

end Events

section Sound

variable {j : Nat} {before : FatalSignal → Disposition}

theorem guards_set_false (guards : p.flags[i]? = some true)
    (flags : q.flags = p.flags.set i false) : q.Guards j ↔ j ≠ i ∧ p.Guards j := by
  obtain ⟨room, -⟩ := List.getElem?_eq_some_iff.mp guards
  rw [Guards, Guards, flags, List.getElem?_set]
  by_cases here : i = j
  · subst here
    simp [room]
  · simp [here, Ne.symm here]

theorem guards_append {b : Bool} (flags : q.flags = p.flags ++ [b]) :
    q.Guards j ↔ p.Guards j ∨ j = p.flags.length ∧ b = true := by
  rw [Guards, Guards, flags]
  rcases Nat.lt_trichotomy j p.flags.length with less | rfl | more
  · simp [List.getElem?_append_left less, Nat.ne_of_lt less]
  · simp
  · have outside : (p.flags ++ [b]).length ≤ j := by
      rw [List.length_append]
      exact more
    rw [List.getElem?_eq_none outside, List.getElem?_eq_none (Nat.le_of_lt more)]
    simp [Nat.ne_of_gt more]

theorem Sound.guarded (sound : p.Sound) (guards : p.Guards i) :
    ∃ before, p.signals.Guarded before := by
  have installed := sound.installed.mpr ⟨i, guards⟩
  rcases sound.signals with bare | guarded
  · rw [bare.installed] at installed
    contradiction
  · exact guarded

theorem Sound.next (sound : p.Sound) (change : p.Change q) (quiet : q.Quiet) : q.Sound := by
  cases change with
  | idle signals flags =>
    have same (j : Nat) : q.Guards j ↔ p.Guards j := by rw [Guards, Guards, flags]
    refine ⟨quiet, ?_, ?_, ?_⟩
    · simpa only [same] using sound.single
    · simpa only [same, signals] using sound.installed
    · simpa only [signals] using sound.signals
  | restored signal signals flags =>
    have same (j : Nat) : q.Guards j ↔ p.Guards j := by rw [Guards, Guards, flags]
    refine ⟨quiet, ?_, ?_, ?_⟩
    · simpa only [same] using sound.single
    · simpa only [same, signals, Signals.installed_restore] using sound.installed
    · rw [signals]
      rcases sound.signals with bare | ⟨before, guarded⟩
      · exact .inl (bare.restore signal)
      · exact .inr ⟨before, guarded.restore signal⟩
  | removed i guards signals flags =>
    obtain ⟨before, guarded⟩ := sound.guarded guards
    have nobody (j : Nat) : ¬ q.Guards j := by
      rw [guards_set_false guards flags]
      rintro ⟨other, guards'⟩
      exact other (sound.single j i guards' guards)
    rw [guarded.remove_eq] at signals
    refine ⟨quiet, fun j k here => absurd here (nobody j), ?_, ?_⟩
    · simp [signals, nobody]
    · exact .inl (by rw [signals]; exact ⟨rfl, rfl⟩)
  | joined signals flags =>
    have same (j : Nat) : q.Guards j ↔ p.Guards j := by simp [guards_append flags]
    refine ⟨quiet, ?_, ?_, ?_⟩
    · simpa only [same] using sound.single
    · simpa only [same, signals] using sound.installed
    · simpa only [signals] using sound.signals
  | installed done flags =>
    obtain ⟨free, made⟩ := Signals.install_eq_ok done
    have nobody (j : Nat) : ¬ p.Guards j := by
      intro guards
      rw [sound.installed.mpr ⟨j, guards⟩] at free
      contradiction
    have last (j : Nat) : q.Guards j ↔ j = p.flags.length := by simp [guards_append flags, nobody]
    refine ⟨quiet, ?_, ?_, ?_⟩
    · intro j k here there
      rw [(last j).mp here, (last k).mp there]
    · simp [made, last]
    · exact .inr ⟨p.signals.current, by rw [made]; exact ⟨rfl, rfl⟩⟩

theorem Sound.after (sound : p.Sound) (event : Event) : (p.after event).Sound := by
  obtain ⟨change, quiet⟩ := change_after sound event
  exact sound.next change quiet

theorem Sound.run (sound : p.Sound) (events : List Event) : (p.run events).Sound := by
  induction events generalizing p with
  | nil => exact sound
  | cons event events ih => exact ih (sound.after event)

theorem sound_new (pid : Int32) (current : FatalSignal → Disposition) :
    Sound { pid, signals := { current } } := by
  refine ⟨by simp [Quiet], by simp [Guards, flags], by simp [Guards, flags], .inl ⟨rfl, rfl⟩⟩

end Sound

section Tenure

variable {before : FatalSignal → Disposition}

theorem Change.length_le (change : p.Change q) : p.flags.length ≤ q.flags.length := by
  cases change with
  | idle _ flags | restored _ _ flags | removed _ _ _ flags | joined _ flags | installed _ flags =>
    simp [flags]

/-- Nobody gets the guard who had been there without it. -/
theorem Change.earlier (change : p.Change q) (known : i < p.flags.length) (guards : q.Guards i) :
    p.Guards i := by
  cases change with
  | idle _ flags | restored _ _ flags =>
    rw [Guards, flags] at guards
    exact guards
  | removed j gone _ flags => exact ((guards_set_false gone flags).mp guards).2
  | joined _ flags | installed _ flags =>
    rcases (guards_append flags).mp guards with earlier | ⟨last, -⟩
    · exact earlier
    · exact absurd last (Nat.ne_of_lt known)

/-- As long as one has the guard, what it has saved is left alone. -/
theorem Change.guarded (change : p.Change q) (sound : p.Sound) (guards : p.Guards i)
    (guarded : p.signals.Guarded before) (still : q.Guards i) : q.signals.Guarded before := by
  cases change with
  | idle signals | joined signals => rwa [signals]
  | restored signal signals =>
    rw [signals]
    exact guarded.restore signal
  | removed j gone _ flags =>
    obtain ⟨other, -⟩ := (guards_set_false gone flags).mp still
    exact absurd (sound.single i j guards gone) other
  | installed done =>
    have free := (Signals.install_eq_ok done).1
    rw [guarded.installed] at free
    contradiction

/-- When it gives the guard up, all signals do what they did before it got it. -/
theorem Change.gone (change : p.Change q) (guards : p.Guards i)
    (guarded : p.signals.Guarded before) (gone : ¬ q.Guards i) :
    q.signals = { current := before } := by
  cases change with
  | idle _ flags | restored _ _ flags =>
    rw [Guards, flags] at gone
    exact absurd guards gone
  | removed _ _ signals => rw [signals, guarded.remove_eq]
  | joined _ flags | installed _ flags =>
    exact absurd ((guards_append flags).mpr (.inl guards)) gone

/-- What a newcomer with the guard has saved. -/
theorem Change.came (change : p.Change q) (guards : q.Guards i) (new : ¬ p.Guards i) :
    i < q.flags.length ∧ q.signals.Guarded p.signals.current := by
  refine ⟨(List.getElem?_eq_some_iff.mp guards).1, ?_⟩
  cases change with
  | idle _ flags | restored _ _ flags =>
    rw [Guards, flags] at guards
    exact absurd guards new
  | removed j gone _ flags => exact absurd ((guards_set_false gone flags).mp guards).2 new
  | joined _ flags =>
    rcases (guards_append flags).mp guards with earlier | ⟨-, none⟩
    · exact absurd earlier new
    · contradiction
  | installed done =>
    rw [(Signals.install_eq_ok done).2]
    exact ⟨rfl, rfl⟩

theorem guarded_run (sound : p.Sound) (known : i < p.flags.length)
    (guarded : p.Guards i → p.signals.Guarded before) (events : List Event) :
    (p.run events).Guards i → (p.run events).signals.Guarded before := by
  induction events generalizing p with
  | nil => exact guarded
  | cons event events ih =>
    obtain ⟨change, -⟩ := change_after sound event
    apply ih (sound.after event) (Nat.lt_of_lt_of_le known change.length_le)
    intro still
    have guards := change.earlier known still
    exact change.guarded sound guards (guarded guards) still

end Tenure

section Exclusive

theorem install_of_guarded (sound : p.Sound) (guards : p.Guards i) (registry : Registry Nat)
    (threads : Option Int32) (refusals : FatalSignal → Option Int32) :
    p.install registry threads refusals = (refuse .guardInstalled, p) := by
  have installed := sound.installed.mpr ⟨i, guards⟩
  rw [install, Signals.install_of_installed installed]

theorem create_of_guarded (sound : p.Sound) (guards : p.Guards i) {config : Config}
    (wanted : config.installCrashGuard = true) (channels : Channels) (faults : Faults) :
    p.create config channels faults =
      (refuse (if config.maxHandles = 0 then .noHandles else .guardInstalled), p) := by
  have refused : p.signals.install faults.threads faults.handlers =
      (refuse .guardInstalled, p.signals) :=
    Signals.install_of_installed (sound.installed.mpr ⟨i, guards⟩)
  have created : (Client.create config p.pid channels p.signals faults : Result (Client Nat)) =
      refuse (if config.maxHandles = 0 then .noHandles else .guardInstalled) := by
    rw [Client.create_of_refused wanted refused]
    split <;> rfl
  cases result : p.create config channels faults with
  | mk outcome q =>
    have outcome' : outcome =
        refuse (if config.maxHandles = 0 then .noHandles else .guardInstalled) := by
      unfold create at result
      rw [created] at result
      exact (Prod.mk.inj result).1.symm
    rw [outcome'] at result ⊢
    rw [create_eq_error sound result]

theorem signals_install_of_free (sound : p.Sound) (free : ∀ i, ¬ p.Guards i) :
    ∃ signals, p.signals.install none (fun _ => none) = (.ok (), signals) := by
  have installed : p.signals.installed = false := by
    rw [← Bool.not_eq_true, sound.installed]
    rintro ⟨i, guards⟩
    exact free i guards
  rcases Signals.install_cases installed none (fun _ => none) with ⟨-, -, result⟩ | ⟨failing, -⟩
  · exact ⟨_, result⟩
  · exact absurd ⟨rfl, fun _ => rfl⟩ failing

theorem install_of_free (sound : p.Sound) (free : ∀ i, ¬ p.Guards i) (registry : Registry Nat) :
    (p.install registry none fun _ => none).1 = .ok () := by
  obtain ⟨signals, done⟩ := signals_install_of_free sound free
  rw [install, done]

theorem create_of_free (sound : p.Sound) (free : ∀ i, ¬ p.Guards i) {config : Config}
    (some_ : config.maxHandles ≠ 0) (channels : Channels) :
    (p.create config channels {}).1 = .ok () := by
  obtain ⟨signals, done⟩ := signals_install_of_free sound free
  cases result : p.create config channels {} with
  | mk outcome q =>
    cases outcome with
    | ok u => rfl
    | error e =>
      unfold create at result
      split at result
      · simp at result
      · rename_i cause failed
        rcases Client.create_eq_error failed with ⟨none, -⟩ | ⟨-, -, signals', refused⟩
        · exact absurd none some_
        · cases done.symm.trans refused

end Exclusive

/-- Whatever happens to a process: nobody else has the guard while one has it, and an attempt at it
is refused then. An attempt that fails leaves everything as it is. When one gives the guard up, all
signals do what they did right before it came, and the next attempt succeeds. -/
theorem guard_exclusive_and_reversible (pid : Int32) (current : FatalSignal → Disposition)
    (events : List Event) :
    let p := run { pid, signals := { current } } events
    (∀ i j, p.Guards i → p.Guards j → i = j) ∧
    (p.signals.installed = true ↔ ∃ i, p.Guards i) ∧
    (∀ i, p.Guards i →
      (∀ registry threads refusals,
        p.install registry threads refusals = (refuse .guardInstalled, p)) ∧
      ∀ config channels faults, config.installCrashGuard = true →
        p.create config channels faults =
          (refuse (if config.maxHandles = 0 then .noHandles else .guardInstalled), p)) ∧
    (∀ registry threads refusals e q, p.install registry threads refusals = (.error e, q) → q = p) ∧
    (∀ config channels faults e q, p.create config channels faults = (.error e, q) → q = p) ∧
    ∀ event i, ¬ p.Guards i → (p.after event).Guards i →
      ∀ later last, let r := (p.after event).run later
      let t := r.after last
      r.Guards i → ¬ t.Guards i →
        t.signals.current = p.signals.current ∧
        (∀ registry, (t.install registry none fun _ => none).1 = .ok ()) ∧
        ∀ config channels, config.maxHandles ≠ 0 → (t.create config channels {}).1 = .ok () := by
  intro p
  have sound : p.Sound := (sound_new pid current).run events
  refine ⟨sound.single, sound.installed, fun i guards => ⟨install_of_guarded sound guards,
    fun _ channels faults wanted => create_of_guarded sound guards wanted channels faults⟩,
    fun _ _ _ _ _ => install_eq_error sound, fun _ _ _ _ _ => create_eq_error sound, ?_⟩
  intro event i new guards later last r t still gone
  obtain ⟨change, -⟩ := change_after sound event
  obtain ⟨known, guarded⟩ := change.came guards new
  have sound' : r.Sound := (sound.after event).run later
  have guarded' : r.signals.Guarded p.signals.current :=
    guarded_run (sound.after event) known (fun _ => guarded) later still
  obtain ⟨change', -⟩ := change_after sound' last
  have left : t.signals = { current := p.signals.current } := change'.gone still guarded' gone
  have sound'' : t.Sound := sound'.after last
  have free (j : Nat) : ¬ t.Guards j := by
    intro guards'
    have installed := sound''.installed.mpr ⟨j, guards'⟩
    rw [left] at installed
    contradiction
  exact ⟨by rw [left], install_of_free sound'' free,
    fun config channels some_ => create_of_free sound'' free some_ channels⟩

/-- A client gets the guard. A signal arrives, somebody else tries to install a guard in vain, and
the client is finalized. -/
theorem guard_exclusive_and_reversible_of_client :
    let current (x : FatalSignal) : Disposition := if x = .terminate then .calls 3 else .ignored
    let p : Process := { pid := 7, signals := { current } }
    let event : Event := .create { maxHandles := 1, installCrashGuard := true } (.memory {}) {}
    let q := p.after event
    let r := q.run [.raise .terminate (.ok .done), .install (.ofCapacity 2) none fun _ => none]
    let t := r.after (.act 0 (.call .finalize))
    q.Guards 0 ∧ q.signals.current .terminate = .handler ∧
      r.Guards 0 ∧ r.signals.current .terminate = .calls 3 ∧ r.signals.current .abort = .handler ∧
      r.install (.ofCapacity 2) none (fun _ => none) = (refuse .guardInstalled, r) ∧
      ¬ t.Guards 0 ∧ t.signals.current = current ∧
      (t.install (.ofCapacity 2) none fun _ => none).1 = .ok () := by
  intro current p event q r t
  have new : ¬ p.Guards 0 := by decide
  have came : q.Guards 0 := by decide +kernel
  have still : r.Guards 0 := by decide +kernel
  have gone : ¬ t.Guards 0 := by decide +kernel
  obtain ⟨-, -, -, -, -, tenure⟩ := guard_exclusive_and_reversible 7 current []
  obtain ⟨back, next, -⟩ := tenure event 0 new came _ _ still gone
  obtain ⟨-, -, refused, -⟩ := guard_exclusive_and_reversible 7 current
    [event, .raise .terminate (.ok .done), .install (.ofCapacity 2) none fun _ => none]
  exact ⟨came, by decide +kernel, still, by decide +kernel, by decide +kernel,
    (refused 0 still).1 _ _ _, gone, back, next _⟩

end Process
end AudioFocus
