import AudioFocus.Proofs.Carriage

/-!
What one connection of the arbiter hears. It reads from the acknowledgement FIFO that was there when
it was made, and that FIFO stays even when its name goes: so it hears what is sent on the channel up
to the last close, and that close, but nothing of a later channel by the same name. Who is not
connected hears nothing, then or later.
-/
namespace AudioFocus

namespace FifoCall

/-- The references that a channel has after a call. Once it has none it is gone: what is opened
later is another channel by its name. -/
def left (key : ChannelKey) (refs : Nat) : FifoCall → Nat
  | openChannel other => if other = key ∧ 0 < refs then refs + 1 else refs
  | closeChannel other => if other = key then refs - 1 else refs
  | _ => refs

/-- What a call tells those who listen on a channel with so many references. -/
def tells (key : ChannelKey) (refs : Nat) : FifoCall → List Int32
  | sendAck other handle => if other = key ∧ 0 < refs then [handle] else []
  | closeChannel other => if other = key ∧ refs = 1 then [key.finalAck] else []
  | _ => []

/-- Whether the arbiter begins or ends a connection. -/
def links : FifoCall → Bool
  | connect _ | disconnect _ => true
  | _ => false

end FifoCall

/-- The references that a channel has after some calls, until it is gone. -/
def leftAfter (key : ChannelKey) (refs : Nat) (calls : List FifoCall) : Nat :=
  calls.foldl (FifoCall.left key) refs

/-- What calls tell those who listen on a channel all along. -/
def told (key : ChannelKey) : Nat → List FifoCall → List Int32
  | _, [] => []
  | refs, call :: calls => call.tells key refs ++ told key (call.left key refs) calls

/-- What a wait brings where these acknowledgements have been told and not taken. -/
def awaited (wait : Duration) : List Int32 → Result Int32
  | [] => .error (.timedOut wait)
  | handle :: _ => .ok handle

section Told

variable {key : ChannelKey}

theorem told_append (refs : Nat) (calls more : List FifoCall) :
    told key refs (calls ++ more) =
      told key refs calls ++ told key (leftAfter key refs calls) more := by
  induction calls generalizing refs with
  | nil => rfl
  | cons call calls ih =>
    rw [List.cons_append, told, told, ih, List.append_assoc]
    rfl

@[simp] theorem FifoCall.left_of_gone (call : FifoCall) : call.left key 0 = 0 := by
  cases call <;> simp [left]

/-- Of a channel that is gone nothing is heard any more. -/
theorem told_of_gone (calls : List FifoCall) : told key 0 calls = [] := by
  induction calls with
  | nil => rfl
  | cons call calls ih =>
    have silent : call.tells key 0 = [] := by cases call <;> simp [FifoCall.tells]
    rw [told, call.left_of_gone, silent, ih, List.append_nil]

example : told (.focus 1 5) 2 [.sendAck (.focus 1 5) 9, .closeChannel (.focus 1 5),
    .sendAck (.watch 1) 8, .sendAck (.focus 1 5) 7, .closeChannel (.focus 1 5),
    .openChannel (.focus 1 5), .sendAck (.focus 1 5) 6] = [9, 7, 5] := by decide

end Told

namespace FileSystem

/-- The names of a channel are free in the directory of a path, if it is one. -/
def Free (fs : FileSystem) (dir : String) (key : ChannelKey) : Prop :=
  ∀ place, fs.directory dir = .ok place → fs.Lacks place key

end FileSystem

namespace FifoWorld

open FileSystem FifoChannels

variable {base : FileSystem} {place : Place} {w : FifoWorld} {key : ChannelKey} {p : Peer}
  {refs : Nat} {acks : List Int32}

/-- The acknowledgements that calls take out of a node. -/
def takenBy (w : FifoWorld) (i : Nat) : List FifoCall → List Int32
  | [] => []
  | call :: calls => w.taken i call ++ (w.after call).takenBy i calls

theorem refs_after (inStep : InStep base place w) (used : 0 < w.refs key) (call : FifoCall) :
    (w.after call).refs key = call.left key (w.refs key) := by
  have unopened := w.unopened_after call
  cases call with
  | openChannel other =>
    have opened : (Channels.fifo w.channels w.fs).openChannel other =
      ((w.channels.openChannel w.fs other).1.mapError .system, .fifo
        (w.channels.openChannel w.fs other).2.1 (w.channels.openChannel w.fs other).2.2) := rfl
    by_cases same : other = key
    · subst same
      obtain ⟨ch, found⟩ : ∃ ch, w.channels.channels.get? other = some ch :=
        Option.isSome_iff_exists.mp ((Channels.isOpen_iff_refs inStep.counted other).mpr used)
      have done : (w.channels.openChannel w.fs other).1 = .ok () := by
        rw [FifoChannels.openChannel, found]
      rw [done] at opened
      have more := Channels.refs_openChannel opened other
      rw [if_pos rfl] at more
      exact more.trans (if_pos ⟨rfl, used⟩).symm
    · have kept : (w.openChannel other).refs key = w.refs key := by
        cases result : (w.channels.openChannel w.fs other).1 with
        | error e =>
          rw [result] at opened
          exact (Channels.kept_openChannel_error opened).refs key
        | ok =>
          rw [result] at opened
          have more := Channels.refs_openChannel opened key
          rwa [if_neg (Ne.symm same)] at more
      exact kept.trans (if_neg fun both => same both.1).symm
  | closeChannel other =>
    have fewer := (Channels.fifo w.channels w.fs).refs_closeChannel_eq other key
    change (w.closeChannel other).refs key = w.refs key - _ at fewer
    change (w.closeChannel other).refs key = _
    rw [fewer, FifoCall.left]
    by_cases same : other = key
    · rw [if_pos same, if_pos same.symm]
    · rw [if_neg same, if_neg (Ne.symm same), Nat.sub_zero]
  | sendAck | nextEvent | connect | post | waitAck | disconnect =>
    obtain ⟨_, ⟨⟩⟩ | ⟨_, ⟨⟩⟩ | same := unopened
    exact congrFun (refs_of_channels same.channels) key

/-- The one connection there is, to a channel that has so many references left. It reads from a FIFO
that carries these acknowledgements, and that is the channel's until the channel is gone. -/
structure Hears (base : FileSystem) (place : Place) (key : ChannelKey) (w : FifoWorld) (p : Peer)
    (refs : Nat) (acks : List Int32) : Prop where
  inStep : InStep base place w
  manned : w.Manned
  peers : w.peers = [p]
  carries : w.fs.Carries p.node 1 acks
  live : 0 < refs → w.refs key = refs ∧
    ∃ ch, w.channels.channels.get? key = some ch ∧ ch.node + 1 = p.node
  gone : refs = 0 → ∀ e ∈ w.channels.channels.entries, e.2.node + 1 ≠ p.node

namespace Hears

theorem listeners (hears : Hears base place key w p refs acks) (i : Nat) :
    w.listeners i = if p.node = i then 1 else 0 := by
  rw [FifoWorld.listeners, hears.peers, List.countP_singleton]
  simp

theorem reaches_iff (hears : Hears base place key w p refs acks) {other : ChannelKey} {i : Nat} :
    w.Reaches other i ↔ (other = key ∧ 0 < refs) ∧ p.node = i := by
  constructor
  · rintro ⟨named, heard⟩
    obtain ⟨ch, found, rfl⟩ := Option.map_eq_some_iff.mp named
    have here : p.node = ch.node + 1 := by
      rw [hears.listeners] at heard
      by_contra other
      rw [if_neg other] at heard
      contradiction
    have used : 0 < refs := by
      rw [Nat.pos_iff_ne_zero]
      exact fun none => hears.gone none _ (mem_of_get? found) here.symm
    obtain ⟨-, ch', found', node⟩ := hears.live used
    have same := hears.inStep.mirrors.node_inj (mem_of_get? found) (mem_of_get? found')
      (Nat.succ.inj (here.symm.trans node.symm))
    exact ⟨⟨congrArg Prod.fst same, used⟩, here⟩
  · rintro ⟨⟨rfl, used⟩, rfl⟩
    obtain ⟨-, ch, found, node⟩ := hears.live used
    refine ⟨by rw [found, Option.map_some, node], ?_⟩
    rw [hears.listeners, if_pos rfl]
    exact Nat.one_pos

/-- What goes into the FIFO is what the channel tells. -/
theorem sent_eq (hears : Hears base place key w p refs acks) (call : FifoCall) :
    w.sent p.node call = call.tells key refs := by
  cases call with
  | sendAck other handle => simp only [sent, FifoCall.tells, hears.reaches_iff, and_true]
  | closeChannel other =>
    simp only [sent, FifoCall.tells, hears.reaches_iff, and_true]
    by_cases told : other = key ∧ 0 < refs
    · obtain ⟨rfl, used⟩ := told
      rw [(hears.live used).1]
      by_cases one : refs = 1 <;> simp [one, used]
    · have silent : ¬ (other = key ∧ refs = 1) := fun both => told ⟨both.1, by omega⟩
      rw [if_neg fun both => told both.2, if_neg silent]
  | openChannel | nextEvent | connect | post | waitAck | disconnect => rfl

theorem peers_after (hears : Hears base place key w p refs acks) {call : FifoCall}
    (stays : call.links = false) : (w.after call).peers = [p] := by
  rw [← hears.peers]
  cases call with
  | openChannel other => rfl
  | closeChannel other => rfl
  | sendAck other handle =>
    change (w.sendAck other handle).peers = w.peers
    unfold FifoWorld.sendAck
    split <;> rfl
  | nextEvent o => rfl
  | post n e =>
    simp only [after, FifoWorld.post]
    split
    · rfl
    · split <;> rfl
  | waitAck n wait =>
    have same : (p.waitAck wait w.fs).2.1 = p := by
      by_cases brief : wait.nanoseconds = 0
      · simp [Peer.waitAck, brief]
      · have carries := hears.carries
        cases acks with
        | nil => rw [carries.read_nothing wait]
        | cons handle rest => rw [carries.read_ack brief]
    simp only [after, FifoWorld.waitAck, hears.peers]
    cases n with
    | zero => simp [same]
    | succ n => simp [hears.peers]
  | connect | disconnect => contradiction

/-- Each call puts into the FIFO what the channel tells, behind what is there, and takes what it
takes from the front. -/
theorem after (hears : Hears base place key w p refs acks) (call : FifoCall)
    (lacks : ∀ other ∈ call.key?, base.Lacks place other) (stays : call.links = false) :
    ∃ rest, Hears base place key (w.after call) p (call.left key refs) rest ∧
      acks ++ call.tells key refs = w.taken p.node call ++ rest := by
  have attached := hears.inStep.attached p (hears.peers ▸ List.mem_singleton_self p)
  have carries : w.fs.Carries p.node (w.listeners p.node) acks := by
    rw [hears.listeners, if_pos rfl]
    exact hears.carries
  obtain ⟨rest, carries, split⟩ := carried_after hears.inStep carries attached.apart call lacks
  have inStep := hears.inStep.after call lacks
  have peers := hears.peers_after stays
  have one : (w.after call).listeners p.node = 1 := by simp [FifoWorld.listeners, peers]
  have counts (used : 0 < refs) : (w.after call).refs key = call.left key refs := by
    have before := (hears.live used).1
    rw [refs_after hears.inStep (before ▸ used), before]
  refine ⟨rest, ⟨inStep, hears.manned.after hears.inStep call lacks, peers, one ▸ carries,
    fun used' => ?_, fun none e member => ?_⟩, ?_⟩
  · have used : 0 < refs := by
      rw [Nat.pos_iff_ne_zero]
      rintro rfl
      rw [FifoCall.left_of_gone] at used'
      contradiction
    obtain ⟨-, ch, found, node⟩ := hears.live used
    have opened := (mem_keys_iff inStep.counted inStep.mirrors.keys key).mpr (counts used ▸ used')
    obtain ⟨⟨_, ch'⟩, member, rfl⟩ := List.mem_map.mp opened
    refine ⟨counts used, ch', get?_of_mem inStep.mirrors.keys member, ?_⟩
    rcases nodes_after hears.inStep call lacks member with
      ⟨⟨_, d⟩, before, rfl, same⟩ | ⟨closed, -⟩
    · have found' := get?_of_mem hears.inStep.mirrors.keys before
      obtain rfl := Option.some.inj (found.symm.trans found')
      rw [← same]
      exact node
    · rw [found] at closed
      contradiction
  · rcases nodes_after hears.inStep call lacks member with
      ⟨d, before, name, same⟩ | ⟨-, new, -⟩
    · -- It could only be the channel itself, and that has no references left.
      rw [← same]
      intro here
      have used : 0 < refs := by
        rw [Nat.pos_iff_ne_zero]
        exact fun none => hears.gone none d before here
      obtain ⟨-, ch, found, node⟩ := hears.live used
      obtain rfl := hears.inStep.mirrors.node_inj before (mem_of_get? found)
        (Nat.succ.inj (here.trans node.symm))
      have opened := (mem_keys_iff inStep.counted inStep.mirrors.keys key).mp
        (List.mem_map.mpr ⟨e, member, name.symm⟩)
      rw [counts used, none] at opened
      contradiction
    · rw [new]
      have inside := attached.inside
      omega
  · rw [← hears.sent_eq]
    refine split fun n ends => ?_
    rw [ends] at stays
    contradiction

theorem run (hears : Hears base place key w p refs acks) (calls : List FifoCall)
    (lacks : ∀ call ∈ calls, ∀ other ∈ call.key?, base.Lacks place other)
    (stays : ∀ call ∈ calls, call.links = false) :
    ∃ rest, Hears base place key (w.run calls) p (leftAfter key refs calls) rest ∧
      acks ++ told key refs calls = w.takenBy p.node calls ++ rest := by
  induction calls generalizing w refs acks with
  | nil => exact ⟨acks, hears, by simp [told, takenBy]⟩
  | cons call calls ih =>
    obtain ⟨rest, hears₁, split⟩ :=
      hears.after call (lacks call List.mem_cons_self) (stays call List.mem_cons_self)
    obtain ⟨rest', hears₂, split'⟩ := ih hears₁
      (fun other later => lacks other (List.mem_cons_of_mem _ later))
      fun other later => stays other (List.mem_cons_of_mem _ later)
    refine ⟨rest', hears₂, ?_⟩
    rw [told, takenBy, ← List.append_assoc, split, List.append_assoc, split', List.append_assoc]

/-- The next wait brings the next acknowledgement that was sent, or none if there is none. -/
theorem answer (hears : Hears base place key w p refs acks) {wait : Duration}
    (waits : 0 < wait.nanoseconds) : (p.waitAck wait w.fs).1 = awaited wait acks := by
  have carries := hears.carries
  cases acks with
  | nil =>
    rw [carries.read_nothing wait]
    rfl
  | cons handle rest =>
    rw [carries.read_ack (Nat.ne_of_gt waits)]
    rfl

end Hears

/-- A connection to a channel succeeds just if it is open, and hears nothing of what was before. -/
theorem connect_of_refs (inStep : InStep base place w) (manned : w.Manned) (alone : w.peers = [])
    (opened : 0 < w.refs key) : ∃ p fs, Peer.connect w.channels.dir key w.fs = .ok (p, fs) ∧
      Hears base place key (w.connect key) p (w.refs key) [] := by
  obtain ⟨ch, found⟩ : ∃ ch, w.channels.channels.get? key = some ch :=
    Option.isSome_iff_exists.mp ((Channels.isOpen_iff_refs inStep.counted key).mpr opened)
  obtain ⟨lacks, -⟩ := inStep.mirrors.made _ (mem_of_get? found)
  obtain ⟨fs, connected, -⟩ := inStep.mirrors.connect_of_open found
  obtain ⟨acks, carries⟩ := manned _ (mem_of_get? found)
  have nobody : w.listeners (ch.node + 1) = 0 := by simp [listeners, alone]
  obtain rfl := carries.heard nobody
  have heard := carries.connect connected
  rw [nobody, if_pos rfl] at heard
  have done : w.after (.connect key) =
      { w with peers := w.peers ++ [⟨w.channels.dir, key, ch.node + 1, 0⟩], fs } :=
    connect_of_ok connected
  have names : ∀ other ∈ FifoCall.key? (.connect key), base.Lacks place other := by
    rintro other ⟨⟩
    exact lacks
  have inStep' := inStep.after (.connect key) names
  have manned' := manned.after inStep (.connect key) names
  refine ⟨_, fs, connected, ?_⟩
  change Hears base place key (w.after (.connect key)) _ _ _
  rw [done] at inStep' manned' ⊢
  exact ⟨inStep', manned', by rw [alone]; rfl, heard, fun _ => ⟨rfl, ch, found, rfl⟩,
    fun none => absurd none (Nat.ne_of_gt opened)⟩

/-- What an acknowledgement on a channel comes to where nobody listens: nothing at all. It is
refused only if no path leads to its FIFO, so that the channel has never been opened. -/
def Ignores (w : FifoWorld) (key : ChannelKey) : Prop := ∀ handle,
  w.channels.sendAck w.fs key handle = .ok w.fs ∨
    w.opens key = 0 ∧ ∃ e, w.fs.entry w.channels.dir key.ackName = .error e ∧ e ≠ .noEntry ∧
      w.channels.sendAck w.fs key handle = .error e

/-- What holds in a directory after all calls. The path of a channel that was ever opened can be
one. -/
structure Sited (base : FileSystem) (dir : String) (place : Place) (w : FifoWorld) : Prop where
  inStep : InStep base place w
  manned : w.Manned
  site : w.channels.dir = dir
  fits : ∀ key, 0 < w.opens key → checkPath (key.ackPath dir) = .ok ()

section Sited

variable {dir : String}

theorem opens_of_tally {n : ChannelKey → Nat} {key other : ChannelKey} {counts : Bool}
    (opened : 0 < tally n key counts other) : 0 < n other ∨ other = key ∧ counts = true := by
  unfold tally at opened
  split at opened
  · rename_i counted
    by_cases same : other = key
    · exact .inr ⟨same, counted⟩
    · exact .inl (by simpa [same] using opened)
  · exact .inl opened

theorem Sited.after (sited : Sited base dir place w) (call : FifoCall)
    (lacks : ∀ key ∈ call.key?, base.Lacks place key) : Sited base dir place (w.after call) := by
  refine ⟨sited.inStep.after call lacks, sited.manned.after sited.inStep call lacks, ?_, ?_⟩
  · obtain rfl := sited.site
    obtain ⟨key, rfl⟩ | ⟨key, rfl⟩ | same := w.unopened_after call
    · exact (sited.inStep.mirrors.later_openChannel (lacks key rfl)).dir
    · exact (sited.inStep.mirrors.later_closeChannel key).dir
    · exact same.dir
  · intro other opened
    obtain ⟨key, rfl⟩ | ⟨key, rfl⟩ | same := w.unopened_after call
    · rcases opens_of_tally opened with before | ⟨rfl, done⟩
      · exact sited.fits other before
      · obtain rfl := sited.site
        rcases sited.inStep.mirrors.openChannel_cases (lacks other rfl) with
          ⟨ch, found, -⟩ | ⟨-, e, more, -, result⟩ | ⟨-, -, ack, -⟩
        · exact (sited.inStep.mirrors.made _ (mem_of_get? found)).2.2.1
        · have refused : (w.channels.openChannel w.fs other).1.isOk = false := by
            rw [result]
            rfl
          exact absurd done (ne_true_of_eq_false refused)
        · exact ack
    · exact sited.fits other opened
    · exact sited.fits other (same.opens ▸ opened)

theorem Sited.run (sited : Sited base dir place w) (calls : List FifoCall)
    (lacks : ∀ call ∈ calls, ∀ key ∈ call.key?, base.Lacks place key) :
    Sited base dir place (w.run calls) := by
  induction calls generalizing w with
  | nil => exact sited
  | cons call calls ih =>
    exact ih (sited.after call (lacks call List.mem_cons_self))
      fun other later => lacks other (List.mem_cons_of_mem _ later)

theorem sited_new (sound : base.Sound) (found : base.directory dir = .ok place) :
    Sited base dir place { channels := { dir }, fs := base } :=
  ⟨inStep_new sound found, fun _ opened => (nomatch opened), rfl,
    fun _ opened => absurd opened (Nat.lt_irrefl 0)⟩

theorem Sited.ignores (sited : Sited base dir place w) (lacks : base.Lacks place key)
    (unheard : ∀ i, ¬ w.Reaches key i) : w.Ignores key := by
  intro handle
  have sent := sendAck_of_unheard sited.inStep sited.manned lacks unheard handle
  cases fits : checkPath (key.ackPath w.channels.dir) with
  | ok =>
    rw [fits] at sent
    exact .inl sent
  | error e =>
    rw [fits] at sent
    refine .inr ⟨?_, e, ?_, fun none => checkPath_error fits (.inr none), sent⟩
    · refine Nat.eq_zero_of_not_pos fun opened => ?_
      rw [sited.site, sited.fits key opened] at fits
      contradiction
    · rw [entry, ← ChannelKey.ackPath, fits]
      rfl

theorem Sited.ignores_of_alone (sited : Sited base dir place w) (lacks : base.Lacks place key)
    (alone : w.peers = []) : w.Ignores key := by
  refine sited.ignores lacks fun i reaches => ?_
  have nobody : w.listeners i = 0 := by simp [listeners, alone]
  exact Nat.ne_of_gt reaches.2 nobody

/-- One can connect only to what is open. -/
theorem Sited.connect_of_closed (sited : Sited base dir place w) (lacks : base.Lacks place key)
    (closed : w.refs key = 0) : ∃ e, Peer.connect dir key w.fs = .error e := by
  obtain rfl := sited.site
  cases result : Peer.connect w.channels.dir key w.fs with
  | error e => exact ⟨e, rfl⟩
  | ok x =>
    obtain ⟨ch, opened, -⟩ := sited.inStep.mirrors.connected lacks result
    have used := (mem_keys_iff sited.inStep.counted sited.inStep.mirrors.keys key).mp
      (List.mem_map_of_mem (mem_of_get? opened))
    exact absurd closed (Nat.ne_of_gt used)

end Sited

section Lost

variable {dir name : String} {e : SystemError}

theorem entry_of_lost (lost : base.directory dir = .error e) (name : String) :
    ∃ e', base.entry dir name = .error e' := by
  cases reached : base.entry dir name with
  | error e' => exact ⟨e', rfl⟩
  | ok place =>
    obtain ⟨-, parent, found, -⟩ := entry_eq_ok.mp reached
    exact nomatch lost.symm.trans found

/-- Over a path that is no directory's nothing ever happens. -/
theorem after_of_lost (lost : base.directory dir = .error e) (call : FifoCall) :
    ({ channels := { dir }, fs := base } : FifoWorld).after call =
      { channels := { dir }, fs := base } := by
  cases call with
  | openChannel key =>
    obtain ⟨e', stops⟩ := entry_of_lost lost key.eventName
    have refused : base.makeFifo dir key.eventName = .error e' := by
      rw [makeFifo, stops]
      rfl
    have opened : FifoChannels.openChannel { dir } base key =
        (.error e', { dir }, base) := by
      simp only [FifoChannels.openChannel, ChannelMap.get?_empty, makePair, refused]
    simp only [after, FifoWorld.openChannel, opened]
    rfl
  | closeChannel key =>
    simp only [after, FifoWorld.closeChannel, FifoChannels.closeChannel, ChannelMap.get?_empty]
    rfl
  | sendAck key handle =>
    obtain ⟨e', stops⟩ := entry_of_lost lost key.ackName
    have sent := sendAck_of_unreachable (c := { dir }) handle stops
    by_cases ignored : e' = .noReader ∨ e' = .noEntry
    · rw [if_pos ignored] at sent
      exact sendAck_of_ok sent
    · rw [if_neg ignored] at sent
      exact sendAck_of_error sent
  | nextEvent o =>
    have order : o.order [] = [] := List.perm_nil.mp (o.perm [])
    simp [after, FifoWorld.nextEvent, FifoChannels.nextEvent, scanOrder, reordered, order, scan]
  | connect key =>
    obtain ⟨e', stops⟩ := entry_of_lost lost key.ackName
    refine connect_of_error (e := e') ?_
    rw [Peer.connect, openRead, stops]
    rfl
  | post n e => rfl
  | waitAck n wait => rfl
  | disconnect n => rfl

theorem run_of_lost (lost : base.directory dir = .error e) (calls : List FifoCall) :
    run { channels := { dir }, fs := base } calls = { channels := { dir }, fs := base } := by
  induction calls with
  | nil => rfl
  | cons call calls ih =>
    rw [run, List.foldl_cons, after_of_lost lost]
    exact ih

theorem ignores_of_lost (lost : base.directory dir = .error e) (key : ChannelKey) :
    ({ channels := { dir }, fs := base } : FifoWorld).Ignores key := by
  intro handle
  obtain ⟨e', stops⟩ := entry_of_lost lost key.ackName
  have sent := sendAck_of_unreachable (c := { dir }) handle stops
  by_cases ignored : e' = .noReader ∨ e' = .noEntry
  · exact .inl (sent.trans (if_pos ignored))
  · exact .inr ⟨rfl, e', stops, fun none => ignored (.inr none), sent.trans (if_neg ignored)⟩

end Lost

/-- The arbiter connects to a channel, at a time when it has no other connection, after any calls
over a directory that had none of the names used. The connection succeeds just if the channel is
open. What the waits on it bring, as long as it lasts, is what is sent on the channel meanwhile, in
that order, up to and with the last close, each once; when all of it has been taken, waits are in
vain. What is sent on other channels, or after that close, or while there is no connection, changes
nothing at all. -/
theorem acks_heard_by_listener {dir : String} (sound : base.Sound) (before during : List FifoCall)
    (key : ChannelKey)
    (free : ∀ call ∈ before ++ .connect key :: during, ∀ other ∈ call.key?, base.Free dir other)
    (stays : ∀ call ∈ during, call.links = false) :
    let w := run { channels := { dir }, fs := base } before
    let w₁ := w.connect key
    let w₂ := w₁.run during
    let refs := w.refs key
    w.peers = [] →
      (∀ other, base.Free dir other → w.Ignores other) ∧
      (refs = 0 → ∃ e, Peer.connect dir key w.fs = .error e) ∧
      (0 < refs → ∃ p fs rest, Peer.connect dir key w.fs = .ok (p, fs) ∧ w₂.peers = [p] ∧
        told key refs during = w₁.takenBy p.node during ++ rest ∧
        (∀ wait : Duration, 0 < wait.nanoseconds →
          (p.waitAck wait w₂.fs).1 = awaited wait rest) ∧
        (leftAfter key refs during = 0 →
          ∀ more, told key refs (during ++ more) = told key refs during) ∧
        (∀ other, base.Free dir other → other ≠ key ∨ leftAfter key refs during = 0 →
          w₂.Ignores other) ∧
        (0 < leftAfter key refs during → ∀ handle, ∃ fs,
          w₂.channels.sendAck w₂.fs key handle = .ok fs ∧ fs.entries = w₂.fs.entries)) := by
  intro w w₁ w₂ refs alone
  cases found : base.directory dir with
  | error e =>
    have nothing : w = { channels := { dir }, fs := base } := run_of_lost found before
    have unopened : refs = 0 := by
      change w.refs key = 0
      rw [nothing]
      rfl
    obtain ⟨e', stops⟩ := entry_of_lost found key.ackName
    refine ⟨fun other _ => nothing ▸ ignores_of_lost found other, fun _ => ⟨e', ?_⟩,
      fun opened => absurd unopened (Nat.ne_of_gt opened)⟩
    rw [nothing, Peer.connect, openRead, stops]
    rfl
  | ok place =>
    have lacks (call) (member : call ∈ before ++ .connect key :: during) (other)
        (named : other ∈ call.key?) : base.Lacks place other :=
      free call member other named place found
    have sited : Sited base dir place w := (sited_new sound found).run before
      fun call member => lacks call (List.mem_append_left _ member)
    have connecting : FifoCall.connect key ∈ before ++ .connect key :: during :=
      List.mem_append_right _ List.mem_cons_self
    refine ⟨fun other unused => sited.ignores_of_alone (unused place found) alone,
      sited.connect_of_closed (lacks _ connecting key rfl), fun opened => ?_⟩
    obtain ⟨p, fs, connected, hears⟩ :=
      connect_of_refs sited.inStep sited.manned alone opened
    obtain ⟨rest, hears₂, split⟩ := hears.run during
      (fun call member => lacks call (List.mem_append_right _ (List.mem_cons_of_mem _ member)))
      stays
    rw [sited.site] at connected
    have sited₂ : Sited base dir place w₂ :=
      (sited.after (.connect key) (lacks _ connecting)).run during fun call member =>
        lacks call (List.mem_append_right _ (List.mem_cons_of_mem _ member))
    refine ⟨p, fs, rest, connected, hears₂.peers, split, fun wait waits => hears₂.answer waits,
      fun gone more => ?_, fun other unused apart => ?_, fun some_ handle => ?_⟩
    · rw [told_append, gone, told_of_gone, List.append_nil]
    · refine sited₂.ignores (unused place found) fun i reaches => ?_
      obtain ⟨⟨rfl, used⟩, -⟩ := hears₂.reaches_iff.mp reaches
      exact apart.elim (absurd rfl) (Nat.ne_of_gt used)
    · exact sendAck_of_open hears₂.inStep ((hears₂.live some_).1 ▸ some_) handle

/-- A connection to a channel that was opened twice and is closed twice, and opened again. -/
theorem acks_heard_by_listener_of_reopened_channel :
    let base : FileSystem := ⟨[], [(["run"], 0)], [.directory]⟩
    let key : ChannelKey := .focus 1 5
    let before : List FifoCall := [.openChannel key, .openChannel key, .sendAck key 3]
    let during : List FifoCall := [.sendAck key 4, .waitAck 0 (.ofMilliseconds 1), .sendAck key 6,
      .closeChannel key, .closeChannel key, .sendAck key 7, .openChannel key, .sendAck key 8]
    let w := run { channels := { dir := "/run" }, fs := base } before
    let w₁ := w.connect key
    let w₂ := w₁.run during
    w.peers = [] ∧ w.refs key = 2 ∧ told key 2 during = [4, 6, 5] ∧ w₁.takenBy 2 during = [4] ∧
      ∃ p fs, Peer.connect "/run" key w.fs = .ok (p, fs) ∧ p.node = 2 ∧ w₂.peers = [p] ∧
        (p.waitAck (.ofMilliseconds 1) w₂.fs).1 = .ok 6 ∧ w₂.Ignores key := by
  intro base key before during w w₁ w₂
  have sound : base.Sound := by decide
  have directory : base.directory "/run" = .ok ["run"] := by decide +kernel
  have lacks : ∀ call ∈ before ++ .connect key :: during, ∀ other ∈ call.key?,
      base.Lacks ["run"] other := by decide +kernel
  have free (call) (member : call ∈ before ++ .connect key :: during) (other)
      (named : other ∈ call.key?) : base.Free "/run" other := by
    intro place found
    obtain rfl := Except.ok.inj (directory.symm.trans found)
    exact lacks call member other named
  have alone : w.peers = [] := by decide +kernel
  have refs : w.refs key = 2 := by decide +kernel
  have tells : told key 2 during = [4, 6, 5] := by decide
  have takes : w₁.takenBy 2 during = [4] := by decide +kernel
  have node : (Peer.connect "/run" key w.fs).toOption.map (·.1.node) = some 2 := by decide +kernel
  have gone : leftAfter key 2 during = 0 := by decide
  obtain ⟨-, -, listens⟩ := acks_heard_by_listener sound before during key free (by decide) alone
  obtain ⟨p, fs, rest, connected, peers, split, next, -, ignores, -⟩ := listens (refs ▸ by decide)
  have here : p.node = 2 := by
    rw [connected] at node
    simpa [Except.toOption] using node
  change told key (w.refs key) during = w₁.takenBy p.node during ++ rest at split
  rw [refs, here, tells, takes] at split
  obtain rfl : [6, 5] = rest := (List.cons.inj split).2
  have unused : base.Free "/run" key :=
    free _ (List.mem_append_right _ List.mem_cons_self) key rfl
  exact ⟨alone, refs, tells, takes, p, fs, connected, here, peers, next _ (by decide),
    ignores key unused (.inr (refs ▸ gone))⟩

/-- Nobody listens in either case. Where a file stands in the place of the directory, an
acknowledgement is refused; and in a file that has the name of the FIFO it stays, and is what the
next connection brings. -/
theorem ack_refused_or_kept :
    (let base : FileSystem :=
        ⟨[], [(["dev"], 0), (["dev", "null"], 1)], [.directory, .file []]⟩
      let c : FifoChannels := { dir := "/dev/null" }
      base.Free c.dir (.focus 1 5) ∧ c.sendAck base (.focus 1 5) 7 = .error .notDirectory) ∧
    let base : FileSystem :=
      ⟨[], [(["run"], 0), (["run", "FOCUS.1.5r"], 1)], [.directory, .file []]⟩
    let w := run { channels := { dir := "/run" }, fs := base } [.sendAck (.focus 1 5) 7]
    w.peers = [] ∧ w.refs (.focus 1 5) = 0 ∧
      (w.connect (.focus 1 5)).takenBy 1 [.waitAck 0 (.ofMilliseconds 1)] = [7] := by
  refine ⟨?_, by decide +kernel⟩
  intro base c
  have lost : base.directory c.dir = .error .notDirectory := by decide +kernel
  have stops : base.entry c.dir (ChannelKey.focus 1 5).ackName = .error .notDirectory := by
    decide +kernel
  refine ⟨fun place found => ?_, ?_⟩
  · cases lost.symm.trans found
  · exact (sendAck_of_unreachable 7 stops).trans (if_neg (by decide))

end FifoWorld
end AudioFocus
