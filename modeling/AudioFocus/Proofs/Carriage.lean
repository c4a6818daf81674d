import AudioFocus.Proofs.Backends

/-!
What is in the acknowledgement FIFOs. The client never keeps one open, so the ends that octets can
be read from are those of the arbiter's connections, and what nobody has read is lost with the last
of these. While somebody listens, a FIFO holds the records of the acknowledgements that were sent
and not taken, one behind the other, and it does so whether its channel is still open or not.
-/
namespace AudioFocus

namespace FileSystem

variable {fs fs' : FileSystem} {i j n : Nat} {acks : List Int32}

/-- A FIFO with so many ends to read from carries the records of these acknowledgements. With no
such end it carries none. -/
structure Carries (fs : FileSystem) (i n : Nat) (acks : List Int32) : Prop where
  queue : fs.nodes[i]? = some (.fifo sharedMode (acks.flatMap Ack.toRecord) n)
  heard : n = 0 → acks = []

section Carries

theorem Carries.of_same (carries : fs.Carries i n acks) (same : fs'.nodes[i]? = fs.nodes[i]?) :
    fs'.Carries i n acks := ⟨same.trans carries.queue, carries.heard⟩

theorem Carries.rewritten (carries : fs.Carries i n acks) (written : fs.Rewritten j fs')
    (other : i ≠ j) : fs'.Carries i n acks := carries.of_same (written.others i other)

theorem Carries.inside (carries : fs.Carries i n acks) : i < fs.nodes.length :=
  (List.getElem?_eq_some_iff.mp carries.queue).1

/-- Another content is put into the FIFO. -/
theorem Carries.setNode (carries : fs.Carries i n acks) {n' : Nat} {acks' : List Int32}
    (heard : n' = 0 → acks' = []) :
    (fs.setNode i (.fifo sharedMode (acks'.flatMap Ack.toRecord) n')).Carries i n' acks' :=
  ⟨List.getElem?_set_self carries.inside, heard⟩

theorem Carries.acknowledged (carries : fs.Carries i n acks) (j : Nat) (handle : Int32) :
    (fs.acknowledged j handle).Carries i n (if j = i ∧ 0 < n then acks ++ [handle] else acks) := by
  by_cases here : j = i
  · subst here
    rw [FileSystem.acknowledged, carries.queue]
    by_cases unheard : n = 0
    · simpa [unheard] using carries
    · have more : acks.flatMap Ack.toRecord ++ Ack.toRecord handle =
          (acks ++ [handle]).flatMap Ack.toRecord := by simp
      simp only [unheard, Nat.pos_of_ne_zero unheard, if_false, and_self, if_true, more]
      exact carries.setNode fun none => absurd none unheard
  · rw [if_neg fun both => here both.1]
    exact carries.rewritten (rewritten_acknowledged fs j handle) (Ne.symm here)

/-- The last end that goes takes with it what has not been read. -/
theorem Carries.closeEnd (carries : fs.Carries i n acks) :
    (fs.closeEnd i).Carries i (n - 1) (if n ≤ 1 then [] else acks) := by
  rw [FileSystem.closeEnd, carries.queue]
  by_cases last : n ≤ 1
  · simp only [last, if_true]
    exact ⟨List.getElem?_set_self carries.inside, fun _ => rfl⟩
  · simp only [last, if_false]
    exact carries.setNode fun none => by omega

theorem Carries.connect (carries : fs.Carries i n acks) {dir : String} {key : ChannelKey}
    {p : Peer} (connected : Peer.connect dir key fs = .ok (p, fs')) :
    fs'.Carries i (if p.node = i then n + 1 else n) acks := by
  obtain ⟨⟨j, fs₁⟩, opened, rest⟩ := bind_eq_ok.mp connected
  obtain ⟨rfl, rfl⟩ := Prod.mk.inj (Except.ok.inj rest)
  obtain ⟨place, -, opened⟩ := bind_eq_ok.mp opened
  dsimp only
  split at opened
  · rename_i k mode queue readers found
    obtain ⟨rfl, rfl⟩ := Prod.mk.inj (Except.ok.inj opened)
    have there := (find?_eq_some.mp found).2
    by_cases here : k = i
    · subst here
      obtain ⟨rfl, rfl, rfl⟩ := Node.fifo.inj (Option.some.inj (there.symm.trans carries.queue))
      rw [if_pos rfl]
      exact carries.setNode nofun
    · rw [if_neg here]
      exact carries.rewritten (rewritten_setNode there rfl) (Ne.symm here)
  · contradiction
  · rename_i k node unlike _ found
    obtain ⟨rfl, rfl⟩ := Prod.mk.inj (Except.ok.inj opened)
    have other : k ≠ i := by
      rintro rfl
      exact unlike _ _ _ (Option.some.inj ((find?_eq_some.mp found).2.symm.trans carries.queue))
    rw [if_neg other]
    exact carries
  · contradiction

theorem Carries.read_nothing {p : Peer} (carries : fs.Carries p.node n []) (wait : Duration) :
    p.waitAck wait fs = (.error (.timedOut wait), p, fs) := by
  have there := carries.queue
  have same := setNode_self there
  simp only [List.flatMap_nil] at there same
  simp only [Peer.waitAck, Peer.read, there, readFifo, List.take_nil, List.drop_nil, same]
  simp [Ack.recordSize]

theorem Carries.read_ack {p : Peer} {handle : Int32} (carries : fs.Carries p.node n (handle :: acks))
    {wait : Duration} (waits : wait.nanoseconds ≠ 0) :
    p.waitAck wait fs = (.ok handle, p,
      fs.setNode p.node (.fifo sharedMode (acks.flatMap Ack.toRecord) n)) := by
  have there := carries.queue
  have size : (Ack.toRecord handle).length = Ack.recordSize := rfl
  have whole : Ack.ofRecord (Ack.toRecord handle) = handle := Record.decodeNumber_encodeNumber handle
  simp only [List.flatMap_cons] at there
  simp only [Peer.waitAck, Peer.read, there, readFifo, waits, if_false, ← size, List.take_left,
    List.drop_left, if_true, whole]

end Carries

end FileSystem

theorem countP_eraseIdx {α : Type} {q : α → Bool} {l : List α} {n : Nat} {a : α}
    (listed : l[n]? = some a) :
    (l.eraseIdx n).countP q + (if q a then 1 else 0) = l.countP q := by
  induction l generalizing n with
  | nil => simp at listed
  | cons b l ih =>
    cases n with
    | zero =>
      obtain rfl : b = a := by simpa using listed
      rw [List.eraseIdx_cons_zero, List.countP_cons]
    | succ n =>
      have rest := ih (by simpa using listed)
      rw [List.eraseIdx_cons_succ, List.countP_cons, List.countP_cons]
      omega

namespace FifoChannels

open FileSystem

theorem others_scan {fs : FileSystem} {i : Nat}
    (entries : List ((ChannelKey × FifoChannel) × Nat)) (other : ∀ x ∈ entries, x.1.2.node ≠ i) :
    (FifoChannels.scan fs entries).2.nodes[i]? = fs.nodes[i]? := by
  induction entries generalizing fs with
  | nil => rfl
  | cons x entries ih =>
    obtain ⟨⟨key, ch⟩, k⟩ := x
    have read := (rewritten_readFifo fs ch.node Event.recordSize).others i
      (other _ List.mem_cons_self).symm
    simp only [FifoChannels.scan]
    split
    · exact read
    · exact (ih fun x member => other x (List.mem_cons_of_mem _ member)).trans read

end FifoChannels

namespace FifoWorld

open FileSystem FifoChannels

variable {base : FileSystem} {place : Place} {w : FifoWorld} {i : Nat} {acks : List Int32}

/-- How many connections read from a node. -/
def listeners (w : FifoWorld) (i : Nat) : Nat := w.peers.countP (·.node = i)

/-- Acknowledgements on a channel go into this node, and somebody listens there. -/
def Reaches (w : FifoWorld) (key : ChannelKey) (i : Nat) : Prop :=
  (w.channels.channels.get? key).map (·.node + 1) = some i ∧ 0 < w.listeners i

instance (w : FifoWorld) (key : ChannelKey) (i : Nat) : Decidable (w.Reaches key i) :=
  inferInstanceAs (Decidable (_ ∧ _))

/-- The acknowledgements that a call puts into a node. -/
def sent (w : FifoWorld) (i : Nat) : FifoCall → List Int32
  | .sendAck key handle => if w.Reaches key i then [handle] else []
  | .closeChannel key => if w.refs key = 1 ∧ w.Reaches key i then [key.finalAck] else []
  | _ => []

/-- The acknowledgements that a call takes out of a node. -/
def taken (w : FifoWorld) (i : Nat) : FifoCall → List Int32
  | .waitAck n wait =>
    match w.peers[n]? with
    | some p => if p.node = i then (p.waitAck wait w.fs).1.toOption.toList else []
    | none => []
  | _ => []

theorem listeners_eq_zero : w.listeners i = 0 ↔ ∀ p ∈ w.peers, p.node ≠ i := by
  simp [listeners, List.countP_eq_zero]

theorem refs_of_found {key : ChannelKey} {ch : FifoChannel}
    (found : w.channels.channels.get? key = some ch) : w.refs key = ch.refs := by
  rw [refs, Channels.refs, found]
  rfl

theorem reaches_iff {key : ChannelKey} {ch : FifoChannel}
    (found : w.channels.channels.get? key = some ch) :
    w.Reaches key i ↔ ch.node + 1 = i ∧ 0 < w.listeners i := by
  rw [Reaches, found, Option.map_some, Option.some.injEq]

theorem not_reaches_of_closed {key : ChannelKey} (closed : w.channels.channels.get? key = none) :
    ¬ w.Reaches key i := by
  rw [Reaches, closed]
  exact fun reaches => nomatch reaches.1

/-- What a FIFO carries before a call and after it. Only the end of a connection loses any. -/
def Carried (w : FifoWorld) (i : Nat) (acks : List Int32) (call : FifoCall) : Prop :=
  ∃ left, (w.after call).fs.Carries i ((w.after call).listeners i) left ∧
    ((∀ n, call ≠ .disconnect n) → acks ++ w.sent i call = w.taken i call ++ left)

section Calls

/-- Nothing has happened to the FIFO, and its readers are the same. -/
theorem carried_of_same (carries : w.fs.Carries i (w.listeners i) acks) {call : FifoCall}
    (same : (w.after call).fs.nodes[i]? = w.fs.nodes[i]?)
    (peers : (w.after call).peers = w.peers) (sent : w.sent i call = [])
    (taken : w.taken i call = []) : w.Carried i acks call := by
  have listeners : (w.after call).listeners i = w.listeners i :=
    congrArg (List.countP _) peers
  refine ⟨acks, listeners ▸ carries.of_same same, fun _ => ?_⟩
  rw [sent, taken, List.append_nil, List.nil_append]

theorem carried_of_idle (carries : w.fs.Carries i (w.listeners i) acks) {call : FifoCall}
    (idle : w.after call = w) (sent : w.sent i call = []) (taken : w.taken i call = []) :
    w.Carried i acks call :=
  carried_of_same carries (by rw [idle]) (by rw [idle]) sent taken

theorem carried_openChannel (inStep : InStep base place w)
    (carries : w.fs.Carries i (w.listeners i) acks) {key : ChannelKey}
    (lacks : base.Lacks place key) : w.Carried i acks (.openChannel key) := by
  refine carried_of_same carries ?_ rfl rfl rfl
  change (w.channels.openChannel w.fs key).2.2.nodes[i]? = w.fs.nodes[i]?
  rcases inStep.mirrors.openChannel_cases lacks with
    ⟨ch, -, opened⟩ | ⟨-, e, more, -, opened⟩ | ⟨-, -, -, opened⟩
  · rw [opened]
  · rw [opened]
    exact List.getElem?_append_left carries.inside
  · rw [opened]
    exact List.getElem?_append_left carries.inside

theorem carried_closeChannel (inStep : InStep base place w)
    (carries : w.fs.Carries i (w.listeners i) acks)
    (apart : ∀ e ∈ w.channels.channels.entries, e.2.node ≠ i) (key : ChannelKey) :
    w.Carried i acks (.closeChannel key) := by
  rcases inStep.mirrors.closeChannel_cases key with
    ⟨closed, -⟩ | ⟨ch, found, shared, result⟩ | ⟨ch, found, last, result⟩
  · exact carried_of_idle carries (closeChannel_of_closed closed)
      (if_neg fun both => not_reaches_of_closed closed both.2) rfl
  · refine carried_of_same carries ?_ rfl ?_ rfl
    · change (w.channels.closeChannel w.fs key).2.nodes[i]? = _
      rw [result]
    · rw [sent, refs_of_found found]
      exact if_neg fun both => by omega
  · have given := carries.rewritten (rewritten_closeEnd w.fs ch.node)
      (apart _ (mem_of_get? found)).symm
    have told := given.acknowledged (ch.node + 1) key.finalAck
    have nodes : (w.closeChannel key).fs.nodes =
        ((w.fs.closeEnd ch.node).acknowledged (ch.node + 1) key.finalAck).nodes := by
      change (w.channels.closeChannel w.fs key).2.nodes = _
      rw [result]
      rfl
    have opened : 0 < w.refs key := by
      rw [← mem_keys_iff inStep.counted inStep.mirrors.keys]
      exact List.mem_map_of_mem (mem_of_get? found)
    rw [refs_of_found found] at opened
    have one : ch.refs = 1 := by omega
    refine ⟨_, told.of_same (congrArg (·[i]?) nodes), fun _ => ?_⟩
    simp only [sent, taken, refs_of_found found, reaches_iff found, one]
    by_cases here : ch.node + 1 = i ∧ 0 < w.listeners i <;> simp [here]

theorem carried_sendAck (inStep : InStep base place w)
    (carries : w.fs.Carries i (w.listeners i) acks) {key : ChannelKey}
    (lacks : base.Lacks place key) (handle : Int32) : w.Carried i acks (.sendAck key handle) := by
  cases found : w.channels.channels.get? key with
  | none =>
    refine carried_of_idle carries ?_ (if_neg (not_reaches_of_closed found)) rfl
    have sent := inStep.mirrors.sendAck_of_closed lacks found handle
    cases fits : checkPath (key.ackPath w.channels.dir) with
    | ok =>
      rw [fits] at sent
      exact sendAck_of_ok sent
    | error e =>
      rw [fits] at sent
      exact sendAck_of_error sent
  | some ch =>
    have done : w.after (.sendAck key handle) =
        { w with fs := w.fs.acknowledged (ch.node + 1) handle } :=
      sendAck_of_ok (inStep.mirrors.sendAck_of_open found handle)
    rw [Carried, done]
    refine ⟨_, carries.acknowledged (ch.node + 1) handle, fun _ => ?_⟩
    simp only [sent, taken, reaches_iff found]
    by_cases here : ch.node + 1 = i ∧ 0 < w.listeners i <;> simp [here]

theorem carried_nextEvent (carries : w.fs.Carries i (w.listeners i) acks)
    (apart : ∀ e ∈ w.channels.channels.entries, e.2.node ≠ i) (o : Enumeration) :
    w.Carried i acks (.nextEvent o) := by
  refine carried_of_same carries ?_ rfl rfl rfl
  have read := (w.nextEvent_eq o).2.1
  change (w.nextEvent o).2.fs.nodes[i]? = _
  rw [read]
  exact others_scan _ fun x member => apart x.1 ((mem_scanOrder o).mp ⟨x, member, rfl⟩)

theorem carried_connect (carries : w.fs.Carries i (w.listeners i) acks) (key : ChannelKey) :
    w.Carried i acks (.connect key) := by
  cases result : Peer.connect w.channels.dir key w.fs with
  | error e => exact carried_of_idle carries (connect_of_error result) rfl rfl
  | ok x =>
    obtain ⟨p, fs⟩ := x
    have done : w.after (.connect key) = { w with peers := w.peers ++ [p], fs } :=
      connect_of_ok result
    have more : (w.after (.connect key)).listeners i =
        if p.node = i then w.listeners i + 1 else w.listeners i := by
      rw [done, listeners, List.countP_append, List.countP_singleton]
      by_cases here : p.node = i <;> simp [here, listeners]
    refine ⟨acks, ?_, fun _ => List.append_nil acks⟩
    rw [more, done]
    exact carries.connect result

theorem carried_post (inStep : InStep base place w)
    (carries : w.fs.Carries i (w.listeners i) acks)
    (apart : ∀ e ∈ w.channels.channels.entries, e.2.node ≠ i) (n : Nat) (e : Event) :
    w.Carried i acks (.post n e) := by
  have same : (w.post n e).fs.nodes[i]? = w.fs.nodes[i]? ∧ (w.post n e).peers = w.peers := by
    unfold FifoWorld.post
    split
    · exact ⟨rfl, rfl⟩
    · rename_i p listed
      split
      · rename_i fs posted
        have attached := inStep.attached p (List.mem_of_getElem? listed)
        obtain ⟨ch, found, written⟩ := inStep.mirrors.posted attached posted
        exact ⟨written.others i (apart _ (mem_of_get? found)).symm, rfl⟩
      · exact ⟨rfl, rfl⟩
  exact carried_of_same carries same.1 same.2 rfl rfl

theorem carried_waitAck (carries : w.fs.Carries i (w.listeners i) acks) (n : Nat)
    (wait : Duration) : w.Carried i acks (.waitAck n wait) := by
  cases listed : w.peers[n]? with
  | none =>
    refine carried_of_idle carries ?_ rfl ?_
    · simp only [after, FifoWorld.waitAck, listed, Option.map_none]
    · simp only [taken, listed]
  | some p =>
    have done : w.after (.waitAck n wait) = { w with
        peers := w.peers.set n (p.waitAck wait w.fs).2.1
        fs := (p.waitAck wait w.fs).2.2 } := by
      simp only [after, FifoWorld.waitAck, listed, Option.map_some]
    obtain ⟨⟨offset, moved⟩, written⟩ := p.waited wait w.fs
    have readers : (w.after (.waitAck n wait)).listeners i = w.listeners i := by
      obtain ⟨inside, there⟩ := List.getElem?_eq_some_iff.mp listed
      have counted := List.boole_getElem_le_countP (p := fun p : Peer => decide (p.node = i)) inside
      rw [done, moved, listeners, listeners, List.countP_set inside, there]
      rw [there] at counted
      dsimp only at counted ⊢
      omega
    have left : ∃ left, (p.waitAck wait w.fs).2.2.Carries i (w.listeners i) left ∧
        acks = w.taken i (.waitAck n wait) ++ left := by
      simp only [taken, listed]
      by_cases here : p.node = i
      · subst here
        by_cases brief : wait.nanoseconds = 0
        · refine ⟨acks, ?_, ?_⟩ <;> simp [Peer.waitAck, brief, carries, Except.toOption]
        · cases acks with
          | nil =>
            rw [carries.read_nothing wait]
            refine ⟨[], carries, ?_⟩
            simp [Except.toOption]
          | cons handle rest =>
            rw [carries.read_ack brief]
            refine ⟨rest, carries.setNode fun none => ?_, ?_⟩
            · exact absurd (carries.heard none) (List.cons_ne_nil _ _)
            · simp [Except.toOption]
      · exact ⟨acks, carries.rewritten written (Ne.symm here), by simp [here]⟩
    obtain ⟨left, still, split⟩ := left
    refine ⟨left, ?_, fun _ => ?_⟩
    · rw [readers, done]
      exact still
    · exact (List.append_nil acks).trans split

theorem carried_disconnect (carries : w.fs.Carries i (w.listeners i) acks) (n : Nat) :
    w.Carried i acks (.disconnect n) := by
  cases listed : w.peers[n]? with
  | none =>
    refine carried_of_idle carries ?_ rfl rfl
    simp only [after, FifoWorld.disconnect, listed]
  | some p =>
    have done : w.after (.disconnect n) = { w with
        peers := w.peers.eraseIdx n
        fs := w.fs.closeEnd p.node } := by
      simp only [after, FifoWorld.disconnect, listed, Peer.disconnect]
    have fewer : (w.after (.disconnect n)).listeners i + (if p.node = i then 1 else 0) =
        w.listeners i := by
      have counted := countP_eraseIdx (q := fun p => decide (p.node = i)) listed
      rw [done]
      simpa [listeners] using counted
    by_cases here : p.node = i
    · subst here
      rw [if_pos rfl] at fewer
      have fs : (w.after (.disconnect n)).fs = w.fs.closeEnd p.node := congrArg FifoWorld.fs done
      have closed := carries.closeEnd
      rw [← fewer, Nat.add_sub_cancel, ← fs] at closed
      exact ⟨_, closed, fun other => absurd rfl (other n)⟩
    · rw [if_neg here, Nat.add_zero] at fewer
      refine ⟨acks, ?_, fun other => absurd rfl (other n)⟩
      rw [fewer, done]
      exact carries.rewritten (rewritten_closeEnd w.fs p.node) (Ne.symm here)

theorem carried_after (inStep : InStep base place w)
    (carries : w.fs.Carries i (w.listeners i) acks)
    (apart : ∀ e ∈ w.channels.channels.entries, e.2.node ≠ i) (call : FifoCall)
    (lacks : ∀ key ∈ call.key?, base.Lacks place key) : w.Carried i acks call := by
  cases call with
  | openChannel key => exact carried_openChannel inStep carries (lacks key rfl)
  | closeChannel key => exact carried_closeChannel inStep carries apart key
  | sendAck key handle => exact carried_sendAck inStep carries (lacks key rfl) handle
  | nextEvent o => exact carried_nextEvent carries apart o
  | connect key => exact carried_connect carries key
  | post n e => exact carried_post inStep carries apart n e
  | waitAck n wait => exact carried_waitAck carries n wait
  | disconnect n => exact carried_disconnect carries n

end Calls

section Manned

/-- The acknowledgement FIFO of each open channel carries what its listeners have not taken. -/
def Manned (w : FifoWorld) : Prop :=
  ∀ e ∈ w.channels.channels.entries, ∃ acks,
    w.fs.Carries (e.2.node + 1) (w.listeners (e.2.node + 1)) acks

/-- Nothing is opened or closed. -/
structure Unopened (w w' : FifoWorld) : Prop where
  channels : w'.channels.channels = w.channels.channels
  dir : w'.channels.dir = w.channels.dir
  opens : w'.opens = w.opens

theorem unopened_after (w : FifoWorld) (call : FifoCall) :
    (∃ key, call = .openChannel key) ∨ (∃ key, call = .closeChannel key) ∨
      w.Unopened (w.after call) := by
  have of_same {w' : FifoWorld} (channels : w'.channels = w.channels) (opens : w'.opens = w.opens) :
      w.Unopened w' := ⟨congrArg _ channels, congrArg _ channels, opens⟩
  cases call with
  | openChannel key => exact .inl ⟨key, rfl⟩
  | closeChannel key => exact .inr (.inl ⟨key, rfl⟩)
  | sendAck key handle =>
    refine .inr (.inr (of_same (w.channels_sendAck key handle) ?_))
    change (w.sendAck key handle).opens = w.opens
    unfold FifoWorld.sendAck
    split <;> rfl
  | nextEvent o =>
    obtain ⟨-, -, channels, dir⟩ := w.nextEvent_eq o
    exact .inr (.inr ⟨channels, dir, rfl⟩)
  | connect key =>
    refine .inr (.inr (of_same (w.channels_connect key) ?_))
    simp only [after, FifoWorld.connect]
    split <;> rfl
  | post n e =>
    refine .inr (.inr (of_same (w.channels_post n e) ?_))
    simp only [after, FifoWorld.post]
    split
    · rfl
    · split <;> rfl
  | waitAck n wait =>
    refine .inr (.inr (of_same (w.channels_waitAck n wait) ?_))
    simp only [after, FifoWorld.waitAck]
    split <;> rfl
  | disconnect n =>
    refine .inr (.inr (of_same (w.channels_disconnect n) ?_))
    simp only [after, FifoWorld.disconnect]
    split <;> rfl

theorem exists_of_mem_modify {key : ChannelKey} {f : FifoChannel → FifoChannel}
    {m : ChannelMap FifoChannel} {e : ChannelKey × FifoChannel}
    (member : e ∈ (m.modify key f).entries) (node : ∀ ch, (f ch).node = ch.node) :
    ∃ d ∈ m.entries, d.1 = e.1 ∧ d.2.node = e.2.node := by
  obtain ⟨d, before, rfl⟩ := List.mem_map.mp member
  refine ⟨d, before, ?_⟩
  split <;> simp [node]

/-- A channel that is open after a call was open before, or it is new and nobody listens yet. -/
theorem nodes_after (inStep : InStep base place w) (call : FifoCall)
    (lacks : ∀ key ∈ call.key?, base.Lacks place key) {e : ChannelKey × FifoChannel}
    (opened : e ∈ (w.after call).channels.channels.entries) :
    (∃ d ∈ w.channels.channels.entries, d.1 = e.1 ∧ d.2.node = e.2.node) ∨
      w.channels.channels.get? e.1 = none ∧ e.2.node = w.fs.nodes.length ∧
        (w.after call).fs.Carries (e.2.node + 1) ((w.after call).listeners (e.2.node + 1)) [] := by
  obtain ⟨key, rfl⟩ | ⟨key, rfl⟩ | same := w.unopened_after call
  · change e ∈ (w.channels.openChannel w.fs key).2.1.channels.entries at opened
    rcases inStep.mirrors.openChannel_cases (lacks key rfl) with
      ⟨ch, -, result⟩ | ⟨-, err, more, -, result⟩ | ⟨closed, -, -, result⟩
    · rw [result] at opened
      exact .inl (exists_of_mem_modify opened fun _ => rfl)
    · rw [result] at opened
      exact .inl ⟨e, opened, rfl, rfl⟩
    · rw [result] at opened
      rcases List.mem_append.mp opened with before | last
      · exact .inl ⟨e, (List.mem_filter.mp before).1, rfl, rfl⟩
      · obtain rfl := List.mem_singleton.mp last
        refine .inr ⟨closed, rfl, ?_, fun _ => rfl⟩
        have unheard : (w.openChannel key).listeners (w.fs.nodes.length + 1) = 0 := by
          refine listeners_eq_zero.mpr fun p listed same => ?_
          have inside := (inStep.attached p listed).inside
          omega
        change (w.channels.openChannel w.fs key).2.2.nodes[w.fs.nodes.length + 1]? =
          some (.fifo sharedMode _ ((w.openChannel key).listeners (w.fs.nodes.length + 1)))
        rw [result, unheard]
        simp [paired, extend]
  · change e ∈ (w.channels.closeChannel w.fs key).1.channels.entries at opened
    rcases inStep.mirrors.closeChannel_cases key with
      ⟨-, result⟩ | ⟨ch, -, -, result⟩ | ⟨ch, -, -, result⟩
    · rw [result] at opened
      exact .inl ⟨e, opened, rfl, rfl⟩
    · rw [result] at opened
      exact .inl (exists_of_mem_modify opened fun _ => rfl)
    · rw [result] at opened
      exact .inl ⟨e, (List.mem_filter.mp opened).1, rfl, rfl⟩
  · rw [same.channels] at opened
    exact .inl ⟨e, opened, rfl, rfl⟩

theorem Manned.after (manned : w.Manned) (inStep : InStep base place w) (call : FifoCall)
    (lacks : ∀ key ∈ call.key?, base.Lacks place key) : (w.after call).Manned := by
  intro e opened
  rcases nodes_after inStep call lacks opened with ⟨d, before, -, node⟩ | ⟨-, -, carries⟩
  · obtain ⟨acks, carries⟩ := manned d before
    have apart (x) (other : x ∈ w.channels.channels.entries) : x.2.node ≠ d.2.node + 1 :=
      inStep.mirrors.node_ne_succ other before
    obtain ⟨left, still, -⟩ := carried_after inStep carries apart call lacks
    exact ⟨left, node ▸ still⟩
  · exact ⟨[], carries⟩

end Manned

section Sending

variable {key : ChannelKey}

/-- Where nobody listens an acknowledgement changes nothing. It is refused if the path of the FIFO
cannot be one. -/
theorem sendAck_of_unheard (inStep : InStep base place w) (manned : w.Manned)
    (lacks : base.Lacks place key) (unheard : ∀ i, ¬ w.Reaches key i) (handle : Int32) :
    w.channels.sendAck w.fs key handle =
      (checkPath (key.ackPath w.channels.dir)).map fun _ => w.fs := by
  cases found : w.channels.channels.get? key with
  | none => exact inStep.mirrors.sendAck_of_closed lacks found handle
  | some ch =>
    obtain ⟨-, -, fits, -⟩ := inStep.mirrors.made _ (mem_of_get? found)
    obtain ⟨acks, carries⟩ := manned _ (mem_of_get? found)
    have nobody : w.listeners (ch.node + 1) = 0 := by
      have reaches := unheard (ch.node + 1)
      rw [reaches_iff found] at reaches
      omega
    dsimp only at carries
    rw [inStep.mirrors.sendAck_of_open found, fits, acknowledged, carries.queue, nobody]
    rfl

theorem sendAck_of_open (inStep : InStep base place w) (opened : 0 < w.refs key)
    (handle : Int32) : ∃ fs, w.channels.sendAck w.fs key handle = .ok fs ∧
      fs.entries = w.fs.entries := by
  rw [← mem_keys_iff inStep.counted inStep.mirrors.keys] at opened
  obtain ⟨⟨_, ch⟩, member, rfl⟩ := List.mem_map.mp opened
  have found := get?_of_mem inStep.mirrors.keys member
  exact ⟨_, inStep.mirrors.sendAck_of_open found handle,
    (rewritten_acknowledged w.fs (ch.node + 1) handle).entries⟩

end Sending

end FifoWorld
end AudioFocus
