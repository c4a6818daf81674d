import AudioFocus.Proofs.Directory
import AudioFocus.Proofs.History
import AudioFocus.Proofs.Records
import Mathlib.Algebra.Order.BigOperators.Group.List

/-!
What is in the event FIFOs. Each holds whole records, one behind the other, of the events that were
sent on its channel and not read. A scan that finds any takes the first record of one channel, and
scans until nothing can be read take all of them, each channel's in the order of their sending.
-/
namespace AudioFocus

/-- The texts of an event fit their fields in a record, and nothing of them is lost there. -/
structure Event.Whole (e : Event) : Prop where
  reason : Record.Whole 63 e.reason
  requester : Record.Whole 63 e.requester
  info : Record.Whole 255 e.info

/-- An event as its record carries it: of each text as much as fits, up to a zero in it. -/
def Event.carried (e : Event) : Event := { e with
  reason := Record.beforeZero (String.ofList (Utf8.fit 63 e.reason.toList))
  requester := Record.beforeZero (String.ofList (Utf8.fit 63 e.requester.toList))
  info := Record.beforeZero (String.ofList (Utf8.fit 255 e.info.toList)) }

theorem Event.ofChunk?_toRecord (e : Event) : ofChunk? e.toRecord = some e.carried := by
  obtain ⟨pid, handle, type, state, reason, requester, info⟩ :=
    (toRecord_eq_iff e.length_toRecord).mp rfl
  have read : ofRecord e.toRecord = .ok e.carried := by
    rw [ofRecord_eq_ok, typeWord, stateWord, pid, handle, type, state, reason, requester, info]
    simp only [Record.decodeNumber_encodeNumber, Record.decodeText_encodeText, carried, and_self]
  rw [ofChunk?, if_pos e.length_toRecord, read]
  rfl

theorem Event.carried_of_whole {e : Event} (whole : e.Whole) : e.carried = e := by
  simp only [carried, Record.beforeZero_fit_eq_self.mpr whole.reason,
    Record.beforeZero_fit_eq_self.mpr whole.requester,
    Record.beforeZero_fit_eq_self.mpr whole.info]

/-- The events for one channel, in their order. -/
def lettersTo (key : ChannelKey) (letters : List (ChannelKey × Event)) : List Event :=
  (letters.filter (·.1 = key)).map Prod.snd

@[simp] theorem lettersTo_nil (key : ChannelKey) : lettersTo key [] = [] := rfl

theorem lettersTo_cons (key : ChannelKey) (x : ChannelKey × Event)
    (letters : List (ChannelKey × Event)) :
    lettersTo key (x :: letters) =
      if x.1 = key then x.2 :: lettersTo key letters else lettersTo key letters := by
  by_cases same : x.1 = key <;> simp [lettersTo, same]

theorem lettersTo_append (key : ChannelKey) (letters more : List (ChannelKey × Event)) :
    lettersTo key (letters ++ more) = lettersTo key letters ++ lettersTo key more := by
  simp [lettersTo]

section Drains

variable {σ : Type} {pending : σ → Bool} {next : σ → Option (ChannelKey × Event) × σ}

/-- Events are taken one by one until none is pending. -/
inductive Drains (pending : σ → Bool) (next : σ → Option (ChannelKey × Event) × σ) :
    σ → List (ChannelKey × Event) → σ → Prop
  | done {s : σ} (quiet : pending s = false) : Drains pending next s [] s
  | more {s s' : σ} {letters : List (ChannelKey × Event)} (waits : pending s = true)
      (rest : Drains pending next (next s).2 letters s') :
    Drains pending next s ((next s).1.toList ++ letters) s'

/-- States related to the events that wait on each channel. Whatever is taken is the first of these
on its channel, and nothing waits once nothing is pending. -/
structure Feeds (pending : σ → Bool) (next : σ → Option (ChannelKey × Event) × σ)
    (related : σ → (ChannelKey → List Event) → Prop)
    (size : σ → (ChannelKey → List Event) → Nat) : Prop where
  quiet : ∀ s waiting, related s waiting → pending s = false → ∀ key, waiting key = []
  taken : ∀ s waiting, related s waiting → pending s = true →
    ∃ left, related (next s).2 left ∧ size (next s).2 left < size s waiting ∧
      ∀ key, waiting key = lettersTo key (next s).1.toList ++ left key

variable {related : σ → (ChannelKey → List Event) → Prop}
  {size : σ → (ChannelKey → List Event) → Nat} {s s' : σ} {waiting : ChannelKey → List Event}
  {es : List (ChannelKey × Event)}

/-- What is taken until nothing is pending is what waits, for each channel in its order. -/
theorem Feeds.letters (feeds : Feeds pending next related size)
    (drains : Drains pending next s es s') (start : related s waiting) :
    (∀ key, lettersTo key es = waiting key) ∧ related s' fun _ => [] := by
  induction drains generalizing waiting with
  | done quiet =>
    have nothing := feeds.quiet _ _ start quiet
    obtain rfl : waiting = fun _ => [] := funext nothing
    exact ⟨fun _ => rfl, start⟩
  | more waits _ ih =>
    obtain ⟨left, still, -, split⟩ := feeds.taken _ _ start waits
    obtain ⟨rest, last⟩ := ih still
    refine ⟨fun key => ?_, last⟩
    rw [lettersTo_append, rest, split]

theorem Feeds.exists_drains (feeds : Feeds pending next related size)
    (start : related s waiting) : ∃ es s', Drains pending next s es s' := by
  induction n : size s waiting using Nat.strongRecOn generalizing s waiting with
  | ind n ih =>
    cases waits : pending s with
    | false => exact ⟨[], s, .done waits⟩
    | true =>
      obtain ⟨left, still, smaller, -⟩ := feeds.taken _ _ start waits
      obtain ⟨es, s', rest⟩ := ih _ (n ▸ smaller) still rfl
      exact ⟨_, s', .more waits rest⟩

end Drains

theorem FileSystem.setNode_self {fs : FileSystem} {i : Nat} {node : Node}
    (there : fs.nodes[i]? = some node) : fs.setNode i node = fs := by
  obtain ⟨inside, rfl⟩ := List.getElem?_eq_some_iff.mp there
  rw [setNode, List.set_getElem_self]

namespace FifoChannels

open FileSystem

variable {base fs fs' : FileSystem} {place : Place} {c : FifoChannels} {key : ChannelKey}
  {ch : FifoChannel} {waiting : ChannelKey → List Event}

/-- The event FIFO of each channel holds the records of the events that wait on the channel, and the
client is the one who reads it. -/
structure Fed (c : FifoChannels) (fs : FileSystem) (waiting : ChannelKey → List Event) : Prop where
  queue : ∀ key ch, c.channels.get? key = some ch →
    fs.nodes[ch.node]? = some (.fifo sharedMode ((waiting key).flatMap Event.toRecord) 1)
  whole : ∀ key, ∀ e ∈ waiting key, e.Whole
  closed : ∀ key, c.channels.get? key = none → waiting key = []

theorem readFifo_of_empty {i : Nat} (there : fs.nodes[i]? = some (.fifo sharedMode [] 1))
    (n : Nat) : fs.readFifo i n = ([], fs) := by
  have same := setNode_self there
  unfold readFifo
  rw [there]
  simp only [List.take_nil, List.drop_nil, same]

theorem readFifo_of_record {i : Nat} {e : Event} {rest : List Event}
    (there : fs.nodes[i]? = some (.fifo sharedMode ((e :: rest).flatMap Event.toRecord) 1)) :
    fs.readFifo i Event.recordSize =
      (e.toRecord, fs.setNode i (.fifo sharedMode (rest.flatMap Event.toRecord) 1)) := by
  have size := e.length_toRecord
  unfold readFifo
  rw [there]
  simp only [List.flatMap_cons, ← size, List.take_left, List.drop_left]

/-- A scan takes the first event of one of its channels, if an event waits on any. -/
theorem scan_cases (entries : List ((ChannelKey × FifoChannel) × Nat))
    (queue : ∀ x ∈ entries, fs.nodes[x.1.2.node]? =
      some (.fifo sharedMode ((waiting x.1.1).flatMap Event.toRecord) 1))
    (whole : ∀ key, ∀ e ∈ waiting key, e.Whole) :
    (∀ x ∈ entries, waiting x.1.1 = []) ∨
    ∃ x ∈ entries, ∃ e rest, waiting x.1.1 = e :: rest ∧ scan fs entries =
      (some (x.1.1, e, x.2),
        fs.setNode x.1.2.node (.fifo sharedMode (rest.flatMap Event.toRecord) 1)) := by
  induction entries with
  | nil => exact .inl nofun
  | cons x entries ih =>
    obtain ⟨⟨key, ch⟩, i⟩ := x
    have there := queue _ List.mem_cons_self
    cases first : waiting key with
    | nil =>
      simp only [first, List.flatMap_nil] at there
      have skipped : scan fs (((key, ch), i) :: entries) = scan fs entries := by
        rw [scan, readFifo_of_empty there]
        rfl
      rw [skipped]
      rcases ih fun x member => queue x (List.mem_cons_of_mem _ member) with
        none_ | ⟨x, member, found⟩
      · exact .inl (List.forall_mem_cons.mpr ⟨first, none_⟩)
      · exact .inr ⟨x, List.mem_cons_of_mem _ member, found⟩
    | cons e rest =>
      simp only [first] at there
      refine .inr ⟨_, List.mem_cons_self, e, rest, first, ?_⟩
      have brought := e.ofChunk?_toRecord
      rw [Event.carried_of_whole (whole key e (first ▸ List.mem_cons_self))] at brought
      rw [scan, readFifo_of_record there]
      simp only [brought]

theorem Mirrors.node_inj (m : Mirrors base place c fs) {d e : ChannelKey × FifoChannel}
    (first : d ∈ c.channels.entries) (second : e ∈ c.channels.entries)
    (same : d.2.node = e.2.node) : d = e := by
  obtain ⟨i, iInside, rfl⟩ := List.getElem_of_mem first
  obtain ⟨j, jInside, rfl⟩ := List.getElem_of_mem second
  have apart := List.pairwise_iff_getElem.mp m.apart
  rcases Nat.lt_trichotomy i j with before | here | after
  · have := apart i j iInside jInside before
    omega
  · simp only [here]
  · have := apart j i jInside iInside after
    omega

/-- Nothing has happened to the event FIFOs. -/
theorem Fed.rewritten (fed : Fed c fs waiting) {i : Nat} (written : fs.Rewritten i fs')
    (other : ∀ e ∈ c.channels.entries, e.2.node ≠ i) : Fed c fs' waiting where
  queue key ch found :=
    (written.others ch.node (other _ (mem_of_get? found))).trans (fed.queue key ch found)
  whole := fed.whole
  closed := fed.closed

/-- One event FIFO holds other records. -/
theorem Fed.refilled (m : Mirrors base place c fs) (fed : Fed c fs waiting)
    (found : c.channels.get? key = some ch) {events : List Event}
    (whole : ∀ e ∈ events, e.Whole) :
    Fed c (fs.setNode ch.node (.fifo sharedMode (events.flatMap Event.toRecord) 1))
      (Function.update waiting key events) where
  queue other ch' found' := by
    by_cases same : other = key
    · subst same
      obtain rfl := Option.some.inj (found.symm.trans found')
      rw [Function.update_self]
      exact List.getElem?_set_self (List.getElem?_eq_some_iff.mp (fed.queue other ch found)).1
    · have apart : ch.node ≠ ch'.node := fun node => same (congrArg Prod.fst
        (m.node_inj (mem_of_get? found') (mem_of_get? found) node.symm))
      rw [Function.update_of_ne same, ← fed.queue other ch' found']
      exact List.getElem?_set_ne apart
  whole other := by
    by_cases same : other = key
    · rw [same, Function.update_self]
      exact whole
    · rw [Function.update_of_ne same]
      exact fed.whole other
  closed other closed := by
    have same : other ≠ key := by
      rintro rfl
      rw [found] at closed
      contradiction
    rw [Function.update_of_ne same]
    exact fed.closed other closed

end FifoChannels

namespace FifoWorld

open FileSystem FifoChannels

variable {base : FileSystem} {place : Place} {w : FifoWorld} {waiting : ChannelKey → List Event}

theorem pending_iff (m : Mirrors base place w.channels w.fs) (fed : Fed w.channels w.fs waiting) :
    (Channels.fifo w.channels w.fs).pending = true ↔
      ∃ e ∈ w.channels.channels.entries, waiting e.1 ≠ [] := by
  change (w.channels.channels.entries.any fun e => !(w.fs.waiting e.2.node).isEmpty) = true ↔ _
  rw [List.any_eq_true]
  refine exists_congr fun e => and_congr_right fun member => ?_
  have there := fed.queue e.1 e.2 (get?_of_mem m.keys member)
  have holds : w.fs.waiting e.2.node = (waiting e.1).flatMap Event.toRecord := by
    rw [FileSystem.waiting, there]
  change (!(w.fs.waiting e.2.node).isEmpty) = true ↔ _
  rw [holds, Bool.not_eq_true', List.isEmpty_eq_false_iff]
  refine not_congr ⟨fun nothing => ?_, fun nothing => by rw [nothing, List.flatMap_nil]⟩
  -- A record is never empty, so that only no events leave no octets.
  refine List.eq_nil_iff_forall_not_mem.mpr fun event waits => ?_
  have empty := List.flatMap_eq_nil_iff.mp nothing event waits
  have size := event.length_toRecord
  rw [empty] at size
  contradiction

/-- While events wait a scan takes the first one of some channel, in whatever order it goes. -/
theorem nextEvent_of_pending (m : Mirrors base place w.channels w.fs)
    (fed : Fed w.channels w.fs waiting)
    (pending : (Channels.fifo w.channels w.fs).pending = true) (o : Enumeration) :
    ∃ e ∈ w.channels.channels.entries, ∃ event rest, waiting e.1 = event :: rest ∧
      (w.nextEvent o).1 = some (e.1, event) ∧
      Fed (w.nextEvent o).2.channels (w.nextEvent o).2.fs (Function.update waiting e.1 rest) := by
  have listed (x) (member : x ∈ (w.channels.reordered o).scanOrder) :
      x.1 ∈ w.channels.channels.entries :=
    (mem_scanOrder o).mp ⟨x, member, rfl⟩
  have queue (x) (member : x ∈ (w.channels.reordered o).scanOrder) :=
    fed.queue x.1.1 x.1.2 (get?_of_mem m.keys (listed x member))
  rcases scan_cases _ queue fed.whole with none_ | ⟨x, member, event, rest, first, found⟩
  · obtain ⟨e, member, waits⟩ := (pending_iff m fed).mp pending
    obtain ⟨x, turn, rfl⟩ := (mem_scanOrder o).mpr member
    exact absurd (none_ x turn) waits
  · refine ⟨x.1, listed x member, event, rest, first, ?_, ?_⟩
    · simp only [FifoWorld.nextEvent, FifoChannels.nextEvent, found]
    · have whole : ∀ e ∈ rest, e.Whole := fun e later =>
        fed.whole x.1.1 e (first ▸ List.mem_cons_of_mem _ later)
      have read := fed.refilled m (get?_of_mem m.keys (listed x member)) whole
      simp only [FifoWorld.nextEvent, FifoChannels.nextEvent, found]
      exact { read with }

/-- The state of repeated scans, with the orders that are still to come. -/
def scanNext (s : FifoWorld × (Nat → Enumeration)) :
    Option (ChannelKey × Event) × FifoWorld × (Nat → Enumeration) :=
  let (found, w) := s.1.nextEvent (s.2 0)
  (found, w, fun n => s.2 (n + 1))

/-- Scans until nothing can be read, each in the next of the orders. -/
def Drains (w : FifoWorld) (orders : Nat → Enumeration) (es : List (ChannelKey × Event))
    (w' : FifoWorld) : Prop :=
  ∃ left, AudioFocus.Drains (fun s => (Channels.fifo s.1.channels s.1.fs).pending) scanNext
    (w, orders) es (w', left)

/-- The events of all channels that are open. -/
def total (w : FifoWorld) (waiting : ChannelKey → List Event) : Nat :=
  (w.channels.channels.entries.map fun e => (waiting e.1).length).sum

theorem feeds (base : FileSystem) (place : Place) :
    Feeds (fun s => (Channels.fifo s.1.channels s.1.fs).pending) scanNext
      (fun s waiting => InStep base place s.1 ∧ Fed s.1.channels s.1.fs waiting)
      (fun s waiting => s.1.total waiting) where
  quiet s waiting related quiet key := by
    obtain ⟨inStep, fed⟩ := related
    cases found : s.1.channels.channels.get? key with
    | none => exact fed.closed key found
    | some ch =>
      refine Classical.byContradiction fun waits => ?_
      have pending := (pending_iff inStep.mirrors fed).mpr ⟨_, mem_of_get? found, waits⟩
      rw [quiet] at pending
      contradiction
  taken s waiting related pending := by
    obtain ⟨inStep, fed⟩ := related
    obtain ⟨e, member, event, rest, first, found, read⟩ :=
      nextEvent_of_pending inStep.mirrors fed pending (s.2 0)
    refine ⟨_, ⟨inStep.nextEvent (s.2 0), read⟩, ?_, fun key => ?_⟩
    · refine List.sum_lt_sum _ _ (fun d _ => ?_) ⟨e, member, ?_⟩
      · by_cases same : d.1 = e.1
        · rw [same, Function.update_self, first]
          exact Nat.le_succ _
        · rw [Function.update_of_ne same]
      · rw [Function.update_self, first]
        exact Nat.lt_succ_self _
    · change waiting key = lettersTo key (s.1.nextEvent (s.2 0)).1.toList ++ _
      rw [found]
      by_cases same : key = e.1
      · simp [same, first, lettersTo]
      · rw [Function.update_of_ne same]
        simp [lettersTo, Ne.symm same]

end FifoWorld
end AudioFocus
