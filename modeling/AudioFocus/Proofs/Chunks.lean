import AudioFocus.Proofs.Backends
import Mathlib.Data.List.Nodup

/-!
Event FIFOs with any octets in them. A read takes as much as one record takes, so that the octets of
a channel are read in chunks of this size, from the first one on. A chunk that is no record of an
event is lost, and so is what is left at the end; all others bring their events. A scan may lose
chunks of several channels before it finds an event, but what is read of a channel does not depend
on the other channels, on the order of the scans or on where they start.
-/
namespace AudioFocus

namespace Event

/-- Octets in chunks of the size of a record. The last chunk may be shorter. -/
def chunks (octets : List UInt8) : List (List UInt8) :=
  if octets = [] then []
  else octets.take recordSize :: chunks (octets.drop recordSize)
termination_by octets.length
decreasing_by
  rename_i some_
  have := List.length_pos_iff.mpr some_
  simp only [List.length_drop, recordSize]
  omega

/-- The events of the chunks that are records of events. -/
def ofOctets (octets : List UInt8) : List Event := (chunks octets).filterMap ofChunk?

theorem ofChunk?_of_short {chunk : List UInt8} (short : chunk.length < recordSize) :
    ofChunk? chunk = none := by
  rw [ofChunk?, if_neg (by omega)]

theorem ofOctets_nil : ofOctets [] = [] := by
  rw [ofOctets, chunks]
  rfl

theorem ofOctets_eq (octets : List UInt8) : ofOctets octets =
    (ofChunk? (octets.take recordSize)).toList ++ ofOctets (octets.drop recordSize) := by
  by_cases none_ : octets = []
  · subst none_
    rw [List.take_nil, List.drop_nil, ofOctets_nil, ofChunk?_of_short (by decide)]
    rfl
  · rw [ofOctets, chunks, if_neg none_, List.filterMap_cons]
    cases ofChunk? (octets.take recordSize) <;> rfl

theorem ofOctets_append {chunk : List UInt8} (size : chunk.length = recordSize)
    (rest : List UInt8) :
    ofOctets (chunk ++ rest) = (ofChunk? chunk).toList ++ ofOctets rest := by
  rw [ofOctets_eq, ← size, List.take_left, List.drop_left]

theorem ofOctets_of_short {octets : List UInt8} (short : octets.length < recordSize) :
    ofOctets octets = [] := by
  rw [ofOctets_eq, List.take_of_length_le (by omega), List.drop_of_length_le (by omega),
    ofChunk?_of_short short, ofOctets_nil]
  rfl

/-- A whole record brings its event, and nothing else. -/
theorem ofOctets_of_record {record : List UInt8} {e : Event} (holds : ofChunk? record = some e) :
    ofOctets record = [e] := by
  have size : record.length = recordSize := by
    unfold ofChunk? at holds
    split at holds
    · assumption
    · contradiction
  have alone := ofOctets_append size []
  rw [List.append_nil, holds, ofOctets_nil] at alone
  exact alone

theorem ofOctets_records (events : List Event) :
    ofOctets (events.flatMap toRecord) = events.map carried := by
  induction events with
  | nil => exact ofOctets_nil
  | cons e events ih =>
    rw [List.flatMap_cons, ofOctets_append e.length_toRecord, ofChunk?_toRecord, ih]
    rfl

end Event

theorem Drains.quiet {σ : Type} {pending : σ → Bool}
    {next : σ → Option (ChannelKey × Event) × σ} {s s' : σ} {es : List (ChannelKey × Event)}
    (drains : Drains pending next s es s') : pending s' = false := by
  induction drains with
  | done quiet => exact quiet
  | more _ _ ih => exact ih

/-- If all events are for one channel, they are known. -/
theorem eq_of_lettersTo {key : ChannelKey} {letters : List (ChannelKey × Event)}
    (others : ∀ other, other ≠ key → lettersTo other letters = []) :
    letters = (lettersTo key letters).map (key, ·) := by
  induction letters with
  | nil => rfl
  | cons x letters ih =>
    obtain ⟨k, e⟩ := x
    have own : k = key := by
      apply Classical.byContradiction
      intro apart
      have nothing := others k apart
      simp [lettersTo_cons] at nothing
    subst own
    have rest : ∀ other, other ≠ k → lettersTo other letters = [] := by
      intro other apart
      have nothing := others other apart
      rwa [lettersTo_cons, if_neg (Ne.symm apart)] at nothing
    rw [lettersTo_cons, if_pos rfl, List.map_cons, ← ih rest]

namespace FifoChannels

open FileSystem

variable {base fs fs' : FileSystem} {place : Place} {c : FifoChannels} {key : ChannelKey}
  {ch : FifoChannel} {octets left : ChannelKey → List UInt8}

/-- Each channel has an event FIFO of its own, which the client holds open and in which these octets
wait. -/
structure Piped (c : FifoChannels) (fs : FileSystem) (octets : ChannelKey → List UInt8) :
    Prop where
  keys : (c.channels.entries.map Prod.fst).Nodup
  apart : (c.channels.entries.map (·.2.node)).Nodup
  queue : ∀ e ∈ c.channels.entries, ∃ mode readers,
    fs.nodes[e.2.node]? = some (.fifo mode (octets e.1) (readers + 1))
  closed : ∀ key, c.channels.get? key = none → octets key = []

/-- The name of the event FIFO of a channel leads to the one that the client holds. -/
def Linked (c : FifoChannels) (fs : FileSystem) (key : ChannelKey) (ch : FifoChannel) : Prop :=
  ∃ place, fs.entry c.dir key.eventName = .ok place ∧ fs.entries.lookup place = some ch.node

theorem Linked.sameEntries (linked : Linked c fs key ch) (same : fs.SameEntries fs') :
    Linked c fs' key ch := by
  obtain ⟨place, reached, named⟩ := linked
  exact ⟨place, same.founded.entry reached, same.entries ▸ named⟩

section Reached

/-- Records are octets as well. -/
theorem Mirrors.piped (m : Mirrors base place c fs) {waiting : ChannelKey → List Event}
    (fed : Fed c fs waiting) :
    Piped c fs fun key => (waiting key).flatMap Event.toRecord where
  keys := m.keys
  apart := List.pairwise_map.mpr (m.apart.imp fun before => by omega)
  queue e listed := ⟨sharedMode, 0, fed.queue e.1 e.2 (get?_of_mem m.keys listed)⟩
  closed key closed := by rw [fed.closed key closed, List.flatMap_nil]

theorem Mirrors.linked (m : Mirrors base place c fs) (found : c.channels.get? key = some ch) :
    Linked c fs key ch := by
  obtain ⟨lacks, event, -⟩ := m.made _ (mem_of_get? found)
  exact ⟨_, m.entry_event event, by rw [m.lookup_event lacks, found, Option.map_some]⟩

/-- Channels that were used over a directory are so, whatever happened. -/
theorem piped_of_reach {dir : String} {b : Backends} (sound : base.Sound)
    (found : base.directory dir = .ok place) (reach : Backends.Reach base dir place b) :
    (Piped b.fifo.channels b.fifo.fs fun key =>
      (b.memory.waiting key).flatMap Event.toRecord) ∧
    ∀ key ch, b.fifo.channels.channels.get? key = some ch →
      Linked b.fifo.channels b.fifo.fs key ch := by
  have agreed := Backends.agreed_of_reach sound found reach
  have mirrors := agreed.inStep.mirrors
  exact ⟨mirrors.piped agreed.fed, fun _ _ => mirrors.linked⟩

end Reached

section Step

/-- The event FIFO of one channel holds other octets. -/
theorem Piped.refilled (piped : Piped c fs octets) (member : (key, ch) ∈ c.channels.entries)
    {mode readers : Nat} {old : List UInt8}
    (there : fs.nodes[ch.node]? = some (.fifo mode old (readers + 1))) (more : List UInt8) :
    Piped c (fs.setNode ch.node (.fifo mode more (readers + 1)))
      (Function.update octets key more) where
  keys := piped.keys
  apart := piped.apart
  queue e listed := by
    by_cases here : e.2.node = ch.node
    · obtain rfl : e = (key, ch) :=
        List.inj_on_of_nodup_map piped.apart listed member here
      rw [Function.update_self]
      exact ⟨mode, readers, List.getElem?_set_self (List.getElem?_eq_some_iff.mp there).1⟩
    · have other : e.1 ≠ key := by
        intro same
        obtain rfl : e = (key, ch) := List.inj_on_of_nodup_map piped.keys listed member same
        exact here rfl
      obtain ⟨mode', readers', holds⟩ := piped.queue e listed
      rw [Function.update_of_ne other]
      exact ⟨mode', readers', (List.getElem?_set_ne (Ne.symm here)).trans holds⟩
  closed other closed := by
    have apart : other ≠ key := by
      rintro rfl
      simp [get?_of_mem piped.keys member] at closed
    rw [Function.update_of_ne apart]
    exact piped.closed other closed

theorem Piped.readFifo (piped : Piped c fs octets) (member : (key, ch) ∈ c.channels.entries)
    (n : Nat) : (fs.readFifo ch.node n).1 = (octets key).take n ∧
      Piped c (fs.readFifo ch.node n).2 (Function.update octets key ((octets key).drop n)) := by
  obtain ⟨mode, readers, there⟩ := piped.queue _ member
  unfold FileSystem.readFifo
  rw [there]
  exact ⟨rfl, piped.refilled member there _⟩

/-- Anybody can write into the event FIFO of a channel, by its name. -/
theorem Piped.write (piped : Piped c fs octets) (found : c.channels.get? key = some ch)
    (linked : Linked c fs key ch) (more : List UInt8) :
    ∃ fs', fs.write c.dir key.eventName more = .ok fs' ∧
      Piped c fs' (Function.update octets key (octets key ++ more)) := by
  obtain ⟨place, reached, named⟩ := linked
  have member := mem_of_get? found
  obtain ⟨mode, readers, there⟩ := piped.queue _ member
  have leads : fs.find? place = some (ch.node, .fifo mode (octets key) (readers + 1)) :=
    find?_eq_some.mpr ⟨named, there⟩
  exact ⟨_, by rw [write_of_fifo more reached leads, if_neg (Nat.succ_ne_zero readers)],
    piped.refilled member there _⟩

end Step

section Scan

/-- From each channel octets were taken, whole chunks from the beginning, and these are the events
that they brought. -/
structure Taken (octets left : ChannelKey → List UInt8) (letters : List (ChannelKey × Event)) :
    Prop where
  events : ∀ key, Event.ofOctets (octets key) = lettersTo key letters ++ Event.ofOctets (left key)
  length_le : ∀ key, (left key).length ≤ (octets key).length

protected theorem Taken.refl (octets : ChannelKey → List UInt8) : Taken octets octets [] :=
  ⟨fun _ => rfl, fun _ => Nat.le_refl _⟩

theorem taken_read (octets : ChannelKey → List UInt8) (key : ChannelKey) :
    Taken octets (Function.update octets key ((octets key).drop Event.recordSize))
      ((Event.ofChunk? ((octets key).take Event.recordSize)).map (key, ·)).toList where
  events other := by
    by_cases same : other = key
    · subst same
      rw [Function.update_self, Event.ofOctets_eq (octets other)]
      cases Event.ofChunk? ((octets other).take Event.recordSize) <;> simp [lettersTo_cons]
    · rw [Function.update_of_ne same]
      cases Event.ofChunk? ((octets key).take Event.recordSize) <;>
        simp [lettersTo_cons, Ne.symm same]
  length_le other := by
    by_cases same : other = key
    · subst same
      rw [Function.update_self, List.length_drop]
      omega
    · rw [Function.update_of_ne same]

theorem Taken.trans {letters more : List (ChannelKey × Event)} {rest : ChannelKey → List UInt8}
    (first : Taken octets left letters) (second : Taken left rest more) :
    Taken octets rest (letters ++ more) where
  events key := by rw [first.events, second.events, lettersTo_append, List.append_assoc]
  length_le key := Nat.le_trans (second.length_le key) (first.length_le key)

/-- What a scan of some channels takes. Unless nothing waits on them, something is taken. -/
theorem Piped.scan (piped : Piped c fs octets) (entries : List ((ChannelKey × FifoChannel) × Nat))
    (listed : ∀ x ∈ entries, x.1 ∈ c.channels.entries) :
    ∃ left, Piped c (FifoChannels.scan fs entries).2 left ∧
      Taken octets left ((FifoChannels.scan fs entries).1.map fun x => (x.1, x.2.1)).toList ∧
      ((∀ x ∈ entries, octets x.1.1 = []) ∨
        ∃ x ∈ entries, (left x.1.1).length < (octets x.1.1).length) := by
  induction entries generalizing fs octets with
  | nil => exact ⟨octets, piped, .refl octets, .inl nofun⟩
  | cons x entries ih =>
    obtain ⟨⟨key, ch⟩, i⟩ := x
    obtain ⟨brought, read⟩ := piped.readFifo (listed _ List.mem_cons_self) Event.recordSize
    have first := taken_read octets key
    -- Something is taken of this channel, if anything waits there.
    have progress {left : ChannelKey → List UInt8} {letters : List (ChannelKey × Event)}
        (rest : Taken (Function.update octets key ((octets key).drop Event.recordSize)) left
          letters) (waits : octets key ≠ []) : (left key).length < (octets key).length := by
      have shorter := rest.length_le key
      rw [Function.update_self, List.length_drop] at shorter
      have some_ := List.length_pos_iff.mpr waits
      unfold Event.recordSize at shorter
      omega
    rw [FifoChannels.scan]
    dsimp only
    rw [brought]
    cases holds : Event.ofChunk? ((octets key).take Event.recordSize) with
    | some e =>
      rw [holds] at first
      refine ⟨_, read, first, ?_⟩
      by_cases waits : octets key = []
      · rw [waits, List.take_nil, Event.ofChunk?_of_short (by decide)] at holds
        contradiction
      · exact .inr ⟨_, List.mem_cons_self, progress (.refl _) waits⟩
    | none =>
      rw [holds] at first
      obtain ⟨left, last, rest, ends⟩ :=
        ih read fun x member => listed x (List.mem_cons_of_mem _ member)
      refine ⟨left, last, first.trans rest, ?_⟩
      by_cases waits : octets key = []
      · have same : Function.update octets key ((octets key).drop Event.recordSize) = octets := by
          rw [waits, List.drop_nil, ← waits, Function.update_eq_self]
        rw [same] at ends
        rcases ends with nothing | ⟨x, member, shorter⟩
        · exact .inl (List.forall_mem_cons.mpr ⟨waits, nothing⟩)
        · exact .inr ⟨x, List.mem_cons_of_mem _ member, shorter⟩
      · exact .inr ⟨_, List.mem_cons_self, progress rest waits⟩

theorem sameEntries_scan (fs : FileSystem) (entries : List ((ChannelKey × FifoChannel) × Nat)) :
    fs.SameEntries (FifoChannels.scan fs entries).2 := by
  induction entries generalizing fs with
  | nil => exact .refl fs
  | cons x entries ih =>
    obtain ⟨⟨key, ch⟩, i⟩ := x
    have read := sameEntries_readFifo fs ch.node Event.recordSize
    simp only [FifoChannels.scan]
    split
    · exact read
    · exact read.trans (ih _)

end Scan

end FifoChannels

namespace FifoWorld

open FileSystem FifoChannels

variable {w w' : FifoWorld} {octets : ChannelKey → List UInt8} {orders : Nat → Enumeration}
  {es : List (ChannelKey × Event)}

/-- How many octets wait in all event FIFOs. -/
def backlog (w : FifoWorld) : Nat :=
  (w.channels.channels.entries.map fun e => (w.fs.waiting e.2.node).length).sum

theorem waiting_of_piped (piped : Piped w.channels w.fs octets) {e : ChannelKey × FifoChannel}
    (member : e ∈ w.channels.channels.entries) : w.fs.waiting e.2.node = octets e.1 := by
  obtain ⟨mode, readers, there⟩ := piped.queue e member
  rw [FileSystem.waiting, there]

theorem backlog_of_piped (piped : Piped w.channels w.fs octets) :
    w.backlog = (w.channels.channels.entries.map fun e => (octets e.1).length).sum := by
  unfold backlog
  congr 1
  apply List.map_congr_left
  intro e member
  rw [waiting_of_piped piped member]

theorem pending_iff_of_piped (piped : Piped w.channels w.fs octets) :
    (Channels.fifo w.channels w.fs).pending = true ↔
      ∃ e ∈ w.channels.channels.entries, octets e.1 ≠ [] := by
  change (w.channels.channels.entries.any fun e => !(w.fs.waiting e.2.node).isEmpty) = true ↔ _
  rw [List.any_eq_true]
  apply exists_congr
  intro e
  apply and_congr_right
  intro member
  rw [waiting_of_piped piped member, Bool.not_eq_true', List.isEmpty_eq_false_iff]

/-- Where nothing is to be read, nothing waits on any channel. -/
theorem nothing_of_quiet (piped : Piped w.channels w.fs octets)
    (quiet : (Channels.fifo w.channels w.fs).pending = false) : octets = fun _ => [] := by
  funext key
  cases found : w.channels.channels.get? key with
  | none => exact piped.closed key found
  | some ch =>
    apply Classical.byContradiction
    intro waits
    have pending := (pending_iff_of_piped piped).mpr ⟨_, mem_of_get? found, waits⟩
    rw [quiet] at pending
    contradiction

/-- A scan takes octets if there are any, in whatever order it goes. -/
theorem nextEvent_of_piped (piped : Piped w.channels w.fs octets) (o : Enumeration) :
    ∃ left, Piped (w.nextEvent o).2.channels (w.nextEvent o).2.fs left ∧
      Taken octets left (w.nextEvent o).1.toList ∧
      ((Channels.fifo w.channels w.fs).pending = true →
        (w.nextEvent o).2.backlog < w.backlog) := by
  have listed (x) (member : x ∈ (w.channels.reordered o).scanOrder) :
      x.1 ∈ w.channels.channels.entries :=
    (mem_scanOrder o).mp ⟨x, member, rfl⟩
  obtain ⟨left, scanned, taken, progress⟩ := piped.scan _ listed
  obtain ⟨found, fs, channels, -⟩ := w.nextEvent_eq o
  have piped' : Piped (w.nextEvent o).2.channels (w.nextEvent o).2.fs left := by
    rw [fs]
    exact ⟨channels ▸ scanned.keys, channels ▸ scanned.apart, channels ▸ scanned.queue,
      channels ▸ scanned.closed⟩
  refine ⟨left, piped', found ▸ taken, fun pending => ?_⟩
  rw [backlog_of_piped piped', backlog_of_piped piped, channels]
  rcases progress with nothing | ⟨x, member, shorter⟩
  · obtain ⟨e, member, waits⟩ := (pending_iff_of_piped piped).mp pending
    obtain ⟨x, turn, rfl⟩ := (mem_scanOrder o).mpr member
    exact absurd (nothing x turn) waits
  · exact List.sum_lt_sum _ _ (fun e _ => taken.length_le e.1) ⟨x.1, listed x member, shorter⟩

theorem feeds_of_chunks : Feeds (fun s => (Channels.fifo s.1.channels s.1.fs).pending) scanNext
    (fun s waiting => ∃ octets, Piped s.1.channels s.1.fs octets ∧
      waiting = fun key => Event.ofOctets (octets key))
    (fun s _ => s.1.backlog) where
  quiet := by
    rintro s _ ⟨octets, piped, rfl⟩ quiet key
    dsimp only
    rw [nothing_of_quiet piped quiet, Event.ofOctets_nil]
  taken := by
    rintro s _ ⟨octets, piped, rfl⟩ pending
    obtain ⟨left, piped', taken, fewer⟩ := nextEvent_of_piped piped (s.2 0)
    exact ⟨_, ⟨left, piped', rfl⟩, fewer pending, taken.events⟩

theorem drains_same (drains : w.Drains orders es w') :
    w'.channels.channels = w.channels.channels ∧ w'.channels.dir = w.channels.dir ∧
      w.fs.SameEntries w'.fs := by
  obtain ⟨left, drains⟩ := drains
  refine Drains.keeps (P := fun s : FifoWorld × (Nat → Enumeration) =>
    s.1.channels.channels = w.channels.channels ∧ s.1.channels.dir = w.channels.dir ∧
      w.fs.SameEntries s.1.fs) drains ?_ ⟨rfl, rfl, .refl _⟩
  rintro s ⟨channels, dir, same⟩
  obtain ⟨-, fs, channels', dir'⟩ := s.1.nextEvent_eq (s.2 0)
  refine ⟨channels'.trans channels, dir'.trans dir, ?_⟩
  have scanned := sameEntries_scan s.1.fs (s.1.channels.reordered (s.2 0)).scanOrder
  rw [← fs] at scanned
  exact same.trans scanned

/-- Scans until nothing can be read end, and bring for each channel the events of its chunks. -/
theorem drains_of_piped (piped : Piped w.channels w.fs octets) :
    (∀ orders, ∃ es w', w.Drains orders es w') ∧
      ∀ orders es w', w.Drains orders es w' →
        (∀ key, lettersTo key es = Event.ofOctets (octets key)) ∧
        Piped w'.channels w'.fs fun _ => [] := by
  constructor
  · intro orders
    obtain ⟨es, s, drains⟩ :=
      feeds_of_chunks.exists_drains (s := (w, orders)) ⟨octets, piped, rfl⟩
    exact ⟨es, s.1, s.2, drains⟩
  · rintro orders es w' ⟨left, drains⟩
    obtain ⟨letters, rest, last, -⟩ := feeds_of_chunks.letters drains ⟨octets, piped, rfl⟩
    have nothing := nothing_of_quiet last drains.quiet
    exact ⟨letters, nothing ▸ last⟩

/-- Where nothing waits, a whole record that is written is all that the scans bring. -/
theorem drains_of_record {key : ChannelKey} {ch : FifoChannel} {record : List UInt8} {e : Event}
    (nothing : Piped w.channels w.fs fun _ => []) (found : w.channels.channels.get? key = some ch)
    (linked : Linked w.channels w.fs key ch) (holds : Event.ofChunk? record = some e) :
    ∃ fs, w.fs.write w.channels.dir key.eventName record = .ok fs ∧
      (∀ orders, ∃ es w', FifoWorld.Drains { w with fs } orders es w') ∧
      ∀ orders es w', FifoWorld.Drains { w with fs } orders es w' → es = [(key, e)] := by
  obtain ⟨fs, written, posted⟩ := nothing.write found linked record
  obtain ⟨ends, all⟩ := drains_of_piped (w := { w with fs }) posted
  refine ⟨fs, written, ends, fun orders es w' drains => ?_⟩
  obtain ⟨letters, -⟩ := all orders es w' drains
  have others : ∀ other, other ≠ key → lettersTo other es = [] := by
    intro other apart
    rw [letters, Function.update_of_ne apart, Event.ofOctets_nil]
  rw [eq_of_lettersTo others, letters, Function.update_self, List.nil_append,
    Event.ofOctets_of_record holds]
  rfl

/-- Whatever octets wait in the event FIFOs, and wherever and in whatever orders the scans go: scans
until nothing can be read end, and for each channel they bring just the events of its chunks, in
their order. So of records they bring each event once, in the order of the records. Nothing is left
then, and the next whole record on a channel that can be written to is taken as it is. -/
theorem read_in_chunks (piped : Piped w.channels w.fs octets) :
    (∀ orders, ∃ es w', w.Drains orders es w') ∧
    ∀ orders es w', w.Drains orders es w' →
      (∀ key, lettersTo key es = Event.ofOctets (octets key)) ∧
      (∀ key events, octets key = events.flatMap Event.toRecord →
        lettersTo key es = events.map Event.carried ∧
        ((∀ e ∈ events, e.Whole) → lettersTo key es = events)) ∧
      (Piped w'.channels w'.fs fun _ => []) ∧
      ∀ key ch record e, w.channels.channels.get? key = some ch →
        Linked w.channels w.fs key ch → Event.ofChunk? record = some e →
        ∃ fs, w'.fs.write w'.channels.dir key.eventName record = .ok fs ∧
          (∀ orders', ∃ es' w'', FifoWorld.Drains { w' with fs } orders' es' w'') ∧
          ∀ orders' es' w'', FifoWorld.Drains { w' with fs } orders' es' w'' →
            es' = [(key, e)] := by
  obtain ⟨ends, all⟩ := drains_of_piped piped
  refine ⟨ends, fun orders es w' drains => ?_⟩
  obtain ⟨letters, nothing⟩ := all orders es w' drains
  refine ⟨letters, ?_, nothing, ?_⟩
  · intro key events records
    have carried : lettersTo key es = events.map Event.carried := by
      rw [letters, records, Event.ofOctets_records]
    refine ⟨carried, fun whole => ?_⟩
    rw [carried]
    calc events.map Event.carried
        = events.map id := List.map_congr_left fun e member =>
          Event.carried_of_whole (whole e member)
      _ = events := List.map_id events
  · intro key ch record e found linked holds
    obtain ⟨channels, dir, same⟩ := drains_same drains
    have linked' : Linked w'.channels w'.fs key ch := by
      have still := linked.sameEntries same
      unfold Linked at still ⊢
      rwa [dir]
    exact drains_of_record nothing (channels ▸ found) linked' holds

/-- Two channels are open. On one of them a malformed record, an event and a part of a record were
sent, on the other one an event. -/
theorem read_in_chunks_of_two_channels :
    let base : FileSystem := ⟨[], [(["run"], 0)], [.directory]⟩
    let focus : ChannelKey := .focus 1 5
    let watch : ChannelKey := .watch 1
    let e : Event := ⟨9, 5, .playback, .released, "alarm", "", ""⟩
    let e' : Event := ⟨9, 2, .capture, .acquired, "", "clock", ""⟩
    let unused : FifoWorld := { channels := { dir := "/run" }, fs := base }
    let opened := (unused.openChannel focus).openChannel watch
    ∃ fs fs' octets,
      opened.fs.write "/run" focus.eventName
        (List.replicate Event.recordSize 0 ++ (e.toRecord ++ [1, 2, 3])) = .ok fs ∧
      fs.write "/run" watch.eventName e'.toRecord = .ok fs' ∧
      let w := { opened with channels := { opened.channels with cursor := 7 }, fs := fs' }
      Piped w.channels w.fs octets ∧ Linked w.channels w.fs focus ⟨1, 1⟩ ∧
      ∃ es w', w.Drains (fun _ => ⟨List.reverse, List.reverse_perm⟩) es w' ∧
        lettersTo focus es = [e] ∧ lettersTo watch es = [e'] ∧
        ∃ fs'', w'.fs.write "/run" focus.eventName e.toRecord = .ok fs'' ∧
          ∃ w'', FifoWorld.Drains { w' with fs := fs'' } (fun _ => ⟨id, .refl⟩)
            [(focus, e)] w'' := by
  intro base focus watch e e' unused opened
  have whole : e.Whole := by
    refine ⟨?_, ?_, ?_⟩ <;> exact ⟨by decide +kernel, by decide +kernel⟩
  have whole' : e'.Whole := by
    refine ⟨?_, ?_, ?_⟩ <;> exact ⟨by decide +kernel, by decide +kernel⟩
  have dir : opened.channels.dir = "/run" := by decide +kernel
  have found : opened.channels.channels.get? focus = some ⟨1, 1⟩ := by decide +kernel
  have found' : opened.channels.channels.get? watch = some ⟨3, 1⟩ := by decide +kernel
  -- In memory, the same two channels are open, and nothing waits.
  obtain ⟨piped, leads, leads'⟩ : Piped opened.channels opened.fs (fun _ => []) ∧
      Linked opened.channels opened.fs focus ⟨1, 1⟩ ∧
      Linked opened.channels opened.fs watch ⟨3, 1⟩ := by
    let first := MemoryChannels.openChannel {} focus
    have one : Backends.Reach base "/run" ["run"] ⟨first, unused.openChannel focus⟩ :=
      .next .new (.openChannel (by decide +kernel) (by decide +kernel) (by decide +kernel)
        (.inr rfl))
    have both : Backends.Reach base "/run" ["run"] ⟨first.openChannel watch, opened⟩ :=
      .next one (.openChannel (by decide +kernel) (by decide +kernel) (by decide +kernel)
        (.inr rfl))
    obtain ⟨piped, linked⟩ := piped_of_reach (by decide) (by decide +kernel) both
    dsimp only at piped linked
    have silent : (first.openChannel watch).letters = [] := by decide
    refine ⟨?_, linked focus _ found, linked watch _ found'⟩
    simpa [MemoryChannels.waiting, silent] using piped
  have apart : focus ≠ watch := by decide
  have malformed : Event.ofChunk? (List.replicate Event.recordSize 0) = none := by decide +kernel
  clear_value opened e e' focus watch
  obtain ⟨fs, written, one⟩ := piped.write found leads
    (List.replicate Event.recordSize 0 ++ (e.toRecord ++ [1, 2, 3]))
  have kept := sameEntries_write written
  obtain ⟨fs', written', both⟩ := one.write found' (leads'.sameEntries kept) e'.toRecord
  have ready : Piped { opened.channels with cursor := 7 } fs' _ := { both with }
  obtain ⟨ends, all⟩ := read_in_chunks (w := { opened with
    channels := { opened.channels with cursor := 7 }, fs := fs' }) ready
  obtain ⟨es, w', drains⟩ := ends fun _ => ⟨List.reverse, List.reverse_perm⟩
  obtain ⟨letters, -, -, next⟩ := all _ es w' drains
  have heard : lettersTo focus es = [e] := by
    rw [letters, Function.update_of_ne apart, Function.update_self, List.nil_append,
      Event.ofOctets_append List.length_replicate, malformed,
      Event.ofOctets_append e.length_toRecord, Event.ofChunk?_toRecord,
      Event.carried_of_whole whole, Event.ofOctets_of_short (by decide)]
    rfl
  have heard' : lettersTo watch es = [e'] := by
    rw [letters, Function.update_self, Function.update_of_ne apart.symm, List.nil_append,
      Event.ofOctets_of_record e'.ofChunk?_toRecord, Event.carried_of_whole whole']
  have still := (leads.sameEntries kept).sameEntries (sameEntries_write written')
  obtain ⟨fs'', posted, ends', all'⟩ := next focus ⟨1, 1⟩ e.toRecord e found still
    (by rw [e.ofChunk?_toRecord, Event.carried_of_whole whole])
  obtain ⟨es', w'', drains'⟩ := ends' fun _ => ⟨id, .refl⟩
  obtain rfl := all' _ es' w'' drains'
  have dir' : w'.channels.dir = "/run" := (drains_same drains).2.1.trans dir
  exact ⟨fs, fs', _, dir ▸ written, dir ▸ written', ready, still, es, w', drains, heard, heard',
    fs'', dir' ▸ posted, w'', drains'⟩

end FifoWorld
end AudioFocus
