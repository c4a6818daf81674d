import AudioFocus.Proofs.Names
import AudioFocus.Proofs.Reopening

/-!
The directory of the FIFOs mirrors the channels. Whatever the client and the arbiter do, it holds
what it held before, and besides the two FIFOs of each open channel and nothing else. The two FIFOs
of a channel are made one after the other, so their nodes are neighbours, and a channel that was
opened later has later nodes. Everything that is not a name is a matter of one node at a time.
-/
namespace AudioFocus

section Closed

variable {α : Type} {m : ChannelMap α} {key : ChannelKey}

theorem ChannelMap.ne_of_closed (closed : m.get? key = none) {e : ChannelKey × α}
    (member : e ∈ m.entries) : e.1 ≠ key := fun same =>
  bne_iff_ne.mp (List.lookup_eq_none_iff.mp closed e member) same.symm

theorem ChannelMap.erase_of_closed (closed : m.get? key = none) : m.erase key = m := by
  have others : m.entries.filter (·.1 ≠ key) = m.entries :=
    List.filter_eq_self.mpr fun _ member => decide_eq_true (ne_of_closed closed member)
  rw [erase, others]

end Closed

namespace FileSystem

/-- Neither name of a channel is taken in a directory. -/
structure Lacks (fs : FileSystem) (place : Place) (key : ChannelKey) : Prop where
  event : fs.find? (place ++ [key.eventName]) = none
  ack : fs.find? (place ++ [key.ackName]) = none

instance (fs : FileSystem) (place : Place) (key : ChannelKey) : Decidable (fs.Lacks place key) :=
  decidable_of_iff (fs.find? (place ++ [key.eventName]) = none ∧
    fs.find? (place ++ [key.ackName]) = none) ⟨fun ⟨event, ack⟩ => ⟨event, ack⟩,
      fun lacks => ⟨lacks.event, lacks.ack⟩⟩

/-- Another tree, in which at most one node holds something else than it held. -/
structure Rewritten (fs : FileSystem) (i : Nat) (fs' : FileSystem) : Prop where
  home : fs'.home = fs.home
  entries : fs'.entries = fs.entries
  nodes : fs'.nodes.map Node.emptied = fs.nodes.map Node.emptied
  others : ∀ j, j ≠ i → fs'.nodes[j]? = fs.nodes[j]?

section Rewritten

variable {fs fs' : FileSystem} {i : Nat}

protected theorem Rewritten.refl (fs : FileSystem) (i : Nat) : fs.Rewritten i fs :=
  ⟨rfl, rfl, rfl, fun _ _ => rfl⟩

theorem Rewritten.length (written : fs.Rewritten i fs') :
    fs'.nodes.length = fs.nodes.length := by
  simpa using congrArg List.length written.nodes

theorem Rewritten.emptied (written : fs.Rewritten i fs') (j : Nat) :
    (fs'.nodes[j]?).map Node.emptied = (fs.nodes[j]?).map Node.emptied := by
  rw [← List.getElem?_map, written.nodes, List.getElem?_map]

theorem rewritten_setNode {old node : Node} (found : fs.nodes[i]? = some old)
    (same : node.emptied = old.emptied) : fs.Rewritten i (fs.setNode i node) := by
  refine ⟨rfl, rfl, ?_, fun j other => List.getElem?_set_ne (Ne.symm other)⟩
  apply List.ext_getElem?
  intro j
  rw [List.getElem?_map, List.getElem?_map]
  exact map_setNode found same j

theorem rewritten_closeEnd (fs : FileSystem) (i : Nat) : fs.Rewritten i (fs.closeEnd i) := by
  unfold closeEnd
  split
  · rename_i found
    exact rewritten_setNode found rfl
  · exact .refl fs i

theorem rewritten_readFifo (fs : FileSystem) (i n : Nat) : fs.Rewritten i (fs.readFifo i n).2 := by
  unfold readFifo
  split
  · rename_i found
    exact rewritten_setNode found rfl
  · exact .refl fs i

theorem write_of_missing {dir name : String} {place : Place} (octets : List UInt8)
    (reached : fs.entry dir name = .ok place) (free : fs.find? place = none) :
    fs.write dir name octets = .error .noEntry := by
  unfold write
  rw [reached]
  simp only [bind, Except.bind, free]
  rfl

theorem write_of_fifo {dir name : String} {place : Place} {mode readers : Nat}
    {queue : List UInt8} (octets : List UInt8) (reached : fs.entry dir name = .ok place)
    (found : fs.find? place = some (i, .fifo mode queue readers)) :
    fs.write dir name octets = if readers = 0 then .error .noReader else
      .ok (fs.setNode i (.fifo mode (queue ++ octets) readers)) := by
  unfold write
  rw [reached]
  simp only [bind, Except.bind, found]
  split <;> rfl

/-- An acknowledgement goes into a FIFO, if there is an end that it can be read from. -/
def acknowledged (fs : FileSystem) (i : Nat) (handle : Int32) : FileSystem :=
  match fs.nodes[i]? with
  | some (.fifo mode queue readers) =>
    if readers = 0 then fs
    else fs.setNode i (.fifo mode (queue ++ Ack.toRecord handle) readers)
  | _ => fs

theorem rewritten_acknowledged (fs : FileSystem) (i : Nat) (handle : Int32) :
    fs.Rewritten i (fs.acknowledged i handle) := by
  unfold acknowledged
  split
  · rename_i found
    split
    · exact .refl fs i
    · exact rewritten_setNode found rfl
  · exact .refl fs i

theorem openRead_of_missing {dir name : String} {place : Place}
    (reached : fs.entry dir name = .ok place) (free : fs.find? place = none) :
    fs.openRead dir name = .error .noEntry := by
  unfold openRead
  rw [reached]
  simp only [bind, Except.bind, free]
  rfl

theorem openRead_of_fifo {dir name : String} {place : Place} {mode readers : Nat}
    {queue : List UInt8} (reached : fs.entry dir name = .ok place)
    (found : fs.find? place = some (i, .fifo mode queue readers)) :
    fs.openRead dir name = .ok (i, fs.setNode i (.fifo mode queue (readers + 1))) := by
  unfold openRead
  rw [reached]
  simp only [bind, Except.bind, found]
  rfl

end Rewritten

end FileSystem

/-- A text that is no path is refused otherwise than a FIFO without readers or a missing name. -/
theorem checkPath_error {path : String} {e : SystemError} (refused : checkPath path = .error e) :
    ¬ (e = .noReader ∨ e = .noEntry) := by
  unfold checkPath at refused
  dsimp only at refused
  split at refused
  · obtain rfl := Except.error.inj refused
    rintro (same | same) <;> contradiction
  · split at refused
    · obtain rfl := Except.error.inj refused
      rintro (same | same) <;> contradiction
    · contradiction

namespace FifoChannels

open FileSystem

/-- The names of the FIFOs of a channel, with their nodes. -/
def twins (place : Place) (e : ChannelKey × FifoChannel) : List (Place × Nat) :=
  [(place ++ [e.1.eventName], e.2.node), (place ++ [e.1.ackName], e.2.node + 1)]

section Twins

variable (place : Place) (entries : List (ChannelKey × FifoChannel)) (key : ChannelKey)

theorem lookup_twins_event : (entries.flatMap (twins place)).lookup (place ++ [key.eventName]) =
    (entries.lookup key).map (·.node) := by
  induction entries with
  | nil => rfl
  | cons e entries ih =>
    obtain ⟨k, ch⟩ := e
    have ack : (place ++ [key.eventName] == place ++ [k.ackName]) = false := by
      simpa using ChannelKey.eventName_ne_ackName key k
    simp only [List.flatMap_cons, twins, List.cons_append, List.nil_append, List.lookup_cons, ack]
    by_cases same : key = k
    · simp [same]
    · have event : (place ++ [key.eventName] == place ++ [k.eventName]) = false := by
        simpa using fun names => same (ChannelKey.eventName_injective names)
      simpa [event, beq_eq_false_iff_ne.mpr same] using ih

theorem lookup_twins_ack : (entries.flatMap (twins place)).lookup (place ++ [key.ackName]) =
    (entries.lookup key).map (·.node + 1) := by
  induction entries with
  | nil => rfl
  | cons e entries ih =>
    obtain ⟨k, ch⟩ := e
    have event : (place ++ [key.ackName] == place ++ [k.eventName]) = false := by
      simpa using Ne.symm (ChannelKey.eventName_ne_ackName k key)
    simp only [List.flatMap_cons, twins, List.cons_append, List.nil_append, List.lookup_cons, event]
    by_cases same : key = k
    · simp [same]
    · have ack : (place ++ [key.ackName] == place ++ [k.ackName]) = false := by
        simpa using fun names => same (ChannelKey.ackName_injective names)
      simpa [ack, beq_eq_false_iff_ne.mpr same] using ih

/-- Without its names the twins of a channel are gone, and no others. -/
theorem filter_twins : ((entries.flatMap (twins place)).filter
      (·.1 ≠ place ++ [key.eventName])).filter (·.1 ≠ place ++ [key.ackName]) =
    (entries.filter (·.1 ≠ key)).flatMap (twins place) := by
  induction entries with
  | nil => rfl
  | cons e entries ih =>
    obtain ⟨k, ch⟩ := e
    have mixed := ChannelKey.eventName_ne_ackName
    rw [List.flatMap_cons, List.filter_append, List.filter_append, ih]
    by_cases same : k = key
    · simp [twins, same, Ne.symm (mixed key key)]
    · have events : k.eventName ≠ key.eventName := fun h => same (ChannelKey.eventName_injective h)
      have acks : k.ackName ≠ key.ackName := fun h => same (ChannelKey.ackName_injective h)
      simp [twins, same, events, acks, mixed k key, Ne.symm (mixed key k)]

theorem twins_modify (m : ChannelMap FifoChannel) (f : FifoChannel → FifoChannel)
    (node : ∀ ch, (f ch).node = ch.node) :
    (m.modify key f).entries.flatMap (twins place) = m.entries.flatMap (twins place) := by
  rw [ChannelMap.modify, List.flatMap_map]
  refine List.flatMap_congr fun e _ => ?_
  split <;> simp [twins, node]

end Twins

/-- What the channels and the tree have to do with each other, where the tree was another one before
the first channel was opened. -/
structure Mirrors (base : FileSystem) (place : Place) (c : FifoChannels) (fs : FileSystem) :
    Prop where
  sound : base.Sound
  directory : base.directory c.dir = .ok place
  home : fs.home = base.home
  entries : fs.entries = base.entries ++ c.channels.entries.flatMap (twins place)
  grown : base.nodes.length ≤ fs.nodes.length
  old : ∀ i < base.nodes.length, fs.nodes[i]? = base.nodes[i]?
  fresh : ∀ i node, base.nodes.length ≤ i → fs.nodes[i]? = some node →
    node.emptied = .fifo sharedMode [] 0
  made : ∀ e ∈ c.channels.entries,
    base.Lacks place e.1 ∧ checkPath (e.1.eventPath c.dir) = .ok () ∧
      checkPath (e.1.ackPath c.dir) = .ok () ∧
      base.nodes.length ≤ e.2.node ∧ e.2.node + 1 < fs.nodes.length
  apart : c.channels.entries.Pairwise fun d e => d.2.node + 1 < e.2.node
  keys : (c.channels.entries.map Prod.fst).Nodup

section Mirrors

variable {base fs fs' : FileSystem} {place : Place} {c : FifoChannels} {key : ChannelKey}
  {ch : FifoChannel}

theorem mem_of_get? (found : c.channels.get? key = some ch) : (key, ch) ∈ c.channels.entries := by
  obtain ⟨l, r, split, -⟩ := List.lookup_eq_some_iff.mp found
  rw [split]
  simp

/-- That a place cannot be reached is no error either if a name on the way is missing. -/
theorem sendAck_of_unreachable (handle : Int32) {e : SystemError}
    (lost : fs.entry c.dir key.ackName = .error e) : c.sendAck fs key handle =
      if e = .noReader ∨ e = .noEntry then .ok fs else .error e := by
  have stops : fs.write c.dir key.ackName (Ack.toRecord handle) = .error e := by
    rw [write, lost]
    rfl
  rw [FifoChannels.sendAck, stops]

namespace Mirrors

theorem find?_foreign (m : Mirrors base place c fs) {other : Place} {x : Nat × Node}
    (found : base.find? other = some x) : fs.find? other = some x := by
  obtain ⟨named, node⟩ := find?_eq_some.mp found
  refine find?_eq_some.mpr ⟨?_, ?_⟩
  · rw [m.entries, List.lookup_append, named, Option.some_or]
  · rw [m.old x.1 (List.getElem?_eq_some_iff.mp node).1, node]

theorem founded (m : Mirrors base place c fs) : base.Founded fs := by
  refine ⟨m.home, fun other directory => ?_⟩
  obtain ⟨i, node, found, kind⟩ := kind?_eq_some.mp directory
  exact kind?_eq_some.mpr ⟨i, node, m.find?_foreign found, kind⟩

theorem tree_sound (m : Mirrors base place c fs) : fs.Sound := by
  intro e member
  rw [m.entries, List.mem_append, List.mem_flatMap] at member
  rcases member with before | ⟨d, opened, twin⟩
  · exact Nat.lt_of_lt_of_le (m.sound e before) m.grown
  · have made := m.made d opened
    simp only [twins, List.mem_cons, List.not_mem_nil, or_false] at twin
    rcases twin with rfl | rfl <;> simp only <;> omega

theorem entry_event (m : Mirrors base place c fs)
    (fits : checkPath (key.eventPath c.dir) = .ok ()) :
    fs.entry c.dir key.eventName = .ok (place ++ [key.eventName]) :=
  entry_eq_ok.mpr ⟨fits, place, m.founded.directory m.directory, (key.nameIn_of_channel place).1⟩

theorem entry_ack (m : Mirrors base place c fs) (fits : checkPath (key.ackPath c.dir) = .ok ()) :
    fs.entry c.dir key.ackName = .ok (place ++ [key.ackName]) :=
  entry_eq_ok.mpr ⟨fits, place, m.founded.directory m.directory, (key.nameIn_of_channel place).2⟩

theorem event_entry (m : Mirrors base place c fs) {p : Place}
    (reached : fs.entry c.dir key.eventName = .ok p) :
    p = place ++ [key.eventName] ∧ checkPath (key.eventPath c.dir) = .ok () := by
  obtain ⟨fits, -⟩ := entry_eq_ok.mp reached
  exact ⟨Except.ok.inj (reached.symm.trans (m.entry_event fits)), fits⟩

theorem ack_entry (m : Mirrors base place c fs) {p : Place}
    (reached : fs.entry c.dir key.ackName = .ok p) :
    p = place ++ [key.ackName] ∧ checkPath (key.ackPath c.dir) = .ok () := by
  obtain ⟨fits, -⟩ := entry_eq_ok.mp reached
  exact ⟨Except.ok.inj (reached.symm.trans (m.entry_ack fits)), fits⟩

theorem lookup_event (m : Mirrors base place c fs) (lacks : base.Lacks place key) :
    fs.entries.lookup (place ++ [key.eventName]) = (c.channels.get? key).map (·.node) := by
  rw [m.entries, List.lookup_append, (find?_eq_none m.sound).mp lacks.event, Option.none_or,
    lookup_twins_event]
  rfl

theorem lookup_ack (m : Mirrors base place c fs) (lacks : base.Lacks place key) :
    fs.entries.lookup (place ++ [key.ackName]) = (c.channels.get? key).map (·.node + 1) := by
  rw [m.entries, List.lookup_append, (find?_eq_none m.sound).mp lacks.ack, Option.none_or,
    lookup_twins_ack]
  rfl

/-- The names of a channel that is not open are free. -/
theorem lacks (m : Mirrors base place c fs) (lacks : base.Lacks place key)
    (closed : c.channels.get? key = none) : fs.Lacks place key := by
  refine ⟨(find?_eq_none m.tree_sound).mpr ?_, (find?_eq_none m.tree_sound).mpr ?_⟩
  · rw [m.lookup_event lacks, closed, Option.map_none]
  · rw [m.lookup_ack lacks, closed, Option.map_none]

theorem exists_fifo (m : Mirrors base place c fs) {i : Nat} (new : base.nodes.length ≤ i)
    (inside : i < fs.nodes.length) :
    ∃ queue readers, fs.nodes[i]? = some (.fifo sharedMode queue readers) := by
  have found := List.getElem?_eq_getElem inside
  have kind := m.fresh i _ new found
  revert kind
  cases node : fs.nodes[i] with
  | fifo mode queue readers =>
    intro kind
    obtain ⟨rfl, -, -⟩ := Node.fifo.inj kind
    exact ⟨queue, readers, by rw [found, node]⟩
  | file | directory | symlink => exact fun kind => Node.noConfusion kind

theorem find?_event (m : Mirrors base place c fs) (found : c.channels.get? key = some ch) :
    ∃ queue readers, fs.nodes[ch.node]? = some (.fifo sharedMode queue readers) ∧
      fs.find? (place ++ [key.eventName]) = some (ch.node, .fifo sharedMode queue readers) := by
  obtain ⟨lacks, -, -, new, inside⟩ := m.made _ (mem_of_get? found)
  obtain ⟨queue, readers, node⟩ := m.exists_fifo new (Nat.lt_of_succ_lt inside)
  exact ⟨queue, readers, node,
    find?_eq_some.mpr ⟨by rw [m.lookup_event lacks, found, Option.map_some], node⟩⟩

theorem find?_ack (m : Mirrors base place c fs) (found : c.channels.get? key = some ch) :
    ∃ queue readers, fs.nodes[ch.node + 1]? = some (.fifo sharedMode queue readers) ∧
      fs.find? (place ++ [key.ackName]) = some (ch.node + 1, .fifo sharedMode queue readers) := by
  obtain ⟨lacks, -, -, new, inside⟩ := m.made _ (mem_of_get? found)
  obtain ⟨queue, readers, node⟩ := m.exists_fifo (Nat.le_succ_of_le new) inside
  exact ⟨queue, readers, node,
    find?_eq_some.mpr ⟨by rw [m.lookup_ack lacks, found, Option.map_some], node⟩⟩

theorem rewritten (m : Mirrors base place c fs) {i : Nat} (new : base.nodes.length ≤ i)
    (written : fs.Rewritten i fs') : Mirrors base place c fs' where
  sound := m.sound
  directory := m.directory
  home := written.home.trans m.home
  entries := written.entries.trans m.entries
  grown := written.length ▸ m.grown
  old j before := (written.others j (by omega)).trans (m.old j before)
  fresh j node later found := by
    have same := written.emptied j
    rw [found, Option.map_some] at same
    obtain ⟨node', found', emptied⟩ := Option.map_eq_some_iff.mp same.symm
    exact emptied.symm.trans (m.fresh j node' later found')
  made e opened := written.length ▸ m.made e opened
  apart := m.apart
  keys := m.keys

theorem pairAt (m : Mirrors base place c fs) (found : c.channels.get? key = some ch) :
    fs.PairAt c.dir key (place ++ [key.eventName]) (place ++ [key.ackName]) := by
  obtain ⟨-, event, ack, -⟩ := m.made _ (mem_of_get? found)
  obtain ⟨_, _, -, eventFound⟩ := m.find?_event found
  obtain ⟨_, _, -, ackFound⟩ := m.find?_ack found
  exact ⟨m.entry_event event, m.entry_ack ack, kind?_eq_some.mpr ⟨_, _, eventFound, rfl⟩,
    kind?_eq_some.mpr ⟨_, _, ackFound, rfl⟩⟩

/-- Only how often channels are open has changed. -/
theorem recounted (m : Mirrors base place c fs) (key : ChannelKey)
    {f : FifoChannel → FifoChannel} (node : ∀ ch, (f ch).node = ch.node) :
    Mirrors base place { c with channels := c.channels.modify key f } fs := by
  have same (e : ChannelKey × FifoChannel) :
      (if e.1 = key then (e.1, f e.2) else e).2.node = e.2.node := by
    split <;> simp [node]
  have key_same (e : ChannelKey × FifoChannel) :
      (if e.1 = key then (e.1, f e.2) else e).1 = e.1 := by
    split <;> rfl
  exact {
    sound := m.sound
    directory := m.directory
    home := m.home
    entries := m.entries.trans (by rw [twins_modify place key c.channels f node])
    grown := m.grown
    old := m.old
    fresh := m.fresh
    made := by
      intro e member
      obtain ⟨d, opened, rfl⟩ := List.mem_map.mp member
      simpa only [same, key_same] using m.made d opened
    apart := by
      simpa only [ChannelMap.modify, List.pairwise_map, same] using m.apart
    keys := by
      simpa only [ChannelMap.modify, List.map_map, Function.comp_def, key_same] using m.keys }

/-- Nodes without names are nobody's business. -/
theorem littered (m : Mirrors base place c fs) {more : List Node}
    (litter : ∀ node ∈ more, node = .fifo sharedMode [] 0) :
    Mirrors base place c (fs.extend [] more) where
  sound := m.sound
  directory := m.directory
  home := m.home
  entries := (List.append_nil _).trans m.entries
  grown := by
    have := m.grown
    simp only [extend, List.length_append]
    omega
  old i before := by
    rw [← m.old i before]
    exact List.getElem?_append_left (Nat.lt_of_lt_of_le before m.grown)
  fresh i node new found := by
    simp only [extend] at found
    by_cases there : i < fs.nodes.length
    · exact m.fresh i node new (by rwa [List.getElem?_append_left there] at found)
    · rw [List.getElem?_append_right (Nat.le_of_not_lt there)] at found
      rw [litter node (List.mem_of_getElem? found)]
      rfl
  made e opened := by
    obtain ⟨lacks, event, ack, new, inside⟩ := m.made e opened
    refine ⟨lacks, event, ack, new, ?_⟩
    simp only [extend, List.length_append]
    omega
  apart := m.apart
  keys := m.keys

theorem opened (m : Mirrors base place c fs) (lacks : base.Lacks place key)
    (event : checkPath (key.eventPath c.dir) = .ok ())
    (ack : checkPath (key.ackPath c.dir) = .ok ()) (closed : c.channels.get? key = none) :
    Mirrors base place { c with channels := c.channels.insert key ⟨fs.nodes.length, 1⟩ }
      (fs.paired (place ++ [key.eventName]) (place ++ [key.ackName]) 1) := by
  have added : (c.channels.insert key ⟨fs.nodes.length, 1⟩).entries =
      c.channels.entries ++ [(key, ⟨fs.nodes.length, 1⟩)] := by
    rw [ChannelMap.insert, ChannelMap.erase_of_closed closed]
  have grown : (fs.paired (place ++ [key.eventName]) (place ++ [key.ackName]) 1).nodes.length =
      fs.nodes.length + 2 := by
    simp [paired, extend]
  exact {
    sound := m.sound
    directory := m.directory
    home := m.home
    entries := by
      rw [added, List.flatMap_append, ← List.append_assoc, ← m.entries]
      rfl
    grown := grown ▸ Nat.le_add_right_of_le m.grown
    old := by
      intro i before
      rw [← m.old i before]
      exact List.getElem?_append_left (Nat.lt_of_lt_of_le before m.grown)
    fresh := by
      intro i node new found
      simp only [paired, extend] at found
      by_cases there : i < fs.nodes.length
      · exact m.fresh i node new (by rwa [List.getElem?_append_left there] at found)
      · rw [List.getElem?_append_right (Nat.le_of_not_lt there)] at found
        rcases List.mem_cons.mp (List.mem_of_getElem? found) with rfl | last
        · rfl
        · rw [List.mem_singleton.mp last]
          rfl
    made := by
      intro e member
      rw [added, List.mem_append, List.mem_singleton] at member
      rw [grown]
      rcases member with before | rfl
      · obtain ⟨lacks, event, ack, new, inside⟩ := m.made e before
        exact ⟨lacks, event, ack, new, Nat.lt_add_right 2 inside⟩
      · exact ⟨lacks, event, ack, m.grown, Nat.lt_succ_self _⟩
    apart := by
      rw [added, List.pairwise_append]
      refine ⟨m.apart, List.pairwise_singleton _ _, fun d before e last => ?_⟩
      obtain rfl := List.mem_singleton.mp last
      exact (m.made d before).2.2.2.2
    keys := by
      rw [added, List.map_append]
      refine List.nodup_append.mpr ⟨m.keys, by simp, fun other before last member same => ?_⟩
      obtain ⟨e, there, rfl⟩ := List.mem_map.mp before
      exact ChannelMap.ne_of_closed closed there (same.trans (List.mem_singleton.mp member)) }

/-- What an open comes to, where the names of the channel did not exist at first: one more
reference, no name, or both FIFOs. -/
theorem openChannel_cases (m : Mirrors base place c fs) (lacks : base.Lacks place key) :
    (∃ ch, c.channels.get? key = some ch ∧ c.openChannel fs key = (.ok (),
      { c with channels := c.channels.modify key fun ch => { ch with refs := ch.refs + 1 } }, fs)) ∨
    (c.channels.get? key = none ∧ ∃ e more, (∀ node ∈ more, node = .fifo sharedMode [] 0) ∧
      c.openChannel fs key = (.error e, c, fs.extend [] more)) ∨
    (c.channels.get? key = none ∧ checkPath (key.eventPath c.dir) = .ok () ∧
      checkPath (key.ackPath c.dir) = .ok () ∧ c.openChannel fs key = (.ok (),
        { c with channels := c.channels.insert key ⟨fs.nodes.length, 1⟩ },
        fs.paired (place ++ [key.eventName]) (place ++ [key.ackName]) 1)) := by
  unfold FifoChannels.openChannel
  cases found : c.channels.get? key with
  | some ch => exact .inl ⟨ch, rfl, rfl⟩
  | none =>
    have free := m.lacks lacks found
    have event : fs.Absent c.dir key.eventName := fun p reached =>
      (m.event_entry reached).1 ▸ free.event
    have ack : fs.Absent c.dir key.ackName := fun p reached =>
      (m.ack_entry reached).1 ▸ free.ack
    rcases makePair_absent m.tree_sound event ack with
      ⟨e, more, litter, made⟩ | ⟨p, q, reached, ackReached, made⟩
    · rw [made]
      exact .inr (.inl ⟨rfl, e, more, litter, rfl⟩)
    · obtain ⟨rfl, event⟩ := m.event_entry reached
      obtain ⟨rfl, ack⟩ := m.ack_entry ackReached
      rw [made]
      exact .inr (.inr ⟨rfl, event, ack, rfl⟩)

theorem openChannel (m : Mirrors base place c fs) (lacks : base.Lacks place key) :
    Mirrors base place (c.openChannel fs key).2.1 (c.openChannel fs key).2.2 := by
  rcases m.openChannel_cases lacks with
    ⟨ch, -, opened⟩ | ⟨-, e, more, litter, opened⟩ | ⟨closed, event, ack, opened⟩
  · rw [opened]
    exact m.recounted key fun _ => rfl
  · rw [opened]
    exact m.littered litter
  · rw [opened]
    exact m.opened lacks event ack closed

/-- Without its FIFOs a channel is closed. -/
theorem removed (m : Mirrors base place c fs) (lacks : base.Lacks place key) :
    Mirrors base place { c with channels := c.channels.erase key }
      ((fs.removePlace (place ++ [key.eventName])).removePlace (place ++ [key.ackName])) where
  sound := m.sound
  directory := m.directory
  home := m.home
  entries := by
    simp only [removePlace, m.entries, List.filter_append, filter_of_free m.sound lacks.event,
      filter_of_free m.sound lacks.ack, filter_twins]
    rfl
  grown := m.grown
  old := m.old
  fresh := m.fresh
  made e member := m.made e (List.mem_filter.mp member).1
  apart := m.apart.sublist List.filter_sublist
  keys := m.keys.sublist (List.filter_sublist.map _)

/-- An acknowledgement goes to the second FIFO of a channel that is open. -/
theorem sendAck_of_open (m : Mirrors base place c fs) (found : c.channels.get? key = some ch)
    (handle : Int32) : c.sendAck fs key handle = .ok (fs.acknowledged (ch.node + 1) handle) := by
  obtain ⟨queue, readers, node, there⟩ := m.find?_ack found
  obtain ⟨-, -, ack, -⟩ := m.made _ (mem_of_get? found)
  unfold FifoChannels.sendAck
  rw [write_of_fifo _ (m.entry_ack ack) there, acknowledged, node]
  by_cases unread : readers = 0 <;> simp [unread]

/-- Where there is no second FIFO it goes nowhere. -/
theorem sendAck_of_closed (m : Mirrors base place c fs) (lacks : base.Lacks place key)
    (closed : c.channels.get? key = none) (handle : Int32) :
    c.sendAck fs key handle = (checkPath (key.ackPath c.dir)).map fun _ => fs := by
  cases fits : checkPath (key.ackPath c.dir) with
  | ok =>
    rw [FifoChannels.sendAck,
      write_of_missing _ (m.entry_ack fits) (m.lacks lacks closed).ack]
    rfl
  | error e =>
    have entry : fs.entry c.dir key.ackName = .error e := by
      rw [entry, ← ChannelKey.ackPath, fits]
      rfl
    rw [sendAck_of_unreachable handle entry, if_neg (checkPath_error fits), Except.map]

theorem sendAck (m : Mirrors base place c fs) (lacks : base.Lacks place key) {handle : Int32}
    (sent : c.sendAck fs key handle = .ok fs') :
    (c.channels.get? key = none ∧ fs' = fs) ∨
      ∃ ch, c.channels.get? key = some ch ∧ fs.Rewritten (ch.node + 1) fs' := by
  cases found : c.channels.get? key with
  | none =>
    rw [m.sendAck_of_closed lacks found] at sent
    cases fits : checkPath (key.ackPath c.dir) with
    | ok =>
      rw [fits] at sent
      exact .inl ⟨rfl, (Except.ok.inj sent).symm⟩
    | error e =>
      rw [fits] at sent
      contradiction
  | some ch =>
    rw [m.sendAck_of_open found] at sent
    obtain rfl := Except.ok.inj sent
    exact .inr ⟨ch, rfl, rewritten_acknowledged fs _ handle⟩

/-- What a close comes to: nothing, a reference less, or, if it was the last one, an end of the
first FIFO given up, an acknowledgement to the second one, and both removed. -/
theorem closeChannel_cases (m : Mirrors base place c fs) (key : ChannelKey) :
    (c.channels.get? key = none ∧ c.closeChannel fs key = (c, fs)) ∨
    (∃ ch, c.channels.get? key = some ch ∧ 1 < ch.refs ∧ c.closeChannel fs key =
      ({ c with channels := c.channels.modify key fun ch => { ch with refs := ch.refs - 1 } },
        fs)) ∨
    ∃ ch, c.channels.get? key = some ch ∧ ¬ 1 < ch.refs ∧
      c.closeChannel fs key = ({ c with channels := c.channels.erase key },
        (((fs.closeEnd ch.node).acknowledged (ch.node + 1) key.finalAck).removePlace
          (place ++ [key.eventName])).removePlace (place ++ [key.ackName])) := by
  unfold FifoChannels.closeChannel
  cases found : c.channels.get? key with
  | none => exact .inl ⟨rfl, rfl⟩
  | some ch =>
    by_cases shared : 1 < ch.refs
    · exact .inr (.inl ⟨ch, rfl, shared, if_pos shared⟩)
    · obtain ⟨-, -, -, new, -⟩ := m.made _ (mem_of_get? found)
      have m₁ := m.rewritten new (rewritten_closeEnd fs ch.node)
      have m₂ := m₁.rewritten (Nat.le_succ_of_le new)
        (rewritten_acknowledged (fs.closeEnd ch.node) (ch.node + 1) key.finalAck)
      -- Neither what is sent nor what is removed depends on the channels that are left.
      let c' : FifoChannels := { c with channels := c.channels.erase key }
      have sent : c'.sendAck (fs.closeEnd ch.node) key key.finalAck = .ok _ :=
        m₁.sendAck_of_open found key.finalAck
      have removed := removeFiles_of_pairAt c' (m₂.pairAt found)
      refine .inr (.inr ⟨ch, rfl, shared, ?_⟩)
      simp only [shared, if_false]
      rw [sent, removed]

theorem closeChannel (m : Mirrors base place c fs) (key : ChannelKey) :
    Mirrors base place (c.closeChannel fs key).1 (c.closeChannel fs key).2 := by
  rcases m.closeChannel_cases key with
    ⟨-, closed⟩ | ⟨ch, -, -, closed⟩ | ⟨ch, found, -, closed⟩
  · rw [closed]
    exact m
  · rw [closed]
    exact m.recounted key fun _ => rfl
  · rw [closed]
    obtain ⟨lacks, -, -, new, -⟩ := m.made _ (mem_of_get? found)
    have given := m.rewritten new (rewritten_closeEnd fs ch.node)
    have told := rewritten_acknowledged (fs.closeEnd ch.node) (ch.node + 1) key.finalAck
    exact (given.rewritten (Nat.le_succ_of_le new) told).removed lacks

theorem scan (m : Mirrors base place c fs) (entries : List ((ChannelKey × FifoChannel) × Nat))
    (new : ∀ x ∈ entries, base.nodes.length ≤ x.1.2.node) :
    Mirrors base place c (FifoChannels.scan fs entries).2 := by
  induction entries generalizing fs with
  | nil => exact m
  | cons x entries ih =>
    obtain ⟨⟨key, ch⟩, i⟩ := x
    have read := m.rewritten (new _ List.mem_cons_self)
      (rewritten_readFifo fs ch.node Event.recordSize)
    simp only [FifoChannels.scan]
    split
    · exact read
    · exact ih read fun x member => new x (List.mem_cons_of_mem _ member)

end Mirrors

theorem length_scan (fs : FileSystem) (entries : List ((ChannelKey × FifoChannel) × Nat)) :
    (FifoChannels.scan fs entries).2.nodes.length = fs.nodes.length := by
  induction entries generalizing fs with
  | nil => rfl
  | cons x entries ih =>
    obtain ⟨⟨key, ch⟩, i⟩ := x
    have read := (rewritten_readFifo fs ch.node Event.recordSize).length
    simp only [FifoChannels.scan]
    split
    · exact read
    · exact (ih _).trans read

end Mirrors

end FifoChannels
end AudioFocus
