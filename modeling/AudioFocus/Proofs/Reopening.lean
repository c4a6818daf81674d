import AudioFocus.Fifo.Peer
import AudioFocus.Proofs.Channels

/-!
An open and the close after it, whatever is sent on the channel in between. No reference is left and
no file, and the channel can be opened once more. Over FIFOs that is a matter of the tree, of which
one view is enough: the kind of node that a place stands for. The directories that lead to the
FIFOs stay, whatever is done to the FIFOs, and the last close frees both names.
-/
namespace AudioFocus

theorem lookup_filter_ne {α β : Type} [BEq α] [LawfulBEq α] [DecidableEq α]
    (l : List (α × β)) (key other : α) :
    (l.filter (·.1 ≠ key)).lookup other = if other = key then none else l.lookup other := by
  induction l with
  | nil => simp
  | cons e l ih =>
    obtain ⟨k, b⟩ := e
    by_cases gone : k = key
    · subst gone
      rw [List.filter_cons_of_neg (by simp), ih]
      by_cases here : other = k
      · simp [here]
      · simp [here, List.lookup_cons, beq_eq_false_iff_ne.mpr here]
    · rw [List.filter_cons_of_pos (by simpa using gone), List.lookup_cons, List.lookup_cons, ih]
      by_cases here : other = k
      · simp [here, gone]
      · simp [beq_eq_false_iff_ne.mpr here]

/-- What is left of a node without what it holds. -/
def Node.emptied : Node → Node
  | fifo mode _ _ => .fifo mode [] 0
  | file _ => .file []
  | directory => .directory
  | symlink => .symlink

theorem Node.kind_emptied (node : Node) : node.emptied.kind = node.kind := by
  cases node <;> rfl

namespace FileSystem

/-- The same names in another tree, each for the same node, whatever that holds. -/
structure SameEntries (fs fs' : FileSystem) : Prop where
  home : fs'.home = fs.home
  entries : fs'.entries = fs.entries
  nodes : ∀ e ∈ fs.entries,
    (fs'.nodes[e.2]?).map Node.emptied = (fs.nodes[e.2]?).map Node.emptied

section Kind

variable {fs fs' : FileSystem} {place : Place} {i : Nat} {old node : Node}

theorem kind?_eq_none : fs.kind? place = none ↔ fs.find? place = none := by
  simp [kind?]

theorem kind?_eq_lookup (fs : FileSystem) (place : Place) : fs.kind? place =
    (fs.entries.lookup place).bind fun i => (fs.nodes[i]?).map Node.kind := by
  unfold kind? find?
  cases fs.entries.lookup place with
  | none => rfl
  | some i => cases found : fs.nodes[i]? <;> simp [found]

theorem map_setNode {α : Type} {f : Node → α} (found : fs.nodes[i]? = some old)
    (same : f node = f old) (j : Nat) :
    ((fs.setNode i node).nodes[j]?).map f = (fs.nodes[j]?).map f := by
  have inside := (List.getElem?_eq_some_iff.mp found).1
  by_cases here : i = j
  · subst here
    rw [setNode, List.getElem?_set_self inside, found, Option.map_some, Option.map_some, same]
  · rw [setNode, List.getElem?_set_ne here]

theorem kind?_setNode (found : fs.nodes[i]? = some old) (same : node.kind = old.kind)
    (place : Place) : (fs.setNode i node).kind? place = fs.kind? place := by
  rw [kind?_eq_lookup, kind?_eq_lookup]
  exact congrArg _ (funext (map_setNode found same))

theorem kind?_removePlace (fs : FileSystem) (place other : Place) :
    (fs.removePlace place).kind? other = if other = place then none else fs.kind? other := by
  rw [kind?_eq_lookup, kind?_eq_lookup]
  simp only [removePlace, lookup_filter_ne]
  split <;> rfl

theorem kind?_add (sound : fs.Sound) (free : fs.kind? place = none) (other : Place) :
    (fs.add place node).kind? other = if other = place then some node.kind else fs.kind? other := by
  have added : fs.add place node = fs.extend [(place, fs.nodes.length)] [node] := rfl
  rw [added]
  split
  · rename_i here
    subst here
    exact kind?_eq_some.mpr ⟨fs.nodes.length, node,
      find?_extend_new (i := 0) sound (kind?_eq_none.mp free) (by simp) rfl, rfl⟩
  · rename_i elsewhere
    cases found : fs.find? other with
    | none =>
      have still : (fs.extend [(place, fs.nodes.length)] [node]).find? other = none :=
        find?_extend_of_none sound found
          (by simp [List.lookup_cons, beq_eq_false_iff_ne.mpr elsewhere])
      rw [kind?, kind?, still, found]
    | some x => rw [kind?, kind?, find?_extend_of_some found, found]

protected theorem SameEntries.refl (fs : FileSystem) : fs.SameEntries fs :=
  ⟨rfl, rfl, fun _ _ => rfl⟩

protected theorem SameEntries.trans {fs'' : FileSystem} (first : fs.SameEntries fs')
    (second : fs'.SameEntries fs'') : fs.SameEntries fs'' where
  home := second.home.trans first.home
  entries := second.entries.trans first.entries
  nodes e member := (second.nodes e (first.entries ▸ member)).trans (first.nodes e member)

protected theorem SameEntries.symm (same : fs.SameEntries fs') : fs'.SameEntries fs where
  home := same.home.symm
  entries := same.entries.symm
  nodes e member := (same.nodes e (same.entries ▸ member)).symm

theorem sameEntries_setNode (found : fs.nodes[i]? = some old)
    (same : node.emptied = old.emptied) : fs.SameEntries (fs.setNode i node) :=
  ⟨rfl, rfl, fun e _ => map_setNode found same e.2⟩

theorem SameEntries.kind? (same : fs.SameEntries fs') (place : Place) :
    fs'.kind? place = fs.kind? place := by
  rw [kind?_eq_lookup, kind?_eq_lookup, same.entries]
  cases named : fs.entries.lookup place with
  | none => rfl
  | some i =>
    obtain ⟨l, r, split, -⟩ := List.lookup_eq_some_iff.mp named
    have nodes := congrArg (Option.map Node.kind) (same.nodes (place, i) (by simp [split]))
    simpa [Function.comp_def, Node.kind_emptied] using nodes

theorem SameNames.sameEntries (same : fs.SameNames fs') : fs.SameEntries fs' :=
  ⟨same.home, same.entries, fun e member => congrArg _ (same.nodes e member)⟩

theorem SameEntries.removePlace (same : fs.SameEntries fs') (place : Place) :
    (fs.removePlace place).SameEntries (fs'.removePlace place) where
  home := same.home
  entries := by rw [FileSystem.removePlace, FileSystem.removePlace, same.entries]
  nodes e member := same.nodes e (List.mem_filter.mp member).1

theorem sameEntries_removePlace_paired {p q : Place} (sound : fs.Sound) (free : fs.find? p = none)
    (ackFree : fs.find? q = none) (other : p ≠ q) (readers : Nat) :
    fs.SameEntries (((fs.paired p q readers).removePlace p).removePlace q) := by
  rw [paired, removePlace_extend sound free, removePlace_extend sound ackFree]
  simpa [other.symm] using (sameNames_extend sound).sameEntries

end Kind

section Founded

variable {fs fs' : FileSystem} {dir name : String} {place : Place}

protected theorem Founded.trans {fs'' : FileSystem} (first : fs.Founded fs')
    (second : fs'.Founded fs'') : fs.Founded fs'' where
  home := second.home.trans first.home
  directories place found := second.directories place (first.directories place found)

theorem SameEntries.founded (same : fs.SameEntries fs') : fs.Founded fs' :=
  ⟨same.home, fun place found => (same.kind? place).trans found⟩

/-- Where only one place has changed, and was no directory. -/
theorem Founded.of_one {kind : Option NodeKind} (home : fs'.home = fs.home)
    (same : ∀ other, fs'.kind? other = if other = place then kind else fs.kind? other)
    (before : fs.kind? place ≠ some .directory) : fs.Founded fs' := by
  refine ⟨home, fun other found => ?_⟩
  rw [same, if_neg, found]
  rintro rfl
  exact before found

end Founded

section Operations

variable {fs fs' : FileSystem} {dir name : String} {place : Place}

theorem makeFifo_spec (sound : fs.Sound) (made : fs.makeFifo dir name = .ok fs') :
    ∃ place, fs.entry dir name = .ok place ∧ fs.Founded fs' ∧
      ∀ other, fs'.kind? other = if other = place then some .fifo else fs.kind? other := by
  obtain ⟨place, reached, made⟩ := bind_eq_ok.mp made
  refine ⟨place, reached, ?_⟩
  split at made
  · rename_i free
    obtain rfl := Except.ok.inj made
    have free := kind?_eq_none.mpr free
    have kinds : ∀ other, (fs.add place (.fifo sharedMode [] 0)).kind? other =
        if other = place then some .fifo else fs.kind? other := kind?_add sound free
    exact ⟨.of_one rfl kinds (by simp [free]), kinds⟩
  · rename_i i mode queue readers found
    obtain rfl := Except.ok.inj made
    have fifo : fs.kind? place = some .fifo := kind?_eq_some.mpr ⟨_, _, found, rfl⟩
    have kinds : ∀ other, (fs.setNode i (.fifo sharedMode queue readers)).kind? other =
        if other = place then some .fifo else fs.kind? other := by
      intro other
      have same : (Node.fifo sharedMode queue readers).kind = (Node.fifo mode queue readers).kind :=
        rfl
      rw [kind?_setNode (find?_eq_some.mp found).2 same]
      split
      · rename_i here
        rw [here, fifo]
      · rfl
    exact ⟨.of_one rfl kinds (by simp [fifo]), kinds⟩
  · contradiction

theorem sameEntries_openHeld {i : Nat} (opened : fs.openHeld dir name = .ok (i, fs')) :
    fs.SameEntries fs' := by
  obtain ⟨place, -, opened⟩ := bind_eq_ok.mp opened
  split at opened
  · rename_i found
    obtain rfl := (Prod.mk.inj (Except.ok.inj opened)).2
    exact sameEntries_setNode (find?_eq_some.mp found).2 rfl
  all_goals contradiction

theorem sameEntries_closeEnd (fs : FileSystem) (i : Nat) : fs.SameEntries (fs.closeEnd i) := by
  unfold closeEnd
  split
  · rename_i found
    exact sameEntries_setNode found rfl
  · exact .refl fs

theorem sameEntries_write {octets : List UInt8} (written : fs.write dir name octets = .ok fs') :
    fs.SameEntries fs' := by
  obtain ⟨place, -, written⟩ := bind_eq_ok.mp written
  split at written
  · rename_i found
    split at written
    · contradiction
    · exact Except.ok.inj written ▸ sameEntries_setNode (find?_eq_some.mp found).2 rfl
  · rename_i found
    exact Except.ok.inj written ▸ sameEntries_setNode (find?_eq_some.mp found).2 rfl
  all_goals contradiction

theorem sameEntries_readFifo (fs : FileSystem) (i n : Nat) :
    fs.SameEntries (fs.readFifo i n).2 := by
  unfold readFifo
  split
  · rename_i found
    exact sameEntries_setNode found rfl
  · exact .refl fs

theorem discard_of_fifo (reached : fs.entry dir name = .ok place)
    (fifo : fs.kind? place = some .fifo) : fs.discard dir name = fs.removePlace place := by
  obtain ⟨i, node, found, kind⟩ := kind?_eq_some.mp fifo
  unfold discard unlink
  rw [reached]
  simp only [bind, Except.bind, found]
  cases node with
  | fifo => rfl
  | file | directory | symlink => contradiction

theorem founded_removePlace (fifo : fs.kind? place = some .fifo) :
    fs.Founded (fs.removePlace place) :=
  .of_one rfl (kind?_removePlace fs place) (by simp [fifo])

end Operations

/-- The FIFOs of a channel are at these places. -/
structure PairAt (fs : FileSystem) (dir : String) (key : ChannelKey) (p q : Place) : Prop where
  event : fs.entry dir key.eventName = .ok p
  ack : fs.entry dir key.ackName = .ok q
  eventFifo : fs.kind? p = some .fifo
  ackFifo : fs.kind? q = some .fifo

theorem PairAt.of_sameEntries {fs fs' : FileSystem} {dir : String} {key : ChannelKey} {p q : Place}
    (pair : fs.PairAt dir key p q) (same : fs.SameEntries fs') : fs'.PairAt dir key p q where
  event := same.founded.entry pair.event
  ack := same.founded.entry pair.ack
  eventFifo := (same.kind? p).trans pair.eventFifo
  ackFifo := (same.kind? q).trans pair.ackFifo

end FileSystem

namespace FifoChannels

open FileSystem

variable {fs fs' : FileSystem} {key : ChannelKey} {p q : Place}

theorem pairAt_makePair {dir : String} {node : Nat} (sound : fs.Sound)
    (made : makePair dir fs key = (.ok node, fs')) : ∃ p q, fs'.PairAt dir key p q := by
  unfold makePair at made
  split at made
  · simp at made
  · rename_i fs₁ eventMade
    split at made
    · simp at made
    · rename_i fs₂ ackMade
      split at made
      · simp at made
      · rename_i held
        obtain rfl := (Prod.mk.inj made).2
        obtain ⟨p, reached, founded, kinds⟩ := makeFifo_spec sound eventMade
        obtain ⟨q, ackReached, founded', kinds'⟩ := makeFifo_spec (sound.makeFifo eventMade) ackMade
        have event := founded'.entry (founded.entry reached)
        have ack := founded'.entry ackReached
        refine ⟨p, q, PairAt.of_sameEntries ⟨event, ack, ?_, ?_⟩ (sameEntries_openHeld held)⟩
        · rw [kinds', if_neg (place_ne event ack), kinds, if_pos rfl]
        · rw [kinds', if_pos rfl]

theorem sameEntries_sendAck {c : FifoChannels} {handle : Int32}
    (sent : c.sendAck fs key handle = .ok fs') : fs.SameEntries fs' := by
  unfold sendAck at sent
  split at sent
  · rename_i written
    exact Except.ok.inj sent ▸ sameEntries_write written
  · split at sent
    · exact Except.ok.inj sent ▸ .refl fs
    · contradiction

theorem removeFiles_of_pairAt (c : FifoChannels) (pair : fs.PairAt c.dir key p q) :
    c.removeFiles fs key = (fs.removePlace p).removePlace q := by
  have founded := founded_removePlace pair.eventFifo
  have other := place_ne pair.event pair.ack
  have ackFifo : (fs.removePlace p).kind? q = some .fifo := by
    rw [kind?_removePlace, if_neg other.symm, pair.ackFifo]
  rw [removeFiles, discard_of_fifo pair.event pair.eventFifo,
    discard_of_fifo (founded.entry pair.ack) ackFifo]

/-- The names of a channel can be made again once its FIFOs are removed. -/
theorem makePair_of_removed {dir : String} (sound : fs.Sound) (pair : fs.PairAt dir key p q) :
    ∃ node fs', makePair dir ((fs.removePlace p).removePlace q) key = (.ok node, fs') := by
  have other := place_ne pair.event pair.ack
  have ackFifo : (fs.removePlace p).kind? q = some .fifo := by
    rw [kind?_removePlace, if_neg other.symm, pair.ackFifo]
  have founded := (founded_removePlace pair.eventFifo).trans (founded_removePlace ackFifo)
  have free : ((fs.removePlace p).removePlace q).kind? p = none := by
    rw [kind?_removePlace, if_neg other, kind?_removePlace, if_pos rfl]
  have ackFree : ((fs.removePlace p).removePlace q).kind? q = none := by
    rw [kind?_removePlace, if_pos rfl]
  exact ⟨_, _, makePair_of_free ((sound.removePlace p).removePlace q)
    (founded.entry pair.event) (founded.entry pair.ack)
    (kind?_eq_none.mp free) (kind?_eq_none.mp ackFree)⟩

/-- The last close removes the FIFOs, and has changed nothing of the tree before. -/
theorem closeChannel_of_pairAt {c : FifoChannels} {node : Nat} (sound : fs.Sound)
    (pair : fs.PairAt c.dir key p q) (only : c.channels.get? key = some ⟨node, 1⟩) :
    ∃ fs', fs.SameEntries fs' ∧ fs'.Sound ∧
      c.closeChannel fs key =
        ({ c with channels := c.channels.erase key }, (fs'.removePlace p).removePlace q) := by
  have closed := sameEntries_closeEnd fs node
  have sound := sound.closeEnd node
  simp only [closeChannel, only, Nat.lt_irrefl, if_false]
  split
  · rename_i fs' sent
    have same := closed.trans (sameEntries_sendAck sent)
    refine ⟨fs', same, sound_sendAck sound sent, ?_⟩
    rw [removeFiles_of_pairAt { c with channels := c.channels.erase key }
      (pair.of_sameEntries same)]
  · refine ⟨fs.closeEnd node, closed, sound, ?_⟩
    rw [removeFiles_of_pairAt { c with channels := c.channels.erase key }
      (pair.of_sameEntries closed)]

end FifoChannels

namespace Channels

/-- The same names in the tree of other channels, if they have one, each for the same node, whatever
that holds. -/
def SameEntries : Channels → Channels → Prop
  | memory _, memory _ => True
  | fifo c fs, fifo c' fs' => c'.dir = c.dir ∧ fs.SameEntries fs'
  | _, _ => False

/-- What becomes of channels while others send events on them and take acknowledgements. -/
structure Stirred (c c' : Channels) : Prop where
  kept : c.Kept c'
  entries : c.SameEntries c'

protected theorem SameEntries.refl (c : Channels) : c.SameEntries c := by
  cases c with
  | memory m => trivial
  | fifo c fs => exact ⟨rfl, .refl fs⟩

protected theorem SameEntries.trans {c c' c'' : Channels} (first : c.SameEntries c')
    (second : c'.SameEntries c'') : c.SameEntries c'' := by
  cases c <;> cases c' <;> cases c'' <;> try contradiction
  · trivial
  · exact ⟨second.1.trans first.1, first.2.trans second.2⟩

theorem SameEntries.memory {m : MemoryChannels} {c : Channels} (same : (memory m).SameEntries c) :
    ∃ m', c = .memory m' := by
  cases c with
  | memory m' => exact ⟨m', rfl⟩
  | fifo => exact same.elim

protected theorem Stirred.trans {c c' c'' : Channels} (first : c.Stirred c')
    (second : c'.Stirred c'') : c.Stirred c'' :=
  ⟨first.kept.trans second.kept, first.entries.trans second.entries⟩

theorem Kept.refs {c c' : Channels} (kept : c.Kept c') (key : ChannelKey) :
    c'.refs key = c.refs key := by
  rw [refs_eq_getD, refs_eq_getD, kept.references]

theorem Kept.get? {c c' : FifoChannels} {fs fs' : FileSystem}
    (kept : (fifo c fs).Kept (fifo c' fs')) {key : ChannelKey} {n : Nat}
    (counted : (c.channels.get? key).map (·.refs) = some n) :
    ∃ node, c'.channels.get? key = some ⟨node, n⟩ := by
  have same := kept.references key
  simp only [counts?, Option.map_map, Function.comp_def] at same
  obtain ⟨⟨node, refs⟩, found, rfl⟩ := Option.map_eq_some_iff.mp (same.trans counted)
  exact ⟨node, found⟩

theorem refs_closeChannel_openChannel {c c₁ c₂ : Channels} {key : ChannelKey}
    (opened : c.openChannel key = (.ok (), c₁)) (kept : c₁.Kept c₂) (other : ChannelKey) :
    (c₂.closeChannel key).refs other = c.refs other := by
  have used : 0 < c₂.refs key := by
    rw [kept.refs, refs_openChannel opened, if_pos rfl]
    exact Nat.succ_pos _
  have closed := refs_closeChannel used other
  rw [kept.refs, refs_openChannel opened] at closed
  exact Nat.add_right_cancel closed

/-- Channels before an open, and after the close that answers it. Either the channel had been open
before, and nothing was done to the tree; or the open has made the FIFOs and the close has removed
them. -/
inductive ClosedAgain (key : ChannelKey) : Channels → Channels → Prop
  | memory (m m' : MemoryChannels) : ClosedAgain key (memory m) (memory m')
  | shared {c c' : FifoChannels} {fs fs' : FileSystem} (dir : c'.dir = c.dir)
      (still : (c'.channels.get? key).isSome) (same : fs.SameEntries fs') :
    ClosedAgain key (fifo c fs) (fifo c' fs')
  | last {c c' : FifoChannels} {fs fs₁ fs' : FileSystem} {node : Nat} {p q : Place}
      (dir : c'.dir = c.dir) (gone : c'.channels.get? key = none)
      (made : FifoChannels.makePair c.dir fs key = (.ok node, fs₁)) (same : fs₁.SameEntries fs')
      (sound : fs'.Sound) (pair : fs'.PairAt c.dir key p q) :
    ClosedAgain key (fifo c fs) (fifo c' ((fs'.removePlace p).removePlace q))

section ClosedAgain

variable {key : ChannelKey}

theorem closedAgain_of_fifo {c c₁ c₂ : FifoChannels} {fs fs₁ fs₂ : FileSystem}
    (counted : (fifo c fs).Counted) (sound : fs.Sound)
    (opened : (fifo c fs).openChannel key = (.ok (), fifo c₁ fs₁))
    (stirred : (fifo c₁ fs₁).Stirred (fifo c₂ fs₂)) :
    ClosedAgain key (fifo c fs) ((fifo c₂ fs₂).closeChannel key) := by
  obtain ⟨dir, entries⟩ := stirred.entries
  cases found : c.channels.get? key with
  | some ch =>
    have positive : 0 < ch.refs := counted key ch.refs 0 (by simp [counts?, found])
    have shared : 1 < ch.refs + 1 := Nat.succ_lt_succ positive
    simp only [openChannel, FifoChannels.openChannel, found] at opened
    obtain ⟨rfl, rfl⟩ := Channels.fifo.inj (Prod.mk.inj opened).2
    obtain ⟨node, found'⟩ : ∃ node, c₂.channels.get? key = some ⟨node, ch.refs + 1⟩ :=
      stirred.kept.get? (by simp [found])
    simp only [closeChannel, FifoChannels.closeChannel, found', shared, if_true]
    exact .shared dir (by simp [found']) entries
  | none =>
    simp only [openChannel, FifoChannels.openChannel, found] at opened
    split at opened
    · simp at opened
    · rename_i node fs' made
      obtain ⟨rfl, rfl⟩ := Channels.fifo.inj (Prod.mk.inj opened).2
      obtain ⟨p, q, pair⟩ := FifoChannels.pairAt_makePair sound made
      have sound₁ := FifoChannels.sound_makePair sound c.dir key
      rw [made] at sound₁
      obtain ⟨node', only⟩ : ∃ node', c₂.channels.get? key = some ⟨node', 1⟩ :=
        stirred.kept.get? (by simp)
      have pair₂ : fs₂.PairAt c₂.dir key p q := dir ▸ pair.of_sameEntries entries
      obtain ⟨fs₃, same, sound₃, closed⟩ :=
        FifoChannels.closeChannel_of_pairAt (stirred.kept.sound sound₁) pair₂ only
      have same := entries.trans same
      simp only [closeChannel, closed]
      exact .last dir (by simp) made same sound₃ (pair.of_sameEntries same)

theorem closedAgain {c c₁ c₂ : Channels} (counted : c.Counted) (sound : c.Sound)
    (opened : c.openChannel key = (.ok (), c₁)) (stirred : c₁.Stirred c₂) :
    ClosedAgain key c (c₂.closeChannel key) := by
  have entries := stirred.entries
  cases c with
  | memory m =>
    obtain rfl := (Prod.mk.inj opened).2
    cases c₂ with
    | memory m₂ => exact .memory m _
    | fifo => exact entries.elim
  | fifo c fs =>
    cases c₁ with
    | memory => exact absurd (Prod.mk.inj opened).2 Channels.noConfusion
    | fifo c₁ fs₁ =>
      cases c₂ with
      | memory => exact entries.elim
      | fifo c₂ fs₂ => exact closedAgain_of_fifo counted sound opened stirred

variable {c c' : Channels}

/-- A channel that could be opened can be opened again after it was closed. -/
theorem ClosedAgain.openChannel (again : ClosedAgain key c c') :
    ∃ c'', c'.openChannel key = (.ok (), c'') := by
  cases again with
  | memory m m' => exact ⟨_, rfl⟩
  | @shared c c' fs fs' dir still same =>
    obtain ⟨ch, found⟩ := Option.isSome_iff_exists.mp still
    simp [Channels.openChannel, FifoChannels.openChannel, found]
  | @last c c' fs fs₁ fs' node p q dir gone made same sound pair =>
    obtain ⟨node', fs'', again⟩ := FifoChannels.makePair_of_removed sound pair
    simp [Channels.openChannel, FifoChannels.openChannel, gone, dir, again]

/-- Where the FIFOs of a channel did not exist, its close leaves the tree as its open has found
it. -/
theorem ClosedAgain.sameEntries (again : ClosedAgain key c c') (sound : c.Sound)
    (absent : c.Absent key) : c.SameEntries c' := by
  cases again with
  | memory m m' => trivial
  | shared dir still same => exact ⟨dir, same⟩
  | @last c c' fs fs₁ fs' node p q dir gone made same sound' pair =>
    obtain ⟨event, ack⟩ := absent
    rcases FifoChannels.makePair_absent sound event ack with
      ⟨e, more, -, failed⟩ | ⟨p', q', reached, ackReached, made'⟩
    · cases made.symm.trans failed
    · obtain rfl := congrArg Prod.snd (made.symm.trans made')
      have event' := same.founded.entry ((FileSystem.entry_extend reached).trans reached)
      have ack' := same.founded.entry ((FileSystem.entry_extend reached).trans ackReached)
      obtain rfl := Except.ok.inj (pair.event.symm.trans event')
      obtain rfl := Except.ok.inj (pair.ack.symm.trans ack')
      have removed := FileSystem.sameEntries_removePlace_paired sound (event p reached)
        (ack q ackReached) (FifoChannels.place_ne reached ackReached) 1
      exact ⟨dir, removed.trans ((same.removePlace p).removePlace q)⟩

end ClosedAgain

end Channels
end AudioFocus
