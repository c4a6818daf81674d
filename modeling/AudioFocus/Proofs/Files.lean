import AudioFocus.Fifo.Channels

/-!
What the FIFOs of a channel do to the tree. Two names that were free are put behind all others,
with nodes of their own, and when they are removed every name stands for what it stood for.
-/
namespace AudioFocus

theorem bind_eq_ok {ε α β : Type} {x : Except ε α} {f : α → Except ε β} {b : β} :
    (x >>= f) = .ok b ↔ ∃ a, x = .ok a ∧ f a = .ok b := by
  cases x <;> simp [bind, Except.bind]

inductive NodeKind
  | fifo
  | file
  | directory
  | symlink

def Node.kind : Node → NodeKind
  | fifo .. => .fifo
  | file _ => .file
  | directory => .directory
  | symlink => .symlink

namespace FileSystem

/-- Every name stands for a node. -/
def Sound (fs : FileSystem) : Prop := ∀ e ∈ fs.entries, e.2 < fs.nodes.length

instance (fs : FileSystem) : Decidable fs.Sound :=
  inferInstanceAs (Decidable (∀ e ∈ fs.entries, e.2 < fs.nodes.length))

/-- The same names in another tree, and each stands for the same. -/
structure SameNames (fs fs' : FileSystem) : Prop where
  home : fs'.home = fs.home
  entries : fs'.entries = fs.entries
  nodes : ∀ e ∈ fs.entries, fs'.nodes[e.2]? = fs.nodes[e.2]?

protected theorem SameNames.refl (fs : FileSystem) : fs.SameNames fs := ⟨rfl, rfl, fun _ _ => rfl⟩

/-- The kind of node that a place stands for. -/
def kind? (fs : FileSystem) (place : Place) : Option NodeKind :=
  (fs.find? place).map (·.2.kind)

/-- What is a directory in one tree is one in the other, and relative paths start in the same. -/
structure Founded (fs fs' : FileSystem) : Prop where
  home : fs'.home = fs.home
  directories : ∀ place, fs.kind? place = some .directory → fs'.kind? place = some .directory

/-- A name does not exist. -/
def Absent (fs : FileSystem) (dir name : String) : Prop :=
  ∀ place, fs.entry dir name = .ok place → fs.find? place = none

/-- More names and nodes, behind those that are there. -/
def extend (fs : FileSystem) (names : List (Place × Nat)) (more : List Node) : FileSystem :=
  { fs with entries := fs.entries ++ names, nodes := fs.nodes ++ more }

section Sound

variable {fs fs' : FileSystem} {dir name : String}

theorem Sound.add (sound : fs.Sound) (place : Place) (node : Node) : (fs.add place node).Sound := by
  intro e member
  rcases List.mem_append.mp member with old | new
  · have inside := sound e old
    simp only [FileSystem.add, List.length_append, List.length_singleton]
    omega
  · obtain rfl := List.mem_singleton.mp new
    simp [FileSystem.add]

theorem Sound.setNode (sound : fs.Sound) (i : Nat) (node : Node) : (fs.setNode i node).Sound := by
  intro e member
  simpa [FileSystem.setNode] using sound e member

theorem Sound.removePlace (sound : fs.Sound) (place : Place) : (fs.removePlace place).Sound :=
  fun e member => sound e (List.mem_filter.mp member).1

theorem Sound.makeFifo (sound : fs.Sound) (made : fs.makeFifo dir name = .ok fs') :
    fs'.Sound := by
  obtain ⟨place, -, made⟩ := bind_eq_ok.mp made
  split at made
  · exact Except.ok.inj made ▸ sound.add place _
  · exact Except.ok.inj made ▸ sound.setNode _ _
  · contradiction

theorem Sound.discard (sound : fs.Sound) (dir name : String) : (fs.discard dir name).Sound := by
  unfold FileSystem.discard
  split
  · rename_i removed
    obtain ⟨place, -, removed⟩ := bind_eq_ok.mp removed
    split at removed
    · contradiction
    · exact Except.ok.inj removed ▸ sound.removePlace place
  · exact sound

theorem Sound.openHeld (sound : fs.Sound) {i : Nat} (opened : fs.openHeld dir name = .ok (i, fs')) :
    fs'.Sound := by
  obtain ⟨place, -, opened⟩ := bind_eq_ok.mp opened
  split at opened
  · exact (Prod.mk.inj (Except.ok.inj opened)).2 ▸ sound.setNode _ _
  all_goals contradiction

theorem Sound.closeEnd (sound : fs.Sound) (i : Nat) : (fs.closeEnd i).Sound := by
  unfold FileSystem.closeEnd
  split
  · exact sound.setNode _ _
  · exact sound

theorem Sound.write (sound : fs.Sound) {octets : List UInt8}
    (written : fs.write dir name octets = .ok fs') : fs'.Sound := by
  obtain ⟨place, -, written⟩ := bind_eq_ok.mp written
  split at written
  · split at written
    · contradiction
    · exact Except.ok.inj written ▸ sound.setNode _ _
  · exact Except.ok.inj written ▸ sound.setNode _ _
  all_goals contradiction

theorem Sound.readFifo (sound : fs.Sound) (i n : Nat) : (fs.readFifo i n).2.Sound := by
  unfold FileSystem.readFifo
  split
  · exact sound.setNode _ _
  · exact sound

end Sound

section Founded

variable {fs fs' : FileSystem} {dir name : String} {place : Place}

theorem kind?_eq_some {kind : NodeKind} : fs.kind? place = some kind ↔
    ∃ i node, fs.find? place = some (i, node) ∧ node.kind = kind := by
  simp [kind?]

theorem Founded.step {start reached : Place} (founded : fs.Founded fs')
    (taken : fs.step start name = .ok reached) : fs'.step start name = .ok reached := by
  unfold FileSystem.step at taken ⊢
  split at taken
  · exact taken
  · exact taken
  · obtain ⟨place, named, taken⟩ := bind_eq_ok.mp taken
    refine bind_eq_ok.mpr ⟨place, named, ?_⟩
    split at taken
    · rename_i found
      obtain ⟨i, node, found', kind⟩ := kind?_eq_some.mp
        (founded.directories place (kind?_eq_some.mpr ⟨_, _, found, rfl⟩))
      cases node with
      | directory =>
        rw [found']
        exact taken
      | fifo | file | symlink => contradiction
    all_goals contradiction

theorem Founded.walk {start reached : Place} {components : List String} (founded : fs.Founded fs')
    (walked : fs.walk start components = .ok reached) :
    fs'.walk start components = .ok reached := by
  induction components generalizing start with
  | nil => exact walked
  | cons name rest ih =>
    obtain ⟨next, taken, walked⟩ := bind_eq_ok.mp walked
    exact bind_eq_ok.mpr ⟨next, founded.step taken, ih walked⟩

theorem Founded.directory (founded : fs.Founded fs') (found : fs.directory dir = .ok place) :
    fs'.directory dir = .ok place := by
  have start : fs'.origin dir = fs.origin dir := by
    unfold origin
    rw [founded.home]
  unfold FileSystem.directory at found ⊢
  rw [start]
  exact founded.walk found

theorem entry_eq_ok : fs.entry dir name = .ok place ↔
    checkPath (joinPath dir name) = .ok () ∧
      ∃ parent, fs.directory dir = .ok parent ∧ nameIn parent name = .ok place := by
  unfold entry
  rw [bind_eq_ok]
  constructor
  · rintro ⟨u, checked, named⟩
    exact ⟨checked, bind_eq_ok.mp named⟩
  · rintro ⟨checked, named⟩
    exact ⟨(), checked, bind_eq_ok.mpr named⟩

theorem Founded.entry (founded : fs.Founded fs') (reached : fs.entry dir name = .ok place) :
    fs'.entry dir name = .ok place := by
  obtain ⟨checked, parent, found, named⟩ := entry_eq_ok.mp reached
  exact entry_eq_ok.mpr ⟨checked, parent, founded.directory found, named⟩

theorem nameIn_eq_ok {parent : Place} (named : nameIn parent name = .ok place) :
    place = parent ++ [name] := by
  unfold nameIn at named
  split at named
  · contradiction
  · exact (Except.ok.inj named).symm

end Founded

section Extend

variable {fs : FileSystem} {names : List (Place × Nat)} {more : List Node} {place : Place}

@[simp] theorem extend_nil (fs : FileSystem) : fs.extend [] [] = fs := by
  simp [extend]

theorem find?_eq_some {x : Nat × Node} : fs.find? place = some x ↔
    fs.entries.lookup place = some x.1 ∧ fs.nodes[x.1]? = some x.2 := by
  unfold find?
  simp only [bind, pure, Option.bind_eq_some_iff, Option.some.injEq]
  constructor
  · rintro ⟨i, named, node, found, rfl⟩
    exact ⟨named, found⟩
  · rintro ⟨named, found⟩
    exact ⟨x.1, named, x.2, found, rfl⟩

theorem find?_eq_none (sound : fs.Sound) :
    fs.find? place = none ↔ fs.entries.lookup place = none := by
  constructor
  · intro free
    cases named : fs.entries.lookup place with
    | none => rfl
    | some i =>
      obtain ⟨l, r, split, -⟩ := List.lookup_eq_some_iff.mp named
      have inside : i < fs.nodes.length := sound (place, i) (by simp [split])
      have node := List.getElem?_eq_getElem inside
      rw [(find?_eq_some (x := (i, fs.nodes[i]))).mpr ⟨named, node⟩] at free
      contradiction
  · intro unnamed
    simp [find?, unnamed]

theorem find?_extend_of_some {x : Nat × Node} (found : fs.find? place = some x) :
    (fs.extend names more).find? place = some x := by
  obtain ⟨named, node⟩ := find?_eq_some.mp found
  refine find?_eq_some.mpr ⟨?_, ?_⟩
  · simp [extend, List.lookup_append, named]
  · have inside := (List.getElem?_eq_some_iff.mp node).1
    simpa [extend, List.getElem?_append_left inside] using node

theorem lookup_extend_of_none (sound : fs.Sound) (free : fs.find? place = none) :
    (fs.extend names more).entries.lookup place = names.lookup place := by
  simp [extend, List.lookup_append, (find?_eq_none sound).mp free]

theorem find?_extend_of_none (sound : fs.Sound) (free : fs.find? place = none)
    (unnamed : names.lookup place = none) : (fs.extend names more).find? place = none := by
  have named : (fs.extend names more).entries.lookup place = names.lookup place :=
    lookup_extend_of_none sound free
  simp [find?, named, unnamed]

theorem entry_extend {dir name : String} {other : String} {taken : Place}
    (reached : fs.entry dir other = .ok taken) :
    (fs.extend names more).entry dir name = fs.entry dir name := by
  obtain ⟨-, parent, found, -⟩ := entry_eq_ok.mp reached
  have founded : fs.Founded (fs.extend names more) := by
    refine ⟨rfl, fun place directory => ?_⟩
    obtain ⟨i, node, found, kind⟩ := kind?_eq_some.mp directory
    exact kind?_eq_some.mpr ⟨i, node, find?_extend_of_some found, kind⟩
  have same : (fs.extend names more).directory dir = fs.directory dir :=
    (founded.directory found).trans found.symm
  simp only [entry, same]

theorem filter_of_free (sound : fs.Sound) (free : fs.find? place = none) :
    fs.entries.filter (·.1 ≠ place) = fs.entries := by
  rw [List.filter_eq_self]
  intro e member
  have unnamed := List.lookup_eq_none_iff.mp ((find?_eq_none sound).mp free) e member
  exact decide_eq_true (Ne.symm (by simpa using unnamed))

theorem removePlace_extend (sound : fs.Sound) (free : fs.find? place = none) :
    (fs.extend names more).removePlace place = fs.extend (names.filter (·.1 ≠ place)) more := by
  simp only [removePlace, extend, List.filter_append, filter_of_free sound free]

theorem setNode_extend (fs : FileSystem) (names : List (Place × Nat)) (more : List Node) (i : Nat)
    (node : Node) :
    (fs.extend names more).setNode (fs.nodes.length + i) node =
      fs.extend names (more.set i node) := by
  simp [setNode, extend, List.set_append_right]

theorem sameNames_extend (sound : fs.Sound) : fs.SameNames (fs.extend [] more) where
  home := rfl
  entries := List.append_nil _
  nodes e member := List.getElem?_append_left (sound e member)

end Extend

section Pair

variable {fs : FileSystem} {dir event ack : String} {p q : Place}

/-- The two FIFOs of a channel, under names that were free. -/
def paired (fs : FileSystem) (p q : Place) (readers : Nat) : FileSystem :=
  fs.extend [(p, fs.nodes.length), (q, fs.nodes.length + 1)]
    [.fifo sharedMode [] readers, .fifo sharedMode [] 0]

theorem find?_extend_new {names : List (Place × Nat)} {more : List Node} {i : Nat} {node : Node}
    (sound : fs.Sound) (free : fs.find? p = none)
    (named : names.lookup p = some (fs.nodes.length + i)) (found : more[i]? = some node) :
    (fs.extend names more).find? p = some (fs.nodes.length + i, node) := by
  refine find?_eq_some.mpr ⟨(lookup_extend_of_none sound free).trans named, ?_⟩
  simpa [extend, List.getElem?_append_right] using found

theorem find?_paired_event (sound : fs.Sound) (free : fs.find? p = none) (readers : Nat) :
    (fs.paired p q readers).find? p = some (fs.nodes.length, .fifo sharedMode [] readers) :=
  find?_extend_new (i := 0) sound free (by simp) rfl

theorem find?_paired_ack (sound : fs.Sound) (free : fs.find? q = none) (other : p ≠ q)
    (readers : Nat) :
    (fs.paired p q readers).find? q = some (fs.nodes.length + 1, .fifo sharedMode [] 0) :=
  find?_extend_new (i := 1) sound free
    (by simp [List.lookup_cons, beq_eq_false_iff_ne.mpr other.symm]) rfl

theorem makeFifo_extend {names : List (Place × Nat)} {more : List Node}
    (reached : fs.entry dir event = .ok p) (free : (fs.extend names more).find? p = none) :
    (fs.extend names more).makeFifo dir event = .ok (fs.extend
      (names ++ [(p, fs.nodes.length + more.length)]) (more ++ [.fifo sharedMode [] 0])) := by
  unfold makeFifo
  rw [entry_extend reached, reached]
  simp only [bind, Except.bind, free]
  simp [extend, add, pure, Except.pure]

theorem discard_extend {names : List (Place × Nat)} {more : List Node} (sound : fs.Sound)
    (reached : fs.entry dir event = .ok p) (free : fs.find? p = none)
    {i mode readers : Nat} {queue : List UInt8}
    (found : (fs.extend names more).find? p = some (i, .fifo mode queue readers)) :
    (fs.extend names more).discard dir event = fs.extend (names.filter (·.1 ≠ p)) more := by
  unfold discard unlink
  rw [entry_extend reached, reached]
  simp only [bind, Except.bind, found]
  exact removePlace_extend sound free

theorem discard_pair (sound : fs.Sound) (eventReached : fs.entry dir event = .ok p)
    (ackReached : fs.entry dir ack = .ok q) (eventFree : fs.find? p = none)
    (ackFree : fs.find? q = none) (other : p ≠ q) (readers : Nat) :
    fs.SameNames (((fs.paired p q readers).discard dir event).discard dir ack) := by
  have first := discard_extend sound eventReached eventFree
    (find?_paired_event (q := q) sound eventFree readers)
  have rest : [(p, fs.nodes.length), (q, fs.nodes.length + 1)].filter (·.1 ≠ p) =
      [(q, fs.nodes.length + 1)] := by simp [other.symm]
  rw [rest] at first
  have found : (fs.extend [(q, fs.nodes.length + 1)]
      [.fifo sharedMode [] readers, .fifo sharedMode [] 0]).find? q =
        some (fs.nodes.length + 1, .fifo sharedMode [] 0) :=
    find?_extend_new (i := 1) sound ackFree (by simp) rfl
  rw [paired, first, discard_extend sound ackReached ackFree found]
  simpa using sameNames_extend sound

theorem openHeld_paired (sound : fs.Sound) (reached : fs.entry dir event = .ok p)
    (free : fs.find? p = none) :
    (fs.paired p q 0).openHeld dir event = .ok (fs.nodes.length, fs.paired p q 1) := by
  have found := find?_paired_event (q := q) sound free 0
  have set := fs.setNode_extend [(p, fs.nodes.length), (q, fs.nodes.length + 1)]
    [.fifo sharedMode [] 0, .fifo sharedMode [] 0] 0 (.fifo sharedMode [] 1)
  unfold openHeld
  rw [paired, entry_extend reached, reached]
  rw [paired] at found
  simp only [bind, Except.bind, found]
  exact congrArg (fun x => Except.ok (fs.nodes.length, x)) set

theorem closeEnd_paired : (fs.paired p q 1).closeEnd fs.nodes.length = fs.paired p q 0 := by
  have set := fs.setNode_extend [(p, fs.nodes.length), (q, fs.nodes.length + 1)]
    [.fifo sharedMode [] 1, .fifo sharedMode [] 0] 0 (.fifo sharedMode [] 0)
  have found : (fs.paired p q 1).nodes[fs.nodes.length]? = some (.fifo sharedMode [] 1) := by
    simp [paired, extend]
  unfold closeEnd
  simp only [found]
  exact set

theorem write_paired (sound : fs.Sound) (reached : fs.entry dir ack = .ok q)
    (free : fs.find? q = none) (other : p ≠ q) (readers : Nat) (octets : List UInt8) :
    (fs.paired p q readers).write dir ack octets = .error .noReader := by
  have found := find?_paired_ack sound free other readers
  unfold write
  rw [paired, entry_extend reached, reached]
  rw [paired] at found
  simp only [bind, Except.bind, found]
  rfl

end Pair

end FileSystem

namespace FifoChannels

open FileSystem

theorem ackName_ne_eventName (key : ChannelKey) : key.ackName ≠ key.eventName := by
  intro same
  have longer := congrArg String.length same
  simp [ChannelKey.ackName] at longer

theorem place_ne {fs : FileSystem} {dir : String} {key : ChannelKey} {p q : Place}
    (event : fs.entry dir key.eventName = .ok p) (ack : fs.entry dir key.ackName = .ok q) :
    p ≠ q := by
  obtain ⟨-, parent, reached, named⟩ := entry_eq_ok.mp event
  obtain ⟨-, other, again, ackNamed⟩ := entry_eq_ok.mp ack
  obtain rfl := Except.ok.inj (reached.symm.trans again)
  rw [nameIn_eq_ok named, nameIn_eq_ok ackNamed]
  intro same
  exact ackName_ne_eventName key (by simpa using same.symm)

theorem makeFifo_of_free {fs : FileSystem} {dir name : String} {p : Place}
    (reached : fs.entry dir name = .ok p) (free : fs.find? p = none) :
    fs.makeFifo dir name = .ok (fs.extend [(p, fs.nodes.length)] [.fifo sharedMode [] 0]) := by
  rw [← extend_nil fs] at free
  simpa using makeFifo_extend reached free

/-- Where both names of a channel are free and can be made, both FIFOs are made. -/
theorem makePair_of_free {fs : FileSystem} {dir : String} {key : ChannelKey} {p q : Place}
    (sound : fs.Sound) (reached : fs.entry dir key.eventName = .ok p)
    (ackReached : fs.entry dir key.ackName = .ok q) (free : fs.find? p = none)
    (ackFree : fs.find? q = none) :
    makePair dir fs key = (.ok fs.nodes.length, fs.paired p q 1) := by
  have other := place_ne reached ackReached
  have still : (fs.extend [(p, fs.nodes.length)] [.fifo sharedMode [] 0]).find? q = none :=
    find?_extend_of_none sound ackFree
      (by simp [List.lookup_cons, beq_eq_false_iff_ne.mpr other.symm])
  have held := openHeld_paired (q := q) sound reached free
  simp only [paired] at held
  unfold makePair
  simp only [makeFifo_of_free reached free, makeFifo_extend ackReached still, List.cons_append,
    List.nil_append, List.length_singleton, held]
  rfl

/-- Where neither FIFO of a channel exists, both are made, or no name is: at most a FIFO without
one. -/
theorem makePair_absent {fs : FileSystem} {dir : String} {key : ChannelKey} (sound : fs.Sound)
    (event : fs.Absent dir key.eventName) (ack : fs.Absent dir key.ackName) :
    (∃ e more, (∀ node ∈ more, node = .fifo sharedMode [] 0) ∧
      makePair dir fs key = (.error e, fs.extend [] more)) ∨
      ∃ p q, fs.entry dir key.eventName = .ok p ∧ fs.entry dir key.ackName = .ok q ∧
        makePair dir fs key = (.ok fs.nodes.length, fs.paired p q 1) := by
  cases reached : fs.entry dir key.eventName with
  | error e =>
    have failed : fs.makeFifo dir key.eventName = .error e := by
      simp [makeFifo, reached, bind, Except.bind]
    rw [makePair, failed]
    exact .inl ⟨e, [], by simp, by rw [extend_nil]⟩
  | ok p =>
    have eventFree := event p reached
    cases ackReached : fs.entry dir key.ackName with
    | error e =>
      -- The second name cannot be made, and the first one is removed.
      have kept : (fs.extend [(p, fs.nodes.length)] [.fifo sharedMode [] 0]).entry dir
          key.ackName = fs.entry dir key.ackName := entry_extend reached
      have failed : (fs.extend [(p, fs.nodes.length)] [.fifo sharedMode [] 0]).makeFifo dir
          key.ackName = .error e := by
        simp [makeFifo, kept, ackReached, bind, Except.bind]
      simp only [makePair, makeFifo_of_free reached eventFree, failed]
      refine .inl ⟨e, [.fifo sharedMode [] 0], by simp, ?_⟩
      rw [discard_extend sound reached eventFree
        (find?_extend_new (i := 0) sound eventFree (by simp) rfl)]
      simp
    | ok q =>
      exact .inr ⟨p, q, rfl, rfl,
        makePair_of_free sound reached ackReached eventFree (ack q ackReached)⟩

theorem closeChannel_paired {c : FifoChannels} {fs : FileSystem} {key : ChannelKey} {p q : Place}
    (sound : fs.Sound) (event : fs.Absent c.dir key.eventName) (ack : fs.Absent c.dir key.ackName)
    (reached : fs.entry c.dir key.eventName = .ok p)
    (ackReached : fs.entry c.dir key.ackName = .ok q)
    (only : c.channels.get? key = some ⟨fs.nodes.length, 1⟩) :
    fs.SameNames (c.closeChannel (fs.paired p q 1) key).2 := by
  have eventFree := event p reached
  have ackFree := ack q ackReached
  have other := place_ne reached ackReached
  have silent : FifoChannels.sendAck { c with channels := c.channels.erase key }
      (fs.paired p q 0) key key.finalAck = .ok (fs.paired p q 0) := by
    simp [sendAck, write_paired sound ackReached ackFree other]
  simp only [closeChannel, only, closeEnd_paired, silent, removeFiles]
  exact discard_pair sound reached ackReached eventFree ackFree other 0

section Sound

variable {fs : FileSystem} {key : ChannelKey}

theorem sound_makePair (sound : fs.Sound) (dir : String) (key : ChannelKey) :
    (makePair dir fs key).2.Sound := by
  unfold makePair
  split
  · exact sound
  · rename_i made
    have sound := sound.makeFifo made
    split
    · exact sound.discard dir _
    · rename_i made
      have sound := sound.makeFifo made
      split
      · exact (sound.discard dir _).discard dir _
      · rename_i opened
        exact sound.openHeld opened

theorem sound_openChannel (c : FifoChannels) (sound : fs.Sound) (key : ChannelKey) :
    (c.openChannel fs key).2.2.Sound := by
  have made := sound_makePair sound c.dir key
  unfold openChannel
  split
  · exact sound
  · split <;> (rename_i pair; rw [pair] at made; exact made)

theorem sound_sendAck {c : FifoChannels} {fs' : FileSystem} {handle : Int32} (sound : fs.Sound)
    (sent : c.sendAck fs key handle = .ok fs') : fs'.Sound := by
  unfold sendAck at sent
  split at sent
  · rename_i written
    exact Except.ok.inj sent ▸ sound.write written
  · split at sent
    · exact Except.ok.inj sent ▸ sound
    · contradiction

theorem sound_closeChannel (c : FifoChannels) (sound : fs.Sound) (key : ChannelKey) :
    (c.closeChannel fs key).2.Sound := by
  unfold closeChannel
  split
  · exact sound
  · rename_i ch _
    split
    · exact sound
    · have closed := sound.closeEnd ch.node
      refine FileSystem.Sound.discard (FileSystem.Sound.discard ?_ c.dir _) c.dir _
      split
      · rename_i sent
        exact sound_sendAck closed sent
      · exact closed

theorem sound_scan (sound : fs.Sound) (entries : List ((ChannelKey × FifoChannel) × Nat)) :
    (scan fs entries).2.Sound := by
  induction entries generalizing fs with
  | nil => exact sound
  | cons entry entries ih =>
    obtain ⟨⟨key, ch⟩, i⟩ := entry
    have read := sound.readFifo ch.node Event.recordSize
    simp only [scan]
    split
    · exact read
    · exact ih read

theorem sound_nextEvent (c : FifoChannels) (sound : fs.Sound) : (c.nextEvent fs).2.2.Sound := by
  have scanned := sound_scan sound c.scanOrder
  unfold nextEvent
  split <;> (rename_i scan; rw [scan] at scanned; exact scanned)

end Sound

end FifoChannels
end AudioFocus
