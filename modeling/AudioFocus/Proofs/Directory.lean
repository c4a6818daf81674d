import AudioFocus.Proofs.Mirror

/-!
What the directory of the FIFOs holds while the client and the arbiter use channels: after every
call what it held at first, and the two FIFOs of each channel that has been opened more often than
closed. The order in which a scan or the end of the client goes through the channels is anybody's.
-/
namespace AudioFocus

/-- An order of the channels of a map. Nobody knows in which one a map lists its channels. -/
structure Enumeration where
  order : List (ChannelKey × FifoChannel) → List (ChannelKey × FifoChannel)
  perm : ∀ entries, (order entries).Perm entries

/-- The same channels in another order. -/
def FifoChannels.reordered (c : FifoChannels) (o : Enumeration) : FifoChannels :=
  { c with channels := ⟨o.order c.channels.entries⟩ }

/-- What the client and the arbiter do to channels over FIFOs. The arbiter's connections are
numbered. -/
inductive FifoCall
  | openChannel (key : ChannelKey)
  | closeChannel (key : ChannelKey)
  | sendAck (key : ChannelKey) (handle : Int32)
  | nextEvent (o : Enumeration)
  | connect (key : ChannelKey)
  | post (peer : Nat) (e : Event)
  | waitAck (peer : Nat) (wait : Duration)
  | disconnect (peer : Nat)

/-- The channel that a call names. -/
def FifoCall.key? : FifoCall → Option ChannelKey
  | openChannel key | closeChannel key | sendAck key _ | connect key => some key
  | nextEvent _ | post .. | waitAck .. | disconnect _ => none

/-- The client's channels, the tree and the arbiter's connections. How often each channel was
opened, and closed while it was open, is counted along. -/
structure FifoWorld where
  channels : FifoChannels
  fs : FileSystem
  peers : List Peer := []
  opens : ChannelKey → Nat := fun _ => 0
  closes : ChannelKey → Nat := fun _ => 0

namespace FifoWorld

def refs (w : FifoWorld) (key : ChannelKey) : Nat := (Channels.fifo w.channels w.fs).refs key

def tally (n : ChannelKey → Nat) (key : ChannelKey) (counts : Bool) : ChannelKey → Nat :=
  if counts then fun other => n other + if other = key then 1 else 0 else n

section Calls

variable (w : FifoWorld)

def openChannel (key : ChannelKey) : FifoWorld :=
  let (result, channels, fs) := w.channels.openChannel w.fs key
  { w with channels, fs, opens := tally w.opens key result.isOk }

def closeChannel (key : ChannelKey) : FifoWorld :=
  let (channels, fs) := w.channels.closeChannel w.fs key
  { w with channels, fs, closes := tally w.closes key (w.channels.isOpen key) }

def sendAck (key : ChannelKey) (handle : Int32) : FifoWorld :=
  match w.channels.sendAck w.fs key handle with
  | .ok fs => { w with fs }
  | .error _ => w

def nextEvent (o : Enumeration) : Option (ChannelKey × Event) × FifoWorld :=
  let (found, scanned, fs) := (w.channels.reordered o).nextEvent w.fs
  (found, { w with channels := { w.channels with cursor := scanned.cursor }, fs })

def connect (key : ChannelKey) : FifoWorld :=
  match Peer.connect w.channels.dir key w.fs with
  | .ok (p, fs) => { w with peers := w.peers ++ [p], fs }
  | .error _ => w

def post (i : Nat) (e : Event) : FifoWorld :=
  match w.peers[i]? with
  | none => w
  | some p =>
    match p.post e w.fs with
    | .ok fs => { w with fs }
    | .error _ => w

def waitAck (i : Nat) (wait : Duration) : FifoWorld :=
  match w.peers[i]?.map fun p => p.waitAck wait w.fs with
  | some (_, p, fs) => { w with peers := w.peers.set i p, fs }
  | none => w

def disconnect (i : Nat) : FifoWorld :=
  match w.peers[i]? with
  | some p => { w with peers := w.peers.eraseIdx i, fs := p.disconnect w.fs }
  | none => w

/-- A call that fails changes no more than it does before it fails. -/
def after : FifoCall → FifoWorld
  | .openChannel key => w.openChannel key
  | .closeChannel key => w.closeChannel key
  | .sendAck key handle => w.sendAck key handle
  | .nextEvent o => (w.nextEvent o).2
  | .connect key => w.connect key
  | .post i e => w.post i e
  | .waitAck i wait => w.waitAck i wait
  | .disconnect i => w.disconnect i

end Calls

def run (w : FifoWorld) (calls : List FifoCall) : FifoWorld := calls.foldl after w

/-- The tree after the client has given up its channels. -/
def dropped (w : FifoWorld) (o : Enumeration) : FileSystem := (w.channels.reordered o).drop w.fs

end FifoWorld

namespace FileSystem

def IsSharedFifo (fs : FileSystem) (place : Place) : Prop :=
  ∃ i queue readers, fs.find? place = some (i, .fifo sharedMode queue readers)

/-- A tree holds what another one held, and besides the FIFOs of some channels, open to everybody,
in one directory, and nothing else. -/
structure Holds (base fs : FileSystem) (place : Place) (keys : List ChannelKey) : Prop where
  names : fs.entries.map Prod.fst = base.entries.map Prod.fst ++
    keys.flatMap fun key => [place ++ [key.eventName], place ++ [key.ackName]]
  fifos : ∀ key ∈ keys, fs.IsSharedFifo (place ++ [key.eventName]) ∧
    fs.IsSharedFifo (place ++ [key.ackName])
  foreign : ∀ other x, base.find? other = some x → fs.find? other = some x

end FileSystem

namespace FifoChannels

open FileSystem

variable {base fs fs' : FileSystem} {place : Place} {c c' : FifoChannels} {key : ChannelKey}
  {ch : FifoChannel} {p : Peer}

theorem get?_of_mem (keys : (c.channels.entries.map Prod.fst).Nodup)
    (member : (key, ch) ∈ c.channels.entries) : c.channels.get? key = some ch := by
  obtain ⟨l, r, split⟩ := List.append_of_mem member
  refine List.lookup_eq_some_iff.mpr ⟨l, r, split, fun e before => ?_⟩
  rw [split, List.map_append, List.map_cons] at keys
  have apart := (List.nodup_append.mp keys).2.2 e.1 (List.mem_map_of_mem before) key
    List.mem_cons_self
  exact bne_iff_ne.mpr apart.symm

theorem rotateLeft_perm {α : Type} (l : List α) (n : Nat) : (l.rotateLeft n).Perm l := by
  unfold List.rotateLeft
  dsimp only
  split
  · exact .refl l
  · exact List.perm_append_comm.trans (.of_eq (List.take_append_drop _ l))

/-- A scan meets each channel once. -/
theorem scanOrder_perm (c : FifoChannels) :
    (c.scanOrder.map Prod.fst).Perm c.channels.entries := by
  have turned := (rotateLeft_perm c.channels.entries.zipIdx c.cursor).map Prod.fst
  rwa [List.zipIdx_map_fst] at turned

/-- Whatever the order, a scan meets the channels that are open, and all of them. -/
theorem mem_scanOrder (o : Enumeration) {e : ChannelKey × FifoChannel} :
    (∃ x ∈ (c.reordered o).scanOrder, x.1 = e) ↔ e ∈ c.channels.entries := by
  rw [← List.mem_map]
  exact ((scanOrder_perm _).trans (o.perm _)).mem_iff

theorem Mirrors.holds (m : Mirrors base place c fs) :
    base.Holds fs place (c.channels.entries.map Prod.fst) where
  names := by
    rw [m.entries, List.map_append, List.map_flatMap, List.flatMap_map]
    rfl
  fifos key opened := by
    obtain ⟨⟨_, ch⟩, member, rfl⟩ := List.mem_map.mp opened
    have found := get?_of_mem m.keys member
    obtain ⟨queue, readers, -, event⟩ := m.find?_event found
    obtain ⟨queue', readers', -, ack⟩ := m.find?_ack found
    exact ⟨⟨_, queue, readers, event⟩, ⟨_, queue', readers', ack⟩⟩
  foreign _ _ found := m.find?_foreign found

/-- Giving up channels one by one, in whatever order. -/
theorem Mirrors.drop (m : Mirrors base place c fs) (client : FifoChannels)
    (dir : client.dir = c.dir) (entries : List (ChannelKey × FifoChannel))
    (perm : entries.Perm c.channels.entries) :
    Mirrors base place { c with channels := {} }
      (entries.foldl (fun fs (key, ch) => client.removeFiles (fs.closeEnd ch.node) key) fs) := by
  induction entries generalizing c fs with
  | nil =>
    have none_ : c.channels = {} := congrArg ChannelMap.mk (List.nil_perm.mp perm)
    rw [← none_]
    exact m
  | cons e rest ih =>
    obtain ⟨key, ch⟩ := e
    have found := get?_of_mem m.keys (perm.mem_iff.mp List.mem_cons_self)
    obtain ⟨lacks, -, -, new, -⟩ := m.made _ (mem_of_get? found)
    have given := m.rewritten new (rewritten_closeEnd fs ch.node)
    have distinct := (perm.map Prod.fst).nodup_iff.mpr m.keys
    -- No channel is in the map twice, so closing this one leaves the rest.
    have others : rest.filter (·.1 ≠ key) = rest := by
      refine List.filter_eq_self.mpr fun d later => decide_eq_true fun same => ?_
      exact (List.nodup_cons.mp distinct).1 (List.mem_map.mpr ⟨d, later, same⟩)
    have left := perm.filter (·.1 ≠ key)
    rw [List.filter_cons_of_neg (by simp), others] at left
    have removed : client.removeFiles (fs.closeEnd ch.node) key =
        ((fs.closeEnd ch.node).removePlace (place ++ [key.eventName])).removePlace
          (place ++ [key.ackName]) :=
      removeFiles_of_pairAt client (dir ▸ given.pairAt found)
    have cleared := given.removed lacks
    rw [← removed] at cleared
    exact ih (c := { c with channels := c.channels.erase key }) cleared dir left

/-- Channels and a tree at a later time: the nodes stay, and what was opened since has later
ones. -/
structure Later (c : FifoChannels) (fs : FileSystem) (c' : FifoChannels) (fs' : FileSystem) :
    Prop where
  dir : c'.dir = c.dir
  grown : fs.nodes.length ≤ fs'.nodes.length
  nodes : ∀ e ∈ c'.channels.entries,
    (∃ d ∈ c.channels.entries, d.2.node = e.2.node) ∨ fs.nodes.length ≤ e.2.node

theorem later_recounted (c : FifoChannels) (fs : FileSystem) (key : ChannelKey)
    {f : FifoChannel → FifoChannel} (node : ∀ ch, (f ch).node = ch.node) :
    Later c fs { c with channels := c.channels.modify key f } fs := by
  refine ⟨rfl, Nat.le_refl _, fun e member => .inl ?_⟩
  obtain ⟨d, before, rfl⟩ := List.mem_map.mp member
  refine ⟨d, before, ?_⟩
  split <;> simp [node]

theorem Mirrors.later_openChannel (m : Mirrors base place c fs) (lacks : base.Lacks place key) :
    Later c fs (c.openChannel fs key).2.1 (c.openChannel fs key).2.2 := by
  rcases m.openChannel_cases lacks with
    ⟨ch, -, opened⟩ | ⟨-, e, more, -, opened⟩ | ⟨-, -, -, opened⟩
  · rw [opened]
    exact later_recounted c fs key fun _ => rfl
  · rw [opened]
    exact ⟨rfl, by simp [extend], fun e member => .inl ⟨e, member, rfl⟩⟩
  · rw [opened]
    refine ⟨rfl, by simp [paired, extend], fun e member => ?_⟩
    rcases List.mem_append.mp member with before | last
    · exact .inl ⟨e, (List.mem_filter.mp before).1, rfl⟩
    · rw [List.mem_singleton.mp last]
      exact .inr (Nat.le_refl _)

theorem Mirrors.later_closeChannel (m : Mirrors base place c fs) (key : ChannelKey) :
    Later c fs (c.closeChannel fs key).1 (c.closeChannel fs key).2 := by
  rcases m.closeChannel_cases key with
    ⟨-, closed⟩ | ⟨ch, -, -, closed⟩ | ⟨ch, -, -, closed⟩
  · rw [closed]
    exact ⟨rfl, Nat.le_refl _, fun e member => .inl ⟨e, member, rfl⟩⟩
  · rw [closed]
    exact later_recounted c fs key fun _ => rfl
  · rw [closed]
    have told := rewritten_acknowledged (fs.closeEnd ch.node) (ch.node + 1) key.finalAck
    have same := told.length.trans (rewritten_closeEnd fs ch.node).length
    exact ⟨rfl, Nat.le_of_eq same.symm,
      fun e member => .inl ⟨e, (List.mem_filter.mp member).1, rfl⟩⟩

theorem later_of_length (c : FifoChannels) (same : fs'.nodes.length = fs.nodes.length) :
    Later c fs c fs' :=
  ⟨rfl, Nat.le_of_eq same.symm, fun e member => .inl ⟨e, member, rfl⟩⟩

/-- A connection of the arbiter to a channel, which may be closed by now. What it reads from is no
FIFO of events. -/
structure Attached (base : FileSystem) (place : Place) (c : FifoChannels) (fs : FileSystem)
    (p : Peer) : Prop where
  dir : p.dir = c.dir
  lacks : base.Lacks place p.key
  new : base.nodes.length ≤ p.node
  inside : p.node < fs.nodes.length
  apart : ∀ e ∈ c.channels.entries, e.2.node ≠ p.node

theorem Attached.later (attached : Attached base place c fs p) (later : Later c fs c' fs') :
    Attached base place c' fs' p where
  dir := attached.dir.trans later.dir.symm
  lacks := attached.lacks
  new := attached.new
  inside := Nat.lt_of_lt_of_le attached.inside later.grown
  apart e member := by
    have inside := attached.inside
    rcases later.nodes e member with ⟨d, before, same⟩ | new
    · exact same ▸ attached.apart d before
    · omega

theorem Mirrors.node_ne_succ (m : Mirrors base place c fs) {d e : ChannelKey × FifoChannel}
    (first : d ∈ c.channels.entries) (second : e ∈ c.channels.entries) :
    d.2.node ≠ e.2.node + 1 := by
  obtain ⟨i, iInside, rfl⟩ := List.getElem_of_mem first
  obtain ⟨j, jInside, rfl⟩ := List.getElem_of_mem second
  have apart := List.pairwise_iff_getElem.mp m.apart
  rcases Nat.lt_trichotomy i j with before | same | after
  · have := apart i j iInside jInside before
    omega
  · subst same
    omega
  · have := apart j i jInside iInside after
    omega

theorem Mirrors.connected (m : Mirrors base place c fs) (lacks : base.Lacks place key)
    (connected : Peer.connect c.dir key fs = .ok (p, fs')) :
    ∃ ch, c.channels.get? key = some ch ∧ p = ⟨c.dir, key, ch.node + 1, 0⟩ ∧
      fs.Rewritten (ch.node + 1) fs' := by
  obtain ⟨⟨node, fs₁⟩, opened, rest⟩ := bind_eq_ok.mp connected
  obtain ⟨rfl, rfl⟩ := Prod.mk.inj (Except.ok.inj rest)
  obtain ⟨q, reached, -⟩ := bind_eq_ok.mp opened
  obtain ⟨rfl, -⟩ := m.ack_entry reached
  cases found : c.channels.get? key with
  | none =>
    rw [openRead_of_missing reached (m.lacks lacks found).ack] at opened
    contradiction
  | some ch =>
    obtain ⟨queue, readers, there, ack⟩ := m.find?_ack found
    rw [openRead_of_fifo reached ack] at opened
    obtain ⟨rfl, rfl⟩ := Prod.mk.inj (Except.ok.inj opened)
    exact ⟨ch, rfl, rfl, rewritten_setNode there rfl⟩

theorem Mirrors.posted (m : Mirrors base place c fs) (attached : Attached base place c fs p)
    {e : Event} (posted : p.post e fs = .ok fs') :
    ∃ ch, c.channels.get? p.key = some ch ∧ fs.Rewritten ch.node fs' := by
  unfold Peer.post at posted
  rw [attached.dir] at posted
  obtain ⟨q, reached, -⟩ := bind_eq_ok.mp posted
  obtain ⟨rfl, -⟩ := m.event_entry reached
  cases found : c.channels.get? p.key with
  | none =>
    rw [write_of_missing _ reached (m.lacks attached.lacks found).event] at posted
    contradiction
  | some ch =>
    obtain ⟨queue, readers, there, event⟩ := m.find?_event found
    rw [write_of_fifo _ reached event] at posted
    split at posted
    · contradiction
    · rw [← Except.ok.inj posted]
      exact ⟨ch, rfl, rewritten_setNode there rfl⟩

end FifoChannels

/-- A wait takes something from the FIFO that a connection reads from. -/
theorem Peer.waited (p : Peer) (wait : Duration) (fs : FileSystem) :
    (∃ offset, (p.waitAck wait fs).2.1 = { p with offset }) ∧
      fs.Rewritten p.node (p.waitAck wait fs).2.2 := by
  have read : (∃ offset, (p.read fs).2.1 = { p with offset }) ∧
      fs.Rewritten p.node (p.read fs).2.2 := by
    unfold Peer.read
    split
    · exact ⟨⟨_, rfl⟩, .refl fs _⟩
    · exact ⟨⟨p.offset, rfl⟩, .refl fs _⟩
    · exact ⟨⟨p.offset, rfl⟩, fs.rewritten_readFifo p.node Ack.recordSize⟩
  unfold Peer.waitAck
  split
  · exact ⟨⟨p.offset, rfl⟩, .refl fs _⟩
  · split
    · rename_i failed
      rwa [failed] at read
    · rename_i chunk
      rw [chunk] at read
      split <;> exact read

namespace FifoWorld

open FifoChannels

variable {base : FileSystem} {place : Place} {w : FifoWorld}

/-- What holds between the parts of a world after every call. -/
structure InStep (base : FileSystem) (place : Place) (w : FifoWorld) : Prop where
  mirrors : Mirrors base place w.channels w.fs
  attached : ∀ p ∈ w.peers, Attached base place w.channels w.fs p
  counted : (Channels.fifo w.channels w.fs).Counted
  counts : ∀ key, w.refs key + w.closes key = w.opens key

/-- Only the contents of one node have changed, which is not one of the old ones. -/
theorem InStep.rewritten (inStep : InStep base place w) {i : Nat} {fs : FileSystem}
    (new : base.nodes.length ≤ i) (written : w.fs.Rewritten i fs) :
    InStep base place { w with fs } where
  mirrors := inStep.mirrors.rewritten new written
  attached p member :=
    (inStep.attached p member).later (later_of_length w.channels written.length)
  counted := inStep.counted
  counts := inStep.counts

theorem InStep.openChannel (inStep : InStep base place w) {key : ChannelKey}
    (lacks : base.Lacks place key) : InStep base place (w.openChannel key) := by
  have opened : (Channels.fifo w.channels w.fs).openChannel key =
    ((w.channels.openChannel w.fs key).1.mapError .system, .fifo
      (w.channels.openChannel w.fs key).2.1 (w.channels.openChannel w.fs key).2.2) := rfl
  have numbers : (Channels.fifo (w.openChannel key).channels
        (w.openChannel key).fs).Counted ∧
      ∀ other, (w.openChannel key).refs other + w.closes other =
        tally w.opens key (w.channels.openChannel w.fs key).1.isOk other := by
    cases result : (w.channels.openChannel w.fs key).1 with
    | error e =>
      rw [result] at opened
      have kept := Channels.kept_openChannel_error opened
      refine ⟨Channels.counted_of_eq inStep.counted kept.references, fun other => ?_⟩
      exact (congrArg (· + _) (kept.refs other)).trans (inStep.counts other)
    | ok =>
      rw [result] at opened
      refine ⟨Channels.counted_openChannel inStep.counted opened, fun other => ?_⟩
      have more : (w.openChannel key).refs other = w.refs other + _ :=
        Channels.refs_openChannel opened other
      have counts := inStep.counts other
      change _ = w.opens other + _
      omega
  exact {
    mirrors := inStep.mirrors.openChannel lacks
    attached := fun p member =>
      (inStep.attached p member).later (inStep.mirrors.later_openChannel lacks)
    counted := numbers.1
    counts := numbers.2 }

theorem closeChannel_of_closed {key : ChannelKey}
    (gone : w.channels.channels.get? key = none) : w.closeChannel key = w := by
  have nothing : w.channels.closeChannel w.fs key = (w.channels, w.fs) := by
    rw [FifoChannels.closeChannel, gone]
  have closed : w.channels.isOpen key = false := by
    rw [FifoChannels.isOpen, ChannelMap.contains, gone, Option.isSome_none]
  change { w with
    channels := (w.channels.closeChannel w.fs key).1
    fs := (w.channels.closeChannel w.fs key).2
    closes := tally w.closes key (w.channels.isOpen key) } = w
  rw [nothing, closed]
  rfl

theorem InStep.closeChannel (inStep : InStep base place w) (key : ChannelKey) :
    InStep base place (w.closeChannel key) where
  mirrors := inStep.mirrors.closeChannel key
  attached p member := (inStep.attached p member).later (inStep.mirrors.later_closeChannel key)
  counted := Channels.counted_closeChannel inStep.counted key
  counts other := by
    have counts := inStep.counts other
    cases found : w.channels.channels.get? key with
    | none =>
      rw [closeChannel_of_closed found]
      exact counts
    | some ch =>
      have opened : w.channels.isOpen key = true := by
        rw [FifoChannels.isOpen, ChannelMap.contains, found, Option.isSome_some]
      have used := (Channels.isOpen_iff_refs inStep.counted key).mp opened
      have fewer : (w.closeChannel key).refs other + _ = w.refs other :=
        Channels.refs_closeChannel used other
      change _ + tally w.closes key (w.channels.isOpen key) other = w.opens other
      rw [opened]
      change _ + (w.closes other + _) = w.opens other
      omega

theorem InStep.sendAck (inStep : InStep base place w) {key : ChannelKey}
    (lacks : base.Lacks place key) (handle : Int32) :
    InStep base place (w.sendAck key handle) := by
  unfold FifoWorld.sendAck
  split
  · rename_i fs sent
    rcases inStep.mirrors.sendAck lacks sent with ⟨-, rfl⟩ | ⟨ch, found, written⟩
    · exact inStep
    · obtain ⟨-, -, -, new, -⟩ := inStep.mirrors.made _ (mem_of_get? found)
      exact inStep.rewritten (Nat.le_succ_of_le new) written
  · exact inStep

theorem nextEvent_eq (w : FifoWorld) (o : Enumeration) :
    (w.nextEvent o).1 =
        (scan w.fs (w.channels.reordered o).scanOrder).1.map (fun x => (x.1, x.2.1)) ∧
      (w.nextEvent o).2.fs = (scan w.fs (w.channels.reordered o).scanOrder).2 ∧
      (w.nextEvent o).2.channels.channels = w.channels.channels ∧
      (w.nextEvent o).2.channels.dir = w.channels.dir := by
  unfold FifoWorld.nextEvent FifoChannels.nextEvent
  cases scan w.fs (w.channels.reordered o).scanOrder with
  | mk found fs => cases found <;> exact ⟨rfl, rfl, rfl, rfl⟩

theorem InStep.nextEvent (inStep : InStep base place w) (o : Enumeration) :
    InStep base place (w.nextEvent o).2 := by
  have new : ∀ x ∈ (w.channels.reordered o).scanOrder, base.nodes.length ≤ x.1.2.node := by
    intro x member
    have listed := (mem_scanOrder o).mp ⟨x, member, rfl⟩
    exact (inStep.mirrors.made _ listed).2.2.2.1
  have scanned := inStep.mirrors.scan _ new
  obtain ⟨-, read, -, -⟩ := w.nextEvent_eq o
  rw [← read] at scanned
  exact {
    mirrors := { scanned with }
    attached := fun p member => by
      have same := length_scan w.fs (w.channels.reordered o).scanOrder
      rw [← read] at same
      exact (inStep.attached p member).later
        ⟨rfl, Nat.le_of_eq same.symm, fun e member => .inl ⟨e, member, rfl⟩⟩
    counted := inStep.counted
    counts := inStep.counts }

theorem InStep.connect (inStep : InStep base place w) {key : ChannelKey}
    (lacks : base.Lacks place key) : InStep base place (w.connect key) := by
  unfold FifoWorld.connect
  split
  · rename_i p fs connected
    obtain ⟨ch, found, rfl, written⟩ := inStep.mirrors.connected lacks connected
    obtain ⟨-, -, -, new, inside⟩ := inStep.mirrors.made _ (mem_of_get? found)
    have still := inStep.rewritten (Nat.le_succ_of_le new) written
    refine ⟨still.mirrors, fun p member => ?_, still.counted, still.counts⟩
    rcases List.mem_append.mp member with before | last
    · exact still.attached p before
    · rw [List.mem_singleton.mp last]
      exact ⟨rfl, lacks, Nat.le_succ_of_le new, written.length ▸ inside,
        fun e opened => still.mirrors.node_ne_succ opened (mem_of_get? found)⟩
  · exact inStep

theorem InStep.post (inStep : InStep base place w) (i : Nat) (e : Event) :
    InStep base place (w.post i e) := by
  unfold FifoWorld.post
  split
  · exact inStep
  · rename_i p listed
    split
    · rename_i fs posted
      have attached := inStep.attached p (List.mem_of_getElem? listed)
      obtain ⟨ch, found, written⟩ := inStep.mirrors.posted attached posted
      obtain ⟨-, -, -, new, -⟩ := inStep.mirrors.made _ (mem_of_get? found)
      exact inStep.rewritten new written
    · exact inStep

theorem InStep.waitAck (inStep : InStep base place w) (i : Nat) (wait : Duration) :
    InStep base place (w.waitAck i wait) := by
  unfold FifoWorld.waitAck
  split
  · rename_i r p' fs result
    obtain ⟨p, listed, waited⟩ := Option.map_eq_some_iff.mp result
    have attached := inStep.attached p (List.mem_of_getElem? listed)
    obtain ⟨⟨offset, same⟩, written⟩ := p.waited wait w.fs
    rw [waited] at same written
    have still := inStep.rewritten attached.new written
    refine ⟨still.mirrors, fun q member => ?_, still.counted, still.counts⟩
    rcases List.mem_or_eq_of_mem_set member with before | rfl
    · exact still.attached q before
    · have there := still.attached p (List.mem_of_getElem? listed)
      obtain rfl : q = { p with offset } := same
      exact ⟨there.dir, there.lacks, there.new, there.inside, there.apart⟩
  · exact inStep

theorem InStep.disconnect (inStep : InStep base place w) (i : Nat) :
    InStep base place (w.disconnect i) := by
  unfold FifoWorld.disconnect
  split
  · rename_i p listed
    have attached := inStep.attached p (List.mem_of_getElem? listed)
    have still := inStep.rewritten attached.new (w.fs.rewritten_closeEnd p.node)
    exact ⟨still.mirrors, fun q member => still.attached q (List.mem_of_mem_eraseIdx member),
      still.counted, still.counts⟩
  · exact inStep

theorem InStep.after (inStep : InStep base place w) (call : FifoCall)
    (lacks : ∀ key ∈ call.key?, base.Lacks place key) : InStep base place (w.after call) := by
  cases call with
  | openChannel key => exact inStep.openChannel (lacks key rfl)
  | closeChannel key => exact inStep.closeChannel key
  | sendAck key handle => exact inStep.sendAck (lacks key rfl) handle
  | nextEvent o => exact inStep.nextEvent o
  | connect key => exact inStep.connect (lacks key rfl)
  | post i e => exact inStep.post i e
  | waitAck i wait => exact inStep.waitAck i wait
  | disconnect i => exact inStep.disconnect i

theorem InStep.run (inStep : InStep base place w) (calls : List FifoCall)
    (lacks : ∀ call ∈ calls, ∀ key ∈ call.key?, base.Lacks place key) :
    InStep base place (w.run calls) := by
  induction calls generalizing w with
  | nil => exact inStep
  | cons call calls ih =>
    exact ih (inStep.after call (lacks call List.mem_cons_self))
      fun other member => lacks other (List.mem_cons_of_mem _ member)

theorem inStep_new {dir : String} (sound : base.Sound) (found : base.directory dir = .ok place) :
    InStep base place ⟨{ dir }, base, [], fun _ => 0, fun _ => 0⟩ where
  mirrors := {
    sound
    directory := found
    home := rfl
    entries := (List.append_nil _).symm
    grown := Nat.le_refl _
    old := fun _ _ => rfl
    fresh := fun i node later found => by
      exact absurd (List.getElem?_eq_some_iff.mp found).1 (Nat.not_lt.mpr later)
    made := fun _ opened => nomatch opened
    apart := .nil
    keys := .nil }
  attached _ member := nomatch member
  counted := Channels.Unused.counted (c := .fifo { dir } base) ⟨rfl, sound⟩
  counts _ := rfl

theorem mem_keys_iff (counted : (Channels.fifo w.channels w.fs).Counted)
    (keys : (w.channels.channels.entries.map Prod.fst).Nodup) (key : ChannelKey) :
    key ∈ w.channels.channels.entries.map Prod.fst ↔ 0 < w.refs key := by
  rw [refs, ← Channels.isOpen_iff_refs counted key]
  change _ ↔ (w.channels.channels.get? key).isSome = true
  constructor
  · intro listed
    obtain ⟨⟨_, ch⟩, member, rfl⟩ := List.mem_map.mp listed
    rw [get?_of_mem keys member, Option.isSome_some]
  · intro opened
    obtain ⟨ch, found⟩ := Option.isSome_iff_exists.mp opened
    exact List.mem_map.mpr ⟨(key, ch), mem_of_get? found, rfl⟩

/-- Neither a close nor an acknowledgement changes anything for a channel that is not open. -/
theorem InStep.after_closed (inStep : InStep base place w) {key : ChannelKey}
    (closed : w.refs key = 0) :
    w.after (.closeChannel key) = w ∧
      ∀ handle, base.Lacks place key → w.after (.sendAck key handle) = w := by
  have shut : w.channels.isOpen key = false := by
    rw [← Bool.not_eq_true]
    intro opened
    exact Nat.ne_of_gt ((Channels.isOpen_iff_refs inStep.counted key).mp opened) closed
  have gone : w.channels.channels.get? key = none := by
    simpa [FifoChannels.isOpen, ChannelMap.contains] using shut
  refine ⟨closeChannel_of_closed gone, fun handle lacks => ?_⟩
  change w.sendAck key handle = w
  unfold FifoWorld.sendAck
  split
  · rename_i fs sent
    rcases inStep.mirrors.sendAck lacks sent with ⟨-, rfl⟩ | ⟨ch, found, -⟩
    · rfl
    · rw [gone] at found
      contradiction
  · rfl

/-- After any calls over a directory that had none of the names used, each channel has as many
references as it was opened more often than closed. The tree holds what it held, and in the
directory the two FIFOs of each channel with a reference, and nothing else; a close or an
acknowledgement for a channel without one changes nothing. When the client gives up its channels, in
whatever order, the tree holds what it held at first. -/
theorem directory_holds_open_channels {dir : String} (sound : base.Sound)
    (found : base.directory dir = .ok place) (calls : List FifoCall)
    (unused : ∀ call ∈ calls, ∀ key ∈ call.key?, base.Lacks place key) :
    let w := run { channels := { dir }, fs := base } calls
    (∀ key, w.refs key + w.closes key = w.opens key) ∧
      (∃ keys : List ChannelKey, keys.Nodup ∧ (∀ key, key ∈ keys ↔ 0 < w.refs key) ∧
        base.Holds w.fs place keys) ∧
      (∀ key, w.refs key = 0 → w.after (.closeChannel key) = w ∧
        ∀ handle, base.Lacks place key → w.after (.sendAck key handle) = w) ∧
      ∀ o, base.Holds (w.dropped o) place [] := by
  intro w
  have inStep : InStep base place w := (inStep_new sound found).run calls unused
  refine ⟨inStep.counts, ⟨_, inStep.mirrors.keys, ?_, inStep.mirrors.holds⟩, ?_, fun o => ?_⟩
  · exact mem_keys_iff inStep.counted inStep.mirrors.keys
  · exact fun key closed => inStep.after_closed closed
  · exact (inStep.mirrors.drop (w.channels.reordered o) rfl _ (o.perm _)).holds

/-- A channel is opened twice and closed once, another one is opened and closed, next to a file that
was there. -/
theorem directory_holds_open_channels_of_two_channels :
    let base : FileSystem := ⟨[], [(["run"], 0), (["run", "log"], 1)], [.directory, .file [1]]⟩
    let calls : List FifoCall := [.openChannel (.focus 1 5), .openChannel (.watch 1),
      .connect (.focus 1 5), .openChannel (.focus 1 5), .closeChannel (.watch 1), .disconnect 0,
      .closeChannel (.focus 1 5)]
    let w := run { channels := { dir := "/run" }, fs := base } calls
    w.refs (.focus 1 5) = 1 ∧ w.refs (.watch 1) = 0 ∧
      (∃ keys : List ChannelKey, keys.Nodup ∧ (∀ key, key ∈ keys ↔ 0 < w.refs key) ∧
        base.Holds w.fs ["run"] keys) ∧
      ∀ o, base.Holds (w.dropped o) ["run"] [] := by
  intro base calls w
  have found : base.directory "/run" = .ok ["run"] := by decide +kernel
  have holds := directory_holds_open_channels (by decide) found calls (by decide +kernel)
  exact ⟨by decide +kernel, by decide +kernel, holds.2.1, holds.2.2.2⟩

end FifoWorld
end AudioFocus
