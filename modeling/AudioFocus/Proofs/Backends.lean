import AudioFocus.Proofs.Pipes

/-!
Channels in memory and channels over FIFOs are the same to a client. In memory one queue carries the
events of all channels, and entries that bring none; over FIFOs each channel has a queue of its own,
and a scan picks one. But a channel is open in one just if it is in the other, an event is taken by
one just if it is by the other, and who takes events until there are none gets the same for each
channel.
-/
namespace AudioFocus

theorem Channels.refs_closeChannel_eq (c : Channels) (key other : ChannelKey) :
    (c.closeChannel key).refs other = c.refs other - if other = key then 1 else 0 := by
  rw [refs_eq_getD, refs_eq_getD, counts?_closeChannel]
  by_cases same : other = key
  · subst same
    cases found : c.counts? other with
    | none => simp [afterClose]
    | some x =>
      obtain ⟨refs, outstanding⟩ := x
      by_cases shared : 1 < refs
      · simp [afterClose, shared]
      · simp only [afterClose, shared, if_true, if_false, Option.map_none, Option.getD_none,
          Option.map_some, Option.getD_some]
        omega
  · simp [same]

theorem Drains.keeps {σ : Type} {pending : σ → Bool}
    {next : σ → Option (ChannelKey × Event) × σ} {P : σ → Prop} {s s' : σ}
    {es : List (ChannelKey × Event)} (drains : Drains pending next s es s')
    (step : ∀ s, P s → P (next s).2) (start : P s) : P s' := by
  induction drains with
  | done => exact start
  | more _ _ ih => exact ih (step _ start)

namespace MemoryChannels

variable {m m' : MemoryChannels} {key : ChannelKey}

/-- The events that wait on a channel. Those of a channel that is closed are lost. -/
def waiting (m : MemoryChannels) (key : ChannelKey) : List Event :=
  if m.isOpen key then lettersTo key m.letters else []

/-- Events are taken until the queue is empty. -/
def Drains (m : MemoryChannels) (es : List (ChannelKey × Event)) (m' : MemoryChannels) : Prop :=
  AudioFocus.Drains (fun m => (Channels.memory m).pending) nextEvent m es m'

theorem waiting_nextEvent (m : MemoryChannels) (key : ChannelKey) :
    m.waiting key = lettersTo key m.nextEvent.1.toList ++ m.nextEvent.2.waiting key := by
  rw [waiting, waiting, isOpen_nextEvent, nextEvent_eq]
  cases turn : m.turn? with
  | none =>
    rw [letters_of_no_turn turn]
    rfl
  | some x =>
    rw [letters_of_turn turn, lettersTo_cons]
    by_cases same : x.1 = key
    · subst same
      cases opened : m.isOpen x.1 <;> simp [Option.filter, opened, lettersTo_cons]
    · cases other : m.isOpen x.1 <;> simp [Option.filter, other, lettersTo_cons, same]

theorem feeds : Feeds (fun m => (Channels.memory m).pending) nextEvent
    (fun m waiting => m.waiting = waiting) (fun m _ => m.queue.length) where
  quiet m waiting related quiet key := by
    have empty : m.queue = [] := by simpa [Channels.pending] using quiet
    rw [← related, MemoryChannels.waiting, letters, empty]
    simp
  taken m waiting related pending := by
    refine ⟨_, rfl, ?_, fun key => related ▸ m.waiting_nextEvent key⟩
    obtain ⟨channels, queue, acks⟩ := m
    cases queue with
    | nil => simp [Channels.pending] at pending
    | cons item rest => cases item <;> exact Nat.lt_succ_self _

theorem waiting_openChannel (fresh : m.isOpen key = true ∨ lettersTo key m.letters = []) :
    (m.openChannel key).waiting = m.waiting := by
  funext other
  rw [waiting, waiting, isOpen_openChannel, letters_openChannel]
  by_cases same : other = key
  · subst same
    rcases fresh with opened | nothing
    · simp [opened]
    · simp [nothing]
  · simp [same]

theorem waiting_closeChannel (m : MemoryChannels) (key : ChannelKey) :
    (m.closeChannel key).waiting =
      if (m.closeChannel key).isOpen key then m.waiting else Function.update m.waiting key [] := by
  funext other
  by_cases same : other = key
  · subst same
    cases opened : (m.closeChannel other).isOpen other with
    | false => simp [waiting, opened]
    | true => simp [waiting, opened, isOpen_of_closeChannel opened]
  · have counts := (Channels.memory m).counts?_closeChannel key other
    rw [if_neg same] at counts
    have isOpen : (m.closeChannel key).isOpen other = m.isOpen other := by
      have some_ := congrArg Option.isSome counts
      rwa [← Channels.isOpen_eq_isSome, ← Channels.isOpen_eq_isSome] at some_
    have kept : (m.closeChannel key).waiting other = m.waiting other := by
      rw [waiting, waiting, isOpen, letters_closeChannel]
    rw [kept]
    split
    · rfl
    · rw [Function.update_of_ne same]

theorem waiting_push (opened : m.isOpen key = true) (e : Event) :
    (m.after (.push key e)).waiting = Function.update m.waiting key (m.waiting key ++ [e]) := by
  funext other
  rw [waiting, isOpen_after_push, letters_push opened, lettersTo_append]
  by_cases same : other = key
  · subst same
    simp [waiting, opened, lettersTo_cons]
  · rw [Function.update_of_ne same, lettersTo_cons, if_neg (Ne.symm same)]
    simp [waiting]

theorem refs_push (m : MemoryChannels) (key other : ChannelKey) (e : Event) :
    (Channels.memory (m.after (.push key e))).refs other = (Channels.memory m).refs other := by
  cases opened : m.isOpen key with
  | false => rw [after_push_of_closed opened]
  | true =>
    simp only [after, push_of_open opened, Channels.refs, ChannelMap.get?_modify]
    split <;> simp [Function.comp_def]

end MemoryChannels

namespace FifoChannels

open FileSystem

variable {base fs fs' : FileSystem} {place : Place} {c : FifoChannels} {key : ChannelKey}
  {ch : FifoChannel} {waiting : ChannelKey → List Event}

theorem Mirrors.openChannel_of_fits (m : Mirrors base place c fs) (lacks : base.Lacks place key)
    (event : checkPath (key.eventPath c.dir) = .ok ())
    (ack : checkPath (key.ackPath c.dir) = .ok ()) : (c.openChannel fs key).1 = .ok () := by
  unfold FifoChannels.openChannel
  cases found : c.channels.get? key with
  | some ch => rfl
  | none =>
    have free := m.lacks lacks found
    rw [makePair_of_free m.tree_sound (m.entry_event event) (m.entry_ack ack) free.event free.ack]

theorem Fed.recounted (fed : Fed c fs waiting) (key : ChannelKey)
    {f : FifoChannel → FifoChannel} (node : ∀ ch, (f ch).node = ch.node) :
    Fed { c with channels := c.channels.modify key f } fs waiting where
  queue other ch found := by
    simp only [ChannelMap.get?_modify] at found
    split at found
    · obtain ⟨ch', before, rfl⟩ := Option.map_eq_some_iff.mp found
      rw [node]
      exact fed.queue other ch' before
    · exact fed.queue other ch found
  whole := fed.whole
  closed other closed := by
    simp only [ChannelMap.get?_modify] at closed
    split at closed
    · exact fed.closed other (Option.map_eq_none_iff.mp closed)
    · exact fed.closed other closed

/-- Nothing waits on a channel that was closed. -/
theorem Fed.opened (m : Mirrors base place c fs) (fed : Fed c fs waiting)
    (closed : c.channels.get? key = none) (p q : Place) :
    Fed { c with channels := c.channels.insert key ⟨fs.nodes.length, 1⟩ } (fs.paired p q 1)
      waiting where
  queue other ch found := by
    simp only [ChannelMap.get?_insert] at found
    split at found
    · rename_i same
      obtain rfl := Option.some.inj found
      rw [same, fed.closed key closed]
      simp [paired, extend]
    · rw [← fed.queue other ch found]
      exact List.getElem?_append_left
        (Nat.lt_of_succ_lt (m.made _ (mem_of_get? found)).2.2.2.2)
  whole := fed.whole
  closed other closed' := by
    simp only [ChannelMap.get?_insert] at closed'
    split at closed'
    · contradiction
    · exact fed.closed other closed'

/-- What waits on a channel is lost when it is closed. -/
theorem Fed.erased (fed : Fed c fs waiting)
    (others : ∀ other ch, other ≠ key → c.channels.get? other = some ch →
      fs'.nodes[ch.node]? = fs.nodes[ch.node]?) :
    Fed { c with channels := c.channels.erase key } fs' (Function.update waiting key []) where
  queue other ch found := by
    simp only [ChannelMap.get?_erase] at found
    split at found
    · contradiction
    · rename_i apart
      rw [Function.update_of_ne apart, others other ch apart found]
      exact fed.queue other ch found
  whole other := by
    by_cases same : other = key
    · simp [same]
    · rw [Function.update_of_ne same]
      exact fed.whole other
  closed other closed := by
    simp only [ChannelMap.get?_erase] at closed
    split at closed
    · rename_i same
      simp [same]
    · rename_i apart
      rw [Function.update_of_ne apart]
      exact fed.closed other closed

theorem Mirrors.connect_of_open (m : Mirrors base place c fs)
    (found : c.channels.get? key = some ch) :
    ∃ fs', Peer.connect c.dir key fs = .ok (⟨c.dir, key, ch.node + 1, 0⟩, fs') ∧
      fs.Rewritten (ch.node + 1) fs' := by
  obtain ⟨-, -, ack, -⟩ := m.made _ (mem_of_get? found)
  obtain ⟨queue, readers, there, named⟩ := m.find?_ack found
  have another : fs.Rewritten (ch.node + 1)
      (fs.setNode (ch.node + 1) (.fifo sharedMode queue (readers + 1))) :=
    rewritten_setNode there rfl
  refine ⟨_, ?_, another⟩
  simp only [Peer.connect, openRead_of_fifo (m.entry_ack ack) named]
  rfl

/-- What is posted on an open channel waits there. -/
theorem Mirrors.post_of_open (m : Mirrors base place c fs) (fed : Fed c fs waiting)
    (found : c.channels.get? key = some ch) {p : Peer} (dir : p.dir = c.dir) (same : p.key = key)
    {e : Event} (whole : e.Whole) :
    ∃ fs', p.post e fs = .ok fs' ∧
      Fed c fs' (Function.update waiting key (waiting key ++ [e])) := by
  obtain ⟨-, event, -⟩ := m.made _ (mem_of_get? found)
  obtain ⟨queue, readers, there, named⟩ := m.find?_event found
  have holds := fed.queue key ch found
  rw [there, Option.some.injEq, Node.fifo.injEq] at holds
  obtain ⟨-, rfl, rfl⟩ := holds
  have all : ∀ e' ∈ waiting key ++ [e], e'.Whole := by
    intro e' member
    rcases List.mem_append.mp member with before | last
    · exact fed.whole key e' before
    · exact List.mem_singleton.mp last ▸ whole
  refine ⟨_, ?_, fed.refilled m found all⟩
  rw [Peer.post, dir, same, write_of_fifo _ (m.entry_event event) named, if_neg Nat.one_ne_zero,
    List.flatMap_append, List.flatMap_singleton]

end FifoChannels

namespace FifoWorld

open FifoChannels

variable {base : FileSystem} {place : Place} {w w' : FifoWorld} {key : ChannelKey}

@[simp] theorem channels_sendAck (w : FifoWorld) (key : ChannelKey) (handle : Int32) :
    (w.sendAck key handle).channels = w.channels := by
  unfold FifoWorld.sendAck
  split <;> rfl

@[simp] theorem channels_connect (w : FifoWorld) (key : ChannelKey) :
    (w.connect key).channels = w.channels := by
  unfold FifoWorld.connect
  split <;> rfl

@[simp] theorem channels_post (w : FifoWorld) (i : Nat) (e : Event) :
    (w.post i e).channels = w.channels := by
  unfold FifoWorld.post
  split
  · rfl
  · split <;> rfl

@[simp] theorem channels_waitAck (w : FifoWorld) (i : Nat) (wait : Duration) :
    (w.waitAck i wait).channels = w.channels := by
  unfold FifoWorld.waitAck
  split <;> rfl

@[simp] theorem channels_disconnect (w : FifoWorld) (i : Nat) :
    (w.disconnect i).channels = w.channels := by
  unfold FifoWorld.disconnect
  split <;> rfl

theorem sendAck_of_ok {handle : Int32} {fs : FileSystem}
    (sent : w.channels.sendAck w.fs key handle = .ok fs) :
    w.sendAck key handle = { w with fs } := by
  unfold FifoWorld.sendAck
  rw [sent]

theorem sendAck_of_error {handle : Int32} {e : SystemError}
    (refused : w.channels.sendAck w.fs key handle = .error e) : w.sendAck key handle = w := by
  unfold FifoWorld.sendAck
  rw [refused]

theorem connect_of_ok {p : Peer} {fs : FileSystem}
    (connected : Peer.connect w.channels.dir key w.fs = .ok (p, fs)) :
    w.connect key = { w with peers := w.peers ++ [p], fs } := by
  unfold FifoWorld.connect
  rw [connected]

theorem connect_of_error {e : SystemError}
    (refused : Peer.connect w.channels.dir key w.fs = .error e) : w.connect key = w := by
  unfold FifoWorld.connect
  rw [refused]

/-- The arbiter connects to a channel and posts an event. It stays connected. -/
def deliver (w : FifoWorld) (key : ChannelKey) (e : Event) : FifoWorld :=
  (w.connect key).post w.peers.length e

/-- The arbiter could connect to a channel and post an event. -/
def Delivers (w : FifoWorld) (key : ChannelKey) (e : Event) : Prop :=
  ∃ p fs fs', Peer.connect w.channels.dir key w.fs = .ok (p, fs) ∧ p.post e fs = .ok fs'

theorem refs_of_channels (same : w'.channels.channels = w.channels.channels) :
    w'.refs = w.refs := by
  funext key
  simp only [refs, Channels.refs, same]

end FifoWorld

/-- Channels of both kinds, and the arbiter of the latter. -/
structure Backends where
  memory : MemoryChannels := {}
  fifo : FifoWorld

namespace Backends

open FifoChannels

variable {base : FileSystem} {place : Place} {dir : String} {b b' : Backends}

/-- One step on both kinds. The names of the channels did not exist at first and their paths are not
too long, texts fit their fields, and a channel that was closed is not opened again while events for
it are queued. -/
inductive Step (base : FileSystem) (dir : String) (place : Place) : Backends → Backends → Prop
  | openChannel {b : Backends} {key : ChannelKey} (lacks : base.Lacks place key)
      (event : checkPath (key.eventPath dir) = .ok ())
      (ack : checkPath (key.ackPath dir) = .ok ())
      (fresh : b.memory.isOpen key = true ∨ lettersTo key b.memory.letters = []) :
    Step base dir place b ⟨b.memory.openChannel key, b.fifo.openChannel key⟩
  | closeChannel {b : Backends} (key : ChannelKey) :
    Step base dir place b ⟨b.memory.closeChannel key, b.fifo.closeChannel key⟩
  | deliver {b : Backends} {key : ChannelKey} {e : Event} (lacks : base.Lacks place key)
      (whole : e.Whole) :
    Step base dir place b ⟨b.memory.after (.push key e), b.fifo.deliver key e⟩
  | sendAck {b : Backends} {key : ChannelKey} (lacks : base.Lacks place key) (handle : Int32) :
    Step base dir place b ⟨b.memory.sendAck key handle, b.fifo.sendAck key handle⟩
  | wake {b : Backends} : Step base dir place b ⟨b.memory.wake, b.fifo⟩
  | receiveAck {b : Backends} : Step base dir place b ⟨b.memory.receiveAck.2, b.fifo⟩
  | waitAck {b : Backends} (i : Nat) (wait : Duration) :
    Step base dir place b ⟨b.memory, b.fifo.waitAck i wait⟩
  | disconnect {b : Backends} (i : Nat) : Step base dir place b ⟨b.memory, b.fifo.disconnect i⟩
  | drain {b : Backends} {m : MemoryChannels} {w : FifoWorld} {es es' : List (ChannelKey × Event)}
      {orders : Nat → Enumeration} (memory : b.memory.Drains es m)
      (fifo : b.fifo.Drains orders es' w) : Step base dir place b ⟨m, w⟩

/-- What steps make of channels that nobody has used, in a directory. -/
inductive Reach (base : FileSystem) (dir : String) (place : Place) : Backends → Prop
  | new : Reach base dir place ⟨{}, { channels := { dir }, fs := base }⟩
  | next {b b' : Backends} (reach : Reach base dir place b) (step : Step base dir place b b') :
    Reach base dir place b'

/-- Both kinds count the same opens, and the same events wait. -/
structure Agreed (base : FileSystem) (dir : String) (place : Place) (b : Backends) : Prop where
  inStep : FifoWorld.InStep base place b.fifo
  dir : b.fifo.channels.dir = dir
  counted : (Channels.memory b.memory).Counted
  refs : ∀ key, (Channels.memory b.memory).refs key = b.fifo.refs key
  fed : Fed b.fifo.channels b.fifo.fs b.memory.waiting

section Agreed

variable {key : ChannelKey}

theorem isOpen_of_refs {m : MemoryChannels} {w : FifoWorld}
    (counted : (Channels.memory m).Counted)
    (counted' : (Channels.fifo w.channels w.fs).Counted)
    (refs : (Channels.memory m).refs key = w.refs key) :
    m.isOpen key = w.channels.isOpen key := by
  have memory := Channels.isOpen_iff_refs counted key
  have fifo := Channels.isOpen_iff_refs counted' key
  rw [refs] at memory
  exact Bool.eq_iff_iff.mpr (memory.trans fifo.symm)

theorem Agreed.isOpen (agreed : Agreed base dir place b) (key : ChannelKey) :
    b.memory.isOpen key = b.fifo.channels.isOpen key :=
  isOpen_of_refs agreed.counted agreed.inStep.counted (agreed.refs key)

theorem agreed_new (sound : base.Sound) (found : base.directory dir = .ok place) :
    Agreed base dir place ⟨{}, { channels := { dir }, fs := base }⟩ where
  inStep := FifoWorld.inStep_new sound found
  dir := rfl
  counted := Channels.Unused.counted (c := .memory {}) rfl
  refs _ := rfl
  fed := {
    queue := fun _ _ found => nomatch found
    whole := fun _ _ member => nomatch member
    closed := fun _ _ => rfl }

/-- Only the arbiter's ends of FIFOs are concerned, or an acknowledgement. -/
theorem Agreed.aside (agreed : Agreed base dir place b) {m : MemoryChannels} {w : FifoWorld}
    (memory : (Channels.memory b.memory).Kept (.memory m)) (waiting : m.waiting = b.memory.waiting)
    (inStep : FifoWorld.InStep base place w) (channels : w.channels = b.fifo.channels)
    (fed : Fed b.fifo.channels w.fs b.memory.waiting) : Agreed base dir place ⟨m, w⟩ where
  inStep
  dir := (congrArg FifoChannels.dir channels).trans agreed.dir
  counted := Channels.counted_of_eq agreed.counted memory.references
  refs key := by
    rw [memory.refs, agreed.refs, FifoWorld.refs_of_channels (congrArg _ channels)]
  fed := by
    rw [waiting, channels]
    exact fed

theorem Agreed.openChannel (agreed : Agreed base dir place b) (lacks : base.Lacks place key)
    (event : checkPath (key.eventPath dir) = .ok ()) (ack : checkPath (key.ackPath dir) = .ok ())
    (fresh : b.memory.isOpen key = true ∨ lettersTo key b.memory.letters = []) :
    Agreed base dir place ⟨b.memory.openChannel key, b.fifo.openChannel key⟩ := by
  have m := agreed.inStep.mirrors
  obtain rfl := agreed.dir
  have done := m.openChannel_of_fits lacks event ack
  have opened : (Channels.fifo b.fifo.channels b.fifo.fs).openChannel key =
      ((b.fifo.channels.openChannel b.fifo.fs key).1.mapError .system,
        .fifo (b.fifo.channels.openChannel b.fifo.fs key).2.1
          (b.fifo.channels.openChannel b.fifo.fs key).2.2) := rfl
  rw [done] at opened
  have opened' : (Channels.memory b.memory).openChannel key =
      (.ok (), .memory (b.memory.openChannel key)) := rfl
  exact {
    inStep := agreed.inStep.openChannel lacks
    dir := (m.later_openChannel lacks).dir
    counted := Channels.counted_openChannel agreed.counted rfl
    refs := by
      intro other
      have memory := Channels.refs_openChannel opened' other
      have fifo := Channels.refs_openChannel opened other
      exact memory.trans ((congrArg (· + _) (agreed.refs other)).trans fifo.symm)
    fed := by
      rw [MemoryChannels.waiting_openChannel fresh]
      rcases m.openChannel_cases lacks with
        ⟨ch, -, result⟩ | ⟨-, e, more, -, result⟩ | ⟨closed, -, -, result⟩
      · simp only [FifoWorld.openChannel, result]
        exact agreed.fed.recounted key fun _ => rfl
      · rw [result] at done
        contradiction
      · simp only [FifoWorld.openChannel, result]
        exact agreed.fed.opened m closed _ _ }

theorem Agreed.closeChannel (agreed : Agreed base dir place b) (key : ChannelKey) :
    Agreed base dir place ⟨b.memory.closeChannel key, b.fifo.closeChannel key⟩ := by
  have m := agreed.inStep.mirrors
  have inStep := agreed.inStep.closeChannel key
  have counted := Channels.counted_closeChannel agreed.counted key
  have refs (other : ChannelKey) :
      (Channels.memory (b.memory.closeChannel key)).refs other =
        (b.fifo.closeChannel key).refs other := by
    have memory := (Channels.memory b.memory).refs_closeChannel_eq key other
    have fifo := (Channels.fifo b.fifo.channels b.fifo.fs).refs_closeChannel_eq key other
    exact memory.trans ((congrArg (· - _) (agreed.refs other)).trans fifo.symm)
  have isOpen := isOpen_of_refs counted inStep.counted (refs key)
  refine ⟨inStep, (m.later_closeChannel key).dir.trans agreed.dir, counted, refs, ?_⟩
  dsimp only
  rw [MemoryChannels.waiting_closeChannel, isOpen]
  rcases m.closeChannel_cases key with
    ⟨closed, result⟩ | ⟨ch, found, -, result⟩ | ⟨ch, found, -, result⟩
  · have nothing := agreed.fed.closed key closed
    simp only [FifoWorld.closeChannel, result, FifoChannels.isOpen, ChannelMap.contains, closed,
      Option.isSome_none, Bool.false_eq_true, if_false]
    rw [← nothing, Function.update_eq_self]
    exact agreed.fed
  · simp only [FifoWorld.closeChannel, result, FifoChannels.isOpen, ChannelMap.contains,
      ChannelMap.get?_modify, if_true, found, Option.map_some, Option.isSome_some]
    exact agreed.fed.recounted key fun _ => rfl
  · simp only [FifoWorld.closeChannel, result, FifoChannels.isOpen, ChannelMap.contains,
      ChannelMap.get?_erase, if_true, Option.isSome_none, Bool.false_eq_true, if_false]
    refine agreed.fed.erased fun other ch' apart found' => ?_
    have first : ch'.node ≠ ch.node := fun node => apart (congrArg Prod.fst
      (m.node_inj (mem_of_get? found') (mem_of_get? found) node))
    have second : ch'.node ≠ ch.node + 1 :=
      m.node_ne_succ (mem_of_get? found') (mem_of_get? found)
    exact ((FileSystem.rewritten_acknowledged _ _ _).others ch'.node second).trans
      ((FileSystem.rewritten_closeEnd b.fifo.fs ch.node).others ch'.node first)

theorem Agreed.sendAck (agreed : Agreed base dir place b) (lacks : base.Lacks place key)
    (handle : Int32) :
    Agreed base dir place ⟨b.memory.sendAck key handle, b.fifo.sendAck key handle⟩ := by
  have m := agreed.inStep.mirrors
  refine agreed.aside ((Channels.memory b.memory).kept_sendAck key handle) ?_
    (agreed.inStep.sendAck lacks handle) (b.fifo.channels_sendAck key handle) ?_
  · funext other
    rw [MemoryChannels.waiting, MemoryChannels.waiting, MemoryChannels.isOpen_sendAck,
      MemoryChannels.letters_sendAck]
  · unfold FifoWorld.sendAck
    split
    · rename_i fs sent
      rcases m.sendAck lacks sent with ⟨-, rfl⟩ | ⟨ch, found, written⟩
      · exact agreed.fed
      · exact agreed.fed.rewritten written fun e opened =>
          m.node_ne_succ opened (mem_of_get? found)
    · exact agreed.fed

theorem Agreed.wake (agreed : Agreed base dir place b) :
    Agreed base dir place ⟨b.memory.wake, b.fifo⟩ := by
  refine agreed.aside (Channels.kept_wake (.memory b.memory)) ?_ agreed.inStep rfl agreed.fed
  funext other
  rw [MemoryChannels.waiting, MemoryChannels.waiting, MemoryChannels.letters_wake]
  rfl

theorem Agreed.receiveAck (agreed : Agreed base dir place b) :
    Agreed base dir place ⟨b.memory.receiveAck.2, b.fifo⟩ := by
  have kept : (Channels.memory b.memory).Kept (.memory b.memory.receiveAck.2) := by
    unfold MemoryChannels.receiveAck
    split
    · exact .refl _
    · exact ⟨fun _ => rfl, id⟩
  refine agreed.aside kept ?_ agreed.inStep rfl agreed.fed
  funext other
  rw [MemoryChannels.waiting, MemoryChannels.waiting, MemoryChannels.isOpen_receiveAck,
    MemoryChannels.letters_receiveAck]

theorem Agreed.waitAck (agreed : Agreed base dir place b) (i : Nat) (wait : Duration) :
    Agreed base dir place ⟨b.memory, b.fifo.waitAck i wait⟩ := by
  refine agreed.aside (.refl _) rfl (agreed.inStep.waitAck i wait)
    (b.fifo.channels_waitAck i wait) ?_
  unfold FifoWorld.waitAck
  split
  · rename_i r p' fs result
    obtain ⟨p, listed, waited⟩ := Option.map_eq_some_iff.mp result
    have written := (p.waited wait b.fifo.fs).2
    rw [waited] at written
    exact agreed.fed.rewritten written
      (agreed.inStep.attached p (List.mem_of_getElem? listed)).apart
  · exact agreed.fed

theorem Agreed.disconnect (agreed : Agreed base dir place b) (i : Nat) :
    Agreed base dir place ⟨b.memory, b.fifo.disconnect i⟩ := by
  refine agreed.aside (.refl _) rfl (agreed.inStep.disconnect i)
    (b.fifo.channels_disconnect i) ?_
  unfold FifoWorld.disconnect
  split
  · rename_i p listed
    exact agreed.fed.rewritten (FileSystem.rewritten_closeEnd b.fifo.fs p.node)
      (agreed.inStep.attached p (List.mem_of_getElem? listed)).apart
  · exact agreed.fed

/-- On an open channel the arbiter's connection and its post succeed, and the event waits. -/
theorem Agreed.delivered (agreed : Agreed base dir place b) {ch : FifoChannel}
    (found : b.fifo.channels.channels.get? key = some ch) {e : Event} (whole : e.Whole) :
    b.fifo.Delivers key e ∧ Fed b.fifo.channels (b.fifo.deliver key e).fs
      (Function.update b.memory.waiting key (b.memory.waiting key ++ [e])) := by
  have m := agreed.inStep.mirrors
  obtain ⟨-, -, -, new, -⟩ := m.made _ (mem_of_get? found)
  obtain ⟨fs₁, connected, written⟩ := m.connect_of_open found
  have m₁ := m.rewritten (Nat.le_succ_of_le new) written
  have fed₁ := agreed.fed.rewritten written fun e opened =>
    m.node_ne_succ opened (mem_of_get? found)
  obtain ⟨fs₂, posted, fed₂⟩ := m₁.post_of_open fed₁ found
    (p := ⟨b.fifo.channels.dir, key, ch.node + 1, 0⟩) rfl rfl whole
  refine ⟨⟨_, fs₁, fs₂, connected, posted⟩, ?_⟩
  have fs : (b.fifo.deliver key e).fs = fs₂ := by
    rw [FifoWorld.deliver, FifoWorld.connect_of_ok connected]
    unfold FifoWorld.post
    dsimp only
    rw [List.getElem?_concat_length]
    dsimp only
    rw [posted]
  rwa [fs]

/-- On a channel that is not open the arbiter's connection fails. -/
theorem Agreed.undelivered (agreed : Agreed base dir place b) (lacks : base.Lacks place key)
    (closed : b.fifo.channels.channels.get? key = none) (e : Event) :
    ¬ b.fifo.Delivers key e ∧ b.fifo.deliver key e = b.fifo := by
  have m := agreed.inStep.mirrors
  cases result : Peer.connect b.fifo.channels.dir key b.fifo.fs with
  | ok x =>
    obtain ⟨p, fs'⟩ := x
    obtain ⟨ch, found, -⟩ := m.connected lacks result
    rw [closed] at found
    contradiction
  | error err =>
    constructor
    · rintro ⟨p, fs, fs', connected, -⟩
      rw [result] at connected
      contradiction
    · rw [FifoWorld.deliver, FifoWorld.connect_of_error result]
      unfold FifoWorld.post
      rw [List.getElem?_eq_none (Nat.le_refl _)]

theorem Agreed.delivers_iff (agreed : Agreed base dir place b) (lacks : base.Lacks place key)
    {e : Event} (whole : e.Whole) :
    (∃ m, b.memory.push key e = .ok m) ↔ b.fifo.Delivers key e := by
  have isOpen := agreed.isOpen key
  simp only [FifoChannels.isOpen, ChannelMap.contains] at isOpen
  cases found : b.fifo.channels.channels.get? key with
  | none =>
    rw [found, Option.isSome_none] at isOpen
    have refused := (agreed.undelivered lacks found e).1
    simp [MemoryChannels.push, isOpen, refuse, refused]
  | some ch =>
    rw [found, Option.isSome_some] at isOpen
    have taken := (agreed.delivered found whole).1
    exact ⟨fun _ => taken, fun _ => ⟨_, MemoryChannels.push_of_open isOpen e⟩⟩

theorem Agreed.deliver (agreed : Agreed base dir place b) (lacks : base.Lacks place key)
    {e : Event} (whole : e.Whole) :
    Agreed base dir place ⟨b.memory.after (.push key e), b.fifo.deliver key e⟩ := by
  have isOpen := agreed.isOpen key
  simp only [FifoChannels.isOpen, ChannelMap.contains] at isOpen
  cases found : b.fifo.channels.channels.get? key with
  | none =>
    rw [found, Option.isSome_none] at isOpen
    rw [MemoryChannels.after_push_of_closed isOpen, (agreed.undelivered lacks found e).2]
    exact agreed
  | some ch =>
    rw [found, Option.isSome_some] at isOpen
    have channels : (b.fifo.deliver key e).channels = b.fifo.channels := by
      rw [FifoWorld.deliver, FifoWorld.channels_post, FifoWorld.channels_connect]
    have inStep : FifoWorld.InStep base place (b.fifo.deliver key e) :=
      (agreed.inStep.connect lacks).post b.fifo.peers.length e
    have fed := (agreed.delivered found whole).2
    generalize b.fifo.deliver key e = w at channels inStep fed ⊢
    exact {
      inStep
      dir := (congrArg FifoChannels.dir channels).trans agreed.dir
      counted := MemoryChannels.counted_after agreed.counted (.push key e)
      refs := fun other => by
        have same := FifoWorld.refs_of_channels (congrArg FifoChannels.channels channels)
        rw [MemoryChannels.refs_push, agreed.refs, same]
      fed := by
        rw [MemoryChannels.waiting_push isOpen, channels]
        exact fed }

/-- Events are taken from both until there are none. What is taken from each is, channel by channel,
what has waited. -/
theorem Agreed.drain (agreed : Agreed base dir place b) {m : MemoryChannels} {w : FifoWorld}
    {es es' : List (ChannelKey × Event)} {orders : Nat → Enumeration}
    (memory : b.memory.Drains es m) (fifo : b.fifo.Drains orders es' w) :
    Agreed base dir place ⟨m, w⟩ ∧ ∀ key, lettersTo key es = lettersTo key es' := by
  obtain ⟨left, fifo⟩ := fifo
  have kept : (Channels.memory b.memory).Kept (.memory m) :=
    Drains.keeps (P := fun m => (Channels.memory b.memory).Kept (.memory m)) memory
      (fun m kept => kept.trans (Channels.memory m).kept_nextEvent) (.refl _)
  have channels : w.channels.dir = b.fifo.channels.dir ∧
      w.channels.channels = b.fifo.channels.channels :=
    Drains.keeps (P := fun s : FifoWorld × (Nat → Enumeration) =>
      s.1.channels.dir = b.fifo.channels.dir ∧
        s.1.channels.channels = b.fifo.channels.channels) fifo (fun _ same => same) ⟨rfl, rfl⟩
  obtain ⟨received, nothing⟩ := MemoryChannels.feeds.letters memory rfl
  obtain ⟨received', inStep, fed⟩ :=
    (FifoWorld.feeds base place).letters fifo ⟨agreed.inStep, agreed.fed⟩
  refine ⟨⟨inStep, channels.1.trans agreed.dir,
    Channels.counted_of_eq agreed.counted kept.references, fun key => ?_, ?_⟩, fun key => ?_⟩
  · rw [kept.refs, agreed.refs, FifoWorld.refs_of_channels channels.2]
  · rw [nothing]
    exact fed
  · rw [received, received']

theorem Agreed.exists_drains (agreed : Agreed base dir place b) (orders : Nat → Enumeration) :
    (∃ es m, b.memory.Drains es m) ∧ ∃ es w, b.fifo.Drains orders es w := by
  obtain ⟨es, s, fifo⟩ := (FifoWorld.feeds base place).exists_drains
    (s := (b.fifo, orders)) ⟨agreed.inStep, agreed.fed⟩
  exact ⟨MemoryChannels.feeds.exists_drains rfl, es, s.1, s.2, fifo⟩

theorem Agreed.step (agreed : Agreed base dir place b) (step : Step base dir place b b') :
    Agreed base dir place b' := by
  cases step with
  | openChannel lacks event ack fresh => exact agreed.openChannel lacks event ack fresh
  | closeChannel key => exact agreed.closeChannel key
  | deliver lacks whole => exact agreed.deliver lacks whole
  | sendAck lacks handle => exact agreed.sendAck lacks handle
  | wake => exact agreed.wake
  | receiveAck => exact agreed.receiveAck
  | waitAck i wait => exact agreed.waitAck i wait
  | disconnect i => exact agreed.disconnect i
  | drain memory fifo => exact (agreed.drain memory fifo).1

theorem agreed_of_reach (sound : base.Sound) (found : base.directory dir = .ok place)
    (reach : Reach base dir place b) : Agreed base dir place b := by
  induction reach with
  | new => exact agreed_new sound found
  | next _ step agreed => exact agreed.step step

/-- After any steps over a directory that had none of the names used, and whose path leaves room for
them, a channel is open on both kinds or on neither, an event is taken on both or on neither, and
events can be taken until there are none, in whatever orders the scans go: for each channel they
are the same events in the same order. -/
theorem backends_agree (sound : base.Sound) (found : base.directory dir = .ok place)
    (reach : Reach base dir place b) :
    (∀ key, b.memory.isOpen key = b.fifo.channels.isOpen key) ∧
      (∀ key e, base.Lacks place key → e.Whole →
        ((∃ m, b.memory.push key e = .ok m) ↔ b.fifo.Delivers key e)) ∧
      (∀ orders, (∃ es m, b.memory.Drains es m) ∧ ∃ es w, b.fifo.Drains orders es w) ∧
      ∀ es es' m w orders, b.memory.Drains es m → b.fifo.Drains orders es' w →
        ∀ key, lettersTo key es = lettersTo key es' := by
  have agreed := agreed_of_reach sound found reach
  exact ⟨agreed.isOpen, fun _ _ lacks whole => agreed.delivers_iff lacks whole,
    agreed.exists_drains, fun _ _ _ _ _ memory fifo => (agreed.drain memory fifo).2⟩

/-- A channel over a directory, on which an event was sent. -/
theorem backends_agree_of_one_event :
    let base : FileSystem := ⟨[], [(["run"], 0)], [.directory]⟩
    let key : ChannelKey := .focus 1 5
    let e : Event := ⟨1, 5, .playback, .released, "", "", ""⟩
    let unused : Backends := ⟨{}, { channels := { dir := "/run" }, fs := base }⟩
    let opened : Backends := ⟨unused.memory.openChannel key, unused.fifo.openChannel key⟩
    let b : Backends := ⟨opened.memory.after (.push key e), opened.fifo.deliver key e⟩
    Reach base "/run" ["run"] b ∧ b.fifo.channels.isOpen key = true ∧
      ∀ es es' m w orders, b.memory.Drains es m → b.fifo.Drains orders es' w →
        ∀ key, lettersTo key es = lettersTo key es' := by
  intro base key e unused opened b
  have whole : e.Whole := by
    refine ⟨?_, ?_, ?_⟩ <;> exact ⟨by decide, by decide⟩
  have lacks : base.Lacks ["run"] key := by decide +kernel
  have opening : Step base "/run" ["run"] unused opened :=
    .openChannel lacks (by decide +kernel) (by decide +kernel) (.inr rfl)
  have reach : Reach base "/run" ["run"] b :=
    (Reach.new.next opening).next (.deliver lacks whole)
  have agree := backends_agree (by decide) (by decide +kernel) reach
  exact ⟨reach, (agree.1 key).symm.trans (by decide +kernel), agree.2.2.2⟩

end Agreed

section Long

variable {path name : String}

/-- Slashes at the end of a path lead nowhere else. -/
theorem pathComponents_slashes (path : String) (n : Nat) :
    pathComponents (path ++ String.ofList (List.replicate n '/')) = pathComponents path := by
  induction n with
  | zero => simp
  | succ n ih =>
    rw [← ih, pathComponents, pathComponents, List.replicate_succ']
    simp only [String.toList_append, String.toList_ofList, ← List.append_assoc]
    rw [List.splitOn_append_cons_self, List.filter_append]
    simp

theorem length_encode_slashes (n : Nat) :
    (Utf8.encode (String.ofList (List.replicate n '/')).toList).length = n := by
  rw [String.toList_ofList]
  induction n with
  | zero => rfl
  | succ n ih =>
    rw [List.replicate_succ, Utf8.encode_cons, List.length_append, ih]
    exact Nat.add_comm 1 n

theorem checkPath_of_long (long : maxPath < (Utf8.encode path.toList).length) :
    checkPath path ≠ .ok () := by
  unfold checkPath
  dsimp only
  split
  · exact nofun
  · rw [if_pos long]
    exact nofun

theorem length_joinPath (dir name : String) :
    (Utf8.encode dir.toList).length + (Utf8.encode name.toList).length ≤
      (Utf8.encode (joinPath dir name).toList).length := by
  unfold joinPath
  split <;> simp only [String.toList_append, Utf8.encode_append, List.length_append] <;> omega

theorem isOpen_openChannel_of_long {key : ChannelKey} (sound : base.Sound)
    (found : base.directory dir = .ok place) (lacks : base.Lacks place key)
    (long : maxPath < (Utf8.encode dir.toList).length + (Utf8.encode key.eventName.toList).length) :
    (FifoWorld.openChannel { channels := { dir }, fs := base } key).channels.isOpen key =
      false := by
  have m := (FifoWorld.inStep_new sound found).mirrors
  rcases m.openChannel_cases lacks with
    ⟨ch, opened, -⟩ | ⟨-, e, more, -, opened⟩ | ⟨-, event, -⟩
  · contradiction
  · simp only [FifoWorld.openChannel, opened]
    rfl
  · exact absurd event
      (checkPath_of_long (Nat.lt_of_lt_of_le long (length_joinPath dir key.eventName)))

/-- Over a directory whose own path leaves no room for a name, a channel is opened in memory and not
over FIFOs. -/
theorem backends_disagree_of_long_path :
    let base : FileSystem := ⟨[], [(["srv"], 0)], [.directory]⟩
    let dir : String := "/srv" ++ String.ofList (List.replicate 4088 '/')
    let key : ChannelKey := .focus 1 5
    base.Sound ∧ base.directory dir = .ok ["srv"] ∧ base.Lacks ["srv"] key ∧
      (MemoryChannels.openChannel {} key).isOpen key = true ∧
      (FifoWorld.openChannel { channels := { dir }, fs := base } key).channels.isOpen key =
        false := by
  intro base dir key
  have sound : base.Sound := by decide
  have found : base.directory dir = .ok ["srv"] := by
    have start : base.origin dir = [] := ite_self _
    rw [FileSystem.directory, start, pathComponents_slashes]
    decide +kernel
  have lacks : base.Lacks ["srv"] key := by decide +kernel
  have size : (Utf8.encode dir.toList).length = 4 + 4088 := by
    rw [String.toList_append, Utf8.encode_append, List.length_append, length_encode_slashes]
    exact congrArg (· + 4088) (by decide +kernel)
  have name : (Utf8.encode key.eventName.toList).length = 9 := by decide +kernel
  have long : maxPath < 4 + 4088 + 9 := by decide
  exact ⟨sound, found, lacks, by decide +kernel,
    isOpen_openChannel_of_long sound found lacks (by rwa [size, name])⟩

end Long

end Backends
end AudioFocus
