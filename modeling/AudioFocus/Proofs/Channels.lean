import AudioFocus.Channel.Backend
import AudioFocus.Proofs.Files

/-!
What is counted of the channels, over either kind: how often each is open, and how many of its
events are not acknowledged. An open adds a reference and a close takes one away; everything else
leaves the references alone. An open that a close follows leaves nothing behind.
-/
namespace AudioFocus

@[simp] theorem mapError_ok {ε ε' α : Type} (f : ε → ε') (a : α) :
    (Except.ok a).mapError f = .ok a := rfl

@[simp] theorem mapError_error {ε ε' α : Type} (f : ε → ε') (e : ε) :
    (Except.error e : Except ε α).mapError f = .error (f e) := rfl

namespace Channels

/-- The references of an open channel and its events that are not acknowledged. Over FIFOs nobody
counts the latter. -/
def counts? : Channels → ChannelKey → Option (Nat × Nat)
  | memory m, key => (m.channels.get? key).map fun c => (c.refs, c.outstanding)
  | fifo c _, key => (c.channels.get? key).map fun c => (c.refs, 0)

def afterOpen : Option (Nat × Nat) → Nat × Nat
  | some (refs, outstanding) => (refs + 1, outstanding)
  | none => (1, 0)

def afterClose : Option (Nat × Nat) → Option (Nat × Nat)
  | some (refs, outstanding) => if 1 < refs then some (refs - 1, outstanding) else none
  | none => none

theorem isOpen_eq_isSome (c : Channels) (key : ChannelKey) :
    c.isOpen key = (c.counts? key).isSome := by
  cases c <;> simp [isOpen, counts?, MemoryChannels.isOpen, FifoChannels.isOpen,
    ChannelMap.contains]

theorem refs_eq_getD (c : Channels) (key : ChannelKey) :
    c.refs key = ((c.counts? key).map Prod.fst).getD 0 := by
  cases c <;> simp [refs, counts?, Function.comp_def]

theorem counts?_openChannel {c c' : Channels} {key : ChannelKey}
    (opened : c.openChannel key = (.ok (), c')) (other : ChannelKey) :
    c'.counts? other =
      if other = key then some (afterOpen (c.counts? key)) else c.counts? other := by
  cases c with
  | memory m =>
    obtain rfl := (Prod.mk.inj opened).2
    cases found : m.channels.get? key <;> by_cases h : other = key <;>
      simp [counts?, MemoryChannels.openChannel, found, h, afterOpen]
  | fifo c fs =>
    cases found : c.channels.get? key with
    | some ch =>
      simp only [openChannel, FifoChannels.openChannel, found] at opened
      obtain rfl := (Prod.mk.inj opened).2
      by_cases h : other = key <;> simp [counts?, found, h, afterOpen]
    | none =>
      simp only [openChannel, FifoChannels.openChannel, found] at opened
      split at opened
      · simp at opened
      · obtain rfl := (Prod.mk.inj opened).2
        by_cases h : other = key <;> simp [counts?, found, h, afterOpen]

theorem counts?_openChannel_error {c c' : Channels} {key : ChannelKey} {e : FocusError}
    (refused : c.openChannel key = (.error e, c')) : c'.counts? = c.counts? := by
  cases c with
  | memory m => simp [openChannel] at refused
  | fifo c fs =>
    cases found : c.channels.get? key with
    | some ch => simp [openChannel, FifoChannels.openChannel, found] at refused
    | none =>
      simp only [openChannel, FifoChannels.openChannel, found] at refused
      split at refused
      · obtain rfl := (Prod.mk.inj refused).2
        rfl
      · simp at refused

theorem counts?_closeChannel (c : Channels) (key other : ChannelKey) :
    (c.closeChannel key).counts? other =
      if other = key then afterClose (c.counts? key) else c.counts? other := by
  cases c with
  | memory m =>
    cases found : m.channels.get? key with
    | none => by_cases h : other = key <;>
        simp [closeChannel, MemoryChannels.closeChannel, found, counts?, h, afterClose]
    | some ch =>
      by_cases shared : 1 < ch.refs
      · by_cases h : other = key <;>
          simp [closeChannel, MemoryChannels.closeChannel, found, counts?, h, afterClose, shared]
      · by_cases waiting : 0 < ch.outstanding <;> by_cases h : other = key <;>
          simp [closeChannel, MemoryChannels.closeChannel, MemoryChannels.wake, found, counts?, h,
            afterClose, shared, waiting]
  | fifo c fs =>
    cases found : c.channels.get? key with
    | none => by_cases h : other = key <;>
        simp [closeChannel, FifoChannels.closeChannel, found, counts?, h, afterClose]
    | some ch =>
      by_cases shared : 1 < ch.refs <;> by_cases h : other = key <;>
        simp [closeChannel, FifoChannels.closeChannel, found, counts?, h, afterClose, shared]

theorem references_sendAck (c : Channels) (key : ChannelKey) (handle : Int32)
    (other : ChannelKey) :
    ((c.sendAck key handle).2.counts? other).map Prod.fst = (c.counts? other).map Prod.fst := by
  cases c with
  | memory m =>
    cases found : m.channels.get? key with
    | none => simp [sendAck, MemoryChannels.sendAck, found]
    | some ch =>
      by_cases waiting : 0 < ch.outstanding <;> by_cases h : other = key <;>
        simp [sendAck, MemoryChannels.sendAck, found, waiting, counts?, h]
  | fifo c fs =>
    cases sent : c.sendAck fs key handle <;> simp [sendAck, sent, counts?]

theorem counts?_nextEvent (c : Channels) : c.nextEvent.2.counts? = c.counts? := by
  cases c with
  | memory m =>
    funext key
    simp only [nextEvent, counts?, MemoryChannels.nextEvent]
    split <;> rfl
  | fifo c fs =>
    funext key
    simp only [nextEvent, counts?, FifoChannels.nextEvent]
    split <;> rfl

@[simp] theorem counts?_wake (c : Channels) : c.wake.counts? = c.counts? := by
  cases c <;> rfl

/-- No channel is open without a reference. -/
def Counted (c : Channels) : Prop := ∀ key n m, c.counts? key = some (n, m) → 0 < n

theorem isOpen_iff_refs {c : Channels} (counted : c.Counted) (key : ChannelKey) :
    c.isOpen key = true ↔ 0 < c.refs key := by
  rw [isOpen_eq_isSome, refs_eq_getD]
  cases found : c.counts? key with
  | none => simp
  | some x => simpa using counted key x.1 x.2 found

theorem afterClose_afterOpen {c : Channels} (counted : c.Counted) (key : ChannelKey) :
    afterClose (some (afterOpen (c.counts? key))) = c.counts? key := by
  cases found : c.counts? key with
  | none => rfl
  | some x =>
    have positive := counted key x.1 x.2 found
    simp [afterOpen, afterClose, positive]

theorem counted_of_eq {c c' : Channels} (counted : c.Counted)
    (same : ∀ key, (c'.counts? key).map Prod.fst = (c.counts? key).map Prod.fst) :
    c'.Counted := by
  intro key n m found
  have before := same key
  rw [found] at before
  obtain ⟨x, found', rfl⟩ := Option.map_eq_some_iff.mp before.symm
  exact counted key x.1 x.2 found'

theorem counted_openChannel {c c' : Channels} {key : ChannelKey} (counted : c.Counted)
    (opened : c.openChannel key = (.ok (), c')) : c'.Counted := by
  intro other n m found
  rw [counts?_openChannel opened] at found
  split at found
  · cases counts : c.counts? key with
    | none =>
      obtain ⟨rfl, -⟩ : 1 = n ∧ 0 = m := by simpa [afterOpen, counts] using found
      decide
    | some x =>
      obtain ⟨rfl, -⟩ : x.1 + 1 = n ∧ x.2 = m := by simpa [afterOpen, counts] using found
      exact Nat.succ_pos x.1
  · exact counted other n m found

theorem counted_closeChannel {c : Channels} (counted : c.Counted) (key : ChannelKey) :
    (c.closeChannel key).Counted := by
  intro other n m found
  rw [counts?_closeChannel] at found
  split at found
  · cases counts : c.counts? key with
    | none => simp [afterClose, counts] at found
    | some x =>
      by_cases shared : 1 < x.1
      · have rest : x.1 - 1 = n ∧ x.2 = m := by simpa [afterClose, counts, shared] using found
        omega
      · simp [afterClose, counts, shared] at found
  · exact counted other n m found

theorem refs_openChannel {c c' : Channels} {key : ChannelKey}
    (opened : c.openChannel key = (.ok (), c')) (other : ChannelKey) :
    c'.refs other = c.refs other + (if other = key then 1 else 0) := by
  rw [refs_eq_getD, refs_eq_getD, counts?_openChannel opened]
  by_cases h : other = key
  · subst h
    cases c.counts? other <;> simp [afterOpen]
  · simp [h]

theorem refs_closeChannel {c : Channels} {key : ChannelKey} (used : 0 < c.refs key)
    (other : ChannelKey) :
    (c.closeChannel key).refs other + (if other = key then 1 else 0) = c.refs other := by
  rw [refs_eq_getD] at used
  rw [refs_eq_getD, refs_eq_getD, counts?_closeChannel]
  by_cases h : other = key
  · subst h
    cases found : c.counts? other with
    | none => simp [found] at used
    | some x =>
      by_cases shared : 1 < x.1
      · simp [afterClose, shared]
        omega
      · simp [found] at used
        simp [afterClose, shared]
        omega
  · simp [h]

/-- Names in the tree, if there is one, stand for nodes. -/
def Sound : Channels → Prop
  | memory _ => True
  | fifo _ fs => fs.Sound

theorem sound_openChannel {c : Channels} (sound : c.Sound) (key : ChannelKey) :
    (c.openChannel key).2.Sound := by
  cases c with
  | memory m => trivial
  | fifo c fs => exact c.sound_openChannel sound key

theorem sound_closeChannel {c : Channels} (sound : c.Sound) (key : ChannelKey) :
    (c.closeChannel key).Sound := by
  cases c with
  | memory m => trivial
  | fifo c fs => exact c.sound_closeChannel sound key

theorem sound_sendAck {c : Channels} (sound : c.Sound) (key : ChannelKey) (handle : Int32) :
    (c.sendAck key handle).2.Sound := by
  cases c with
  | memory m => trivial
  | fifo c fs =>
    unfold sendAck
    dsimp only
    split
    · rename_i sent
      exact FifoChannels.sound_sendAck sound sent
    · exact sound

theorem sound_nextEvent {c : Channels} (sound : c.Sound) : c.nextEvent.2.Sound := by
  cases c with
  | memory m => trivial
  | fifo c fs => exact c.sound_nextEvent sound

/-- Channels whose references are those of others, and which are as sound. -/
structure Kept (c c' : Channels) : Prop where
  references : ∀ key, (c'.counts? key).map Prod.fst = (c.counts? key).map Prod.fst
  sound : c.Sound → c'.Sound

protected theorem Kept.refl (c : Channels) : c.Kept c := ⟨fun _ => rfl, id⟩

protected theorem Kept.trans {c c' c'' : Channels} (first : c.Kept c') (second : c'.Kept c'') :
    c.Kept c'' :=
  ⟨fun key => (second.references key).trans (first.references key),
    fun sound => second.sound (first.sound sound)⟩

theorem kept_sendAck (c : Channels) (key : ChannelKey) (handle : Int32) :
    c.Kept (c.sendAck key handle).2 :=
  ⟨c.references_sendAck key handle, fun sound => sound_sendAck sound key handle⟩

theorem kept_nextEvent (c : Channels) : c.Kept c.nextEvent.2 :=
  ⟨fun key => by rw [counts?_nextEvent], sound_nextEvent⟩

theorem kept_wake (c : Channels) : c.Kept c.wake :=
  ⟨fun key => by rw [counts?_wake], fun sound => by cases c <;> exact sound⟩

theorem kept_openChannel_error {c c' : Channels} {key : ChannelKey} {e : FocusError}
    (refused : c.openChannel key = (.error e, c')) : c.Kept c' := by
  refine ⟨fun other => by rw [counts?_openChannel_error refused], fun sound => ?_⟩
  have opened := sound_openChannel sound key
  rwa [refused] at opened

/-- Neither FIFO of a channel exists. In memory there are none. -/
def Absent : Channels → ChannelKey → Prop
  | memory _, _ => True
  | fifo c fs, key => fs.Absent c.dir key.eventName ∧ fs.Absent c.dir key.ackName

def SameFiles : Channels → Channels → Prop
  | memory _, memory _ => True
  | fifo _ fs, fifo _ fs' => fs.SameNames fs'
  | _, _ => False

protected theorem SameFiles.refl (c : Channels) : c.SameFiles c := by
  cases c with
  | memory m => trivial
  | fifo c fs => exact FileSystem.SameNames.refl fs

theorem sameFiles_openChannel_error {c c' : Channels} {key : ChannelKey} {e : FocusError}
    (sound : c.Sound) (absent : c.Absent key) (refused : c.openChannel key = (.error e, c')) :
    c.SameFiles c' := by
  cases c with
  | memory m => simp [openChannel] at refused
  | fifo c fs =>
    cases found : c.channels.get? key with
    | some ch => simp [openChannel, FifoChannels.openChannel, found] at refused
    | none =>
      obtain ⟨event, ack⟩ := absent
      simp only [openChannel, FifoChannels.openChannel, found] at refused
      rcases FifoChannels.makePair_absent sound event ack with
        ⟨e, more, -, made⟩ | ⟨p, q, -, -, made⟩
      · rw [made] at refused
        exact (Prod.mk.inj refused).2 ▸ FileSystem.sameNames_extend sound
      · simp [made] at refused

theorem counts?_closeChannel_openChannel {c c' : Channels} {key : ChannelKey} (counted : c.Counted)
    (opened : c.openChannel key = (.ok (), c')) : (c'.closeChannel key).counts? = c.counts? := by
  funext other
  rw [counts?_closeChannel, counts?_openChannel opened, if_pos rfl, afterClose_afterOpen counted,
    counts?_openChannel opened]
  by_cases same : other = key
  · rw [if_pos same, same]
  · rw [if_neg same, if_neg same]

theorem sameFiles_closeChannel_openChannel {c c' : Channels} {key : ChannelKey}
    (counted : c.Counted) (sound : c.Sound) (absent : c.Absent key)
    (opened : c.openChannel key = (.ok (), c')) : c.SameFiles (c'.closeChannel key) := by
  cases c with
  | memory m =>
    obtain rfl := (Prod.mk.inj opened).2
    trivial
  | fifo c fs =>
    cases found : c.channels.get? key with
    | some ch =>
      -- The channel was open, so neither the open nor the close touches the files.
      have positive : 0 < ch.refs := counted key ch.refs 0 (by simp [counts?, found])
      simp only [openChannel, FifoChannels.openChannel, found] at opened
      obtain rfl := (Prod.mk.inj opened).2
      have shared : 1 < ch.refs + 1 := by omega
      simp only [closeChannel, FifoChannels.closeChannel, ChannelMap.get?_modify, if_true, found,
        Option.map_some, shared]
      exact FileSystem.SameNames.refl fs
    | none =>
      obtain ⟨event, ack⟩ := absent
      simp only [openChannel, FifoChannels.openChannel, found] at opened
      rcases FifoChannels.makePair_absent sound event ack with
        ⟨e, more, -, made⟩ | ⟨p, q, reached, ackReached, made⟩
      · simp [made] at opened
      · rw [made] at opened
        obtain rfl := (Prod.mk.inj opened).2
        exact FifoChannels.closeChannel_paired
          (c := { c with channels := c.channels.insert key ⟨fs.nodes.length, 1⟩ }) sound event ack
          reached ackReached (by simp)

/-- Channels that nobody has opened. -/
def Unused : Channels → Prop
  | memory m => m = {}
  | fifo c fs => c.channels = {} ∧ fs.Sound

theorem Unused.counts? {c : Channels} (unused : c.Unused) (key : ChannelKey) :
    c.counts? key = none := by
  cases c with
  | memory m => rw [show m = {} from unused]; rfl
  | fifo c fs => simp only [Channels.counts?, unused.1]; rfl

theorem Unused.sound {c : Channels} (unused : c.Unused) : c.Sound := by
  cases c with
  | memory m => trivial
  | fifo c fs => exact unused.2

theorem Unused.counted {c : Channels} (unused : c.Unused) : c.Counted := by
  intro key n m found
  rw [unused.counts?] at found
  contradiction

end Channels
end AudioFocus
