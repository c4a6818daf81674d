import AudioFocus.Proofs.Chunks

/-!
No channel is kept waiting by the others. A scan starts behind the channel that was served last, so
every scan that serves another channel brings the turn of a waiting one nearer: it moves towards the
front of the scan order by at least one place. What is sent meanwhile goes behind what waits, on
whatever channels, and changes nothing about the record at the front.
-/
namespace AudioFocus

namespace FifoChannels

open FileSystem

variable {c : FifoChannels} {fs : FileSystem} {octets : ChannelKey → List UInt8}

section Order

theorem getElem?_rotateLeft {α : Type} (l : List α) (n : Nat) {k : Nat} (inside : k < l.length) :
    (l.rotateLeft n)[k]? = l[(n % l.length + k) % l.length]? := by
  have start := Nat.mod_lt n (Nat.zero_lt_of_lt inside)
  unfold List.rotateLeft
  dsimp only
  split
  · -- There is one element, and every index is the first.
    obtain rfl : k = 0 := by omega
    have one : l.length = 1 := by omega
    rw [one, Nat.mod_one]
  · have dropped : (l.drop (n % l.length)).length = l.length - n % l.length := List.length_drop
    by_cases early : k < l.length - n % l.length
    · have same : (n % l.length + k) % l.length = n % l.length + k := Nat.mod_eq_of_lt (by omega)
      rw [List.getElem?_append_left (dropped ▸ early), List.getElem?_drop, same]
    · have wrapped : (n % l.length + k) % l.length = k - (l.length - n % l.length) := by
        rw [Nat.mod_eq_sub_mod (by omega), Nat.mod_eq_of_lt (by omega)]
        omega
      rw [List.getElem?_append_right (dropped ▸ Nat.le_of_not_lt early), dropped, wrapped,
        List.getElem?_take_of_lt (by omega)]

/-- From behind the place that comes `j` places after the start it is `j + 1` places less to any
later one. -/
theorem nearer_of_served (start n : Nat) {j d : Nat} (before : j < d) :
    (((start + j) % n + 1) % n + (d - (j + 1))) % n = (start + d) % n := by
  rw [Nat.mod_add_mod, Nat.add_assoc, Nat.mod_add_mod]
  congr 1
  omega

/-- Which channel comes at each step of a scan, and its index. -/
theorem getElem?_scanOrder (c : FifoChannels) {k : Nat} (inside : k < c.channels.entries.length) :
    c.scanOrder[k]? =
      (c.channels.entries[(c.cursor % c.channels.entries.length + k) %
          c.channels.entries.length]?).map
        (·, (c.cursor % c.channels.entries.length + k) % c.channels.entries.length) := by
  have size : c.channels.entries.zipIdx.length = c.channels.entries.length := List.length_zipIdx
  rw [scanOrder, getElem?_rotateLeft _ _ (size ▸ inside), size, List.getElem?_zipIdx,
    Nat.zero_add]

theorem length_scanOrder (c : FifoChannels) : c.scanOrder.length = c.channels.entries.length := by
  rw [← (scanOrder_perm c).length_eq, List.length_map]

/-- After a scan that served an earlier channel, all that came behind it have come nearer. -/
theorem getElem?_scanOrder_served (c : FifoChannels) {j d : Nat} (before : j < d)
    {x y : (ChannelKey × FifoChannel) × Nat} (served : c.scanOrder[j]? = some y)
    (turn : c.scanOrder[d]? = some x) :
    ({ c with cursor := y.2 + 1 } : FifoChannels).scanOrder[d - (j + 1)]? = some x := by
  have inside : d < c.channels.entries.length :=
    length_scanOrder c ▸ (List.getElem?_eq_some_iff.mp turn).1
  rw [getElem?_scanOrder c (by omega)] at served
  obtain ⟨_, -, rfl⟩ := Option.map_eq_some_iff.mp served
  rw [getElem?_scanOrder c inside] at turn
  rw [getElem?_scanOrder _ (by dsimp only; omega), ← turn]
  dsimp only
  rw [nearer_of_served _ _ before]

end Order

section Scan

/-- A scan that meets a channel whose first record is whole serves this channel, or another one
before it and leaves what waits on this one. -/
theorem Piped.scan_of_turn (piped : Piped c fs octets)
    {entries : List ((ChannelKey × FifoChannel) × Nat)}
    (listed : ∀ x ∈ entries, x.1 ∈ c.channels.entries) (distinct : (entries.map (·.1.1)).Nodup)
    {d : Nat} {x : (ChannelKey × FifoChannel) × Nat} (turn : entries[d]? = some x) {e : Event}
    (front : Event.ofChunk? ((octets x.1.1).take Event.recordSize) = some e) :
    (FifoChannels.scan fs entries).1 = some (x.1.1, e, x.2) ∨
      ∃ j y e' left, j < d ∧ entries[j]? = some y ∧ y.1.1 ≠ x.1.1 ∧
        (FifoChannels.scan fs entries).1 = some (y.1.1, e', y.2) ∧
        Piped c (FifoChannels.scan fs entries).2 left ∧ left x.1.1 = octets x.1.1 := by
  induction entries generalizing fs octets d with
  | nil => simp at turn
  | cons first entries ih =>
    obtain ⟨⟨key, ch⟩, i⟩ := first
    obtain ⟨brought, read⟩ := piped.readFifo (listed _ List.mem_cons_self) Event.recordSize
    obtain ⟨unmet, distinct⟩ := List.nodup_cons.mp distinct
    simp only [FifoChannels.scan, brought]
    cases d with
    | zero =>
      obtain rfl : ((key, ch), i) = x := by simpa using turn
      left
      simp only [front]
    | succ d =>
      have turn : entries[d]? = some x := by simpa using turn
      have other : x.1.1 ≠ key := by
        rintro rfl
        exact unmet (List.mem_map.mpr ⟨x, List.mem_of_getElem? turn, rfl⟩)
      have kept : Function.update octets key ((octets key).drop Event.recordSize) x.1.1 =
          octets x.1.1 := Function.update_of_ne other _ _
      cases Event.ofChunk? ((octets key).take Event.recordSize) with
      | some e' =>
        exact .inr ⟨0, ((key, ch), i), e', _, Nat.succ_pos d, rfl, other.symm, rfl, read, kept⟩
      | none =>
        rcases ih read (fun x member => listed x (List.mem_cons_of_mem _ member)) distinct turn
            (kept.symm ▸ front) with served | ⟨j, y, e', left, before, at_, apart, served, rest⟩
        · exact .inl served
        · refine .inr ⟨j + 1, y, e', left, Nat.succ_lt_succ before, at_, apart, served, rest.1, ?_⟩
          rw [rest.2, kept]

end Scan

end FifoChannels

namespace FifoWorld

open FileSystem FifoChannels

variable {w w' : FifoWorld} {octets : ChannelKey → List UInt8}

/-- Between two scans octets may be put behind those that wait on the channels, which stay the
same. -/
structure Refilled (w w' : FifoWorld) : Prop where
  channels : w'.channels = w.channels
  queue : ∀ e ∈ w.channels.channels.entries, ∀ mode queue readers,
    w.fs.nodes[e.2.node]? = some (.fifo mode queue (readers + 1)) →
      ∃ mode' more readers',
        w'.fs.nodes[e.2.node]? = some (.fifo mode' (queue ++ more) (readers' + 1))

section Refilled

protected theorem Refilled.refl (w : FifoWorld) : w.Refilled w :=
  ⟨rfl, fun _ _ mode queue readers there => ⟨mode, [], readers, by rwa [List.append_nil]⟩⟩

/-- Whatever is written, and by whatever name, refills. -/
theorem refilled_write {dir name : String} {more : List UInt8} {fs : FileSystem}
    (written : w.fs.write dir name more = .ok fs) : w.Refilled { w with fs } := by
  refine ⟨rfl, fun e _ mode queue readers there => ?_⟩
  have unwritten {i : Nat} {node : Node} (elsewhere : i ≠ e.2.node) :
      ∃ mode' more readers', (w.fs.setNode i node).nodes[e.2.node]? =
        some (.fifo mode' (queue ++ more) (readers' + 1)) :=
    ⟨mode, [], readers, by rw [setNode, List.getElem?_set_ne elsewhere, there, List.append_nil]⟩
  obtain ⟨place, -, written⟩ := bind_eq_ok.mp written
  split at written
  · rename_i i mode' queue' readers' found
    split at written
    · contradiction
    · obtain rfl := Except.ok.inj written
      have node := (find?_eq_some.mp found).2
      by_cases here : i = e.2.node
      · subst here
        obtain ⟨rfl, rfl, rfl⟩ := Node.fifo.inj (Option.some.inj (node.symm.trans there))
        exact ⟨mode', more, readers,
          List.getElem?_set_self (List.getElem?_eq_some_iff.mp there).1⟩
      · exact unwritten here
  · rename_i i content found
    obtain rfl := Except.ok.inj written
    apply unwritten
    rintro rfl
    exact Node.noConfusion (Option.some.inj (there.symm.trans (find?_eq_some.mp found).2))
  all_goals contradiction

theorem Refilled.piped (refilled : w.Refilled w') (piped : Piped w.channels w.fs octets) :
    ∃ octets', Piped w'.channels w'.fs octets' ∧ ∀ key, octets key <+: octets' key := by
  have held (e) (listed : e ∈ w.channels.channels.entries) : ∃ mode more readers,
      w'.fs.nodes[e.2.node]? = some (.fifo mode (octets e.1 ++ more) (readers + 1)) := by
    obtain ⟨mode, readers, there⟩ := piped.queue e listed
    exact refilled.queue e listed mode _ readers there
  let octets' (key : ChannelKey) : List UInt8 :=
    ((w.channels.channels.get? key).map fun ch => w'.fs.waiting ch.node).getD []
  have waits (e) (listed : e ∈ w.channels.channels.entries) :
      octets' e.1 = w'.fs.waiting e.2.node := by
    simp only [octets', get?_of_mem piped.keys listed, Option.map_some, Option.getD_some]
  refine ⟨octets', ?_, fun key => ?_⟩
  · rw [refilled.channels]
    refine ⟨piped.keys, piped.apart, fun e listed => ?_, fun key closed => ?_⟩
    · obtain ⟨mode, more, readers, there⟩ := held e listed
      exact ⟨mode, readers, by rw [waits e listed, FileSystem.waiting, there]⟩
    · simp only [octets', closed, Option.map_none, Option.getD_none]
  · cases found : w.channels.channels.get? key with
    | none =>
      rw [piped.closed key found]
      exact List.nil_prefix
    | some ch =>
      obtain ⟨mode, more, readers, there⟩ := held _ (mem_of_get? found)
      rw [waits _ (mem_of_get? found), FileSystem.waiting, there]
      exact List.prefix_append _ _

end Refilled

/-- What follows the front record does not matter to it. -/
theorem ofChunk?_of_prefix {front all : List UInt8} {e : Event} (more : front <+: all)
    (holds : Event.ofChunk? (front.take Event.recordSize) = some e) :
    Event.ofChunk? (all.take Event.recordSize) = some e := by
  obtain ⟨rest, rfl⟩ := more
  have size : Event.recordSize ≤ front.length := by
    by_contra short
    rw [Event.ofChunk?_of_short (by rw [List.length_take]; omega)] at holds
    contradiction
  rwa [List.take_append_of_le_length size]

theorem cursor_of_scan {o : Enumeration} {x : ChannelKey × Event × Nat}
    (served : (scan w.fs (w.channels.reordered o).scanOrder).1 = some x) :
    (w.nextEvent o).2.channels = { w.channels with cursor := x.2.2 + 1 } := by
  unfold FifoWorld.nextEvent FifoChannels.nextEvent
  cases result : scan w.fs (w.channels.reordered o).scanOrder with
  | mk found fs =>
    rw [result] at served
    obtain rfl : found = some x := served
    rfl

/-- The channel that comes at a place of the scan order is served by then, and those before it are
others. -/
theorem served_of_turn {o : Enumeration} {d i : Nat} {key : ChannelKey} {ch : FifoChannel}
    {e : Event} (w : Nat → FifoWorld)
    (refilled : ∀ i, (((w i).nextEvent o).2).Refilled (w (i + 1)))
    (piped : Piped (w 0).channels (w 0).fs octets)
    (turn : ((w 0).channels.reordered o).scanOrder[d]? = some ((key, ch), i))
    (front : Event.ofChunk? ((octets key).take Event.recordSize) = some e) :
    ∃ m ≤ d, ((w m).nextEvent o).1 = some (key, e) ∧
      ∀ j < m, ∃ other e', ((w j).nextEvent o).1 = some (other, e') ∧ other ≠ key := by
  -- The place of the channel in the scan order decreases.
  induction d using Nat.strong_induction_on generalizing w octets with
  | _ d ih =>
    have listed (x) (member : x ∈ ((w 0).channels.reordered o).scanOrder) :
        x.1 ∈ (w 0).channels.channels.entries := (mem_scanOrder o).mp ⟨x, member, rfl⟩
    have distinct : (((w 0).channels.reordered o).scanOrder.map (·.1.1)).Nodup := by
      have perm := ((scanOrder_perm ((w 0).channels.reordered o)).trans (o.perm _)).map Prod.fst
      rw [List.map_map] at perm
      exact perm.nodup_iff.mpr piped.keys
    obtain ⟨found, read, -⟩ := (w 0).nextEvent_eq o
    rcases piped.scan_of_turn listed distinct turn front with
      served | ⟨j, y, e', left, before, at_, apart, served, piped', kept⟩
    · refine ⟨0, Nat.zero_le d, ?_, nofun⟩
      rw [found, served]
      rfl
    · have channels := cursor_of_scan served
      have scanned : Piped ((w 0).nextEvent o).2.channels ((w 0).nextEvent o).2.fs left := by
        rw [channels, read]
        exact { piped' with }
      obtain ⟨octets', piped₁, more⟩ := (refilled 0).piped scanned
      have nearer : ((w 1).channels.reordered o).scanOrder[d - (j + 1)]? = some ((key, ch), i) := by
        rw [(refilled 0).channels, channels]
        exact getElem?_scanOrder_served ((w 0).channels.reordered o) before at_ turn
      have front' : Event.ofChunk? ((octets' key).take Event.recordSize) = some e :=
        ofChunk?_of_prefix (more key) (kept.symm ▸ front)
      obtain ⟨m, within, result, others⟩ := ih (d - (j + 1)) (by omega) (fun i => w (i + 1))
        (fun i => refilled (i + 1)) piped₁ nearer front'
      refine ⟨m + 1, by omega, result, fun i earlier => ?_⟩
      cases i with
      | zero => exact ⟨y.1.1, e', by rw [found, served]; rfl, apart⟩
      | succ i => exact others i (Nat.lt_of_succ_lt_succ earlier)

/-- A scan of channels goes once through their list, from an index that the cursor gives, and all
its indices are in the list. Whatever waits on the channels and is sent on them between the scans,
wherever the first scan starts and in whatever order the channels are listed: as many scans as there
are channels serve each channel that has a whole record in front. Its record comes out as it is, and
scans before that serve others. -/
theorem served_within_a_round :
    (∀ c : FifoChannels, c.scanOrder.length = c.channels.size ∧
      ∀ k < c.channels.size, ∃ x, ∃ i < c.channels.size,
        i = (c.cursor % c.channels.size + k) % c.channels.size ∧
        c.channels.entries[i]? = some x ∧ c.scanOrder[k]? = some (x, i)) ∧
    ∀ (o : Enumeration) (w : Nat → FifoWorld) (octets : ChannelKey → List UInt8),
      Piped (w 0).channels (w 0).fs octets →
      (∀ i, ((w i).nextEvent o).2.Refilled (w (i + 1))) →
      ∀ key e, Event.ofChunk? ((octets key).take Event.recordSize) = some e →
        ∃ m < (w 0).channels.channels.size, ((w m).nextEvent o).1 = some (key, e) ∧
          ∀ j < m, ∃ other e', ((w j).nextEvent o).1 = some (other, e') ∧ other ≠ key := by
  refine ⟨fun c => ⟨length_scanOrder c, fun k inside => ?_⟩, ?_⟩
  · have met := getElem?_scanOrder c inside
    have start : (c.cursor % c.channels.size + k) % c.channels.size < c.channels.size :=
      Nat.mod_lt _ (Nat.zero_lt_of_lt inside)
    have listed := List.getElem?_eq_getElem start
    exact ⟨_, _, start, rfl, listed, met.trans (congrArg _ listed)⟩
  · intro o w octets piped refilled key e front
    cases found : (w 0).channels.channels.get? key with
    | none =>
      rw [piped.closed key found, List.take_nil, Event.ofChunk?_of_short (by decide)] at front
      contradiction
    | some ch =>
      obtain ⟨⟨x, i⟩, member, rfl⟩ := (mem_scanOrder o).mpr (mem_of_get? found)
      obtain ⟨d, turn⟩ := List.getElem?_of_mem member
      obtain ⟨m, within, served⟩ := served_of_turn w refilled piped turn front
      have inside := (List.getElem?_eq_some_iff.mp turn).1
      have size : ((w 0).channels.reordered o).scanOrder.length = (w 0).channels.channels.size :=
        (length_scanOrder _).trans (o.perm _).length_eq
      exact ⟨m, by omega, served⟩

/-- Two channels are open, and after every scan another event is sent on the first one. -/
theorem served_within_a_round_of_busy_channel :
    let base : FileSystem := ⟨[], [(["run"], 0)], [.directory]⟩
    let focus : ChannelKey := .focus 1 5
    let watch : ChannelKey := .watch 1
    let e : Event := ⟨9, 5, .playback, .released, "alarm", "", ""⟩
    let e' : Event := ⟨9, 2, .capture, .acquired, "", "clock", ""⟩
    let send (w : FifoWorld) (key : ChannelKey) (e : Event) : FifoWorld :=
      match w.fs.write "/run" key.eventName e.toRecord with
      | .ok fs => { w with fs }
      | .error _ => w
    let unused : FifoWorld := { channels := { dir := "/run", cursor := 7 }, fs := base }
    let opened := (unused.openChannel focus).openChannel watch
    let o : Enumeration := ⟨List.reverse, List.reverse_perm⟩
    let w (i : Nat) : FifoWorld := i.rec (send (send opened focus e) watch e')
      fun _ w => send (w.nextEvent o).2 focus e
    (∀ i, ((w i).nextEvent o).2.Refilled (w (i + 1))) ∧
      ∃ m < 2, ((w m).nextEvent o).1 = some (watch, e') := by
  intro base focus watch e e' send unused opened o w
  have refilled (w : FifoWorld) (key : ChannelKey) (e : Event) : w.Refilled (send w key e) := by
    simp only [send]
    split
    · rename_i written
      exact refilled_write written
    · exact .refl w
  let octets (key : ChannelKey) : List UInt8 :=
    if key = focus then e.toRecord else if key = watch then e'.toRecord else []
  have entries : (w 0).channels.channels.entries = [(focus, ⟨1, 1⟩), (watch, ⟨3, 1⟩)] := by
    decide +kernel
  have nodes : (w 0).fs.nodes[1]? = some (.fifo sharedMode (octets focus) 1) ∧
      (w 0).fs.nodes[3]? = some (.fifo sharedMode (octets watch) 1) := by decide +kernel
  have piped : Piped (w 0).channels (w 0).fs octets := by
    refine ⟨?_, ?_, ?_, fun key closed => ?_⟩
    · rw [entries]
      decide
    · rw [entries]
      decide
    · rw [entries]
      intro x listed
      rcases List.mem_pair.mp listed with rfl | rfl
      · exact ⟨_, 0, nodes.1⟩
      · exact ⟨_, 0, nodes.2⟩
    · rw [ChannelMap.get?, entries, ChannelMap.lookup_cons, ChannelMap.lookup_cons] at closed
      simp only [octets]
      split at closed
      · contradiction
      · split at closed
        · contradiction
        · rw [if_neg ‹_›, if_neg ‹_›]
  have front : Event.ofChunk? ((octets watch).take Event.recordSize) = some e' := by
    decide +kernel
  have between (i : Nat) : ((w i).nextEvent o).2.Refilled (w (i + 1)) := refilled _ focus e
  obtain ⟨m, within, served, -⟩ :=
    served_within_a_round.2 o w octets piped between watch e' front
  rw [ChannelMap.size, entries] at within
  exact ⟨between, m, within, served⟩

end FifoWorld
end AudioFocus
