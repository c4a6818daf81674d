import AudioFocus.Proofs.Reopening
import Mathlib.Data.List.Basic

/-!
Opens that fail. Making the FIFOs of a channel goes through two names, and what the first one has
come to is undone when the second one cannot be made. A FIFO that already had the first name is
taken as it is and undone like a new one: it loses its name. All else stays, whatever is in the tree
and wherever the directory is, and if no FIFO had the first name the tree is as it was.
-/
namespace AudioFocus

/-- The node as it is once everybody may use it. -/
def Node.shared : Node → Node
  | fifo _ queue readers => .fifo FileSystem.sharedMode queue readers
  | node => node

namespace FileSystem

/-- The nodes of a tree hold in another one what they held. Only who may use a FIFO can differ. -/
structure SameNodes (fs fs' : FileSystem) : Prop where
  home : fs'.home = fs.home
  nodes : ∀ i < fs.nodes.length,
    (fs'.nodes[i]?).map Node.shared = (fs.nodes[i]?).map Node.shared

section SameNodes

variable {fs : FileSystem}

protected theorem SameNodes.refl (fs : FileSystem) : fs.SameNodes fs := ⟨rfl, fun _ _ => rfl⟩

theorem sameNodes_extend (names : List (Place × Nat)) (more : List Node) :
    fs.SameNodes (fs.extend names more) :=
  ⟨rfl, fun _ inside => congrArg _ (List.getElem?_append_left inside)⟩

theorem sameNodes_removePlace_setNode {i mode readers : Nat} {queue : List UInt8} (place : Place)
    (found : fs.nodes[i]? = some (.fifo mode queue readers)) :
    fs.SameNodes ((fs.setNode i (.fifo sharedMode queue readers)).removePlace place) := by
  have same : (Node.fifo sharedMode queue readers).shared = (Node.fifo mode queue readers).shared :=
    rfl
  exact ⟨rfl, fun j _ => map_setNode found same j⟩

end SameNodes

section Making

variable {fs fs' : FileSystem} {dir name : String}

/-- A FIFO that is made is new, or was there. -/
theorem makeFifo_cases (made : fs.makeFifo dir name = .ok fs') :
    ∃ place, fs.entry dir name = .ok place ∧
      (fs.find? place = none ∧
          fs' = fs.extend [(place, fs.nodes.length)] [.fifo sharedMode [] 0] ∨
        ∃ i mode queue readers, fs.find? place = some (i, .fifo mode queue readers) ∧
          fs' = fs.setNode i (.fifo sharedMode queue readers)) := by
  obtain ⟨place, reached, made⟩ := bind_eq_ok.mp made
  refine ⟨place, reached, ?_⟩
  split at made
  · rename_i free
    exact .inl ⟨free, (Except.ok.inj made).symm⟩
  · rename_i i mode queue readers found
    exact .inr ⟨i, mode, queue, readers, found, (Except.ok.inj made).symm⟩
  · contradiction

theorem makeFifo_of_fifo {place : Place} (reached : fs.entry dir name = .ok place)
    (fifo : fs.kind? place = some .fifo) : ∃ fs', fs.makeFifo dir name = .ok fs' := by
  obtain ⟨i, node, found, kind⟩ := kind?_eq_some.mp fifo
  cases node with
  | fifo mode queue readers =>
    refine ⟨fs.setNode i (.fifo sharedMode queue readers), ?_⟩
    unfold makeFifo
    rw [reached]
    simp only [bind, Except.bind, found]
    rfl
  | file | directory | symlink => contradiction

theorem openHeld_of_fifo {place : Place} (reached : fs.entry dir name = .ok place)
    (fifo : fs.kind? place = some .fifo) : ∃ x, fs.openHeld dir name = .ok x := by
  obtain ⟨i, node, found, kind⟩ := kind?_eq_some.mp fifo
  cases node with
  | fifo mode queue readers =>
    refine ⟨(i, fs.setNode i (.fifo mode queue (readers + 1))), ?_⟩
    unfold openHeld
    rw [reached]
    simp only [bind, Except.bind, found]
    rfl
  | file | directory | symlink => contradiction

end Making

end FileSystem

namespace FifoChannels

open FileSystem

variable {fs fs' : FileSystem} {dir : String} {key : ChannelKey} {e : SystemError}

/-- Once both FIFOs are made the first one can be opened. -/
theorem openHeld_of_made {fs₁ fs₂ : FileSystem} (sound : fs.Sound)
    (event : fs.makeFifo dir key.eventName = .ok fs₁)
    (ack : fs₁.makeFifo dir key.ackName = .ok fs₂) : ∃ x, fs₂.openHeld dir key.eventName = .ok x := by
  obtain ⟨p, reached, founded, kinds⟩ := makeFifo_spec sound event
  obtain ⟨q, ackReached, founded', kinds'⟩ := makeFifo_spec (sound.makeFifo event) ack
  have still := founded.entry reached
  refine openHeld_of_fifo (founded'.entry still) ?_
  rw [kinds', if_neg (place_ne still ackReached), kinds, if_pos rfl]

/-- What is left where the FIFOs of a channel could not be made. -/
theorem makePair_error (sound : fs.Sound) (failed : makePair dir fs key = (.error e, fs')) :
    ((∀ p, fs.entry dir key.eventName = .ok p → fs.kind? p ≠ some .fifo) ∧ fs.SameNames fs' ∧
      fs.SameNodes fs') ∨
    ∃ p i mode queue readers, fs.entry dir key.eventName = .ok p ∧
      fs.find? p = some (i, .fifo mode queue readers) ∧
      fs' = (fs.setNode i (.fifo sharedMode queue readers)).removePlace p := by
  unfold makePair at failed
  split at failed
  · -- The first name cannot be made, and nothing has been done.
    rename_i refused
    obtain rfl := (Prod.mk.inj failed).2
    refine .inl ⟨fun p reached fifo => ?_, .refl fs, .refl fs⟩
    obtain ⟨_, made⟩ := makeFifo_of_fifo reached fifo
    rw [refused] at made
    contradiction
  · rename_i fs₁ event
    obtain ⟨p, reached, founded, kinds⟩ := makeFifo_spec sound event
    split at failed
    · -- The second name cannot be made, and the first one is removed.
      obtain rfl := (Prod.mk.inj failed).2
      have fifo : fs₁.kind? p = some .fifo := by rw [kinds, if_pos rfl]
      rw [discard_of_fifo (founded.entry reached) fifo]
      obtain ⟨p', reached', ⟨free, rfl⟩ | ⟨i, mode, queue, readers, found, rfl⟩⟩ :=
        makeFifo_cases event
      all_goals obtain rfl := Except.ok.inj (reached.symm.trans reached')
      · left
        have removed : (fs.extend [(p, fs.nodes.length)] [.fifo sharedMode [] 0]).removePlace p =
            fs.extend [] [.fifo sharedMode [] 0] := by
          rw [removePlace_extend sound free]
          simp
        rw [removed]
        refine ⟨fun p' reached' fifo => ?_, sameNames_extend sound, sameNodes_extend _ _⟩
        obtain rfl := Except.ok.inj (reached.symm.trans reached')
        rw [kind?_eq_none.mpr free] at fifo
        contradiction
      · exact .inr ⟨p, i, mode, queue, readers, reached, found, rfl⟩
    · rename_i fs₂ ack
      obtain ⟨x, opened⟩ := openHeld_of_made sound event ack
      simp [opened] at failed

/-- An open that fails leaves the channels as they are, and all nodes hold what they held. Every
name stands for what it stood for if and only if no FIFO had the name of the event FIFO; a FIFO that
had it loses it, and no other name is lost. -/
theorem failed_open_exact {c c' : FifoChannels} (sound : fs.Sound) (closed : c.isOpen key = false)
    (failed : c.openChannel fs key = (.error e, c', fs')) :
    c' = c ∧ fs.SameNodes fs' ∧
      (fs.SameNames fs' ↔
        ∀ p, fs.entry c.dir key.eventName = .ok p → fs.kind? p ≠ some .fifo) ∧
      ∀ p, fs.entry c.dir key.eventName = .ok p → fs.kind? p = some .fifo →
        fs'.entries = fs.entries.filter (·.1 ≠ p) := by
  have unopened : c.channels.get? key = none := by
    simpa [isOpen, ChannelMap.contains] using closed
  unfold openChannel at failed
  rw [unopened] at failed
  dsimp only at failed
  split at failed
  · rename_i made
    obtain ⟨-, rfl, rfl⟩ : _ ∧ c = c' ∧ _ = fs' := by simpa using failed
    rcases makePair_error sound made with
      ⟨foreign, names, nodes⟩ | ⟨p, i, mode, queue, readers, reached, found, rfl⟩
    · exact ⟨rfl, nodes, ⟨fun _ => foreign, fun _ => names⟩,
        fun p reached fifo => absurd fifo (foreign p reached)⟩
    · have fifo : fs.kind? p = some .fifo := kind?_eq_some.mpr ⟨i, _, found, rfl⟩
      refine ⟨rfl, sameNodes_removePlace_setNode p (find?_eq_some.mp found).2, ?_,
        fun p' reached' _ => ?_⟩
      · refine ⟨fun names => ?_, fun foreign => absurd fifo (foreign p reached)⟩
        -- The place of the FIFO is taken before, and not after.
        have still := names.sameEntries.kind? p
        rw [kind?_removePlace, if_pos rfl, fifo] at still
        contradiction
      · obtain rfl := Except.ok.inj (reached.symm.trans reached')
        rfl
  · simp at failed

/-- A FIFO has the name of the event FIFO, and a file that of the other one. -/
theorem failed_open_exact_of_stale_fifo :
    let fs : FileSystem := ⟨[], [(["run"], 0), (["run", "FOCUS.1.5"], 1), (["run", "FOCUS.1.5r"], 2)],
      [.directory, .fifo 0o600 [] 0, .file [107]]⟩
    let c : FifoChannels := { dir := "/run" }
    let opened := c.openChannel fs (.focus 1 5)
    opened.1 = .error (.notFifo "/run/FOCUS.1.5r") ∧ opened.2.1 = c ∧
      ¬ fs.SameNames opened.2.2 ∧
      opened.2.2.entries = [(["run"], 0), (["run", "FOCUS.1.5r"], 2)] := by
  intro fs c opened
  have failed : opened.1 = .error (.notFifo "/run/FOCUS.1.5r") := by decide +kernel
  have reached : fs.entry c.dir (ChannelKey.focus 1 5).eventName = .ok ["run", "FOCUS.1.5"] := by
    decide +kernel
  have fifo : fs.kind? ["run", "FOCUS.1.5"] = some .fifo := rfl
  have left : fs.entries.filter (·.1 ≠ ["run", "FOCUS.1.5"]) =
      [(["run"], 0), (["run", "FOCUS.1.5r"], 2)] := by decide
  have sound : fs.Sound := by decide
  have closed : c.isOpen (.focus 1 5) = false := rfl
  have result : c.openChannel fs (.focus 1 5) = opened := rfl
  clear_value opened
  obtain ⟨_, c', fs'⟩ := opened
  obtain rfl := failed
  obtain ⟨same, -, names, lost⟩ := failed_open_exact sound closed result
  exact ⟨rfl, same, fun still => names.mp still _ reached fifo,
    (lost _ reached fifo).trans left⟩

end FifoChannels
end AudioFocus
