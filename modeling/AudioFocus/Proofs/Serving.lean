import AudioFocus.Proofs.Accounting
import AudioFocus.Proofs.Reopening

/-!
Operations from the call to the result, request after request, where nothing of the client begins
before the reply. The client changes even so: the arbiter sends events and takes acknowledgements
before it replies, and others may be at the files.
-/
namespace AudioFocus

namespace Client

variable {κ : Type}

/-- What the arbiter and others may do to a client while it waits for a reply: events come and
acknowledgements are taken, files change, system calls begin to fail. -/
structure Beside (c c' : Client κ) : Prop where
  registry : c'.registry = c.registry
  channels : c.channels.Kept c'.channels
  running : c'.running = c.running
  trace : c'.trace = c.trace
  signals : c'.signals = c.signals
  guarding : c'.guarding = c.guarding
  pid : c'.pid = c.pid
  met : c.met <+: c'.met

/-- What the arbiter alone does to it. Names in the tree are for others to make and to remove. -/
structure Attended (c c' : Client κ) : Prop extends Beside c c' where
  entries : c.channels.SameEntries c'.channels

/-- An operation goes on to its end, with the requests that it makes and the replies to them. Before
each reply, this may happen to the client. -/
inductive Serves (R : Client κ → Client κ → Prop) :
    Client κ × Progress → List (Request × Result Reply) → Client κ → Result Value → Prop
  | finished (c : Client κ) (result : Result Value) : Serves R (c, .finished result) [] c result
  | answered {c c₁ c' : Client κ} {request : Request} {pending : Pending}
      {exchanges : List (Request × Result Reply)} {result : Result Value} (meanwhile : R c c₁)
      (reply : Result Reply) (rest : Serves R (c₁.resume pending reply) exchanges c' result) :
    Serves R (c, .asking request pending) ((request, reply) :: exchanges) c' result

protected theorem Beside.refl (c : Client κ) : c.Beside c :=
  ⟨rfl, .refl _, rfl, rfl, rfl, rfl, rfl, List.prefix_rfl⟩

protected theorem Attended.refl (c : Client κ) : c.Attended c := ⟨.refl c, .refl _⟩

protected theorem Beside.trans {c c' c'' : Client κ} (first : c.Beside c')
    (second : c'.Beside c'') : c.Beside c'' where
  registry := second.registry.trans first.registry
  channels := first.channels.trans second.channels
  running := second.running.trans first.running
  trace := second.trace.trans first.trace
  signals := second.signals.trans first.signals
  guarding := second.guarding.trans first.guarding
  pid := second.pid.trans first.pid
  met := first.met.trans second.met

protected theorem Attended.trans {c c' c'' : Client κ} (first : c.Attended c')
    (second : c'.Attended c'') : c.Attended c'' :=
  ⟨first.toBeside.trans second.toBeside, first.entries.trans second.entries⟩

theorem Attended.stirred {c c' : Client κ} (attended : c.Attended c') :
    c.channels.Stirred c'.channels :=
  ⟨attended.channels, attended.entries⟩

/-- An operation of one request. -/
theorem Serves.of_reply {R : Client κ → Client κ → Prop} {r : Client κ × Progress}
    {c₁ c₂ c' : Client κ} {request : Request} {p : Pending} {reply : Result Reply}
    {result : Result Value} (asks : r = (c₁, .asking request p)) (meanwhile : R c₁ c₂)
    (ends : c₂.resume p reply = (c', .finished result)) :
    Serves R r [(request, reply)] c' result := by
  subst asks
  refine .answered meanwhile reply ?_
  rw [ends]
  exact .finished c' result

end Client

namespace Move

/-- Leaves the names in the tree as they are. -/
def KeepsNames : Move → Channels → Prop
  | files fs', .fifo _ fs => fs.SameEntries fs'
  | _, _ => True

theorem KeepsNames.of_sameEntries {m : Move} {c c' : Channels} (keeps : m.KeepsNames c)
    (same : c.SameEntries c') : m.KeepsNames c' := by
  cases m with
  | files fs' =>
    cases c <;> cases c' <;> first | trivial | contradiction | skip
    exact same.2.symm.trans keeps
  | _ => trivial

end Move

namespace Session

variable {s t : Session} {m : Move}

theorem beside_of_step (outside : m.outside = true) (moved : s.step m = some t) :
    s.client.Beside t.client ∧ t.frames = s.frames ∧
      (m.KeepsNames s.client.channels → s.client.channels.SameEntries t.client.channels) := by
  have others := outside_of_step outside moved
  have kept : s.client.channels.Kept t.client.channels := by
    cases others.happened with
    | aside _ kept => exact kept
    | called | raised | took | started | replied | returned => contradiction
  cases others with
  | injected faults =>
    exact ⟨⟨rfl, kept, rfl, rfl, rfl, rfl, rfl, List.prefix_rfl⟩, rfl, fun _ => .refl _⟩
  | pushed memory | received memory =>
    refine ⟨⟨rfl, kept, rfl, rfl, rfl, rfl, rfl, List.prefix_rfl⟩, rfl, fun _ => ?_⟩
    rw [memory]
    trivial
  | rewritten fifo =>
    refine ⟨⟨rfl, kept, rfl, rfl, rfl, rfl, rfl, List.prefix_rfl⟩, rfl, fun keeps => ?_⟩
    rw [fifo] at keeps ⊢
    exact ⟨rfl, keeps⟩

theorem beside_of_play {n : Nesting} {moves : List Move} (outside : ∀ m ∈ moves, m.outside = true)
    (played : s.play n moves = some t) :
    s.client.Beside t.client ∧ t.frames = s.frames ∧
      ((∀ m ∈ moves, m.KeepsNames s.client.channels) → s.client.Attended t.client) := by
  induction moves generalizing s with
  | nil =>
    obtain rfl := Option.some.inj played
    exact ⟨.refl _, rfl, fun _ => .refl _⟩
  | cons m moves ih =>
    obtain ⟨u, moved, played⟩ := Option.bind_eq_some_iff.mp played
    dsimp only at moved
    split at moved
    · obtain ⟨beside, frames, entries⟩ := beside_of_step (outside m List.mem_cons_self) moved
      obtain ⟨beside', frames', attended⟩ :=
        ih (fun m' member => outside m' (List.mem_cons_of_mem m member)) played
      refine ⟨beside.trans beside', frames'.trans frames, fun keeps => ?_⟩
      have same := entries (keeps m List.mem_cons_self)
      exact .trans ⟨beside, same⟩ (attended fun m' member =>
        (keeps m' (List.mem_cons_of_mem m member)).of_sameEntries same)
    · contradiction

theorem attended_of_play {n : Nesting} (moves : List Move)
    (outside : ∀ m ∈ moves, m.outside = true) (keeps : ∀ m ∈ moves, m.KeepsNames s.client.channels)
    (played : s.play n moves = some t) : s.client.Attended t.client :=
  (beside_of_play outside played).2.2 keeps

end Session
end AudioFocus
