import AudioFocus.Proofs.Deliveries
import AudioFocus.Proofs.Serving

/-!
Which requests are sent. A part of an operation sends one at most, as the last thing that it does,
and then waits for the reply. Deliveries send none, and neither does what others do.
-/
namespace AudioFocus

namespace Dispatcher

variable {κ : Type} {d d' d'' : Dispatcher κ}

/-- From one state to the next no request was sent. -/
def Quiet (d d' : Dispatcher κ) : Prop :=
  ∃ actions, d'.trace = d.trace ++ actions ∧ ∀ r, .request r ∉ actions

theorem Quiet.of_eq (trace : d'.trace = d.trace) : d.Quiet d' := ⟨[], by simp [trace], by simp⟩

theorem Quiet.of_note {a : Action} (trace : d'.trace = d.trace ++ [a])
    (other : ∀ r, a ≠ .request r) : d.Quiet d' :=
  ⟨[a], trace, fun r member => other r (List.mem_singleton.mp member).symm⟩

theorem quiet_openChannel {key : ChannelKey} {r : Result Unit}
    (opened : d.openChannel key = (r, d')) : d.Quiet d' := by
  obtain rfl : (d.openChannel key).2 = d' := congrArg Prod.snd opened
  unfold openChannel
  split
  · exact .of_note rfl (by simp)
  · split <;> exact .of_note rfl (by simp)

theorem quiet_closeChannel (d : Dispatcher κ) (key : ChannelKey) : d.Quiet (d.closeChannel key) :=
  .of_note rfl (by simp)

theorem quiet_stop (d : Dispatcher κ) : d.Quiet d.stop := by
  unfold stop
  split <;> exact .of_eq rfl

end Dispatcher

namespace Client

variable {κ : Type} {c c' : Client κ}

/-- Of requests, a part of an operation has sent only the one that it waits for now. -/
def Sends (c : Client κ) (result : Client κ × Progress) : Prop :=
  ∃ actions, result.1.trace = c.trace ++ actions ∧
    ∀ r, .request r ∈ actions → ∃ p, result.2 = .asking r p

theorem sends_of_quiet (quiet : c.toDispatcher.Quiet c'.toDispatcher) (p : Progress) :
    c.Sends (c', p) := by
  obtain ⟨actions, trace, silent⟩ := quiet
  exact ⟨actions, trace, fun r member => absurd member (silent r)⟩

theorem sends_ask (quiet : c.toDispatcher.Quiet c'.toDispatcher) (request : Request)
    (pending : Pending) : c.Sends (c'.ask request pending) := by
  obtain ⟨actions, trace, silent⟩ := quiet
  refine ⟨actions ++ [.request request], ?_, fun r member => ?_⟩
  · change c'.trace ++ [.request request] = _
    rw [trace, List.append_assoc]
  · rcases List.mem_append.mp member with before | last
    · exact absurd before (silent r)
    · obtain rfl := Action.request.inj (List.mem_singleton.mp last)
      exact ⟨pending, rfl⟩

theorem sends_of_sends {result : Client κ × Progress}
    (quiet : c.toDispatcher.Quiet c'.toDispatcher) (sends : c'.Sends result) : c.Sends result := by
  obtain ⟨actions, trace, silent⟩ := quiet
  obtain ⟨more, trace', last⟩ := sends
  refine ⟨actions ++ more, by rw [trace', trace, List.append_assoc], fun r member => ?_⟩
  rcases List.mem_append.mp member with before | after
  · exact absurd before (silent r)
  · exact last r after

theorem sends_giveBack (c : Client κ) (slot : Nat) (reg : Registration) (cause : FocusError) :
    c.Sends (c.giveBack slot reg cause) := by
  unfold giveBack
  split <;> exact sends_of_quiet (.of_eq rfl) _

theorem sends_beginTeardown {slot : Nat} {reg : Registration} {guarded : Bool}
    (begun : c.beginTeardown slot reg = some (c', guarded)) (request : Request)
    (pending : Pending) : c.Sends (c'.ask request pending) := by
  obtain ⟨-, -, -, rfl⟩ := beginTeardown_eq_some begun
  exact sends_ask (.of_eq rfl) request pending

theorem sends_torn {entries : List (Nat × Registration)} {result : Client κ × Progress}
    (torn : Torn c entries result) : c.Sends result := by
  cases torn with
  | none =>
    apply sends_of_quiet
    rw [removeGuard_dispatcher]
    exact .of_eq rfl
  | next _ _ _ begun => exact sends_beginTeardown begun _ _

theorem sends_call (c : Client κ) (o : Operation κ) : c.Sends (c.call o) := by
  have called := call_called c o
  generalize c.call o = result at called
  cases called with
  | ended => exact sends_of_quiet (.of_eq rfl) _
  | asked => exact sends_ask (.of_eq rfl) _ _
  | @entered slot reg callback d _ _ _ opened =>
    have opens := Dispatcher.quiet_openChannel opened
    have quiet : c.toDispatcher.Quiet (c.withDispatcher d).toDispatcher := opens
    exact sends_ask quiet _ _
  | @unopened slot reg callback d e _ _ _ failed =>
    have quiet := Dispatcher.quiet_openChannel failed
    exact sends_of_quiet quiet _
  | torn _ _ begun => exact sends_beginTeardown begun _ _
  | finalized _ torn => exact sends_of_sends c.toDispatcher.quiet_stop (sends_torn torn)

theorem sends_raise (c : Client κ) (signal : FatalSignal) : c.Sends (c.raise signal) := by
  unfold raise
  split
  · split
    · exact sends_of_quiet (.of_eq rfl) _
    · exact sends_ask (.of_eq rfl) _ _
  · exact sends_of_quiet (.of_eq rfl) _

theorem sends_announced (c : Client κ) (slot : Nat) (reg : Registration) (reply : Result Reply) :
    c.Sends (c.announced slot reg reply) := by
  have announced := announced_announced c slot reg reply
  generalize c.announced slot reg reply = result at announced
  cases announced with
  | served | left => exact sends_of_quiet (.of_eq rfl) _
  | refused =>
    have closed := c.toDispatcher.quiet_closeChannel reg.channel
    apply sends_of_sends _ (sends_giveBack _ slot reg _)
    exact closed
  | unstarted => exact sends_ask (.of_eq rfl) _ _

theorem sends_resume (c : Client κ) (p : Pending) (reply : Result Reply) :
    c.Sends (c.resume p reply) := by
  cases p with
  | query | reportingExit | notifyingExit => exact sends_of_quiet (.of_eq rfl) _
  | registering slot reg => exact sends_announced c slot reg reply
  | undoing slot reg cause =>
    exact sends_of_sends (c.toDispatcher.quiet_closeChannel reg.channel)
      (sends_giveBack (c.closeChannel reg.channel) slot reg cause)
  | tearingDown slot reg guarded rest =>
    have ended : c.toDispatcher.Quiet (c.endTeardown slot reg guarded).toDispatcher :=
      c.toDispatcher.quiet_closeChannel reg.channel
    cases rest with
    | none => exact sends_of_quiet ended _
    | some entries => exact sends_of_sends ended (sends_torn (teardownAll_torn _ entries))

end Client

namespace Session

variable {k : Nesting} {s t : Session} {m : Move} {r : Request}

/-- What sends a request, which it waits for then. -/
inductive Sent (s : Session) (r : Request) : Move → Client Nat → Prop
  | called {o : Operation Nat} {p : Pending} (asks : (s.client.call o).2 = .asking r p) :
    Sent s r (.call o) (s.client.call o).1
  | raised {signal : FatalSignal} {p : Pending} (asks : (s.client.raise signal).2 = .asking r p) :
    Sent s r (.raise signal) (s.client.raise signal).1
  | replied {op place : Nat} {pending p : Pending} {frames : List Frame} {reply : Result Reply}
      (top : s.frames = .asking op place pending :: frames)
      (asks : (s.client.resume pending reply).2 = .asking r p) :
    Sent s r (.reply reply) (s.client.resume pending reply).1

theorem asks_of_sends {result : Client Nat × Progress} (sends : s.client.Sends result)
    (after : t.client = result.1) (noted : .request r ∈ s.notes t) :
    ∃ p, result.2 = .asking r p := by
  obtain ⟨actions, trace, last⟩ := sends
  rw [notes_eq (by rw [after, trace])] at noted
  exact last r noted

theorem not_noted_of_trace (same : t.client.trace = s.client.trace) : .request r ∉ s.notes t := by
  simp [notes_eq (show t.client.trace = s.client.trace ++ [] by simp [same])]

theorem not_noted_of_ack {a : Action} {ack : ChannelKey × Int32} (notes : s.notes t = [a])
    (acks : a.ack? = some ack) : .request r ∉ s.notes t := by
  rw [notes, List.mem_singleton]
  rintro rfl
  contradiction

theorem sent_of_noted (reach : Reach k s) (moved : s.step m = some t)
    (noted : .request r ∈ s.notes t) : s.Sent r m t.client := by
  cases m with
  | call o =>
    simp only [step] at moved
    split at moved
    · obtain rfl := Option.some.inj moved
      obtain ⟨p, asks⟩ := asks_of_sends (s.client.sends_call o) (client_advance ..) noted
      rw [client_advance]
      exact .called asks
    · contradiction
  | raise signal =>
    obtain rfl := Option.some.inj moved
    obtain ⟨p, asks⟩ := asks_of_sends (s.client.sends_raise signal) (client_advance ..) noted
    rw [client_advance]
    exact .raised asks
  | reply reply =>
    simp only [step] at moved
    split at moved
    · rename_i op place pending frames top
      obtain rfl := Option.some.inj moved
      obtain ⟨p, asks⟩ := asks_of_sends (s.client.sends_resume pending reply) (client_advance ..)
        noted
      rw [client_advance]
      exact .replied top asks
    · contradiction
  | take =>
    rw [(taken_of_step reach moved).noted.2] at noted
    contradiction
  | enter =>
    obtain ⟨x, -, -, entered⟩ := handled_of_step reach moved
    rcases entered.noted.2 with silent | ⟨-, a, notes, acks⟩
    · rw [silent] at noted
      contradiction
    · exact absurd noted (not_noted_of_ack notes acks)
  | returns =>
    simp only [step] at moved
    split at moved
    · obtain rfl := Option.some.inj moved
      obtain ⟨-, a, notes, acks⟩ := s.returned_noted ..
      exact absurd noted (not_noted_of_ack notes acks)
    · contradiction
  | inject | push | takeAck | files =>
    obtain ⟨beside, -⟩ := beside_of_step rfl moved
    exact absurd noted (not_noted_of_trace beside.trace)

end Session
end AudioFocus
