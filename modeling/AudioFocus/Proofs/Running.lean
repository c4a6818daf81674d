import AudioFocus.Proofs.Actions
import AudioFocus.Proofs.Claims
import AudioFocus.Proofs.Lookup

/-!
The loop runs for whoever is live. `finalize` stops the loop before it tears anything down, and any
operation may be under way around it or begin within it. While the loop is stopped, a registration
is there only until some operation goes on: the one that brought it starts the loop or takes it
back, one that has claimed it frees it, and a `finalize` has it on its list.
-/
namespace AudioFocus

/-- The handles that an operation will still serve or claim when it goes on. -/
def Pending.agenda : Pending → List (Nat × Registration)
  | registering slot reg => [(slot, reg)]
  | tearingDown _ _ _ rest => rest.getD []
  | _ => []

def Progress.agenda : Progress → List (Nat × Registration)
  | asking _ pending => pending.agenda
  | _ => []

namespace Frame

def agenda : Frame → List (Nat × Registration)
  | asking _ _ pending => pending.agenda
  | _ => []

/-- An operation that registers or tears down is under way. -/
def engaged : Frame → Bool
  | asking _ _ (.registering ..) | asking _ _ (.undoing ..) | asking _ _ (.tearingDown ..)
  | blocked .. => true
  | _ => false

theorem agenda_of_idle {f : Frame} (idle : f.engaged = false) : f.agenda = [] := by
  cases f with
  | asking op place p => cases p <;> first | rfl | contradiction
  | callback | blocked => rfl

theorem claim?_of_idle {f : Frame} (idle : f.engaged = false) : f.claim? = none := by
  cases f with
  | asking op place p => cases p <;> first | rfl | contradiction
  | callback => rfl
  | blocked => contradiction

end Frame

namespace Registry

variable {κ : Type} {r r' : Registry κ} {slot : Nat} {reg : Registration}
  {agenda more : List (Nat × Registration)}

/-- Whatever is live has been claimed, or its handle is on the agenda. -/
def Minded (r : Registry κ) (agenda : List (Nat × Registration)) : Prop :=
  ∀ slot reg, r.registration? slot = some reg → r.isClosing slot = true ∨
    ∃ e ∈ agenda, e.1 = slot ∧ e.2.id = reg.id ∧ e.2.space = reg.space

namespace Minded

theorem mono (minded : r.Minded agenda) (larger : agenda ⊆ more) : r.Minded more := by
  intro slot reg live
  rcases minded slot reg live with closing | ⟨e, listed, same⟩
  · exact .inl closing
  · exact .inr ⟨e, larger listed, same⟩

theorem alike (minded : r.Minded agenda) (alike : r'.Alike r) : r'.Minded agenda := by
  intro slot reg live
  rw [alike.closing slot (by simp [live])]
  rw [alike.registration] at live
  exact minded slot reg live

/-- A handle that cannot be claimed needs nobody to mind it. -/
theorem strike {passed : List (Nat × Registration)} (minded : r.Minded (passed ++ agenda))
    (refused : ∀ e ∈ passed, r.claim? e.1 e.2.id e.2.space = none) : r.Minded agenda := by
  intro slot reg live
  rcases minded slot reg live with closing | ⟨e, listed, rfl, id, space⟩
  · exact .inl closing
  · rcases List.mem_append.mp listed with struck | listed
    · cases closing : r.isClosing e.1 with
      | true => exact .inl rfl
      | false =>
        have claim : r.claim? e.1 e.2.id e.2.space = some (r.claimed e.1) :=
          claim?_eq_some.mpr ⟨⟨reg, live, id.symm, space.symm⟩, closing, rfl⟩
        rw [refused e struck] at claim
        contradiction
    · exact .inr ⟨e, listed, rfl, id, space⟩

theorem claimed (minded : r.Minded ((slot, reg) :: agenda)) : (r.claimed slot).Minded agenda := by
  intro i current live
  rw [registration?_claimed] at live
  by_cases same : slot = i
  · subst same
    rw [isClosing_claimed_of_live (by simp [live]), if_pos rfl]
    exact .inl rfl
  · rw [isClosing_claimed, if_neg same]
    rcases minded i current live with closing | ⟨e, listed, here, handle⟩
    · exact .inl closing
    · rcases List.mem_cons.mp listed with rfl | listed
      · exact absurd here same
      · exact .inr ⟨e, listed, here, handle⟩

theorem freed (minded : r.Minded agenda) (slot : Nat) : (r.freed slot).Minded agenda := by
  intro i reg live
  rw [registration?_freed] at live
  rw [isClosing_freed]
  split at live
  · contradiction
  · rename_i other
    rw [if_neg other]
    exact minded i reg live

theorem entered (minded : r.Minded agenda) (room : slot < r.capacity) (callback : κ) :
    (r.entered slot reg callback).Minded ((slot, reg) :: agenda) := by
  intro i current live
  rw [registration?_entered _ _ _ room] at live
  split at live
  · rename_i here
    obtain rfl := Option.some.inj live
    exact .inr ⟨_, List.mem_cons_self, here, rfl, rfl⟩
  · rename_i other
    rw [isClosing_entered, if_neg other]
    exact minded.mono (List.subset_cons_self _ _) i current live

end Minded

theorem minded_live (r : Registry κ) : r.Minded r.live := by
  intro slot reg live
  exact .inr ⟨(slot, reg), mem_live.mpr live, rfl, rfl, rfl⟩

end Registry

namespace Client

variable {κ : Type} {c : Client κ} {agenda : List (Nat × Registration)}

/-- Nobody is left behind on a stopped loop. -/
def Minded (c : Client κ) (agenda : List (Nat × Registration)) : Prop :=
  c.running = false → c.registry.Minded agenda

theorem minded_of_eq {c' : Client κ} (minded : c.Minded agenda)
    (registry : c'.registry = c.registry) (running : c'.running = c.running) :
    c'.Minded agenda := by
  unfold Minded
  rw [registry, running]
  exact minded

theorem minded_beginTeardown {c' : Client κ} {slot : Nat} {reg : Registration} {guarded : Bool}
    (minded : c.Minded ((slot, reg) :: agenda))
    (begun : c.beginTeardown slot reg = some (c', guarded)) : c'.Minded agenda := by
  intro stopped
  have alike := alike_beginTeardown begun
  obtain ⟨-, -, -, rfl⟩ := beginTeardown_eq_some begun
  exact (minded stopped).claimed.alike alike

theorem minded_torn {entries : List (Nat × Registration)} {result : Client κ × Progress}
    (minded : c.Minded (entries ++ agenda)) (torn : Torn c entries result) :
    result.1.Minded (result.2.agenda ++ agenda) := by
  cases torn with
  | none all =>
    have same := removeGuard_dispatcher c
    refine minded_of_eq (fun stopped => (minded stopped).strike all) ?_ ?_
    · exact congrArg Dispatcher.registry same
    · exact congrArg Dispatcher.running same
  | @next passed rest slot reg c' guarded split refused begun =>
    have left : c.Minded ((slot, reg) :: (rest ++ agenda)) := by
      intro stopped
      apply (minded stopped |>.mono ?_).strike refused
      simp [split]
    exact minded_of_eq (minded_beginTeardown left begun) rfl rfl

theorem minded_giveBack (minded : c.Minded agenda) {slot : Nat} {reg : Registration}
    (held : c.registry.Holds slot reg.id reg.space) (cause : FocusError) :
    (c.giveBack slot reg cause).1.Minded ((c.giveBack slot reg cause).2.agenda ++ agenda) := by
  have running := running_giveBack c slot reg cause
  rcases giveBack_cases held cause with stuck | ⟨c', given, alike⟩
  · rw [stuck]
    exact minded
  · rw [given] at running ⊢
    intro stopped
    exact ((minded (running ▸ stopped)).freed slot).alike alike

theorem minded_call (minded : c.Minded agenda) (o : Operation κ) :
    (c.call o).1.Minded ((c.call o).2.agenda ++ agenda) := by
  have called := call_called c o
  generalize c.call o = result at called
  cases called with
  | ended | asked => exact minded
  | @entered slot reg callback d _ vacant _ opened =>
    obtain ⟨room, -, -⟩ := Registry.vacancy?_spec vacant
    obtain ⟨registry, running⟩ := Dispatcher.openChannel_kept opened
    intro stopped
    change d.registry.Minded ((slot, reg) :: agenda)
    rw [registry]
    exact (minded (running.symm.trans stopped)).entered room callback
  | @unopened slot reg callback d e _ vacant _ failed =>
    obtain ⟨room, empty, -⟩ := Registry.vacancy?_spec vacant
    obtain ⟨-, running⟩ := Dispatcher.openChannel_kept failed
    intro stopped
    apply (minded (running.symm.trans stopped)).alike
    apply Registry.Alike.trans (.bind slot none ?_) (.unentered slot room empty)
    simp [Registry.registration?_freed]
  | @torn slot reg c' guarded _ _ begun =>
    have more : c.Minded ((slot, reg) :: agenda) :=
      fun stopped => (minded stopped).mono (List.subset_cons_self _ _)
    exact minded_of_eq (minded_beginTeardown more begun) rfl rfl
  | finalized _ torn =>
    have listed : c.stop.Minded (c.registry.live ++ agenda) := by
      intro _
      rw [stop_registry]
      exact c.registry.minded_live.mono (List.subset_append_left _ _)
    exact minded_torn listed torn

theorem minded_raise (minded : c.Minded agenda) (signal : FatalSignal) :
    (c.raise signal).1.Minded ((c.raise signal).2.agenda ++ agenda) := by
  unfold raise
  split
  · split <;> exact minded
  · exact minded

/-- The registration that was announced is served now, or claimed, or gone. -/
theorem minded_announced {slot : Nat} {reg : Registration}
    (minded : c.Minded ((slot, reg) :: agenda)) (reply : Result Reply) :
    (c.announced slot reg reply).1.Minded ((c.announced slot reg reply).2.agenda ++ agenda) := by
  have announced := announced_announced c slot reg reply
  generalize c.announced slot reg reply = result at announced
  cases announced with
  | served => intro stopped; contradiction
  | left e refused =>
    intro stopped
    have listed : c.registry.Minded ([(slot, reg)] ++ agenda) := minded stopped
    exact listed.strike (by simpa using refused)
  | @refused e outcome held unclaimed =>
    apply minded_giveBack (c := (c.withRegistry (c.registry.claimed slot)).closeChannel reg.channel)
    · exact fun stopped => (minded stopped).claimed
    · obtain ⟨current, live, same⟩ := held
      exact ⟨current, (c.registry.registration?_claimed slot slot).trans live, same⟩
  | unstarted => exact fun stopped => (minded stopped).claimed

theorem minded_resume {p : Pending} (minded : c.Minded (p.agenda ++ agenda))
    (there : ∀ slot reg, p.claim? = some (slot, reg) → c.registry.Holds slot reg.id reg.space)
    (reply : Result Reply) :
    (c.resume p reply).1.Minded ((c.resume p reply).2.agenda ++ agenda) := by
  cases p with
  | query | reportingExit | notifyingExit => exact minded
  | registering slot reg => exact minded_announced minded reply
  | undoing slot reg cause =>
    exact minded_giveBack (c := c.closeChannel reg.channel) minded (there slot reg rfl) cause
  | tearingDown slot reg guarded rest =>
    have held := there slot reg rfl
    have ended : (c.endTeardown slot reg guarded).Minded (rest.getD [] ++ agenda) :=
      fun stopped => ((minded stopped).freed slot).alike (alike_endTeardown held guarded)
    cases rest with
    | none => exact ended
    | some entries => exact minded_torn ended (teardownAll_torn _ entries)

end Client

namespace Session

/-- What the operations under way will still serve or claim. -/
def agenda (s : Session) : List (Nat × Registration) := s.frames.flatMap Frame.agenda

theorem agenda_advance (s : Session) (op : Nat) (r : Client Nat × Progress) :
    (s.advance op r).agenda = r.2.agenda ++ s.agenda := by
  obtain ⟨c, p⟩ := r
  cases p <;> rfl

theorem Happened.minded {s t : Session} {m : Move} (happened : s.Happened m t)
    (consistent : s.Consistent none) (minded : s.client.Minded s.agenda) :
    t.client.Minded t.agenda := by
  cases happened with
  | called o =>
    rw [client_advance, agenda_advance]
    exact Client.minded_call minded o
  | raised signal =>
    rw [client_advance, agenda_advance]
    exact Client.minded_raise minded signal
  | @replied op place pending frames reply top =>
    rw [client_advance, agenda_advance]
    apply Client.minded_resume
    · rw [agenda, top, List.flatMap_cons] at minded
      exact minded
    · intro slot reg claims
      have member : .asking op place pending ∈ s.frames := by simp [top]
      exact holds_of_claimed consistent.claimed member claims
  | @started x callback c _ _ _ guarded _ running =>
    intro stopped
    change c.registry.Minded s.agenda
    rw [guarded]
    exact (minded (running.symm.trans stopped)).alike (.guard x.slot _)
  | @returned slot callback key e frames top =>
    rw [agenda, top, List.flatMap_cons] at minded
    intro stopped
    simp only [Client.finish, Client.withDispatcher, Dispatcher.finish,
      Dispatcher.sendAck_running, Dispatcher.sendAck_registry] at stopped ⊢
    exact (minded stopped).alike (.unguard slot _)
  | took _ _ _ _ registry _ running | aside registry _ running =>
    exact Client.minded_of_eq minded registry running

theorem minded_of_reach {n : Nesting} {s : Session} (reach : Reach n s) :
    s.client.Minded s.agenda := by
  apply reach.induct
  · intro config pid channels signals faults client created _ _ slot reg live
    rw [(Client.create_eq_ok created).2.1] at live
    simp at live
  · intro s m t reach minded _ moved
    exact (step_happened moved).minded (consistent_of_reach reach) minded

/-- Whenever no operation is under way that registers or tears down, the loop is running if anything
is live. Callbacks, queries and reports of signals may be under way. -/
theorem running_of_live {n : Nesting} {s : Session} (reach : Reach n s)
    (idle : ∀ f ∈ s.frames, f.engaged = false) (live : 0 < s.client.liveHandles) :
    s.client.running = true := by
  cases running : s.client.running with
  | true => rfl
  | false =>
    obtain ⟨⟨slot, reg⟩, member⟩ : ∃ e, e ∈ s.client.registry.live := by
      apply List.exists_mem_of_length_pos
      rwa [Registry.length_live]
    have found := Registry.mem_live.mp member
    have unlisted : s.agenda = [] :=
      List.flatMap_eq_nil_iff.mpr fun f under => Frame.agenda_of_idle (idle f under)
    have unclaimed : s.frames.filterMap Frame.claim? = [] :=
      List.filterMap_eq_nil_iff.mpr fun f under => Frame.claim?_of_idle (idle f under)
    have closing : s.client.registry.isClosing slot = false :=
      isClosing_of_not_mem (consistent_of_reach reach).claimed (by simp [unclaimed]) found
    rcases minded_of_reach reach running slot reg found with claimed | ⟨e, listed, -⟩
    · rw [closing] at claimed
      contradiction
    · rw [unlisted] at listed
      contradiction

/-- While the arbiter serves the registration of 5, a `finalize` withdraws that, and while the arbiter
serves the withdrawal, 6 is registered and starts the loop. -/
theorem running_of_live_after_finalize :
    let s := played .full 2 [.call (.register 5 0 "media" false 0), .call .finalize,
      .call (.register 6 0 "media" false 2), .reply (.ok .done), .reply (.ok .done),
      .reply (.ok .done)]
    s.frames = [] ∧ s.client.liveHandles = 1 ∧ s.client.running = true := by
  intro s
  have reach : Reach .full s := reach_played (by decide) (by decide +kernel)
  have idle : s.frames = [] := by decide +kernel
  have live : s.client.liveHandles = 1 := by decide +kernel
  exact ⟨idle, live, running_of_live reach (by simp [idle]) (by simp [live])⟩

end Session
end AudioFocus
