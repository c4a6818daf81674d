import AudioFocus.Scenario.Op

/-!
The arbiter of a scenario: it answers as it was told, and may do something first.
-/
namespace AudioFocus.Scenario

structure Arbiter where
  replies : List (Method × Result Reply) := []
  hooks : List (Method × List Op) := []
  /-- Focus ids that it has made up. -/
  ids : Nat := 0

namespace Arbiter

/-- What it does when it is next asked for the method. -/
def setHook (a : Arbiter) (method : Method) (body : List Op) : Arbiter :=
  { a with hooks := a.hooks.filter (·.1 ≠ method) ++ [(method, body)] }

/-- Takes what it is to do first when asked for the method. -/
def takeHook (a : Arbiter) (method : Method) : List Op × Arbiter :=
  match a.hooks.lookup method with
  | some body => (body, { a with hooks := a.hooks.filter (·.1 ≠ method) })
  | none => ([], a)

def setReply (a : Arbiter) (method : Method) (answer : Option (Result Reply)) : Arbiter :=
  let others := a.replies.filter (·.1 ≠ method)
  { a with replies := others ++ (answer.map (method, ·)).toList }

/-- Its answer to a method: what it was told, or an obliging one. -/
def answer (a : Arbiter) (method : Method) : Result Reply × Arbiter :=
  match a.replies.lookup method with
  | some reply => (reply, a)
  | none =>
    match method with
    | .uniqueId => (.ok (.uniqueId (Int32.ofNat (a.ids + 1))), { a with ids := a.ids + 1 })
    | .getReacquisition => (.ok (.reacquisition false), a)
    | .getAcquired => (.ok (.acquired ⟨"media", 0, "music-player"⟩), a)
    | _ => (.ok .done, a)

end Arbiter
end AudioFocus.Scenario
