import AudioFocus.Arbiter.Request
import AudioFocus.CrashGuard

/-!
What a client can be asked to do, and how far it has got. An operation that needs the arbiter
stops at each request, and is resumed with the arbiter's reply. In between, other operations may
run.
-/
namespace AudioFocus

/-- The operations of a client whose callbacks are `κ`. -/
inductive Operation (κ : Type)
  | uniqueId
  /-- What the holder of a focus asked for. -/
  | acquired (focusType : FocusType)
  /-- Registers a focus id. The owner counts only for a session. -/
  | register (id owner : Int32) (streamType : String) (session : Bool) (callback : κ)
  | unregister (id : Int32)
  | acquire (id : Int32) (focusType : FocusType) (option : Int32) (info : String)
  | release (id : Int32) (focusType : FocusType) (option : Int32) (info : String)
  | setReacquisition (id : Int32) (reacquire : Bool)
  | getReacquisition (id : Int32)
  /-- Registers a watch and gives its id. The owner counts only for a session. -/
  | watch (owner : Int32) (filter : FocusType) (session : Bool) (callback : κ)
  | requestUnwatch (id : Int32)
  | unwatch (id : Int32)
  | finalize

/-- Whether it stops the loop, and so waits until that has no event in hand. -/
def Operation.stops {κ : Type} : Operation κ → Bool
  | finalize => true
  | _ => false

inductive Value
  | unit
  | id (n : Int32)
  | flag (b : Bool)
  | acquired (focus : AcquiredFocus)
deriving DecidableEq

/-- Why the arbiter is asked, where its reply alone makes the result. -/
inductive Query
  | uniqueId
  | acquired
  | reacquisition
  /-- The reply says only whether the request was met. -/
  | plain (method : Method)
deriving DecidableEq

namespace Query

def method : Query → Method
  | uniqueId => .uniqueId
  | acquired => .getAcquired
  | reacquisition => .getReacquisition
  | plain method => method

def read (q : Query) : Result Reply → Result Value
  | .error e => .error e
  | .ok reply =>
    match q, reply with
    | uniqueId, .uniqueId id => .ok (.id id)
    | acquired, .acquired focus => .ok (.acquired focus)
    | reacquisition, .reacquisition b => .ok (.flag b)
    | plain _, .done => .ok .unit
    | _, _ => .error (.unexpectedReply q.method)

end Query

/-- What is left to do when the arbiter has replied. -/
inductive Pending
  | query (q : Query)
  /-- The registration in a slot has been announced. -/
  | registering (slot : Nat) (reg : Registration)
  /-- The loop did not start, and the announcement is being withdrawn. -/
  | undoing (slot : Nat) (reg : Registration) (cause : FocusError)
  /-- A registration is being withdrawn; `guarded` if its guard was taken. After it come the
  teardowns that a `finalize` still has to make. -/
  | tearingDown (slot : Nat) (reg : Registration) (guarded : Bool)
      (rest : Option (List (Nat × Registration)))
  | reportingExit (signal : FatalSignal)
  | notifyingExit

inductive Progress
  | finished (result : Result Value)
  | asking (request : Request) (pending : Pending)
  /-- It waits for a guard that nobody will let go of. -/
  | stuck (slot : Nat)

end AudioFocus
