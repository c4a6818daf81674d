import AudioFocus.Registration

/-!
Requests to the arbiter and its replies.
-/
namespace AudioFocus

inductive Request
  | uniqueId
  | registerFocus (owner id : Int32) (streamType : String) (session : Bool)
  | unregisterFocus (owner id : Int32) (session : Bool)
  | acquireFocus (owner id : Int32) (focusType : FocusType) (option : Int32) (info : String)
      (session : Bool)
  | releaseFocus (owner id : Int32) (focusType : FocusType) (option : Int32) (info : String)
      (session : Bool)
  | setReacquisition (owner id : Int32) (reacquire : Bool)
  | getReacquisition (owner id : Int32)
  | getAcquired (focusType : FocusType)
  | setWatch (owner id : Int32) (focusType : FocusType) (session : Bool)
  | requestUnsetWatch (owner id : Int32)
  | unsetWatch (owner id : Int32) (session : Bool)
  /-- The process is dying: all that it owns is void. -/
  | emergentExit (pid : Int32)
deriving DecidableEq

def Request.method : Request → Method
  | uniqueId => .uniqueId
  | registerFocus .. => .registerFocus
  | unregisterFocus .. => .unregisterFocus
  | acquireFocus .. => .acquireFocus
  | releaseFocus .. => .releaseFocus
  | setReacquisition .. => .setReacquisition
  | getReacquisition .. => .getReacquisition
  | getAcquired .. => .getAcquired
  | setWatch .. => .setWatch
  | requestUnsetWatch .. => .requestUnsetWatch
  | unsetWatch .. => .unsetWatch
  | emergentExit .. => .emergentExit

namespace Registration

def announcement (r : Registration) : Request :=
  match r.space with
  | .focus => .registerFocus r.owner r.id r.streamType r.session
  | .watch => .setWatch r.owner r.id r.filter r.session

def withdrawal (r : Registration) : Request :=
  match r.space with
  | .focus => .unregisterFocus r.owner r.id r.session
  | .watch => .unsetWatch r.owner r.id r.session

end Registration

/-- What the holder of a focus asked for when it acquired it. -/
structure AcquiredFocus where
  streamType : String
  option : Int32
  info : String
deriving DecidableEq

inductive Reply
  | done
  | uniqueId (id : Int32)
  | reacquisition (reacquire : Bool)
  | acquired (focus : AcquiredFocus)
deriving DecidableEq

namespace Reply

/-- Of a reply to `method`, only that it was done is accepted. -/
def expectDone (method : Method) : Result Reply → Result Unit
  | .ok .done => .ok ()
  | .ok _ => .error (.unexpectedReply method)
  | .error e => .error e

end Reply
end AudioFocus
