import AudioFocus.Text.Duration
import AudioFocus.Text.SystemError
import AudioFocus.Channel.Key
import AudioFocus.Arbiter.Method

/-!
Why an operation fails, and the text of each cause.
-/
namespace AudioFocus

/-- An argument that is refused before anything is done. -/
inductive InvalidArgument
  | focusType (raw : Int32)
  | focusState (raw : Int32)
  | negativeId (id : Int32)
  | emptyStreamType
  /-- A session is owned by a process, whose id is positive. -/
  | sessionOwner (owner : Int32)
  /-- The id is live already in its space. -/
  | registered (id : Int32)
  /-- The handle is gone, or some other teardown of it is under way. -/
  | unregistered (id : Int32)
  | unknownFocus (id : Int32)
  | unknownWatch (id : Int32)
  /-- Watch ids are positive. -/
  | watchId (id : Int32)
  | negativeOption (option : Int32)
  /-- Playback and capture are held separately. -/
  | bothTypes
  | noHandles
  | guardInstalled
  | channelClosed (key : ChannelKey)
  /-- Refused by the arbiter's own connection, in its own words. -/
  | other (text : String)
deriving DecidableEq

def InvalidArgument.text : InvalidArgument → String
  | focusType raw => s!"unknown focus type {raw}"
  | focusState raw => s!"unknown focus state {raw}"
  | negativeId id => s!"focus id {id} is negative"
  | emptyStreamType => "stream type is empty"
  | sessionOwner owner => s!"session owner pid {owner} is not a process id"
  | registered id => s!"handle {id} is already registered"
  | unregistered id => s!"handle {id} is not registered"
  | unknownFocus id => s!"focus id {id} is not registered"
  | unknownWatch id => s!"watch id {id} is not set"
  | watchId id => s!"invalid watch id {id}"
  | negativeOption option => s!"focus option {option} is negative"
  | bothTypes => "acquired stream type is per focus type, not both"
  | noHandles => "max_handles must be at least 1"
  | guardInstalled => "crash guard already installed"
  | channelClosed key => "channel " ++ key.text ++ " is not open"
  | other text => text

inductive FocusError
  | invalid (why : InvalidArgument)
  | exhausted (capacity : Nat)
  /-- The arbiter rejected the request, with a code of its own. -/
  | rejected (code : Int32)
  /-- The arbiter's answer does not fit the request. -/
  | unexpectedReply (method : Method)
  | system (cause : SystemError)
  | timedOut (after : Duration)
deriving DecidableEq

def FocusError.message : FocusError → String
  | invalid why => "invalid argument: " ++ why.text
  | exhausted capacity => s!"no free focus handle slots (capacity {capacity})"
  | rejected code => s!"arbiter rejected request with code {code}"
  | unexpectedReply method => "unexpected reply to " ++ method.name ++ " request"
  | system cause => "internal error: " ++ cause.text
  | timedOut after => "timed out after " ++ after.text

abbrev Result (α : Type) := Except FocusError α

abbrev refuse {α : Type} (why : InvalidArgument) : Result α := .error (.invalid why)

end AudioFocus
