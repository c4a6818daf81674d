import AudioFocus.Focus

/-!
Focus changes, as the arbiter announces them to one handle.
-/
namespace AudioFocus

structure Event where
  /-- Process stamped on the event by the arbiter. -/
  pid : Int32
  /-- The handle that is told: a focus id, or a watch id on a watch channel. -/
  handle : Int32
  focusType : FocusType
  state : FocusState
  reason : String
  requester : String
  info : String
deriving DecidableEq

end AudioFocus
