import AudioFocus.Error

/-!
What a focus covers and the states that it moves between.
-/
namespace AudioFocus

/-- The directions of audio that a focus covers. -/
inductive FocusType
  | playback
  | capture
  | both
deriving DecidableEq

namespace FocusType

def raw : FocusType → Int32
  | playback => 1
  | capture => 2
  | both => 3

def name : FocusType → String
  | playback => "Playback"
  | capture => "Capture"
  | both => "Both"

def ofRaw (n : Int32) : Result FocusType :=
  if n = 1 then .ok playback
  else if n = 2 then .ok capture
  else if n = 3 then .ok both
  else refuse (.focusType n)

/-- Whether a change of `other` shows through a filter for `t`: they share a direction. -/
def covers (t other : FocusType) : Bool := t.raw &&& other.raw != 0

@[simp] theorem ofRaw_raw (t : FocusType) : ofRaw t.raw = .ok t := by cases t <;> rfl

end FocusType

inductive FocusState
  | released
  | acquired
deriving DecidableEq

namespace FocusState

def raw : FocusState → Int32
  | released => 0
  | acquired => 1

def name : FocusState → String
  | released => "Released"
  | acquired => "Acquired"

def text : FocusState → String
  | released => "released"
  | acquired => "acquired"

def ofRaw (n : Int32) : Result FocusState :=
  if n = 0 then .ok released
  else if n = 1 then .ok acquired
  else refuse (.focusState n)

@[simp] theorem ofRaw_raw (s : FocusState) : ofRaw s.raw = .ok s := by cases s <;> rfl

end FocusState
end AudioFocus
