/-!
What an arbiter can be asked.
-/
namespace AudioFocus

inductive Method
  | uniqueId
  | registerFocus
  | unregisterFocus
  | acquireFocus
  | releaseFocus
  | setReacquisition
  | getReacquisition
  | getAcquired
  | setWatch
  | requestUnsetWatch
  | unsetWatch
  | emergentExit
deriving DecidableEq

namespace Method

def all : List Method :=
  [uniqueId, registerFocus, unregisterFocus, acquireFocus, releaseFocus, setReacquisition,
   getReacquisition, getAcquired, setWatch, requestUnsetWatch, unsetWatch, emergentExit]

def name : Method → String
  | uniqueId => "GetUniqueId"
  | registerFocus => "RegisterFocus"
  | unregisterFocus => "UnregisterFocus"
  | acquireFocus => "AcquireFocus"
  | releaseFocus => "ReleaseFocus"
  | setReacquisition => "SetFocusReacquisition"
  | getReacquisition => "GetFocusReacquisition"
  | getAcquired => "GetAcquiredFocusStreamType"
  | setWatch => "SetFocusWatch"
  | requestUnsetWatch => "RequestUnsetFocusWatch"
  | unsetWatch => "UnsetFocusWatch"
  | emergentExit => "EmergentExit"

def ofName? (s : String) : Option Method := all.find? (·.name = s)

end Method
end AudioFocus
