import AudioFocus.Channel.Key

/-!
Where the two FIFOs of a channel are. Both sides derive the paths from the channel alone.
-/
namespace AudioFocus

/-- The path of an entry of a directory. -/
def joinPath (dir name : String) : String :=
  if dir.toList = [] ∨ dir.toList.getLast? = some '/' then dir ++ name else dir ++ "/" ++ name

namespace ChannelKey

/-- Name of the FIFO that brings events to the owner. -/
def eventName : ChannelKey → String
  | focus owner id => "FOCUS." ++ toString owner ++ "." ++ toString id
  | watch owner => "FOCUS." ++ toString owner ++ ".wch"

/-- Name of the FIFO that takes acknowledgements to the arbiter. -/
def ackName (key : ChannelKey) : String := key.eventName ++ "r"

def eventPath (dir : String) (key : ChannelKey) : String := joinPath dir key.eventName

def ackPath (dir : String) (key : ChannelKey) : String := joinPath dir key.ackName

end ChannelKey
end AudioFocus
