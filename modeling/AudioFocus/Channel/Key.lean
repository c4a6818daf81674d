/-!
The names of notification channels. A channel carries events to one process, either for one
focus handle or for all its watches.
-/
namespace AudioFocus

/-- The two kinds of handle id. Focus ids come from the arbiter, watch ids from the slot that the
watch occupies; the same number may be live in both. -/
inductive IdSpace
  | focus
  | watch
deriving DecidableEq

inductive ChannelKey
  /-- Events of one focus handle of a process. -/
  | focus (owner id : Int32)
  /-- Events of all watches of a process. -/
  | watch (owner : Int32)
deriving DecidableEq

namespace ChannelKey

def owner : ChannelKey → Int32
  | focus owner _ => owner
  | watch owner => owner

def space : ChannelKey → IdSpace
  | focus _ _ => .focus
  | watch _ => .watch

/-- Acknowledged when the channel closes: the handle, or no handle in particular. -/
def finalAck : ChannelKey → Int32
  | focus _ id => id
  | watch _ => -1

def text : ChannelKey → String
  | focus owner id => "ChannelKey \x7b owner: " ++ toString owner ++ ", purpose: Normal("
      ++ toString id ++ ") \x7d"
  | watch owner => "ChannelKey \x7b owner: " ++ toString owner ++ ", purpose: Watch \x7d"

/-- Whether a channel is listed no later than another: by owner, focus channels first, by id. -/
def listedBefore : ChannelKey → ChannelKey → Bool
  | focus o i, focus p j => o < p || (o = p && i ≤ j)
  | focus o _, watch p => o ≤ p
  | watch o, focus p _ => o < p
  | watch o, watch p => o ≤ p

end ChannelKey
end AudioFocus
