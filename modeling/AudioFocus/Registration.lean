import AudioFocus.Focus

/-!
What is known of one registration while it is live.
-/
namespace AudioFocus

structure Registration where
  id : Int32
  /-- The process it belongs to: the caller's, or that of a session. -/
  owner : Int32
  space : IdSpace
  /-- Which changes a watch is told of. -/
  filter : FocusType
  session : Bool
  streamType : String
  channel : ChannelKey
deriving DecidableEq

/-- Ids of watches are one more than their slot, so that none is zero; both are counted in 32
bits. -/
def watchId (slot : Nat) : Int32 := Int32.ofNat slot + 1

def watchSlot (id : Int32) : Result Nat :=
  if id ≤ 0 then refuse (.watchId id) else .ok (id.toInt.toNat - 1)

def Registration.ofFocus (owner id : Int32) (session : Bool) (streamType : String) :
    Registration where
  id := id
  owner := owner
  space := .focus
  filter := .both
  session := session
  streamType := streamType
  channel := .focus owner id

def Registration.ofWatch (owner : Int32) (filter : FocusType) (session : Bool) (slot : Nat) :
    Registration where
  id := watchId slot
  owner := owner
  space := .watch
  filter := filter
  session := session
  streamType := ""
  channel := .watch owner

end AudioFocus
