import AudioFocus.Scenario.Channels

/-!
The operations of a scenario around a client or a registry, and the entries of its log.
-/
namespace AudioFocus.Scenario

inductive FaultPoint
  | opens
  | acks
  | waits

/-- What is asked of a registry that is busy with a new registration. -/
inductive Inquiry
  | ownedBy (pid : Int32)
  | notifyExit (pid : Int32)

/-- A registration to be made, of a given id or the one that a watch in its slot has. -/
structure Draft where
  id : Option Int32
  owner : Int32
  space : IdSpace
  filter : FocusType
  session : Bool
  streamType : String

def Draft.registration (d : Draft) (slot : Nat) : Registration :=
  let id := d.id.getD (watchId slot)
  { id, owner := d.owner, space := d.space, filter := d.filter, session := d.session,
    streamType := d.streamType
    channel := match d.space with
      | .focus => .focus d.owner id
      | .watch => .watch d.owner }

inductive RegistryOp
  | find (id : Int32) (space : IdSpace)
  | get (slot : Nat)
  | claim (slot : Nat) (id : Int32) (space : IdSpace)
  | release (slot : Nat) (id : Int32) (space : IdSpace)
  | capacity
  | handles
  | ownedBy (pid : Int32)
  | hold (slot : Nat)
  | unhold (slot : Nat)
  | binding (slot : Nat)
  | unbind (slot : Nat)

mutual

inductive Op
  | client (o : Operation Callback)
  /-- An operation of the client, of this name, with an argument that is none. -/
  | misused (name : String) (why : FocusError)
  /-- Finalizes the client and gives it up. -/
  | dropClient
  /-- Creates another client, with channels of its own, and gives it up. -/
  | otherClient (maxHandles : Nat) (crashGuard : Bool)
  | onDispatchThread
  | config
  | raise (signal : FatalSignal)
  | dispositions
  | registry (o : RegistryOp)
  | allocate (draft : Draft) (during : List Inquiry) (callback : Callback)
  | bind (slot : Nat) (id : Int32) (space : IdSpace) (callback : Callback)
  | notifyExit (pid : Int32)
  | start
  | stop
  | isRunning
  | channel (o : ChannelOp)
  | push (key : ChannelKey) (e : Event)
  | external (o : ExternalOp)
  | pump
  /-- From now on the arbiter answers the method so. -/
  | reply (method : Method) (answer : Option (Result Reply))
  /-- Before its next answer to the method the arbiter does this first. -/
  | hook (method : Method) (body : List Op)
  /-- Inside a callback: has this done on the main thread, while the callback waits. -/
  | onMain (body : List Op)
  | inject (point : FaultPoint) (codes : List Int32)
  | panic
  /-- The operation of this name, whose arguments alone settle what it gives. -/
  | settled (name : String) (outcome : Outcome)

inductive Callback
  | mk (tag : Option String) (body : List Op)

end

def Callback.tag : Callback → Option String
  | mk tag _ => tag

def Callback.body : Callback → List Op
  | mk _ body => body

inductive Entry
  | action (a : Action)
  /-- A callback ran, on the dispatch thread or not. A client that was dropped has none. -/
  | callback (tag : Option String) (e : Event) (onDispatchThread : Bool)
  | panicked
  | nested (o : Op) (outcome : Outcome)

end AudioFocus.Scenario
