import AudioFocus.Registration

/-!
The slots in which registrations live. A slot has a guard besides: it holds the callback, and
whoever holds the guard may run the callback or tear the registration down. A slot can be freed
while its guard is held, and then keeps its old callback until the slot is taken again.
-/
namespace AudioFocus

/-- The callback behind a guard, and the handle that it was bound for. -/
structure Binding (κ : Type) where
  id : Int32
  space : IdSpace
  callback : κ

structure Slot (κ : Type) where
  registration : Option Registration := none
  closing : Bool := false
  guarded : Bool := false
  binding : Option (Binding κ) := none

namespace Slot

variable {κ : Type}

def holds (s : Slot κ) (id : Int32) (space : IdSpace) : Bool :=
  match s.registration with
  | some r => r.id = id && r.space = space
  | none => false

/-- Whether a registration can move in. -/
def vacant (s : Slot κ) : Bool := s.registration.isNone && !s.guarded

def bindsTo (s : Slot κ) (id : Int32) (space : IdSpace) : Bool :=
  match s.binding with
  | some b => b.id = id && b.space = space
  | none => false

end Slot

structure Registry (κ : Type) where
  slots : List (Slot κ)
  /-- A registration is being entered, and nobody else can look. -/
  busy : Bool := false

namespace Registry

variable {κ : Type}

def ofCapacity (n : Nat) : Registry κ := { slots := List.replicate n {} }

def capacity (r : Registry κ) : Nat := r.slots.length

/-- Never the id of a handle that can be found. -/
def freeId : Int32 := -1

def registration? (r : Registry κ) (slot : Nat) : Option Registration :=
  (r.slots[slot]?).bind (·.registration)

def has (r : Registry κ) (id : Int32) (space : IdSpace) : Bool :=
  r.slots.any (·.holds id space)

def find? (r : Registry κ) (id : Int32) (space : IdSpace) : Option Nat :=
  if id = freeId then none else r.slots.findIdx? (·.holds id space)

/-- The live registrations and their slots, in the order of the slots. -/
def live (r : Registry κ) : List (Nat × Registration) :=
  r.slots.zipIdx.filterMap fun (s, i) => s.registration.map (i, ·)

def liveCount (r : Registry κ) : Nat := r.slots.countP (·.registration.isSome)

/-- How many live registrations belong to a process, unless the registry is busy. -/
def ownedBy? (r : Registry κ) (pid : Int32) : Option Nat :=
  if r.busy then none
  else some (r.slots.countP fun s => s.registration.any (·.owner = pid))

def modify (r : Registry κ) (slot : Nat) (f : Slot κ → Slot κ) : Registry κ :=
  { r with slots := r.slots.modify slot f }

/-- The slot that the next registration gets. -/
def vacancy? (r : Registry κ) : Option Nat := r.slots.findIdx? (·.vacant)

/-- Enters a registration and its callback in a slot, unless its handle is live already. -/
def enter (r : Registry κ) (slot : Nat) (reg : Registration) (callback : κ) :
    Result (Registry κ) :=
  if r.has reg.id reg.space then refuse (.registered reg.id)
  else .ok (r.modify slot fun s => { s with
    registration := some reg
    closing := false
    binding := some ⟨reg.id, reg.space, callback⟩ })

/-- Enters what `init` makes for the slot. -/
def allocate (r : Registry κ) (init : Nat → Registration × κ) : Result (Nat × Registry κ) :=
  match r.vacancy? with
  | none => .error (.exhausted r.capacity)
  | some slot =>
    let (reg, callback) := init slot
    (r.enter slot reg callback).map (slot, ·)

/-- Reserves a live handle for a teardown. Only the first one gets it. -/
def claim? (r : Registry κ) (slot : Nat) (id : Int32) (space : IdSpace) : Option (Registry κ) :=
  match r.slots[slot]? with
  | some s =>
    if !s.closing && s.holds id space then
      some (r.modify slot fun s => { s with closing := true })
    else none
  | none => none

/-- Frees the slot of a handle. What else the slot may hold is left alone. -/
def release? (r : Registry κ) (slot : Nat) (id : Int32) (space : IdSpace) :
    Option (Registration × Registry κ) :=
  match r.slots[slot]? with
  | some s =>
    match s.registration with
    | some reg =>
      if s.holds id space then
        some (reg, r.modify slot fun s => { s with registration := none, closing := false })
      else none
    | none => none
  | none => none

/-- `release?`, where it does not matter whether there was something to free. -/
def release (r : Registry κ) (slot : Nat) (id : Int32) (space : IdSpace) : Registry κ :=
  match r.release? slot id space with
  | some (_, r) => r
  | none => r

def isGuarded (r : Registry κ) (slot : Nat) : Bool := (r.slots[slot]?).any (·.guarded)

/-- The callback in a slot, which need not be that of a live registration. -/
def binding? (r : Registry κ) (slot : Nat) : Option (Binding κ) :=
  (r.slots[slot]?).bind (·.binding)

def guard (r : Registry κ) (slot : Nat) : Registry κ :=
  r.modify slot fun s => { s with guarded := true }

def unguard (r : Registry κ) (slot : Nat) : Registry κ :=
  r.modify slot fun s => { s with guarded := false }

def bind (r : Registry κ) (slot : Nat) (b : Option (Binding κ)) : Registry κ :=
  r.modify slot fun s => { s with binding := b }

/-- Clears the callback of a handle; that of any other handle stays. -/
def unbind (r : Registry κ) (slot : Nat) (id : Int32) (space : IdSpace) : Registry κ :=
  r.modify slot fun s => if s.bindsTo id space then { s with binding := none } else s

/-- Frees the slot of a handle and, if that was live, clears the callback in the slot. -/
def vacate (r : Registry κ) (slot : Nat) (id : Int32) (space : IdSpace) : Registry κ :=
  match r.release? slot id space with
  | some (_, r) => r.bind slot none
  | none => r

end Registry
end AudioFocus
