import AudioFocus.Event
import AudioFocus.Text.Utf8

/-!
The records of fixed size that carry events and acknowledgements.

    octet    0   4       8     12     16      80         144
    event    pid handle  type  state  reason  requester  info

Numbers take four octets, the lowest first. A text ends before its first zero octet, which
writing never omits.
-/
namespace AudioFocus

namespace Record

def encodeNumber (n : Int32) : List UInt8 :=
  let w := n.toUInt32.toNat
  [.ofNat w, .ofNat (w >>> 8), .ofNat (w >>> 16), .ofNat (w >>> 24)]

def decodeNumber : List UInt8 → Int32
  | [a, b, c, d] =>
    (UInt32.ofNat (a.toNat + b.toNat <<< 8 + c.toNat <<< 16 + d.toNat <<< 24)).toInt32
  | _ => 0

/-- A text field of `size` octets: as much of the text as leaves room for a zero, then zeros. -/
def encodeText (size : Nat) (s : String) : List UInt8 :=
  let text := Utf8.encode (Utf8.fit (size - 1) s.toList)
  text ++ List.replicate (size - text.length) 0

def decodeText (field : List UInt8) : String :=
  String.ofList (Utf8.decode (field.takeWhile (· ≠ 0)))

/-- The `size` octets of a record from `start`. -/
def field (record : List UInt8) (start size : Nat) : List UInt8 := (record.drop start).take size

end Record

open Record

namespace Event

def recordSize : Nat := 400

def toRecord (e : Event) : List UInt8 :=
  encodeNumber e.pid ++ encodeNumber e.handle ++ encodeNumber e.focusType.raw
    ++ encodeNumber e.state.raw ++ encodeText 64 e.reason ++ encodeText 64 e.requester
    ++ encodeText 256 e.info

/-- Only a number that is no focus type or no state makes a record malformed. -/
def ofRecord (r : List UInt8) : Result Event := do
  let focusType ← FocusType.ofRaw (decodeNumber (field r 8 4))
  let state ← FocusState.ofRaw (decodeNumber (field r 12 4))
  return {
    pid := decodeNumber (field r 0 4)
    handle := decodeNumber (field r 4 4)
    focusType, state
    reason := decodeText (field r 16 64)
    requester := decodeText (field r 80 64)
    info := decodeText (field r 144 256) }

/-- The event in what one read brought: a whole, well-formed record. -/
def ofChunk? (chunk : List UInt8) : Option Event :=
  if chunk.length = recordSize then (ofRecord chunk).toOption else none

end Event

namespace Ack

def recordSize : Nat := 4

def toRecord (handle : Int32) : List UInt8 := encodeNumber handle

def ofRecord (r : List UInt8) : Int32 := decodeNumber r

end Ack

@[simp] theorem Record.length_encodeNumber (n : Int32) : (encodeNumber n).length = 4 := rfl

@[simp] theorem Record.decodeNumber_encodeNumber (n : Int32) :
    decodeNumber (encodeNumber n) = n := by
  have h : n.toUInt32.toNat < 2 ^ 32 := n.toUInt32.toNat_lt
  have sum : n.toUInt32.toNat % 2 ^ 8 + (n.toUInt32.toNat >>> 8 % 2 ^ 8) <<< 8
      + (n.toUInt32.toNat >>> 16 % 2 ^ 8) <<< 16
      + (n.toUInt32.toNat >>> 24 % 2 ^ 8) <<< 24 = n.toUInt32.toNat := by omega
  simp only [decodeNumber, encodeNumber, UInt8.toNat_ofNat', sum]
  simp

theorem Record.encodeNumber_decodeNumber (a b c d : UInt8) :
    encodeNumber (decodeNumber [a, b, c, d]) = [a, b, c, d] := by
  have ha := a.toNat_lt
  have hb := b.toNat_lt
  have hc := c.toNat_lt
  have hd := d.toNat_lt
  have word : (UInt32.ofNat (a.toNat + b.toNat <<< 8 + c.toNat <<< 16
      + d.toNat <<< 24)).toInt32.toUInt32.toNat
      = a.toNat + b.toNat <<< 8 + c.toNat <<< 16 + d.toNat <<< 24 := by
    simp only [UInt32.toUInt32_toInt32, UInt32.toNat_ofNat']
    omega
  simp only [encodeNumber, decodeNumber, List.cons.injEq, and_true, word]
  refine ⟨?_, ?_, ?_, ?_⟩ <;> apply UInt8.toNat_inj.mp <;> rw [UInt8.toNat_ofNat'] <;> omega

@[simp] theorem Record.length_encodeText (size : Nat) (s : String) :
    (encodeText (size + 1) s).length = size + 1 := by
  have := Utf8.length_encode_fit s.toList size
  simp only [encodeText, List.length_append, List.length_replicate, Nat.add_sub_cancel]
  omega

@[simp] theorem Event.length_toRecord (e : Event) : e.toRecord.length = Event.recordSize := by
  simp [Event.toRecord, Event.recordSize]

end AudioFocus
