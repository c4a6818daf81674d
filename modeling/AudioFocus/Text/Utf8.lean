/-!
Text as UTF-8 octets. `encode` is total and exact; `decode` is total on all octet lists and
replaces what is not UTF-8, one replacement character for each maximal ill-formed part.
-/
namespace AudioFocus.Utf8

def encode (cs : List Char) : List UInt8 := cs.flatMap String.utf8EncodeChar

/-- The longest beginning of a text that takes at most `room` octets. -/
def fit (room : Nat) : List Char → List Char
  | [] => []
  | c :: cs => if c.utf8Size ≤ room then c :: fit (room - c.utf8Size) cs else []

def isTail (b : UInt8) : Bool := 0x80 ≤ b && b ≤ 0xBF

/-- Whether some character starts with these two octets. -/
def startsPair (lead second : UInt8) : Bool :=
  if lead = 0xE0 then 0xA0 ≤ second && second ≤ 0xBF
  else if lead = 0xED then 0x80 ≤ second && second ≤ 0x9F
  else if lead = 0xF0 then 0x90 ≤ second && second ≤ 0xBF
  else if lead = 0xF4 then 0x80 ≤ second && second ≤ 0x8F
  else 0xC2 ≤ lead && lead ≤ 0xF4 && isTail second

/-- Length of the ill-formed part at the front of octets that start with no character: as many
octets as begin some character, and at least one. -/
def illFormedLength : List UInt8 → Nat
  | a :: b :: c :: _ => if startsPair a b then (if 0xF0 ≤ a && isTail c then 3 else 2) else 1
  | a :: b :: _ => if startsPair a b then 2 else 1
  | _ => 1

/-- The character that the octets start with, if they start with one. -/
def first? (bs : List UInt8) : Option Char := (bs.take 4).toByteArray.utf8DecodeChar? 0

/-- Stands in a text for octets that are not UTF-8. -/
def replacement : Char := '\uFFFD'

/-- The text of the octets, ill-formed parts replaced. -/
def decode : List UInt8 → List Char
  | [] => []
  | b :: bs =>
    match first? (b :: bs) with
    | some c => c :: decode (bs.drop (c.utf8Size - 1))
    | none => replacement :: decode (bs.drop (illFormedLength (b :: bs) - 1))
termination_by bs => bs.length
decreasing_by all_goals simp only [List.length_drop, List.length_cons]; omega

@[simp] theorem encode_nil : encode [] = [] := rfl

@[simp] theorem encode_cons (c : Char) (cs : List Char) :
    encode (c :: cs) = String.utf8EncodeChar c ++ encode cs := rfl

theorem encode_append (cs ds : List Char) : encode (cs ++ ds) = encode cs ++ encode ds := by
  simp [encode]

theorem first?_encodeChar (c : Char) (bs : List UInt8) :
    first? (String.utf8EncodeChar c ++ bs) = some c := by
  have h : (String.utf8EncodeChar c).length ≤ 4 := by
    rw [String.length_utf8EncodeChar]
    exact c.utf8Size_le_four
  rw [first?, List.take_append, List.take_of_length_le h, List.toByteArray_append,
    ByteArray.utf8DecodeChar?_utf8EncodeChar_append]

/-- Text is decoded as it was encoded, whatever octets follow. -/
theorem decode_encode_append (cs : List Char) (bs : List UInt8) :
    decode (encode cs ++ bs) = cs ++ decode bs := by
  induction cs with
  | nil => rfl
  | cons c cs ih =>
    have hf := first?_encodeChar c (encode cs ++ bs)
    have hl := String.length_utf8EncodeChar c
    rw [encode_cons, List.append_assoc]
    match he : String.utf8EncodeChar c with
    | [] =>
      have := c.utf8Size_pos
      simp [he] at hl
      omega
    | b :: rest =>
      rw [he, List.cons_append] at hf
      rw [he, List.length_cons] at hl
      rw [List.cons_append, decode, hf]
      simp only [List.cons_append, List.cons.injEq, true_and]
      rw [List.drop_append_of_le_length (by omega), List.drop_of_length_le (by omega),
        List.nil_append, ih]

@[simp] theorem decode_encode (cs : List Char) : decode (encode cs) = cs := by
  simpa [decode] using decode_encode_append cs []

theorem length_encode_fit (cs : List Char) (room : Nat) :
    (encode (fit room cs)).length ≤ room := by
  induction cs generalizing room with
  | nil => simp [fit]
  | cons c cs ih =>
    unfold fit
    split
    · have := ih (room - c.utf8Size)
      simp only [encode_cons, List.length_append, String.length_utf8EncodeChar]
      omega
    · simp

end AudioFocus.Utf8
