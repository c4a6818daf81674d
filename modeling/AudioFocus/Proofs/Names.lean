import AudioFocus.Fifo.Tree
import AudioFocus.Proofs.Utf8
import Mathlib.Data.List.Basic
import Mathlib.Data.Nat.Digits.Defs

/-!
The names of the FIFOs of a channel. They tell the channel: two channels never share a name, and no
name is one of events to one channel and one of acknowledgements to another. They are short. The
paths in one directory tell as much, since joining a name to the directory loses nothing of it.
-/
namespace AudioFocus

section Numerals

/-- The characters of a number that is written out. -/
theorem mem_toString {n : Int32} {c : Char} (member : c ∈ (toString n).toList) :
    c = '-' ∨ c.isDigit = true := by
  have digits (k : Nat) (inside : c ∈ k.repr.toList) : c.isDigit = true := by
    rw [Nat.toList_repr] at inside
    exact Nat.isDigit_of_mem_toDigits (by decide) (by decide) inside
  change c ∈ n.toInt.repr.toList at member
  rw [Int.repr_eq_if] at member
  split at member
  · exact .inr (digits _ member)
  · rw [String.toList_append] at member
    rcases List.mem_append.mp member with sign | inside
    · exact .inl (by simpa using sign)
    · exact .inr (digits _ inside)

theorem getLast?_repr (k : Nat) : ∃ c, k.repr.toList.getLast? = some c ∧ c.isDigit = true := by
  rw [Nat.toList_repr]
  have some_ : Nat.toDigits 10 k ≠ [] := Nat.toDigits_ne_nil
  exact ⟨_, List.getLast?_eq_some_getLast some_,
    Nat.isDigit_of_mem_toDigits (by decide) (by decide) (List.getLast_mem some_)⟩

theorem getLast?_toString (n : Int32) :
    ∃ c, (toString n).toList.getLast? = some c ∧ c.isDigit = true := by
  change ∃ c, n.toInt.repr.toList.getLast? = some c ∧ _
  rw [Int.repr_eq_if]
  split
  · exact getLast?_repr _
  · obtain ⟨c, last, digit⟩ := getLast?_repr (-n.toInt).toNat
    exact ⟨c, by rw [String.toList_append, List.getLast?_append, last]; rfl, digit⟩

theorem repr_injective {k l : Nat} (same : k.repr = l.repr) : k = l := by
  have digits := congrArg (fun s => Nat.ofDigitChars 10 s.toList 0) same
  simpa only [Nat.toList_repr, Nat.ofDigitChars_ten_toDigits] using digits

theorem toString_injective {m n : Int32} (same : toString m = toString n) : m = n := by
  have unsigned (k l : Nat) (mixed : k.repr = "-" ++ l.repr) : False := by
    have head := congrArg (fun s => s.toList.head?) mixed
    have some_ : Nat.toDigits 10 k ≠ [] := Nat.toDigits_ne_nil
    rw [Nat.toList_repr, List.head?_eq_some_head some_] at head
    have digit := Nat.isDigit_of_mem_toDigits (by decide) (by decide) (List.head_mem some_)
    rw [show (Nat.toDigits 10 k).head some_ = '-' by simpa using head] at digit
    contradiction
  change m.toInt.repr = n.toInt.repr at same
  rw [Int.repr_eq_if, Int.repr_eq_if] at same
  apply Int32.toInt_inj.mp
  split at same <;> split at same
  · have := repr_injective same
    omega
  · exact (unsigned _ _ same).elim
  · exact (unsigned _ _ same.symm).elim
  · have := repr_injective ((String.append_right_inj "-").mp same)
    omega

theorem length_toString_le (n : Int32) : (toString n).length ≤ 11 := by
  have digits {k : Nat} (small : k ≤ 2 ^ 31) : k.repr.length ≤ 10 :=
    Nat.repr_length k 10 (by decide) (by omega)
  have low := n.le_toInt
  have high := n.toInt_lt
  change n.toInt.repr.length ≤ 11
  rw [Int.repr_eq_if]
  split
  · have := digits (k := n.toInt.toNat) (by omega)
    omega
  · have := digits (k := (-n.toInt).toNat) (by omega)
    rw [String.length_append]
    have sign : "-".length = 1 := rfl
    omega

end Numerals

theorem Utf8.utf8ByteSize_le (s : String) : s.utf8ByteSize ≤ 4 * s.length := by
  have octets (cs : List Char) : (encode cs).length ≤ 4 * cs.length := by
    induction cs with
    | nil => simp
    | cons c cs ih =>
      have most := c.utf8Size_le_four
      simp only [encode_cons, List.length_append, String.length_utf8EncodeChar,
        List.length_cons]
      omega
  have same := octets s.toList
  rwa [length_encode, String.ofList_toList, String.length_toList] at same

/-- Whether a slash comes between depends on the directory alone, so it is the same for all names. -/
theorem joinPath_injective (dir : String) : Function.Injective (joinPath dir) := by
  intro name other same
  unfold joinPath at same
  split at same
  · exact (String.append_right_inj dir).mp same
  · exact (String.append_right_inj (dir ++ "/")).mp same

namespace ChannelKey

/-- What follows the owner in the names of a channel. -/
def suffix : ChannelKey → String
  | focus _ id => toString id
  | watch _ => "wch"

theorem eventName_eq (key : ChannelKey) :
    key.eventName = "FOCUS." ++ toString key.owner ++ "." ++ key.suffix := by
  cases key with
  | focus => rfl
  | watch owner =>
    change "FOCUS." ++ toString owner ++ ".wch" = "FOCUS." ++ toString owner ++ "." ++ "wch"
    rw [String.append_assoc, String.append_assoc]
    rfl

theorem dot_not_mem_toString (n : Int32) : '.' ∉ (toString n).toList := by
  intro member
  rcases mem_toString member with sign | digit <;> contradiction

theorem dot_not_mem_suffix (key : ChannelKey) : '.' ∉ key.suffix.toList := by
  cases key with
  | focus owner id => exact dot_not_mem_toString id
  | watch owner =>
    change '.' ∉ "wch".toList
    decide

theorem eq_of_suffix {key other : ChannelKey} (owners : key.owner = other.owner)
    (suffixes : key.suffix = other.suffix) : key = other := by
  have mixed (id : Int32) (same : toString id = "wch") : False := by
    have member : 'w' ∈ (toString id).toList := by
      rw [same]
      decide
    rcases mem_toString member with sign | digit <;> contradiction
  cases key with
  | focus owner id =>
    cases other with
    | focus owner' id' =>
      obtain rfl : owner = owner' := owners
      rw [toString_injective suffixes]
    | watch => exact (mixed id suffixes).elim
  | watch owner =>
    cases other with
    | focus _ id => exact (mixed id suffixes.symm).elim
    | watch owner' => exact congrArg watch owners

theorem eventName_injective {key other : ChannelKey} (same : key.eventName = other.eventName) :
    key = other := by
  rw [eventName_eq, eventName_eq, String.append_assoc, String.append_assoc, String.append_assoc,
    String.append_assoc, String.append_right_inj] at same
  have letters := congrArg String.toList same
  simp only [String.toList_append] at letters
  change (toString key.owner).toList ++ '.' :: key.suffix.toList =
    (toString other.owner).toList ++ '.' :: other.suffix.toList at letters
  -- Neither the owner nor what follows has a dot in it, so the dot parts both names alike.
  obtain ⟨owners, -, suffixes⟩ := (List.append_cons_inj_of_notMem
    (dot_not_mem_toString key.owner) key.dot_not_mem_suffix).mp letters
  exact eq_of_suffix (toString_injective (String.toList_inj.mp owners))
    (String.toList_inj.mp suffixes)

theorem ackName_injective {key other : ChannelKey} (same : key.ackName = other.ackName) :
    key = other :=
  eventName_injective ((String.append_left_inj "r").mp same)

theorem getLast?_suffix (key : ChannelKey) :
    ∃ c, key.suffix.toList.getLast? = some c ∧ c ≠ 'r' := by
  cases key with
  | focus owner id =>
    obtain ⟨c, last, digit⟩ := getLast?_toString id
    refine ⟨c, last, ?_⟩
    rintro rfl
    contradiction
  | watch owner =>
    refine ⟨'h', ?_, by decide⟩
    change "wch".toList.getLast? = some 'h'
    decide

theorem eventName_ne_ackName (key other : ChannelKey) : key.eventName ≠ other.ackName := by
  intro same
  have letters := congrArg (fun s => s.toList.getLast?) same
  obtain ⟨c, last, distinct⟩ := key.getLast?_suffix
  simp only [eventName_eq key, ackName, String.toList_append, List.getLast?_append, last] at letters
  exact distinct (by simpa using letters)

/-- No two FIFOs in one directory have the same path, be they of two channels or of one. -/
theorem paths_apart (dir : String) :
    Function.Injective (eventPath dir) ∧ Function.Injective (ackPath dir) ∧
      ∀ key other : ChannelKey, eventPath dir key ≠ ackPath dir other := by
  refine ⟨?event, ?ack, ?between⟩
  case event =>
    intro key other same
    exact eventName_injective (joinPath_injective dir same)
  case ack =>
    intro key other same
    exact ackName_injective (joinPath_injective dir same)
  case between =>
    intro key other same
    exact eventName_ne_ackName key other (joinPath_injective dir same)

theorem length_suffix_le (key : ChannelKey) : key.suffix.length ≤ 11 := by
  cases key with
  | focus owner id => exact length_toString_le id
  | watch owner =>
    change "wch".length ≤ 11
    decide

theorem length_ackName_le (key : ChannelKey) : key.ackName.length ≤ 30 := by
  have owner := length_toString_le key.owner
  have suffix := key.length_suffix_le
  have fixed : "FOCUS.".length + ".".length + "r".length = 8 := by rfl
  simp only [ackName, eventName_eq, String.length_append]
  omega

/-- The names of a channel are never too long for a directory. -/
theorem nameIn_of_channel (dir : Place) (key : ChannelKey) :
    FileSystem.nameIn dir key.eventName = .ok (dir ++ [key.eventName]) ∧
      FileSystem.nameIn dir key.ackName = .ok (dir ++ [key.ackName]) := by
  have short := key.length_ackName_le
  have long : key.eventName.length ≤ key.ackName.length := by
    rw [ackName, String.length_append]
    omega
  have event := Utf8.utf8ByteSize_le key.eventName
  have ack := Utf8.utf8ByteSize_le key.ackName
  unfold FileSystem.nameIn maxName
  exact ⟨if_neg (by omega), if_neg (by omega)⟩

end ChannelKey

end AudioFocus
