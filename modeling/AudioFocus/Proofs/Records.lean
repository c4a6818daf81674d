import AudioFocus.Event.Record
import AudioFocus.Proofs.Utf8
import Mathlib.Data.List.TakeWhile

/-!
Events and the records that carry them. What is read from the record of an event is the event with
its texts cut: each to what its field has room for, then before its first zero. Conversely a record
is read unless its type or state is unknown, and it is the record of what is read from it just if
it is canonical.
-/
namespace AudioFocus

theorem FocusType.ofRaw_eq_error {n : Int32} {err : FocusError} :
    ofRaw n = .error err ↔ n ∉ [1, 2, 3] ∧ err = .invalid (.focusType n) := by
  unfold ofRaw
  split
  · simp [*]
  split
  · simp [*]
  split
  · simp [*]
  · simp [*, eq_comm]

theorem FocusType.ofRaw_eq_ok {n : Int32} {t : FocusType} : ofRaw n = .ok t ↔ n = t.raw := by
  constructor
  · intro read
    unfold ofRaw at read
    split at read
    · cases read
      assumption
    split at read
    · cases read
      assumption
    split at read
    · cases read
      assumption
    · contradiction
  · rintro rfl
    exact ofRaw_raw t

theorem FocusType.mem_raws_iff {n : Int32} : n ∈ [1, 2, 3] ↔ ∃ t : FocusType, ofRaw n = .ok t := by
  constructor
  · intro known
    cases read : ofRaw n with
    | error err => exact absurd known (ofRaw_eq_error.mp read).1
    | ok t => exact ⟨t, rfl⟩
  · rintro ⟨t, read⟩
    rw [ofRaw_eq_ok.mp read]
    cases t <;> decide

theorem FocusState.ofRaw_eq_error {n : Int32} {err : FocusError} :
    ofRaw n = .error err ↔ n ∉ [0, 1] ∧ err = .invalid (.focusState n) := by
  unfold ofRaw
  split
  · simp [*]
  split
  · simp [*]
  · simp [*, eq_comm]

theorem FocusState.ofRaw_eq_ok {n : Int32} {s : FocusState} : ofRaw n = .ok s ↔ n = s.raw := by
  constructor
  · intro read
    unfold ofRaw at read
    split at read
    · cases read
      assumption
    split at read
    · cases read
      assumption
    · contradiction
  · rintro rfl
    exact ofRaw_raw s

namespace Record

section Text

variable {f : List UInt8} {s : String}

/-- A text up to its first zero. -/
def beforeZero (s : String) : String := String.ofList (s.toList.takeWhile (· ≠ '\x00'))

/-- Nothing is lost of the text in a field with room for so many octets and a zero. -/
def Whole (room : Nat) (s : String) : Prop := '\x00' ∉ s.toList ∧ s.utf8ByteSize ≤ room

/-- A field that writing makes: UTF-8 without a zero in it, then at least one zero, and nothing
else. -/
def Canonical (f : List UInt8) : Prop :=
  ∃ text : List UInt8, text.toByteArray.IsValidUTF8 ∧ 0 ∉ text ∧ text.length < f.length ∧
    f = text ++ List.replicate (f.length - text.length) 0

theorem encodeText_eq (room : Nat) (s : String) :
    ∃ zeros, encodeText (room + 1) s =
      Utf8.encode (Utf8.fit room s.toList) ++ 0 :: List.replicate zeros 0 := by
  have short := Utf8.length_encode_fit s.toList room
  refine ⟨room - (Utf8.encode (Utf8.fit room s.toList)).length, ?_⟩
  rw [← List.replicate_succ, encodeText, Nat.add_sub_cancel, Nat.sub_add_comm short]

theorem decodeText_encodeText (room : Nat) (s : String) :
    decodeText (encodeText (room + 1) s) =
      beforeZero (String.ofList (Utf8.fit room s.toList)) := by
  obtain ⟨zeros, text⟩ := encodeText_eq room s
  rw [text, decodeText, Utf8.takeWhile_encode, Utf8.decode_encode, beforeZero,
    String.toList_ofList]

theorem getLast?_encodeText (room : Nat) (s : String) :
    (encodeText (room + 1) s).getLast? = some 0 := by
  obtain ⟨zeros, text⟩ := encodeText_eq room s
  rw [text, ← List.replicate_succ, List.replicate_succ', ← List.append_assoc,
    List.getLast?_concat]

theorem beforeZero_fit_eq_self {room : Nat} :
    beforeZero (String.ofList (Utf8.fit room s.toList)) = s ↔ Whole room s := by
  have size : (Utf8.encode s.toList).length = s.utf8ByteSize := by
    rw [Utf8.length_encode, String.ofList_toList]
  rw [beforeZero, String.toList_ofList, ← String.toList_inj, String.toList_ofList, Whole, ← size,
    ← Utf8.fit_eq_self]
  constructor
  · intro same
    have short := (List.takeWhile_prefix (· ≠ '\x00') (l := Utf8.fit room s.toList)).length_le
    rw [same] at short
    have fits := (Utf8.fit_front room s.toList).eq_of_length_le short
    rw [fits, List.takeWhile_eq_self_iff] at same
    exact ⟨fun zero => by simpa using same _ zero, fits⟩
  · rintro ⟨free, fits⟩
    rw [fits, List.takeWhile_eq_self_iff]
    exact fun c member => decide_eq_true fun zero => free (zero ▸ member)

theorem takeWhile_eq_self_of_free {text : List UInt8} (free : 0 ∉ text) (zeros : Nat) :
    (text ++ List.replicate zeros 0).takeWhile (· ≠ 0) = text := by
  have none_ : ∀ b ∈ text, decide (b ≠ 0) = true := fun b member =>
    decide_eq_true fun zero => free (zero ▸ member)
  rw [List.takeWhile_append_of_pos none_]
  cases zeros <;> simp [List.replicate_succ]

/-- What is read from a field: the octets up to the first zero, as they are if they are UTF-8, and
with the ill-formed parts replaced if they are not. -/
structure ReadAs (f : List UInt8) (s : String) : Prop where
  free : '\x00' ∉ s.toList
  reads : Utf8.Reads (f.takeWhile (· ≠ 0)) s.toList
  same : (f.takeWhile (· ≠ 0)).toByteArray.IsValidUTF8 →
    s.toByteArray = (f.takeWhile (· ≠ 0)).toByteArray

theorem readAs_decodeText (f : List UInt8) : ReadAs f (decodeText f) := by
  have reads : Utf8.Reads (f.takeWhile (· ≠ 0)) (decodeText f).toList := by
    rw [decodeText, String.toList_ofList]
    exact Utf8.reads_decode _
  refine ⟨fun zero => ?_, reads, fun valid => ?_⟩
  · simpa using List.mem_takeWhile_imp (reads.zero_mem zero)
  · obtain ⟨cs, text⟩ := Utf8.isValidUTF8_iff.mp valid
    rw [decodeText, text, Utf8.decode_encode, String.toByteArray_ofList]
    rfl

/-- A field is the one that its text is written to just if it is canonical. -/
theorem encodeText_decodeText_iff {room : Nat} (size : f.length = room + 1) :
    encodeText (room + 1) (decodeText f) = f ↔ Canonical f := by
  constructor
  · intro same
    have short := Utf8.length_encode_fit (decodeText f).toList room
    refine ⟨Utf8.encode (Utf8.fit room (decodeText f).toList), Utf8.isValidUTF8_iff.mpr ⟨_, rfl⟩,
      ?_, by omega, ?_⟩
    · rw [Utf8.zero_mem_encode]
      exact fun zero => (readAs_decodeText f).free ((Utf8.fit_front _ _).subset zero)
    · rw [size]
      exact same.symm
  · rintro ⟨text, valid, free, short, field⟩
    obtain ⟨cs, rfl⟩ := Utf8.isValidUTF8_iff.mp valid
    have read : decodeText f = String.ofList cs := by
      rw [field, decodeText, takeWhile_eq_self_of_free free, Utf8.decode_encode]
    rw [read, encodeText, String.toList_ofList, Nat.add_sub_cancel,
      Utf8.fit_eq_self.mpr (by omega), ← size]
    exact field.symm

end Text

section Layout

variable {r : List UInt8}

theorem encodeNumber_decodeNumber_of_length {f : List UInt8} (size : f.length = 4) :
    encodeNumber (decodeNumber f) = f := by
  match f, size with
  | [a, b, c, d], _ => exact encodeNumber_decodeNumber a b c d

theorem encodeNumber_inj {m n : Int32} : encodeNumber m = encodeNumber n ↔ m = n := by
  constructor
  · intro same
    simpa using congrArg decodeNumber same
  · exact congrArg encodeNumber

theorem field_append_field (r : List UInt8) (start size more : Nat) :
    field r start size ++ field r (start + size) more = field r start (size + more) := by
  rw [field, field, field, ← List.drop_drop, List.take_add]

theorem length_field {start size : Nat} (inside : start + size ≤ r.length) :
    (field r start size).length = size := by
  rw [field, List.length_take, List.length_drop]
  omega

/-- Reading a number from its field and writing it again gives the field. -/
theorem field_eq_encodeNumber {start : Nat} (inside : start + 4 ≤ r.length) {n : Int32} :
    field r start 4 = encodeNumber n ↔ decodeNumber (field r start 4) = n := by
  rw [← encodeNumber_inj, encodeNumber_decodeNumber_of_length (length_field inside)]

end Layout

end Record

namespace Event

open Record

variable {e : Event} {r : List UInt8}

theorem fields_of_length (whole : r.length = recordSize) :
    field r 0 4 ++ field r 4 4 ++ field r 8 4 ++ field r 12 4 ++ field r 16 64 ++ field r 80 64
      ++ field r 144 256 = r := by
  iterate 6 rw [field_append_field]
  exact List.take_of_length_le (Nat.le_of_eq whole)

theorem toRecord_eq_iff (whole : r.length = recordSize) : e.toRecord = r ↔
    field r 0 4 = encodeNumber e.pid ∧ field r 4 4 = encodeNumber e.handle ∧
      field r 8 4 = encodeNumber e.focusType.raw ∧ field r 12 4 = encodeNumber e.state.raw ∧
      field r 16 64 = encodeText 64 e.reason ∧ field r 80 64 = encodeText 64 e.requester ∧
      field r 144 256 = encodeText 256 e.info := by
  constructor
  · intro same
    have length {start size : Nat} (inside : start + size ≤ 400) :
        (field r start size).length = size := length_field (whole ▸ inside)
    replace same := same.trans (fields_of_length whole).symm
    obtain ⟨same, info⟩ := List.append_inj' same (by simp [length])
    obtain ⟨same, requester⟩ := List.append_inj' same (by simp [length])
    obtain ⟨same, reason⟩ := List.append_inj' same (by simp [length])
    obtain ⟨same, state⟩ := List.append_inj' same (by simp [length])
    obtain ⟨same, focusType⟩ := List.append_inj' same (by simp [length])
    obtain ⟨pid, handle⟩ := List.append_inj' same (by simp [length])
    exact ⟨pid.symm, handle.symm, focusType.symm, state.symm, reason.symm, requester.symm,
      info.symm⟩
  · rintro ⟨pid, handle, focusType, state, reason, requester, info⟩
    rw [← fields_of_length whole, pid, handle, focusType, state, reason, requester, info]
    rfl

def typeWord (r : List UInt8) : Int32 := decodeNumber (field r 8 4)

def stateWord (r : List UInt8) : Int32 := decodeNumber (field r 12 4)

theorem ofRecord_eq_ok : ofRecord r = .ok e ↔
    decodeNumber (field r 0 4) = e.pid ∧ decodeNumber (field r 4 4) = e.handle ∧
      typeWord r = e.focusType.raw ∧ stateWord r = e.state.raw ∧
      decodeText (field r 16 64) = e.reason ∧ decodeText (field r 80 64) = e.requester ∧
      decodeText (field r 144 256) = e.info := by
  rw [← FocusType.ofRaw_eq_ok, ← FocusState.ofRaw_eq_ok, ofRecord]
  change (FocusType.ofRaw (typeWord r) >>= fun focusType =>
    FocusState.ofRaw (stateWord r) >>= fun state => _) = _ ↔ _
  obtain ⟨pid, handle, t, s, reason, requester, info⟩ := e
  cases FocusType.ofRaw (typeWord r) with
  | error err => simp [bind, Except.bind]
  | ok focusType =>
    cases FocusState.ofRaw (stateWord r) with
    | error err => simp [bind, Except.bind]
    | ok state => simp [bind, Except.bind, pure, Except.pure]

theorem bind_eq_error {ε α β : Type} {x : Except ε α} {f : α → Except ε β} {err : ε} :
    (x >>= f) = .error err ↔ x = .error err ∨ ∃ a, x = .ok a ∧ f a = .error err := by
  cases x <;> simp [bind, Except.bind]

/-- A record is refused for its type or else its state, and for nothing else. -/
theorem ofRecord_eq_error {err : FocusError} : ofRecord r = .error err ↔
    (typeWord r ∉ [1, 2, 3] ∧ err = .invalid (.focusType (typeWord r))) ∨
      (typeWord r ∈ [1, 2, 3] ∧ stateWord r ∉ [0, 1] ∧
        err = .invalid (.focusState (stateWord r))) := by
  rw [ofRecord, bind_eq_error, FocusType.ofRaw_eq_error]
  refine or_congr Iff.rfl ?_
  rw [FocusType.mem_raws_iff, ← exists_and_right]
  refine exists_congr fun t => and_congr_right fun _ => ?_
  rw [bind_eq_error, FocusState.ofRaw_eq_error]
  refine or_iff_left ?_
  rintro ⟨s, -, read⟩
  contradiction

/-- A record that writing makes. -/
structure Canonical (r : List UInt8) : Prop where
  focusType : typeWord r ∈ [1, 2, 3]
  state : stateWord r ∈ [0, 1]
  reason : Record.Canonical (field r 16 64)
  requester : Record.Canonical (field r 80 64)
  info : Record.Canonical (field r 144 256)

/-- What is read from the record of an event is the event with its texts cut, so that it is the
event itself just if nothing is lost of them. -/
theorem ofRecord_toRecord (e : Event) : ∃ reason requester info : String,
    Utf8.Longest 63 e.reason reason ∧ Utf8.Longest 63 e.requester requester ∧
      Utf8.Longest 255 e.info info ∧
    ofRecord e.toRecord = .ok { e with
      reason := beforeZero reason, requester := beforeZero requester, info := beforeZero info } ∧
    (ofRecord e.toRecord = .ok e ↔
      Whole 63 e.reason ∧ Whole 63 e.requester ∧ Whole 255 e.info) ∧
    (field e.toRecord 16 64).getLast? = some 0 ∧ (field e.toRecord 80 64).getLast? = some 0 ∧
      (field e.toRecord 144 256).getLast? = some 0 := by
  obtain ⟨pid, handle, type, state, reason, requester, info⟩ :=
    (toRecord_eq_iff e.length_toRecord).mp rfl
  have read : ofRecord e.toRecord = .ok { e with
      reason := beforeZero (String.ofList (Utf8.fit 63 e.reason.toList))
      requester := beforeZero (String.ofList (Utf8.fit 63 e.requester.toList))
      info := beforeZero (String.ofList (Utf8.fit 255 e.info.toList)) } := by
    rw [ofRecord_eq_ok, typeWord, stateWord, pid, handle, type, state, reason, requester, info]
    simp only [decodeNumber_encodeNumber, decodeText_encodeText, and_self]
  refine ⟨_, _, _, Utf8.longest_fit 63 _, Utf8.longest_fit 63 _, Utf8.longest_fit 255 _, read,
    ?_, ?_, ?_, ?_⟩
  · rw [read, Except.ok.injEq]
    obtain ⟨_, _, _, _, reason, requester, info⟩ := e
    simp only [Event.mk.injEq, true_and, beforeZero_fit_eq_self]
  · rw [reason]
    exact getLast?_encodeText 63 _
  · rw [requester]
    exact getLast?_encodeText 63 _
  · rw [info]
    exact getLast?_encodeText 255 _

theorem exists_ofRecord_iff :
    (∃ e, ofRecord r = .ok e) ↔ typeWord r ∈ [1, 2, 3] ∧ stateWord r ∈ [0, 1] := by
  constructor
  · rintro ⟨e, read⟩
    have unrefused : ∀ err, ofRecord r ≠ .error err := by simp [read]
    simp only [ne_eq, ofRecord_eq_error, not_or] at unrefused
    have known : typeWord r ∈ [1, 2, 3] := by
      by_contra unknown
      exact (unrefused _).1 ⟨unknown, rfl⟩
    refine ⟨known, ?_⟩
    by_contra unknown
    exact (unrefused _).2 ⟨known, unknown, rfl⟩
  · rintro ⟨type, state⟩
    cases read : ofRecord r with
    | ok e => exact ⟨e, rfl⟩
    | error err =>
      rcases ofRecord_eq_error.mp read with ⟨unknown, -⟩ | ⟨-, unknown, -⟩
      · exact absurd type unknown
      · exact absurd state unknown

theorem toRecord_iff_of_ofRecord (whole : r.length = recordSize) (read : ofRecord r = .ok e) :
    e.toRecord = r ↔ Record.Canonical (field r 16 64) ∧ Record.Canonical (field r 80 64) ∧
      Record.Canonical (field r 144 256) := by
  obtain ⟨pid, handle, type, state, reason, requester, info⟩ := ofRecord_eq_ok.mp read
  have inside {start size : Nat} (inside : start + size ≤ 400) : start + size ≤ r.length :=
    whole ▸ inside
  rw [← encodeText_decodeText_iff (length_field (inside (by decide))),
    ← encodeText_decodeText_iff (length_field (inside (by decide))),
    ← encodeText_decodeText_iff (length_field (inside (by decide))),
    toRecord_eq_iff whole, ← reason, ← requester, ← info]
  constructor
  · rintro ⟨-, -, -, -, reason, requester, info⟩
    exact ⟨reason.symm, requester.symm, info.symm⟩
  · rintro ⟨reason, requester, info⟩
    exact ⟨(field_eq_encodeNumber (inside (by decide))).mpr pid,
      (field_eq_encodeNumber (inside (by decide))).mpr handle,
      (field_eq_encodeNumber (inside (by decide))).mpr type,
      (field_eq_encodeNumber (inside (by decide))).mpr state, reason.symm, requester.symm,
      info.symm⟩

/-- A record is refused just if its type or its state is unknown, and is the record of what is read
from it just if it is canonical. Texts are read as `ReadAs` says, whatever is in their fields. -/
theorem toRecord_ofRecord (r : Vector UInt8 recordSize) :
    (∀ err, ofRecord r.toList = .error err ↔
      (typeWord r.toList ∉ [1, 2, 3] ∧ err = .invalid (.focusType (typeWord r.toList))) ∨
        (typeWord r.toList ∈ [1, 2, 3] ∧ stateWord r.toList ∉ [0, 1] ∧
          err = .invalid (.focusState (stateWord r.toList)))) ∧
    ((∃ e, ofRecord r.toList = .ok e ∧ e.toRecord = r.toList) ↔ Canonical r.toList) ∧
    ∀ e, ofRecord r.toList = .ok e → ReadAs (field r.toList 16 64) e.reason ∧
      ReadAs (field r.toList 80 64) e.requester ∧ ReadAs (field r.toList 144 256) e.info := by
  have whole : r.toList.length = recordSize := r.length_toList
  refine ⟨fun err => ofRecord_eq_error, ⟨?_, ?_⟩, ?_⟩
  · rintro ⟨e, read, same⟩
    obtain ⟨type, state⟩ := exists_ofRecord_iff.mp ⟨e, read⟩
    obtain ⟨reason, requester, info⟩ := (toRecord_iff_of_ofRecord whole read).mp same
    exact ⟨type, state, reason, requester, info⟩
  · rintro ⟨type, state, reason, requester, info⟩
    obtain ⟨e, read⟩ := exists_ofRecord_iff.mpr ⟨type, state⟩
    exact ⟨e, read, (toRecord_iff_of_ofRecord whole read).mpr ⟨reason, requester, info⟩⟩
  · intro e read
    obtain ⟨-, -, -, -, reason, requester, info⟩ := ofRecord_eq_ok.mp read
    rw [← reason, ← requester, ← info]
    exact ⟨readAs_decodeText _, readAs_decodeText _, readAs_decodeText _⟩

end Event
end AudioFocus
