import AudioFocus.Text.Utf8

/-!
What fits of a text, and what octets are read as. `Longest` says which beginning of a text is kept
where there is not room for all of it, and `Reads` how octets are taken apart that need not be
UTF-8: into characters, and ill-formed parts that are as long as they can be. `longest_fit` and
`reads_iff` say that `fit` and `decode` do just this.
-/
namespace AudioFocus.Utf8

section Fit

/-- `p` is the longest beginning of `s` that takes at most `room` octets. -/
structure Longest (room : Nat) (s p : String) : Prop where
  front : p.toList <+: s.toList
  fits : p.utf8ByteSize ≤ room
  longest : ∀ q : String, q.toList <+: s.toList → q.utf8ByteSize ≤ room → q.toList <+: p.toList

variable {room : Nat} {cs : List Char}

theorem length_encode (cs : List Char) : (encode cs).length = (String.ofList cs).utf8ByteSize := by
  change (cs.flatMap String.utf8EncodeChar).length = (List.utf8Encode cs).size
  rw [List.utf8Encode, List.size_toByteArray]

theorem isValidUTF8_iff {bs : List UInt8} :
    bs.toByteArray.IsValidUTF8 ↔ ∃ cs, bs = encode cs := by
  constructor
  · rintro ⟨cs, same⟩
    have octets : bs.toByteArray = (encode cs).toByteArray := same
    exact ⟨cs, by simpa using congrArg (fun b => b.data.toList) octets⟩
  · rintro ⟨cs, rfl⟩
    exact ⟨cs, rfl⟩

theorem fit_front (room : Nat) (cs : List Char) : fit room cs <+: cs := by
  induction cs generalizing room with
  | nil => exact List.prefix_rfl
  | cons c cs ih =>
    unfold fit
    split
    · exact (List.prefix_cons_inj c).mpr (ih _)
    · exact List.nil_prefix

theorem prefix_fit {p : List Char} (front : p <+: cs) (fits : (encode p).length ≤ room) :
    p <+: fit room cs := by
  induction cs generalizing room p with
  | nil => exact front
  | cons c cs ih =>
    cases p with
    | nil => exact List.nil_prefix
    | cons d p =>
      obtain ⟨rfl, rest⟩ := List.cons_prefix_cons.mp front
      rw [encode_cons, List.length_append, String.length_utf8EncodeChar] at fits
      rw [fit, if_pos (by omega)]
      exact (List.prefix_cons_inj d).mpr (ih rest (by omega))

theorem fit_eq_self : fit room cs = cs ↔ (encode cs).length ≤ room := by
  constructor
  · intro same
    exact same ▸ length_encode_fit cs room
  · intro fits
    exact (fit_front room cs).eq_of_length_le (prefix_fit List.prefix_rfl fits).length_le

theorem longest_fit (room : Nat) (s : String) :
    Longest room s (String.ofList (fit room s.toList)) where
  front := by
    rw [String.toList_ofList]
    exact fit_front room s.toList
  fits := by
    rw [← length_encode]
    exact length_encode_fit s.toList room
  longest q front fits := by
    rw [String.toList_ofList]
    rw [← q.ofList_toList, ← length_encode] at fits
    exact prefix_fit front fits

end Fit

section Zeros

theorem zero_mem_encodeChar {c : Char} : 0 ∈ String.utf8EncodeChar c ↔ c = '\x00' := by
  constructor
  · intro zero
    have code : c.val.toNat = 0 := by
      unfold String.utf8EncodeChar at zero
      dsimp only at zero
      generalize c.val.toNat = v at *
      split at zero
      · simp [← UInt8.toNat_inj] at zero
        omega
      split at zero
      · simp [← UInt8.toNat_inj] at zero
        omega
      split at zero
      · simp [← UInt8.toNat_inj] at zero
        omega
      · simp [← UInt8.toNat_inj] at zero
        omega
    exact Char.ext (UInt32.toNat_inj.mp code)
  · rintro rfl
    decide

theorem zero_mem_encode {cs : List Char} : 0 ∈ encode cs ↔ '\x00' ∈ cs := by
  simp [encode, zero_mem_encodeChar]

theorem takeWhile_encode (cs : List Char) (rest : List UInt8) :
    (encode cs ++ 0 :: rest).takeWhile (· ≠ 0) = encode (cs.takeWhile (· ≠ '\x00')) := by
  induction cs with
  | nil => rfl
  | cons c cs ih =>
    by_cases zero : c = '\x00'
    · subst zero
      rfl
    · have none_ : ∀ b ∈ String.utf8EncodeChar c, decide (b ≠ 0) = true := by
        intro b member
        exact decide_eq_true fun same => zero (zero_mem_encodeChar.mp (same ▸ member))
      rw [encode_cons, List.append_assoc, List.takeWhile_append_of_pos none_, ih,
        List.takeWhile_cons, if_pos (decide_eq_true zero), encode_cons]

end Zeros

section Begins

/-- Octets with which some character begins. -/
def Begins (part : List UInt8) : Prop := ∃ c, part <+: String.utf8EncodeChar c

variable {a b c : UInt8} {bs part rest : List UInt8}

theorem first?_eq_some {c : Char} : first? bs = some c ↔ String.utf8EncodeChar c <+: bs := by
  constructor
  · intro found
    obtain ⟨l, split⟩ := ByteArray.exists_of_utf8DecodeChar?_eq_some found
    have octets : bs.take 4 = String.utf8EncodeChar c ++ l.data.toList := by
      simpa using congrArg (fun b => b.data.toList) split
    exact (List.prefix_append _ _).trans (octets ▸ List.take_prefix 4 bs)
  · rintro ⟨rest, rfl⟩
    exact first?_encodeChar c rest

theorem isTail_iff : isTail a = true ↔ 0x80 ≤ a.toNat ∧ a.toNat ≤ 0xBF := by
  simp [isTail, UInt8.le_iff_toNat_le]

theorem startsPair_iff : startsPair a b = true ↔
    0xC2 ≤ a.toNat ∧ a.toNat ≤ 0xF4 ∧ 0x80 ≤ b.toNat ∧ b.toNat ≤ 0xBF ∧
      (a.toNat = 0xE0 → 0xA0 ≤ b.toNat) ∧ (a.toNat = 0xED → b.toNat ≤ 0x9F) ∧
      (a.toNat = 0xF0 → 0x90 ≤ b.toNat) ∧ (a.toNat = 0xF4 → b.toNat ≤ 0x8F) := by
  simp only [startsPair, isTail, ← UInt8.toNat_inj, UInt8.le_iff_toNat_le]
  split <;> (try split) <;> (try split) <;> (try split) <;> simp_all <;> omega

theorem startsPair_of_begins (begins : Begins (a :: b :: rest)) : startsPair a b = true := by
  obtain ⟨c, begins⟩ := begins
  have valid := c.valid
  rw [startsPair_iff]
  unfold String.utf8EncodeChar at begins
  simp only [UInt32.isValidChar, Nat.isValidChar] at valid
  generalize c.val.toNat = v at *
  dsimp only at begins
  split at begins
  · simp at begins
  split at begins
  · simp [← UInt8.toNat_inj] at begins
    omega
  split at begins
  · simp [← UInt8.toNat_inj] at begins
    omega
  · simp [← UInt8.toNat_inj] at begins
    omega

theorem triple_of_begins {ch : Char} (begins : a :: b :: c :: rest <+: String.utf8EncodeChar ch)
    (more : 3 < (String.utf8EncodeChar ch).length) : 0xF0 ≤ a ∧ isTail c = true := by
  rw [isTail_iff, UInt8.le_iff_toNat_le]
  unfold String.utf8EncodeChar at begins more
  dsimp only at begins more
  generalize ch.val.toNat = v at *
  split at begins
  · simp at begins
  split at begins
  · simp at begins
  split at begins
  · simp_all
  · simp [← UInt8.toNat_inj] at begins ⊢
    omega

theorem exists_char {v : Nat} (valid : v.isValidChar) : ∃ c : Char, c.val.toNat = v :=
  ⟨Char.ofNatAux v valid, rfl⟩

theorem begins_triple (pair : startsPair a b = true) (lead : 0xF0 ≤ a) (tail : isTail c = true) :
    Begins [a, b, c] := by
  rw [startsPair_iff] at pair
  rw [isTail_iff] at tail
  simp only [UInt8.le_iff_toNat_le, UInt8.reduceToNat] at lead
  obtain ⟨ch, code⟩ := exists_char (v := (a.toNat - 0xF0) * 262144 + (b.toNat - 0x80) * 4096
    + (c.toNat - 0x80) * 64) (by unfold Nat.isValidChar; omega)
  refine ⟨ch, ?_⟩
  unfold String.utf8EncodeChar
  dsimp only
  rw [code, if_neg (by omega), if_neg (by omega), if_neg (by omega)]
  simp [← UInt8.toNat_inj]
  omega

theorem begins_pair (pair : startsPair a b = true) : Begins [a, b] := by
  by_cases lead : 0xF0 ≤ a
  · obtain ⟨c, begins⟩ := begins_triple (c := 0x80) pair lead (by decide)
    exact ⟨c, .trans ⟨[0x80], rfl⟩ begins⟩
  rw [startsPair_iff] at pair
  simp only [UInt8.le_iff_toNat_le, UInt8.reduceToNat] at lead
  by_cases two : a.toNat ≤ 0xDF
  · obtain ⟨c, code⟩ := exists_char (v := (a.toNat - 0xC0) * 64 + (b.toNat - 0x80))
      (by unfold Nat.isValidChar; omega)
    refine ⟨c, ?_⟩
    unfold String.utf8EncodeChar
    dsimp only
    rw [code, if_neg (by omega), if_pos (by omega)]
    simp [← UInt8.toNat_inj]
    omega
  · obtain ⟨c, code⟩ := exists_char (v := (a.toNat - 0xE0) * 4096 + (b.toNat - 0x80) * 64)
      (by unfold Nat.isValidChar; omega)
    refine ⟨c, ?_⟩
    unfold String.utf8EncodeChar
    dsimp only
    rw [code, if_neg (by omega), if_neg (by omega), if_pos (by omega)]
    simp [← UInt8.toNat_inj]
    omega

end Begins

section IllFormed

/-- Octets that start with no character, split after the longest part with which one begins, or
after one octet, if none begins with that. -/
structure IllFormed (part rest : List UInt8) : Prop where
  unread : ∀ c, ¬ String.utf8EncodeChar c <+: part ++ rest
  some_ : part ≠ []
  begins : part.length = 1 ∨ Begins part
  longest : ∀ longer, longer <+: part ++ rest → Begins longer → longer.length ≤ part.length

variable {bs part rest : List UInt8}

theorem illFormedLength_pos (bs : List UInt8) : 1 ≤ illFormedLength bs := by
  fun_cases illFormedLength bs <;> decide

theorem illFormedLength_le (some_ : bs ≠ []) : illFormedLength bs ≤ bs.length := by
  fun_cases illFormedLength bs with
  | case6 =>
    have := List.length_pos_iff.mpr some_
    omega
  | _ => simp

theorem begins_illFormedLength (bs : List UInt8) :
    illFormedLength bs = 1 ∨ Begins (bs.take (illFormedLength bs)) := by
  fun_cases illFormedLength bs with
  | case1 a b c rest pair more =>
    simp only [Bool.and_eq_true, decide_eq_true_eq] at more
    exact .inr (begins_triple pair more.1 more.2)
  | case2 a b c rest pair => exact .inr (begins_pair pair)
  | case4 a b rest _ pair => exact .inr (begins_pair pair)
  | case3 | case5 | case6 => exact .inl rfl

/-- A part with which a character begins that is not there as a whole is no longer than that. -/
theorem length_le_illFormedLength (unread : ∀ c, ¬ String.utf8EncodeChar c <+: bs)
    (front : part <+: bs) (begins : Begins part) : part.length ≤ illFormedLength bs := by
  obtain ⟨rest, rfl⟩ := front
  obtain ⟨ch, begins⟩ := begins
  have proper : part.length < (String.utf8EncodeChar ch).length := by
    refine Nat.lt_of_le_of_ne begins.length_le fun whole => unread ch ?_
    rw [← begins.eq_of_length whole]
    exact List.prefix_append part rest
  have short : (String.utf8EncodeChar ch).length ≤ 4 := by
    rw [String.length_utf8EncodeChar]
    exact ch.utf8Size_le_four
  match part with
  | [] => exact Nat.zero_le _
  | [a] => exact illFormedLength_pos _
  | [a, b] =>
    have pair := startsPair_of_begins ⟨ch, begins⟩
    cases rest with
    | nil => simp [illFormedLength, pair]
    | cons c rest =>
      simp only [List.cons_append, List.nil_append, illFormedLength, pair, if_true]
      split <;> simp
  | a :: b :: c :: more =>
    have pair := startsPair_of_begins ⟨ch, begins⟩
    simp only [List.length_cons] at proper ⊢
    have triple := triple_of_begins begins (by omega)
    have three : illFormedLength (a :: b :: c :: more ++ rest) = 3 := by
      simp [illFormedLength, pair, triple]
    omega

theorem illFormed_split (unread : ∀ c, ¬ String.utf8EncodeChar c <+: bs) (some_ : bs ≠ []) :
    IllFormed (bs.take (illFormedLength bs)) (bs.drop (illFormedLength bs)) := by
  have length : (bs.take (illFormedLength bs)).length = illFormedLength bs :=
    List.length_take_of_le (illFormedLength_le some_)
  constructor
  · rwa [List.take_append_drop]
  · rw [← List.length_pos_iff, length]
    exact illFormedLength_pos bs
  · rw [length]
    exact begins_illFormedLength bs
  · rw [List.take_append_drop, length]
    exact fun longer front begins => length_le_illFormedLength unread front begins

theorem IllFormed.length_eq (split : IllFormed part rest) :
    part.length = illFormedLength (part ++ rest) := by
  have size := List.length_pos_iff.mpr split.some_
  have pos := illFormedLength_pos (part ++ rest)
  have le : illFormedLength (part ++ rest) ≤ (part ++ rest).length :=
    illFormedLength_le (by simp [split.some_])
  have below : illFormedLength (part ++ rest) ≤ part.length := by
    rcases begins_illFormedLength (part ++ rest) with one | begins
    · omega
    · simpa [List.length_take_of_le le] using split.longest _ (List.take_prefix _ _) begins
  rcases split.begins with one | begins
  · omega
  · have above := length_le_illFormedLength split.unread (List.prefix_append part rest) begins
    omega

end IllFormed

section Reads

/-- What octets are read as: a character that is there as itself, and an ill-formed part as one
replacement. -/
inductive Reads : List UInt8 → List Char → Prop
  | nil : Reads [] []
  | char (c : Char) {bs : List UInt8} {cs : List Char} (rest : Reads bs cs) :
    Reads (String.utf8EncodeChar c ++ bs) (c :: cs)
  | illFormed {part bs : List UInt8} {cs : List Char} (split : IllFormed part bs)
      (rest : Reads bs cs) :
    Reads (part ++ bs) ('\uFFFD' :: cs)

theorem drop_pred {n : Nat} (pos : 1 ≤ n) (b : UInt8) (bs : List UInt8) :
    bs.drop (n - 1) = (b :: bs).drop n := by
  obtain ⟨m, rfl⟩ := Nat.exists_eq_add_of_le' pos
  rfl

theorem decode_illFormed {part bs : List UInt8} (split : IllFormed part bs) :
    decode (part ++ bs) = '\uFFFD' :: decode bs := by
  have unread : first? (part ++ bs) = none := by
    rw [Option.eq_none_iff_forall_ne_some]
    exact fun c found => split.unread c (first?_eq_some.mp found)
  match part, split.some_, split.length_eq, unread with
  | b :: part, _, length, unread =>
    rw [List.cons_append] at unread length ⊢
    rw [decode, unread]
    dsimp only
    rw [← length, List.length_cons, Nat.add_sub_cancel, List.drop_left]
    rfl

theorem reads_decode (bs : List UInt8) : Reads bs (decode bs) := by
  fun_induction decode bs with
  | case1 => exact .nil
  | case2 b bs c found ih =>
    obtain ⟨rest, split⟩ := first?_eq_some.mp found
    have after : bs.drop (c.utf8Size - 1) = rest := by
      rw [drop_pred c.utf8Size_pos b, ← split, ← String.length_utf8EncodeChar, List.drop_left]
    rw [after] at ih ⊢
    exact split ▸ ih.char c
  | case3 b bs missing ih =>
    have unread : ∀ c, ¬ String.utf8EncodeChar c <+: b :: bs := fun c begins =>
      Option.ne_none_iff_exists'.mpr ⟨c, first?_eq_some.mpr begins⟩ missing
    rw [drop_pred (illFormedLength_pos _) b] at ih ⊢
    have reads := ih.illFormed (illFormed_split unread (by simp))
    rwa [List.take_append_drop] at reads

/-- Octets are read in one way, which is what `decode` gives. -/
theorem reads_iff {bs : List UInt8} {cs : List Char} : Reads bs cs ↔ decode bs = cs := by
  constructor
  · intro reads
    induction reads with
    | nil => simp [decode]
    | char c rest ih =>
      have one := decode_encode_append [c]
      rw [encode_cons, encode_nil, List.append_nil] at one
      rw [one, ih, List.singleton_append]
    | illFormed split rest ih => rw [decode_illFormed split, ih]
  · rintro rfl
    exact reads_decode bs

/-- A zero is read only where there is one. -/
theorem Reads.zero_mem {bs : List UInt8} {cs : List Char} (reads : Reads bs cs)
    (zero : '\x00' ∈ cs) : 0 ∈ bs := by
  induction reads with
  | nil => contradiction
  | char c rest ih =>
    rcases List.mem_cons.mp zero with same | later
    · exact List.mem_append_left _ (zero_mem_encodeChar.mpr same.symm)
    · exact List.mem_append_right _ (ih later)
  | illFormed split rest ih =>
    rcases List.mem_cons.mp zero with same | later
    · contradiction
    · exact List.mem_append_right _ (ih later)

end Reads
end AudioFocus.Utf8
