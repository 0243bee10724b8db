import Mathlib.Tactic.SplitIfs
import Runbook.Host.World

set_option autoImplicit false

/-! # Texts and their bytes

The bytes of a text are read as this text again, piece by piece: what a character is written as is one
piece, whatever follows. So a process that writes a text on its error output is read as having written
it. -/

namespace Runbook

namespace Text

/-! ## One character -/

namespace Utf8Piece

theorem toNat_continuation {m : Nat} (h : m < 64) : (UInt8.ofNat (m + 128)).toNat = m + 128 :=
  UInt8.toNat_ofNat_of_lt' (by simp only [UInt8.size]; omega)

theorem continues_continuation {m : Nat} (h : m < 64) : continues (UInt8.ofNat (m + 128)) = true := by
  rw [continues, toNat_continuation h, Bool.and_eq_true, decide_eq_true_eq, decide_eq_true_eq]
  omega

theorem push_continuation {m : Nat} (h : m < 64) (high : Nat) :
    push high (UInt8.ofNat (m + 128)) = high * 64 + m := by
  have hbyte := toNat_continuation h
  unfold push
  omega

theorem continueWith_of_continuation {m : Nat} (h : m < 64) (high need size : Nat) (rest : Bytes) :
    continueWith high (need + 1) size (UInt8.ofNat (m + 128) :: rest)
      = continueWith (high * 64 + m) need (size + 1) rest := by
  rw [continueWith, if_pos (continues_continuation h), push_continuation h]

/-- Whether a second byte with six bits is in the range that the first byte leaves for it. -/
def InRange (lead m : Nat) : Prop :=
  (secondRange lead).1 ≤ m + 128 ∧ m + 128 ≤ (secondRange lead).2

theorem inRange_of {lead m : Nat} (hm : m < 64) (h224 : lead = 224 → 32 ≤ m)
    (h237 : lead = 237 → m < 32) (h240 : lead = 240 → 16 ≤ m) (h244 : lead = 244 → m < 16) :
    InRange lead m := by
  unfold InRange secondRange
  split_ifs <;> dsimp only <;> omega

theorem read_of_lead {lead m : Nat} (base need : Nat) (hm : m < 64)
    (hlead : 194 ≤ lead ∧ lead ≤ 244)
    (hneed : need = if lead < 224 then 1 else if lead < 240 then 2 else 3)
    (hbase : base = if lead < 224 then 192 else if lead < 240 then 224 else 240)
    (hrange : InRange lead m)
    (rest : Bytes) :
    read (UInt8.ofNat lead) (UInt8.ofNat (m + 128) :: rest)
      = continueWith ((lead - base) * 64 + m) (need - 1) 2 rest := by
  have hbyte : (UInt8.ofNat lead).toNat = lead :=
    UInt8.toNat_ofNat_of_lt' (by simp only [UInt8.size]; omega)
  have hfirst : ¬ lead < 128 := by omega
  have hstart : ¬ (lead < 194 ∨ 244 < lead) := by omega
  have hsecond : ((secondRange lead).1 ≤ m + 128 && m + 128 ≤ (secondRange lead).2) = true := by
    rw [Bool.and_eq_true, decide_eq_true_eq, decide_eq_true_eq]
    exact hrange
  subst hneed hbase
  simp only [read, hbyte, if_neg hfirst, Bool.or_eq_true, decide_eq_true_eq, if_neg hstart,
    toNat_continuation hm, hsecond, if_true, push_continuation hm]
  split_ifs <;> rfl

/-- What a character is written as is read as this character, whatever follows. -/
theorem read_utf8EncodeChar (c : Char) (rest : Bytes) :
    ∃ b tail, String.utf8EncodeChar c = b :: tail ∧
      read b (tail ++ rest) = .char c (tail.length + 1) := by
  have hvalid : c.toNat < 0xD800 ∨ 0xDFFF < c.toNat ∧ c.toNat < 0x110000 := c.valid
  have hchar : Char.ofNat c.toNat = c := Char.ofNat_toNat c
  have hencode : String.utf8EncodeChar c =
      let v := c.toNat
      if v ≤ 0x7F then [UInt8.ofNat v]
      else if v ≤ 0x7FF then [UInt8.ofNat (v / 64 % 32 + 192), UInt8.ofNat (v % 64 + 128)]
      else if v ≤ 0xFFFF then [UInt8.ofNat (v / 4096 % 16 + 224), UInt8.ofNat (v / 64 % 64 + 128),
        UInt8.ofNat (v % 64 + 128)]
      else [UInt8.ofNat (v / 262144 % 8 + 240), UInt8.ofNat (v / 4096 % 64 + 128),
        UInt8.ofNat (v / 64 % 64 + 128), UInt8.ofNat (v % 64 + 128)] := rfl
  rw [hencode]
  generalize c.toNat = v at *
  subst hchar
  have hlow : ∀ n, n % 64 < 64 := fun n => Nat.mod_lt n (by decide)
  dsimp only
  split_ifs with h1 h2 h3
  · refine ⟨_, _, rfl, ?_⟩
    have hbyte : (UInt8.ofNat v).toNat = v :=
      UInt8.toNat_ofNat_of_lt' (by simp only [UInt8.size]; omega)
    simp only [read, hbyte, if_pos (Nat.lt_succ_of_le h1), List.length_nil]
  · refine ⟨_, _, rfl, ?_⟩
    have hvalue : (v / 64 % 32 + 192 - 192) * 64 + v % 64 = v := by omega
    have hrange : InRange (v / 64 % 32 + 192) (v % 64) :=
      inRange_of (hlow v) (by omega) (by omega) (by omega) (by omega)
    rw [List.singleton_append, read_of_lead 192 1 (hlow v) (by omega) (by split_ifs <;> omega)
      (by split_ifs <;> omega) hrange, hvalue]
    rfl
  · refine ⟨_, _, rfl, ?_⟩
    have hvalue : ((v / 4096 % 16 + 224 - 224) * 64 + v / 64 % 64) * 64 + v % 64 = v := by omega
    have hrange : InRange (v / 4096 % 16 + 224) (v / 64 % 64) :=
      inRange_of (hlow _) (by omega) (by omega) (by omega) (by omega)
    rw [List.cons_append, read_of_lead 224 2 (hlow _) (by omega) (by split_ifs <;> omega)
      (by split_ifs <;> omega) hrange, List.singleton_append,
      continueWith_of_continuation (hlow v), hvalue]
    rfl
  · refine ⟨_, _, rfl, ?_⟩
    have hvalue : (((v / 262144 % 8 + 240 - 240) * 64 + v / 4096 % 64) * 64 + v / 64 % 64) * 64
        + v % 64 = v := by omega
    have hrange : InRange (v / 262144 % 8 + 240) (v / 4096 % 64) :=
      inRange_of (hlow _) (by omega) (by omega) (by omega) (by omega)
    rw [List.cons_append, read_of_lead 240 3 (hlow _) (by omega) (by split_ifs <;> omega)
      (by split_ifs <;> omega) hrange, List.cons_append, List.singleton_append,
      continueWith_of_continuation (hlow _), continueWith_of_continuation (hlow v), hvalue]
    rfl

end Utf8Piece

/-! ## Texts -/

theorem decodeFrom_utf8EncodeChar (c : Char) (position : Nat) (rest : Bytes) :
    ∃ next, decodeFrom position (String.utf8EncodeChar c ++ rest)
      = (decodeFrom next rest).map (c :: ·) := by
  obtain ⟨b, tail, hbytes, hread⟩ := Utf8Piece.read_utf8EncodeChar c rest
  refine ⟨position + (tail.length + 1), ?_⟩
  rw [hbytes, List.cons_append, decodeFrom, hread]
  dsimp only
  rw [Nat.add_sub_cancel, List.drop_left]

theorem decodeFrom_encoded (cs : List Char) :
    ∀ position, decodeFrom position (cs.flatMap String.utf8EncodeChar) = .ok cs := by
  induction cs with
  | nil => exact fun _ => by rw [List.flatMap_nil, decodeFrom]
  | cons c cs ih =>
      intro position
      obtain ⟨next, hnext⟩ := decodeFrom_utf8EncodeChar c position (cs.flatMap String.utf8EncodeChar)
      rw [List.flatMap_cons, hnext, ih next]
      rfl

end Text

namespace Bytes

theorem toList_loop (bytes : ByteArray) (i : Nat) (read : List UInt8) :
    ByteArray.toList.loop bytes i read = read.reverse ++ bytes.data.toList.drop i := by
  fun_induction ByteArray.toList.loop bytes i read with
  | case1 i read h ih =>
    have hi : i < bytes.data.toList.length := by simpa using h
    rw [ih, List.drop_eq_getElem_cons hi]
    simp [ByteArray.get!, h]
  | case2 i read h =>
    rw [List.drop_eq_nil_of_le (by simpa using Nat.le_of_not_lt h), List.append_nil]

theorem ofText_eq (s : String) : ofText s = s.toList.flatMap String.utf8EncodeChar := by
  rw [ofText, String.toUTF8_eq_toByteArray, ← String.utf8Encode_toList, List.utf8Encode,
    ByteArray.toList, toList_loop, List.toList_data_toByteArray]
  rfl

end Bytes

/-- The bytes of a text are read as this text. -/
theorem Text.decode_ofText (s : String) : decode (.ofText s) = .ok s := by
  rw [decode, Bytes.ofText_eq, decodeFrom_encoded, Except.map, String.ofList_toList]

/-- What a process has written is refused only where it is no text. -/
theorem Streams.undecodable_of_errorText {s : Streams} {f : Failure} (h : s.errorText = .error f) :
    ∃ fault, f = .of (.undecodable fault) := by
  unfold errorText at h
  cases hread : (Text.decode s.output).bind fun _ => Text.decode s.errors with
  | error fault =>
    rw [hread] at h
    exact ⟨fault, (Except.error.inj h).symm⟩
  | ok text =>
    rw [hread] at h
    cases h

/-- What is read on the error output of a process that writes a text there, and nothing else. -/
@[simp] theorem Streams.errorText_coe (s : String) : (s : Streams).errorText = .ok s := by
  have houtput : Text.decode [] = .ok "" := by rw [Text.decode, Text.decodeFrom]; rfl
  rw [errorText, houtput]
  simp only [Except.bind, Text.decode_ofText]
  rfl

end Runbook
