import FeatureRl.Lib.Utf8

/-! The ASCII part of UTF-8: one byte for each character, and no such byte elsewhere. -/

namespace Utf8

def Ascii (text : List Char) : Prop := ∀ c ∈ text, c.toNat < 128

theorem utf8EncodeChar_ascii {c : Char} (ascii : c.toNat < 128) :
    String.utf8EncodeChar c = [UInt8.ofNat c.toNat] := by
  have small : c.val.toNat ≤ 127 := Nat.le_of_lt_succ ascii
  rw [String.utf8EncodeChar, if_pos small]
  rfl

theorem utf8EncodeChar_other {c : Char} (other : 128 ≤ c.toNat) :
    ∃ byte rest, String.utf8EncodeChar c = byte :: rest ∧ 128 ≤ byte.toNat := by
  have large : ¬ c.val.toNat ≤ 127 := Nat.not_le.mpr other
  rw [String.utf8EncodeChar]
  simp only [if_neg large]
  split
  · exact ⟨_, _, rfl, by rw [UInt8.toNat_ofNat']; omega⟩
  · split
    · exact ⟨_, _, rfl, by rw [UInt8.toNat_ofNat']; omega⟩
    · exact ⟨_, _, rfl, by rw [UInt8.toNat_ofNat']; omega⟩

theorem toNat_ofNat_ascii {c : Char} (ascii : c.toNat < 128) : (UInt8.ofNat c.toNat).toNat = c.toNat := by
  rw [UInt8.toNat_ofNat']
  omega

/-- Only an ASCII character begins with an ASCII byte. -/
theorem eq_of_cons {c d : Char} (ascii : c.toNat < 128) {rest others : Bytes}
    (same : String.utf8EncodeChar d ++ others = UInt8.ofNat c.toNat :: rest) : d = c ∧ others = rest := by
  rcases Nat.lt_or_ge d.toNat 128 with small | large
  · rw [utf8EncodeChar_ascii small, List.singleton_append, List.cons.injEq] at same
    refine ⟨Char.toNat_inj.mp ?_, same.2⟩
    rw [← toNat_ofNat_ascii small, same.1, toNat_ofNat_ascii ascii]
  · obtain ⟨byte, more, shape, high⟩ := utf8EncodeChar_other large
    rw [shape, List.cons_append, List.cons.injEq] at same
    rw [same.1, toNat_ofNat_ascii ascii] at high
    omega

theorem encode_of_decode {bytes : Bytes} {text : List Char} (read : decode bytes = some text) :
    encode text = bytes := by
  obtain ⟨chars, found, rfl⟩ := Option.map_eq_some_iff.mp read
  have valid : (bytes.toByteArray.utf8Decode?).isSome = true := by rw [found, Option.isSome_some]
  obtain ⟨same, encoded⟩ := ByteArray.isSome_utf8Decode?_iff.mp valid
  have bytesAre : bytes = encode same := by
    have data := congrArg ByteArray.data encoded
    simpa [encode, List.utf8Encode] using congrArg Array.toList data
  rw [bytesAre, decode_encode] at read
  rw [← Option.some.inj read, ← bytesAre]

/-- Decoding what an ASCII text precedes. -/
theorem decode_append {head : List Char} (ascii : Ascii head) (rest : Bytes) :
    decode (encode head ++ rest) = (decode rest).map (head ++ ·) := by
  have split : ∀ text : List Char, encode text = encode head ++ rest →
      ∃ tail, text = head ++ tail ∧ encode tail = rest := by
    induction head with
    | nil => exact fun text same => ⟨text, rfl, same⟩
    | cons c head ih =>
        intro text same
        have first := ascii c List.mem_cons_self
        cases text with
        | nil => simp [encode, utf8EncodeChar_ascii first] at same
        | cons d text =>
            have shape : String.utf8EncodeChar d ++ encode text =
                UInt8.ofNat c.toNat :: (encode head ++ rest) := by
              simpa [encode, utf8EncodeChar_ascii first] using same
            obtain ⟨rfl, after⟩ := eq_of_cons first shape
            obtain ⟨tail, rfl, ends⟩ := ih (fun other member => ascii other (List.mem_cons_of_mem _ member)) text after
            exact ⟨tail, rfl, ends⟩
  cases read : decode rest with
  | some tail => rw [← encode_of_decode read, ← encode_append, decode_encode, Option.map_some]
  | none =>
      rw [Option.map_none, Option.eq_none_iff_forall_ne_some]
      intro text found
      obtain ⟨tail, _, ends⟩ := split text (encode_of_decode found)
      rw [← ends, decode_encode] at read
      cases read

end Utf8
