import Mathlib.Data.List.Basic

/-! Byte strings and UTF-8 text. -/

abbrev Bytes := List UInt8

namespace Utf8

def encode (text : List Char) : Bytes := text.flatMap String.utf8EncodeChar

def decode (bytes : Bytes) : Option (List Char) :=
  bytes.toByteArray.utf8Decode?.map Array.toList

theorem decode_encode (text : List Char) : decode (encode text) = some text := by
  have same : (encode text).toByteArray = text.utf8Encode := rfl
  simp [decode, same]

theorem encode_injective : Function.Injective encode := by
  intro first second same
  have read := decode_encode first
  rw [same, decode_encode] at read
  exact (Option.some.inj read).symm

@[simp] theorem encode_nil : encode [] = [] := rfl

theorem encode_append (first second : List Char) :
    encode (first ++ second) = encode first ++ encode second := by
  simp [encode]

theorem newline_notMem_utf8EncodeChar {c : Char} (other : c ≠ '\n') :
    (10 : UInt8) ∉ String.utf8EncodeChar c := by
  have code : c.val.toNat ≠ 10 := by
    intro same
    apply other
    apply Char.ext
    apply UInt32.toNat_inj.mp
    simpa using same
  intro found
  rw [String.utf8EncodeChar] at found
  split at found
  next small =>
    have equal := congrArg UInt8.toNat (List.mem_singleton.mp found)
    simp only [UInt8.toNat_ofNat', UInt8.reduceToNat] at equal
    omega
  next =>
    have high (byte : Nat) (lower : 128 ≤ byte) (upper : byte < 256) :
        (10 : UInt8) ≠ UInt8.ofNat byte := by
      intro equal
      have := congrArg UInt8.toNat equal
      simp at this
      omega
    split at found
    · simp only [List.mem_cons, List.not_mem_nil, or_false] at found
      rcases found with equal | equal <;> exact high _ (by omega) (by omega) equal
    · split at found
      · simp only [List.mem_cons, List.not_mem_nil, or_false] at found
        rcases found with equal | equal | equal <;> exact high _ (by omega) (by omega) equal
      · simp only [List.mem_cons, List.not_mem_nil, or_false] at found
        rcases found with equal | equal | equal | equal <;>
          exact high _ (by omega) (by omega) equal

/-- Text without line feeds encodes to bytes without line feeds. -/
theorem newline_notMem_encode {text : List Char} (clean : '\n' ∉ text) :
    (10 : UInt8) ∉ encode text := by
  simp only [encode, List.mem_flatMap, not_exists, not_and]
  intro c member
  exact newline_notMem_utf8EncodeChar (by rintro rfl; exact clean member)

end Utf8
