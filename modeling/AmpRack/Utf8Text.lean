import Mathlib.Data.List.Basic

/-!
# Texts as bytes

`bytes` is the UTF-8 encoding of a text, `ofBytes` its decoding, which fails on what is no UTF-8. A
byte below 128 stands for the character of that code and occurs in no other character.
-/

namespace Utf8Text

def bytes (text : List Char) : List UInt8 := text.flatMap String.utf8EncodeChar

def ofBytes (bs : List UInt8) : Option (List Char) := (bs.toByteArray.utf8Decode?).map Array.toList

theorem ofBytes_bytes (text : List Char) : ofBytes (bytes text) = some text := by
  have h : (bytes text).toByteArray = text.utf8Encode := rfl
  rw [ofBytes, h, List.utf8Decode?_utf8Encode, Option.map_some]

theorem bytes_append (s t : List Char) : bytes (s ++ t) = bytes s ++ bytes t := List.flatMap_append

theorem encode_ne_nil (c : Char) : String.utf8EncodeChar c ≠ [] := String.utf8EncodeChar_ne_nil

theorem not_mem_encode {c : Char} {b : UInt8} (hb : b.toNat < 128) (hc : c.toNat ≠ b.toNat) :
    b ∉ String.utf8EncodeChar c := by
  have hcont (n : ℕ) (hn : 128 ≤ n) (hn' : n < 256) : b ≠ UInt8.ofNat n := by
    rintro rfl
    rw [UInt8.toNat_ofNat', Nat.mod_eq_of_lt hn'] at hb
    omega
  have hv : c.val.toNat = c.toNat := rfl
  unfold String.utf8EncodeChar
  simp only [hv]
  split_ifs with h1 h2 h3
  · have hlt : c.toNat < 256 := by omega
    rw [List.mem_singleton]
    rintro rfl
    rw [UInt8.toNat_ofNat', Nat.mod_eq_of_lt hlt] at hc
    exact hc rfl
  all_goals
    simp only [List.mem_cons, List.not_mem_nil, or_false, not_or]
    refine ⟨hcont _ (by omega) (by omega), ?_⟩
  · exact hcont _ (by omega) (by omega)
  · exact ⟨hcont _ (by omega) (by omega), hcont _ (by omega) (by omega)⟩
  · exact ⟨hcont _ (by omega) (by omega), hcont _ (by omega) (by omega),
      hcont _ (by omega) (by omega)⟩

end Utf8Text
