import BitcodeReplay.Text.Utf8
import Mathlib.Data.Char
import Mathlib.Data.String.Basic

/-!
Reading what has been written. The bytes of a text are read as the characters of the text, none of
them replaced.
-/

namespace BitcodeReplay.Utf8

/-- The number of a character is not one of those that stand for half a character. -/
theorem toNat_lt_or (c : Char) : c.toNat < 0xD800 ∨ 0xDFFF < c.toNat ∧ c.toNat < 0x110000 :=
  c.valid

section Opening

variable {n : Nat}

theorem opening?_two (hlow : 0x80 ≤ n) (hhigh : n < 0x800) :
    opening? (n / 64 + 0xC0) = some ⟨1, 0x80, 0xBF, n / 64⟩ := by
  rw [opening?, if_pos (by omega), Nat.add_sub_cancel]

/-- The first byte of three says where the second one lies, and this one lies there. -/
theorem opening?_three (hlow : 0x800 ≤ n) (hhigh : n < 0x10000)
    (hvalid : n < 0xD800 ∨ 0xDFFF < n) : ∃ low high,
      opening? (n / 4096 + 0xE0) = some ⟨2, low, high, n / 4096⟩ ∧
        low ≤ n / 64 % 64 + 0x80 ∧ n / 64 % 64 + 0x80 ≤ high := by
  rw [opening?, if_neg (by omega)]
  by_cases hfirst : n / 4096 = 0
  · exact ⟨0xA0, 0xBF, by rw [hfirst]; rfl, by omega, by omega⟩
  by_cases hlast : n / 4096 = 0xD
  · exact ⟨0x80, 0x9F, by rw [hlast]; rfl, by omega, by omega⟩
  refine ⟨0x80, 0xBF, ?_, by omega, by omega⟩
  rw [if_neg (by omega), if_neg (by omega), if_pos (by omega), Nat.add_sub_cancel]

theorem opening?_four (hlow : 0x10000 ≤ n) (hhigh : n < 0x110000) : ∃ low high,
    opening? (n / 262144 + 0xF0) = some ⟨3, low, high, n / 262144⟩ ∧
      low ≤ n / 4096 % 64 + 0x80 ∧ n / 4096 % 64 + 0x80 ≤ high := by
  have hbits : n / 262144 ≤ 4 := by omega
  by_cases hfirst : n / 262144 = 0
  · exact ⟨0x90, 0xBF, by rw [hfirst]; rfl, by omega, by omega⟩
  by_cases hlast : n / 262144 = 4
  · exact ⟨0x80, 0x8F, by rw [hlast]; rfl, by omega, by omega⟩
  refine ⟨0x80, 0xBF, ?_, by omega, by omega⟩
  rw [opening?, if_neg (by omega), if_neg (by omega), if_neg (by omega), if_neg (by omega),
    if_neg (by omega), if_pos (by omega), Nat.add_sub_cancel]

end Opening

/-- A byte that opens a character is none by itself. -/
theorem decodeFrom_opening {b : Nat} {p : Partial} (hb : 0x80 ≤ b) (h : opening? b = some p)
    (rest : List Nat) : decodeFrom none (b :: rest) = decodeFrom (some p) rest := by
  rw [decodeFrom, start, if_neg (Nat.not_lt.2 hb), h, List.nil_append]

theorem decodeFrom_inner {missing low high bits b : Nat} (hb : low ≤ b ∧ b ≤ high)
    (rest : List Nat) : decodeFrom (some ⟨missing + 2, low, high, bits⟩) (b :: rest) =
      decodeFrom (some ⟨missing + 1, 0x80, 0xBF, bits * 64 + (b - 0x80)⟩) rest := by
  rw [decodeFrom, if_pos hb, if_neg (by simp)]
  rfl

theorem decodeFrom_last {low high bits b : Nat} (hb : low ≤ b ∧ b ≤ high) (rest : List Nat) :
    decodeFrom (some ⟨1, low, high, bits⟩) (b :: rest) =
      some (Char.ofNat (bits * 64 + (b - 0x80))) :: decodeFrom none rest := by
  rw [decodeFrom, if_pos hb, if_pos rfl]

theorem toNat_ofNat {n : Nat} (h : n < 256) : (UInt8.ofNat n).toNat = n := by
  rw [UInt8.toNat_ofNat', Nat.mod_eq_of_lt h]

/-- The bytes of a character are read as that character. -/
theorem decodeFrom_encodeChar (c : Char) (rest : List Nat) :
    decodeFrom none ((String.utf8EncodeChar c).map UInt8.toNat ++ rest) =
      some c :: decodeFrom none rest := by
  have hvalid := toNat_lt_or c
  have hchar : ∀ n, n = c.toNat → some (Char.ofNat n) = some c := by
    rintro n rfl
    rw [Char.ofNat_toNat]
  simp only [String.utf8EncodeChar, show c.val.toNat = c.toNat from rfl]
  generalize hn : c.toNat = n at hvalid hchar
  by_cases hone : n ≤ 127
  · rw [if_pos hone, List.map_singleton, toNat_ofNat (by omega), List.singleton_append, decodeFrom,
      start, if_pos (by omega), hchar n rfl, List.singleton_append]
  rw [if_neg hone]
  by_cases htwo : n ≤ 2047
  · rw [if_pos htwo]
    simp only [List.map_cons, List.map_nil, List.cons_append, List.nil_append]
    rw [toNat_ofNat (by omega), toNat_ofNat (by omega), show n / 64 % 32 = n / 64 by omega,
      decodeFrom_opening (by omega) (opening?_two (by omega) (by omega)),
      decodeFrom_last (by omega), hchar _ (by omega)]
  rw [if_neg htwo]
  by_cases hthree : n ≤ 65535
  · obtain ⟨low, high, hopening, hlow, hhigh⟩ :=
      opening?_three (n := n) (by omega) (by omega) (by omega)
    rw [if_pos hthree]
    simp only [List.map_cons, List.map_nil, List.cons_append, List.nil_append]
    rw [toNat_ofNat (by omega), toNat_ofNat (by omega), toNat_ofNat (by omega),
      show n / 4096 % 16 = n / 4096 by omega, decodeFrom_opening (by omega) hopening,
      decodeFrom_inner ⟨hlow, hhigh⟩, decodeFrom_last (by omega), hchar _ (by omega)]
  · obtain ⟨low, high, hopening, hlow, hhigh⟩ := opening?_four (n := n) (by omega) (by omega)
    rw [if_neg hthree]
    simp only [List.map_cons, List.map_nil, List.cons_append, List.nil_append]
    rw [toNat_ofNat (by omega), toNat_ofNat (by omega), toNat_ofNat (by omega),
      toNat_ofNat (by omega), show n / 262144 % 8 = n / 262144 by omega,
      decodeFrom_opening (by omega) hopening, decodeFrom_inner ⟨hlow, hhigh⟩,
      decodeFrom_inner (by omega), decodeFrom_last (by omega),
      hchar _ (by omega)]

theorem toList_loop (bytes : ByteArray) (i : Nat) (read : List UInt8) :
    ByteArray.toList.loop bytes i read = read.reverse ++ bytes.data.toList.drop i := by
  induction hleft : bytes.size - i generalizing i read with
  | zero =>
    have hend : bytes.size ≤ i := by omega
    rw [ByteArray.toList.loop, if_neg (Nat.not_lt.2 hend), List.drop_eq_nil_of_le hend,
      List.append_nil]
  | succ left ih =>
    have hi : i < bytes.size := by omega
    have hbyte : bytes.get! i = bytes.data.toList[i] := getElem!_pos bytes.data i hi
    rw [ByteArray.toList.loop, if_pos hi, ih _ _ (by omega), hbyte, List.reverse_cons,
      List.append_assoc, List.singleton_append, List.getElem_cons_drop]

theorem toList_toUTF8 (s : String) :
    s.toUTF8.toList = s.toList.flatMap String.utf8EncodeChar := by
  rw [ByteArray.toList, toList_loop, List.reverse_nil, List.nil_append, List.drop_zero,
    String.toUTF8, ← String.utf8Encode_toList, List.utf8Encode, List.data_toByteArray]

/-- The bytes of a text are read as its characters. -/
theorem decode_toUTF8 (s : String) : decode s.toUTF8 = s.toList.map some := by
  rw [decode, toList_toUTF8]
  induction s.toList with
  | nil => rfl
  | cons c rest ih =>
    rw [List.flatMap_cons, List.map_append, decodeFrom_encodeChar, ih, List.map_cons]

/-- A text is read back from its bytes. -/
theorem decode?_toUTF8 (s : String) : decode? s.toUTF8 = some s := by
  rw [decode?, String.fromUTF8?, dif_pos]
  rfl

end BitcodeReplay.Utf8
