/-!
# Bytes of texts

A text is read back from its bytes, which are those of its characters one after the other. Every byte of
a character that takes several is above those of single bytes, so that a line feed is never part of one.
-/

namespace ContestTests.Text

variable {c : Char} {b : UInt8} {s : List Char}

theorem fromUTF8?_toUTF8 (text : String) : String.fromUTF8? text.toUTF8 = some text := by
  rw [String.fromUTF8?]
  exact dif_pos text.isValidUTF8

def encode (s : List Char) : List UInt8 := s.flatMap String.utf8EncodeChar

theorem encode_append (s rest : List Char) : encode (s ++ rest) = encode s ++ encode rest := List.flatMap_append

theorem encode_cons (c : Char) (s : List Char) : encode (c :: s) = String.utf8EncodeChar c ++ encode s := rfl

-- ---------------------------------------------------------------------------
-- Bytes of a text
-- ---------------------------------------------------------------------------

theorem toList_loop (bytes : ByteArray) (i : Nat) (read : List UInt8) :
    ByteArray.toList.loop bytes i read = read.reverse ++ bytes.data.toList.drop i := by
  fun_induction ByteArray.toList.loop bytes i read with
  | case1 i read hi ih =>
    have hlt : i < bytes.data.toList.length := hi
    have hget : bytes.get! i = bytes.data.toList[i] := (getElem!_pos bytes.data i hi).trans (Array.getElem_toList hi).symm
    rw [ih, List.drop_eq_getElem_cons hlt, hget, List.reverse_cons, List.append_assoc, List.singleton_append]
  | case2 i read hi =>
    have hle : bytes.data.toList.length ≤ i := Nat.le_of_not_gt hi
    rw [List.drop_eq_nil_of_le hle, List.append_nil]

theorem toList_toUTF8 (text : String) : text.toUTF8.toList = encode text.toList := by
  have hbytes : text.toUTF8 = (encode text.toList).toByteArray := by
    rw [String.toUTF8, ← String.utf8Encode_toList, List.utf8Encode, encode]
  rw [hbytes, ByteArray.toList, toList_loop, List.reverse_nil, List.nil_append, List.drop_zero,
    List.toList_data_toByteArray]

theorem fromUTF8?_encode (s : List Char) : String.fromUTF8? ⟨(encode s).toArray⟩ = some (String.ofList s) := by
  have hbytes : (⟨(encode s).toArray⟩ : ByteArray) = (String.ofList s).toUTF8 := by
    rw [String.toUTF8, String.toByteArray_ofList, List.utf8Encode, ← encode]
    exact ByteArray.ext (Array.toList_inj.mp List.toList_data_toByteArray.symm)
  rw [hbytes, fromUTF8?_toUTF8]

-- ---------------------------------------------------------------------------
-- Line feeds
-- ---------------------------------------------------------------------------

/-- A byte that is a character by itself stands for that character only. -/
theorem mem_utf8EncodeChar (hb : b ∈ String.utf8EncodeChar c) :
    b = c.toNat.toUInt8 ∧ c.toNat < 128 ∨ 128 ≤ b.toNat := by
  have hval : c.val.toNat = c.toNat := rfl
  have hlt : c.toNat < 0x110000 := by
    rcases c.valid with h | ⟨-, h⟩
    · exact Nat.lt_trans h (by decide)
    · exact h
  unfold String.utf8EncodeChar at hb
  simp only [hval] at hb
  split at hb
  · rw [List.mem_singleton] at hb
    exact .inl ⟨hb, by omega⟩
  · right
    split at hb
    · simp only [List.mem_cons, List.not_mem_nil, or_false] at hb
      rcases hb with rfl | rfl <;> simp <;> omega
    · split at hb
      · simp only [List.mem_cons, List.not_mem_nil, or_false] at hb
        rcases hb with rfl | rfl | rfl <;> simp <;> omega
      · simp only [List.mem_cons, List.not_mem_nil, or_false] at hb
        rcases hb with rfl | rfl | rfl | rfl <;> simp <;> omega

theorem lineFeed_notMem_encode (h : '\n' ∉ s) : '\n'.toUInt8 ∉ encode s := by
  intro hmem
  obtain ⟨c, hc, hb⟩ := List.mem_flatMap.mp hmem
  rcases mem_utf8EncodeChar hb with ⟨hbyte, hlt⟩ | hle
  · have hnat : c.toNat = '\n'.toNat := by
      have hmod := congrArg UInt8.toNat hbyte
      rw [UInt8.toNat_ofNat'] at hmod
      exact (Nat.mod_eq_of_lt (by omega)).symm.trans hmod.symm
    exact h (Char.toNat_inj.mp hnat ▸ hc)
  · exact absurd hle (by decide)

theorem encode_ne_nil (h : s ≠ []) : encode s ≠ [] := by
  obtain ⟨c, rest, rfl⟩ := List.exists_cons_of_ne_nil h
  rw [encode_cons]
  exact fun hnil => String.utf8EncodeChar_ne_nil (List.append_eq_nil_iff.mp hnil).1

end ContestTests.Text
