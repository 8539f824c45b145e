/-!
# Texts as bytes

A text is kept as bytes, one to four of them for each of its characters, and an offset in it
counts bytes.  Only where a character starts, or the text ends, can it be cut.

The characters up to number 127 are kept as the byte with their number, and the bytes of all
others have greater numbers.  So a reader that only tells such characters apart need not know
the others: it sees as much in the first byte of a character as in the character.

## Main definitions

* `byteAt` — the byte at an offset.
* `IsBoundary` — a text can be cut at an offset.
* `slice?` — the part of a text between two offsets.
* `firstByte` — the first of the bytes of a character.
* `TellsAscii` — a function of characters that tells only those up to number 127 apart.

## Main results

* `slice?_append` — a text is cut into the parts that it is made of.
* `isBoundary_iff` — where a text can be cut it consists of two parts.
* `eq_zero_of_isBoundary` — no text can be cut within a character.
* `TellsAscii.ofUInt8_firstByte` — the first byte of a character tells as much as the character.
-/

namespace Script.Text

/-! ### Bytes of a text -/

/-- The byte at an offset of a text.  From the end on there is only 0. -/
def byteAt (text : String) (offset : Nat) : UInt8 := (text.toByteArray.data[offset]?).getD 0

/-- A character of the text starts at the offset, or the text ends there. -/
abbrev IsBoundary (text : String) (offset : Nat) : Prop :=
  (⟨offset⟩ : String.Pos.Raw).IsValid text

/-- The part of a text between two offsets.  There is none if one of them is behind the end or
within a character, or if they are the wrong way round. -/
def slice? (text : String) (start stop : Nat) : Option String :=
  if h : IsBoundary text start ∧ IsBoundary text stop ∧ start ≤ stop then
    some (text.extract (text.pos ⟨start⟩ h.1) (text.pos ⟨stop⟩ h.2.1))
  else
    none

/-- Behind the first part of a text stand the bytes of the second one. -/
theorem byteAt_append (before after : String) (offset : Nat) :
    byteAt (before ++ after) (before.utf8ByteSize + offset) = byteAt after offset := by
  have hsize : before.toByteArray.data.size = before.utf8ByteSize := rfl
  rw [byteAt, byteAt, String.toByteArray_append, ByteArray.data_append,
    Array.getElem?_append_right (by omega), hsize, Nat.add_sub_cancel_left]

/-- Where a text can be cut it consists of two parts. -/
theorem isBoundary_iff {text : String} {offset : Nat} :
    IsBoundary text offset ↔
      ∃ before after : String, text = before ++ after ∧ offset = before.utf8ByteSize := by
  rw [IsBoundary, String.Pos.Raw.isValid_iff_exists_append]
  simp only [String.Pos.Raw.ext_iff, String.byteIdx_rawEndPos]

theorem isBoundary_append (before after : String) :
    IsBoundary (before ++ after) before.utf8ByteSize :=
  isBoundary_iff.2 ⟨before, after, rfl, rfl⟩

/-- No text can be cut within a character. -/
theorem eq_zero_of_isBoundary {before after : String} {c : Char} {count : Nat}
    (hlt : count < c.utf8Size)
    (h : IsBoundary (before ++ (String.singleton c ++ after)) (before.utf8ByteSize + count)) :
    count = 0 := by
  rw [IsBoundary, String.Pos.Raw.isValid_append] at h
  rcases h with hbefore | ⟨-, hbehind⟩
  · have hle : before.utf8ByteSize + count ≤ before.utf8ByteSize := hbefore.le_utf8ByteSize
    omega
  · have hcount : (⟨before.utf8ByteSize + count⟩ : String.Pos.Raw) - before = ⟨count⟩ :=
      String.Pos.Raw.ext (Nat.add_sub_cancel_left _ _)
    rw [hcount, String.Pos.Raw.isValid_append] at hbehind
    rcases hbehind with hfirst | ⟨hge, -⟩
    · rcases String.Pos.Raw.isValid_singleton.1 hfirst with hzero | hsize
      · exact congrArg String.Pos.Raw.byteIdx hzero
      · exact absurd hsize (Nat.ne_of_lt hlt)
    · have hsize : c.utf8Size ≤ count := by
        simpa [String.Pos.Raw.le_iff] using hge
      omega

/-- No text can be cut behind its end. -/
theorem IsBoundary.le {text : String} {offset : Nat} (h : IsBoundary text offset) :
    offset ≤ text.utf8ByteSize := h.le_utf8ByteSize

/-- A text is cut into the parts that it is made of. -/
theorem slice?_append (before part after : String) :
    slice? (before ++ part ++ after) before.utf8ByteSize
      (before.utf8ByteSize + part.utf8ByteSize) = some part := by
  have hstart : IsBoundary (before ++ part ++ after) before.utf8ByteSize := by
    rw [String.append_assoc]
    exact isBoundary_append before (part ++ after)
  have hstop : IsBoundary (before ++ part ++ after)
      (before.utf8ByteSize + part.utf8ByteSize) := by
    rw [← String.utf8ByteSize_append]
    exact isBoundary_append (before ++ part) after
  rw [slice?, dif_pos ⟨hstart, hstop, Nat.le_add_right _ _⟩, Option.some_inj,
    ← String.toByteArray_inj, String.toByteArray_extract, String.offset_pos, String.offset_pos,
    String.append_assoc, String.toByteArray_append, String.toByteArray_append]
  have hshift : (before.toByteArray ++ (part.toByteArray ++ after.toByteArray)).extract
      before.utf8ByteSize (before.utf8ByteSize + part.utf8ByteSize) =
        (part.toByteArray ++ after.toByteArray).extract 0 part.utf8ByteSize :=
    ByteArray.extract_append_size_add' (i := 0) String.size_toByteArray.symm
  exact hshift.trans (ByteArray.extract_append_eq_left String.size_toByteArray.symm)

/-! ### Bytes of a character -/

/-- The first of the bytes that a character is kept as. -/
def firstByte (c : Char) : UInt8 := (String.utf8EncodeChar c).headD 0

/-- A text starts with the first byte of its first character. -/
theorem byteAt_ofList_cons (c : Char) (cs : List Char) :
    byteAt (String.ofList (c :: cs)) 0 = firstByte c := by
  rw [byteAt, firstByte, String.toByteArray_ofList, List.utf8Encode_cons,
    List.utf8Encode_singleton, ByteArray.data_append, List.data_toByteArray]
  cases hbytes : String.utf8EncodeChar c with
  | nil => exact absurd hbytes String.utf8EncodeChar_ne_nil
  | cons byte bytes =>
    rw [Array.getElem?_append_left (by simp)]
    rfl

/-- The characters up to number 127 are kept as the byte with their number. -/
theorem ofUInt8_firstByte {c : Char} (h : c.toNat < 128) : Char.ofUInt8 (firstByte c) = c := by
  have hsize : c.utf8Size = 1 := Char.utf8Size_eq_one_iff.2 (Nat.le_of_lt_succ h)
  rw [firstByte, String.utf8EncodeChar_eq_singleton hsize]
  apply Char.ext
  apply UInt32.toNat_inj.1
  show c.val.toNat % 256 = c.val.toNat
  exact Nat.mod_eq_of_lt (Nat.lt_trans h (by decide))

/-- The bytes of all others have greater numbers. -/
theorem le_firstByte {c : Char} (h : 128 ≤ c.toNat) : 128 ≤ (firstByte c).toNat := by
  have hv : ¬c.val.toNat ≤ 127 := Nat.not_le.2 h
  unfold firstByte String.utf8EncodeChar
  rw [if_neg hv]
  split
  · show 128 ≤ (c.val.toNat / 64 % 32 + 192) % 256
    omega
  · split
    · show 128 ≤ (c.val.toNat / 4096 % 16 + 224) % 256
      omega
    · show 128 ≤ (c.val.toNat / 262144 % 8 + 240) % 256
      omega

/-! ### Characters that can be told from a byte -/

/-- The function tells only characters up to number 127 apart: for all others it has the same
value. -/
def TellsAscii {α : Type} (f : Char → α) (other : α) : Prop := ∀ c, 128 ≤ c.toNat → f c = other

/-- The first byte of a character tells as much as the character. -/
theorem TellsAscii.ofUInt8_firstByte {α : Type} {f : Char → α} {other : α}
    (hf : TellsAscii f other) (c : Char) : f (Char.ofUInt8 (firstByte c)) = f c := by
  rcases Nat.lt_or_ge c.toNat 128 with hlt | hge
  · rw [Text.ofUInt8_firstByte hlt]
  · rw [hf c hge]
    exact hf _ (le_firstByte hge)

/-- A character that it tells from the others is kept as one byte. -/
theorem TellsAscii.utf8Size {α : Type} {f : Char → α} {other : α} (hf : TellsAscii f other)
    {c : Char} (h : f c ≠ other) : c.utf8Size = 1 := by
  have hlt : c.toNat < 128 := Nat.lt_of_not_le fun hge => h (hf c hge)
  exact Char.utf8Size_eq_one_iff.2 (Nat.le_of_lt_succ hlt)

end Script.Text
