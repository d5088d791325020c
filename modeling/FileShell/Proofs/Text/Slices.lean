import FileShell.Text.Basic

/-! # Slices of texts

A text is kept as its bytes in UTF-8, and a part of it is cut out by two offsets into these bytes.
That goes wrong if an offset lies behind the end or in the midst of a character, or if the two are in
the wrong order, so that a slice is a result that can be missing.

* **`Text.IsBoundary`** — an offset at which a text can be cut; `isBoundary_iff` says that something
  stands before it and something behind it.
* **`Text.slice?`** — the text between two offsets. `slice?_append`, `slice?_before` and
  `slice?_behind` say which offsets give a part of a text. -/

namespace FileShell

namespace Text

/-! ## Bytes -/

/-- How many bytes a text has. -/
def byteSize (t : Text) : Nat := t.bytes.size

/-- The bytes of a text are those of its characters. -/
theorem bytes_eq (t : Text) : t.bytes = (t.flatMap String.utf8EncodeChar).toByteArray :=
  String.toByteArray_ofList

/-- One byte of a text. -/
theorem getElem?_bytes (t : Text) (i : Nat) :
    t.bytes[i]? = (t.flatMap String.utf8EncodeChar)[i]? := by
  rw [bytes_eq]
  simp [getElem?_def]

/-- The size of a text is the number of these. -/
theorem byteSize_eq_length (t : Text) :
    t.byteSize = (t.flatMap String.utf8EncodeChar).length := by
  rw [byteSize, bytes_eq, List.size_toByteArray]

@[simp] theorem byteSize_nil : byteSize [] = 0 := rfl

@[simp] theorem byteSize_append (s t : Text) : byteSize (s ++ t) = s.byteSize + t.byteSize := by
  rw [byteSize, bytes_append, ByteArray.size_append]
  rfl

@[simp] theorem byteSize_cons (c : Char) (t : Text) :
    byteSize (c :: t) = c.utf8Size + t.byteSize := by
  rw [byteSize_eq_length, byteSize_eq_length, List.flatMap_cons, List.length_append,
    String.length_utf8EncodeChar]

/-- A character of one byte is that byte. -/
theorem utf8EncodeChar_of_lt {c : Char} (h : c.toNat < 128) :
    String.utf8EncodeChar c = [UInt8.ofNat c.toNat] := by
  have hle : c.val.toNat ≤ 127 := Nat.le_of_lt_succ h
  simp only [String.utf8EncodeChar, if_pos hle]
  rfl

/-- All bytes of any other character are larger. -/
theorem le_of_mem_utf8EncodeChar {b : UInt8} {c : Char} (h : 128 ≤ c.toNat)
    (hb : b ∈ String.utf8EncodeChar c) : 128 ≤ b.toNat := by
  have hlong : ¬c.val.toNat ≤ 127 := Nat.not_le.2 h
  simp only [String.utf8EncodeChar, if_neg hlong] at hb
  split at hb
  · simp only [List.mem_cons, List.not_mem_nil, or_false] at hb
    rcases hb with rfl | rfl <;> rw [UInt8.toNat_ofNat'] <;> omega
  · split at hb
    · simp only [List.mem_cons, List.not_mem_nil, or_false] at hb
      rcases hb with rfl | rfl | rfl <;> rw [UInt8.toNat_ofNat'] <;> omega
    · simp only [List.mem_cons, List.not_mem_nil, or_false] at hb
      rcases hb with rfl | rfl | rfl | rfl <;> rw [UInt8.toNat_ofNat'] <;> omega

/-- **A byte below 128 is the code of its character.** -/
theorem toNat_of_mem_utf8EncodeChar {b : UInt8} {c : Char} (small : b.toNat < 128)
    (h : b ∈ String.utf8EncodeChar c) : c.toNat = b.toNat := by
  by_cases hc : c.toNat < 128
  · rw [utf8EncodeChar_of_lt hc, List.mem_singleton] at h
    rw [h, UInt8.toNat_ofNat']
    omega
  · have hlarge := le_of_mem_utf8EncodeChar (Nat.not_lt.1 hc) h
    omega

/-- The first byte of a text belongs to its first character. -/
theorem exists_first_byte (c : Char) (t : Text) :
    ∃ b ∈ String.utf8EncodeChar c, (bytes (c :: t))[0]? = some b := by
  obtain ⟨b, bs, hbytes⟩ := List.exists_cons_of_ne_nil (String.utf8EncodeChar_ne_nil (c := c))
  refine ⟨b, by simp [hbytes], ?_⟩
  rw [getElem?_bytes, List.flatMap_cons, hbytes]
  rfl

/-- The last byte of a text belongs to its last character. -/
theorem exists_last_byte (t : Text) (c : Char) :
    ∃ b ∈ String.utf8EncodeChar c,
      (bytes (t ++ [c]))[byteSize (t ++ [c]) - 1]? = some b := by
  obtain ⟨bs, b, hbytes⟩ := (List.eq_nil_or_concat (String.utf8EncodeChar c)).resolve_left
    (String.utf8EncodeChar_ne_nil (c := c))
  refine ⟨b, by simp [hbytes], ?_⟩
  rw [getElem?_bytes, byteSize_eq_length, ← List.getLast?_eq_getElem?, List.flatMap_append,
    List.flatMap_singleton, hbytes, List.concat_eq_append, ← List.append_assoc,
    List.getLast?_concat]

/-! ## Boundaries -/

/-- **An offset at which a text can be cut**: a character begins there, or the text ends. -/
def IsBoundary (t : Text) (offset : Nat) : Prop := String.Pos.Raw.IsValid (String.ofList t) ⟨offset⟩

instance IsBoundary.decidable (t : Text) (offset : Nat) : Decidable (t.IsBoundary offset) :=
  decidable_of_iff _ String.Pos.Raw.isValid_eq_true_iff

/-- **Every boundary cuts a text in two**, and its offset is the size of the first part. -/
theorem isBoundary_iff {t : Text} {offset : Nat} :
    t.IsBoundary offset ↔ ∃ before behind, t = before ++ behind ∧ offset = before.byteSize := by
  rw [IsBoundary, String.Pos.Raw.isValid_ofList]
  constructor
  · rintro ⟨i, h⟩
    exact ⟨t.take i, t.drop i, (List.take_append_drop i t).symm, h⟩
  · rintro ⟨before, behind, rfl, rfl⟩
    refine ⟨before.length, ?_⟩
    rw [List.take_left]
    rfl

/-- Where a text is put together from two, it can be cut. -/
theorem isBoundary_append (before behind : Text) :
    IsBoundary (before ++ behind) before.byteSize := isBoundary_iff.2 ⟨before, behind, rfl, rfl⟩

/-! ## Slices -/

/-- **The slice of a text between two offsets.** There is none if one of them is no boundary, or if
they are in the wrong order. -/
def slice? (t : Text) (start stop : Nat) : Option Text :=
  if start ≤ stop ∧ t.IsBoundary start ∧ t.IsBoundary stop then
    textOfBytes? (t.bytes.extract start stop)
  else none

variable {before t behind : Text} {start stop : Nat}

/-- **A text that stands between two others** is the slice between their offsets. -/
theorem slice?_append (hstart : start = before.byteSize) (hstop : stop = start + t.byteSize) :
    slice? (before ++ (t ++ behind)) start stop = some t := by
  subst hstart hstop
  have hbytes : (bytes (before ++ (t ++ behind))).extract before.byteSize
      (before.byteSize + t.byteSize) = t.bytes := by
    have hskip : (before.bytes ++ bytes (t ++ behind)).extract (before.bytes.size + 0)
        (before.bytes.size + t.byteSize) = (bytes (t ++ behind)).extract 0 t.byteSize :=
      ByteArray.extract_append_size_add
    rw [Nat.add_zero] at hskip
    rw [bytes_append, byteSize, hskip, bytes_append]
    exact ByteArray.extract_append_eq_left rfl
  have hend : IsBoundary (before ++ (t ++ behind)) (before.byteSize + t.byteSize) := by
    rw [← List.append_assoc, ← byteSize_append]
    exact isBoundary_append _ _
  have hrange := Nat.le_add_right before.byteSize t.byteSize
  rw [slice?, if_pos ⟨hrange, isBoundary_append _ _, hend⟩, hbytes, textOfBytes?_bytes]

/-- The slice from the start of a text. -/
theorem slice?_before (hstop : stop = before.byteSize) :
    slice? (before ++ behind) 0 stop = some before := by
  have hall : slice? ([] ++ (before ++ behind)) 0 stop = some before :=
    slice?_append rfl (by rw [hstop, Nat.zero_add])
  exact hall

/-- The slice to the end of a text. -/
theorem slice?_behind (hstart : start = before.byteSize) :
    slice? (before ++ behind) start (byteSize (before ++ behind)) = some behind := by
  subst hstart
  have hall : slice? (before ++ (behind ++ [])) before.byteSize
      (before.byteSize + behind.byteSize) = some behind := slice?_append rfl rfl
  rwa [List.append_nil, ← byteSize_append] at hall

end Text

end FileShell
