/-
Texts as bytes.

A text is kept in UTF-8, and a program that goes over its bytes has to know two things.  A byte
below 128 is a character of its own and never a part of one, so what is looked for among such bytes
is found where it stands among the characters.  And a text can be cut at an offset only between two
characters: `slice?` is the part between two offsets where there is one.
-/
import Mathlib.Data.String.Basic
import Mathlib.Tactic
import Prerequisite.Text.Size

namespace Prerequisite.Text

/-- The bytes of a text. -/
def bytes (s : String) : List UInt8 := s.toUTF8.data.toList

theorem bytes_eq (s : String) : bytes s = s.toList.flatMap String.utf8EncodeChar := by
  unfold bytes String.toUTF8
  rw [← String.utf8Encode_toList, List.utf8Encode, List.toList_data_toByteArray]

theorem length_encoded (cs : List Char) :
    (cs.flatMap String.utf8EncodeChar).length = byteSize cs := by
  induction cs with
  | nil => rfl
  | cons c cs ih =>
      rw [List.flatMap_cons, List.length_append, String.length_utf8EncodeChar, ih, byteSize_cons]

theorem length_bytes (s : String) : (bytes s).length = byteSize s.toList := by
  rw [bytes_eq, length_encoded]

theorem utf8ByteSize_ofList (cs : List Char) : (String.ofList cs).utf8ByteSize = byteSize cs := by
  induction cs with
  | nil => rfl
  | cons c cs ih =>
      have hsplit : String.ofList (c :: cs) = String.ofList [c] ++ String.ofList cs := by
        rw [← String.ofList_append]
        rfl
      rw [hsplit, String.utf8ByteSize_append, ih, byteSize_cons]
      simp

/-! ### Parts of a text -/

/-- **The part of a text between two byte offsets.**  There is none unless they are in order and
both are offsets in the text that lie between two of its characters. -/
def slice? (s : String) (start stop : Nat) : Option String :=
  if start ≤ stop ∧ String.Pos.Raw.isValid s ⟨start⟩ = true ∧
      String.Pos.Raw.isValid s ⟨stop⟩ = true then
    some (String.Pos.Raw.extract s ⟨start⟩ ⟨stop⟩)
  else none

theorem isValid_byteSize (before after : List Char) :
    String.Pos.Raw.isValid (String.ofList (before ++ after)) ⟨byteSize before⟩ = true := by
  rw [String.Pos.Raw.isValid_eq_true_iff, String.Pos.Raw.isValid_iff_exists_append]
  refine ⟨String.ofList before, String.ofList after, String.ofList_append, ?_⟩
  rw [← utf8ByteSize_ofList]
  rfl

/-- **What stands between other parts of a text is the slice between their offsets.** -/
theorem slice?_of_append {s : String} {before mid after : List Char}
    (h : s.toList = before ++ mid ++ after) :
    slice? s (byteSize before) (byteSize before + byteSize mid) = some (String.ofList mid) := by
  obtain rfl : s = String.ofList (before ++ mid ++ after) := by rw [← h, String.ofList_toList]
  have hstart : String.Pos.Raw.isValid (String.ofList (before ++ mid ++ after))
      ⟨byteSize before⟩ = true := by
    rw [List.append_assoc]
    exact isValid_byteSize before (mid ++ after)
  have hstop : String.Pos.Raw.isValid (String.ofList (before ++ mid ++ after))
      ⟨byteSize before + byteSize mid⟩ = true := by
    rw [← byteSize_append]
    exact isValid_byteSize (before ++ mid) after
  have hextract := String.extract_of_valid before mid after
  rw [← String.utf8ByteSize_ofList, ← String.utf8ByteSize_ofList, utf8ByteSize_ofList,
    utf8ByteSize_ofList] at hextract
  rw [slice?, if_pos ⟨Nat.le_add_right _ _, hstart, hstop⟩, hextract]

/-! ### Bytes of characters -/

/-- A character below 128 is one byte. -/
theorem utf8EncodeChar_of_lt {c : Char} (h : c.toNat < 128) :
    String.utf8EncodeChar c = [UInt8.ofNat c.toNat] := by
  rw [String.utf8EncodeChar.eq_1]
  exact if_pos (Nat.le_of_lt_succ h)

theorem toNat_ofNat_of_lt {c : Char} (h : c.toNat < 128) : (UInt8.ofNat c.toNat).toNat = c.toNat :=
  UInt8.toNat_ofNat_of_lt' (Nat.lt_trans h (by decide))

theorem utf8Size_of_lt {c : Char} (h : c.toNat < 128) : c.utf8Size = 1 := by
  rw [← String.length_utf8EncodeChar, utf8EncodeChar_of_lt h, List.length_singleton]

/-- The bytes of all other characters are above. -/
theorem le_of_mem_utf8EncodeChar {c : Char} (hc : 128 ≤ c.toNat) {b : UInt8}
    (h : b ∈ String.utf8EncodeChar c) : 128 ≤ b.toNat := by
  have hlarge : ¬c.val.toNat ≤ 127 := by
    have : c.toNat = c.val.toNat := rfl
    omega
  rw [String.utf8EncodeChar.eq_1, if_neg hlarge] at h
  split at h
  · simp only [List.mem_cons, List.not_mem_nil, or_false] at h
    rcases h with rfl | rfl <;> rw [UInt8.toNat_ofNat'] <;> omega
  · split at h
    · simp only [List.mem_cons, List.not_mem_nil, or_false] at h
      rcases h with rfl | rfl | rfl <;> rw [UInt8.toNat_ofNat'] <;> omega
    · simp only [List.mem_cons, List.not_mem_nil, or_false] at h
      rcases h with rfl | rfl | rfl | rfl <;> rw [UInt8.toNat_ofNat'] <;> omega

end Prerequisite.Text
