/-
Written values, character by character.

Writing appends to a text, value by value.  Here the characters of a value are said by themselves
(`chars`), and appending them is what writing does (`toList_text`).

A character inside a text is written in one of three ways (`Written`): as it is, by a letter, or by
its number.  None of them needs a control character, and nothing else that is written does, so a
value that is written takes one line whatever texts are in it (`printable_chars`).
-/
import Prerequisite.Json.Reader
import Prerequisite.Json.Writer

namespace Prerequisite.Json

/-! ### The characters of values -/

/-- The characters of a text in quotes. -/
def quoted (s : String) : List Char := '"' :: (s.toList.flatMap escape ++ ['"'])

mutual

/-- **The characters of a value.** -/
def chars : Json → List Char
  | .null | .void => ['n', 'u', 'l', 'l']
  | .bool true => ['t', 'r', 'u', 'e']
  | .bool false => ['f', 'a', 'l', 's', 'e']
  | .number n => n.text.toList
  | .string s => quoted s
  | .array items => '[' :: (charsItems [] items ++ [']'])
  | .object fields => '\x7b' :: (charsFields [] fields ++ ['\x7d'])

/-- The characters of items, the first one after `separator` and the others after commas. -/
def charsItems (separator : List Char) : List Json → List Char
  | [] => []
  | v :: vs => separator ++ (chars v ++ charsItems [','] vs)

/-- The characters of fields, the first one after `separator` and the others after commas. -/
def charsFields (separator : List Char) : List (String × Json) → List Char
  | [] => []
  | (name, v) :: fs =>
      separator ++ (quoted name ++ ':' :: (chars v ++ charsFields [','] fs))

end

theorem toList_writeString (out s : String) :
    (writeString out s).toList = out.toList ++ quoted s := by
  have hfold : ∀ (cs : List Char) (out : String),
      (cs.foldl writeChar out).toList = out.toList ++ cs.flatMap escape := by
    intro cs
    induction cs with
    | nil => intro out; simp
    | cons c cs ih =>
        intro out
        rw [List.foldl_cons, ih, writeChar, Text.toList_pushAll]
        simp
  rw [writeString, String.toList_push, hfold]
  simp [quoted]

mutual

private theorem toList_write : ∀ (v : Json) (out : String),
    (write out v).toList = out.toList ++ chars v
  | .null, out | .void, out | .bool true, out | .bool false, out | .number _, out => by
      simp [write, chars]
  | .string s, out => by rw [write, chars, toList_writeString]
  | .array items, out => by simp [write, chars, toList_writeItems items]
  | .object fields, out => by simp [write, chars, toList_writeFields fields]

private theorem toList_writeItems : ∀ (vs : List Json) (separator out : String),
    (writeItems separator out vs).toList = out.toList ++ charsItems separator.toList vs
  | [], separator, out => by simp [writeItems, charsItems]
  | v :: vs, separator, out => by
      rw [writeItems, toList_writeItems vs, toList_write v]
      simp [charsItems]

private theorem toList_writeFields : ∀ (fs : List (String × Json)) (separator out : String),
    (writeFields separator out fs).toList = out.toList ++ charsFields separator.toList fs
  | [], separator, out => by simp [writeFields, charsFields]
  | (name, v) :: fs, separator, out => by
      rw [writeFields, toList_writeFields fs, toList_write v, String.toList_push,
        toList_writeString]
      simp [charsFields]

end

/-- **What is written are the characters of the value.** -/
theorem toList_text (v : Json) : v.text.toList = chars v := by
  rw [text, toList_write]
  rfl

/-! ### How a character is written -/

/-- **The ways to write a character inside a text.** -/
inductive Written : Char → List Char → Prop
  /-- By a letter, from which the character is found again. -/
  | letter {c l : Char} (h : Reader.unescape? l = some c) (hl : 0x20 ≤ l.toNat) :
      Written c ['\\', l]
  /-- By its number, which is a small one. -/
  | code {c a b : Char} (h : Reader.hexUnit? '0' '0' a b = some c.toNat) (hc : c.toNat < 0x20)
      (ha : 0x20 ≤ a.toNat) (hb : 0x20 ≤ b.toNat) : Written c ['\\', 'u', '0', '0', a, b]
  /-- As it is. -/
  | itself {c : Char} (hquote : c ≠ '"') (hslash : c ≠ '\\') (hc : 0x20 ≤ c.toNat) :
      Written c [c]

theorem written_escape (c : Char) : Written c (escape c) := by
  unfold escape
  split
  -- Seven characters have a letter.
  iterate 7 exact .letter rfl (by decide)
  rename_i hquote hslash _ _ _ _ _
  by_cases hc : c.toNat < 0x20
  · have hcode : ∀ n < 0x20, Reader.hexUnit? '0' '0' (hexDigit (n / 16)) (hexDigit (n % 16)) =
        some n := by decide
    have hdigit : ∀ n < 16, 0x20 ≤ (hexDigit n).toNat := by decide
    rw [if_pos hc]
    exact .code (hcode _ hc) hc (hdigit _ (by omega)) (hdigit _ (by omega))
  · rw [if_neg hc]
    exact .itself hquote hslash (by omega)

/-- **Values that their text says exactly.**  Left out are the numbers that are no whole numbers of
64 bits, and what has no value. -/
inductive Plain : Json → Prop
  | null : Plain .null
  | bool (b : Bool) : Plain (.bool b)
  | whole {n : Int} (hlow : -(UInt64.size / 2) ≤ n) (hhigh : n < UInt64.size) :
      Plain (.number (.whole n))
  | string (s : String) : Plain (.string s)
  | array {items : List Json} (h : ∀ v ∈ items, Plain v) : Plain (.array items)
  | object {fields : List (String × Json)} (h : ∀ f ∈ fields, Plain f.2) : Plain (.object fields)

end Prerequisite.Json
