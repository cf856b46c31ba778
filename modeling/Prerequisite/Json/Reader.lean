/-
Reading JSON.

A reader takes a value from the front of a text and hands back the rest, which is shorter; arrays
and objects are loops over what is left.  Blanks are the four characters that JSON allows.  What is
well formed but denotes nothing is read as `Json.void`: a number out of range, a text with half of a
surrogate pair, an object with such a name.

There is no bound on how deep a value is nested: a decoder that wants one counts for itself.
-/
import Prerequisite.Json.Basic
import Prerequisite.Json.Binary64
import Prerequisite.Text.Decimal
import Prerequisite.Text.Hex
import Prerequisite.Text.Reading

namespace Prerequisite.Json.Reader

open Prerequisite.Text

/-- The blanks of JSON. -/
def isBlank (c : Char) : Bool := c == ' ' || c == '\n' || c == '\t' || c == '\r'

/-- Leaves out the blanks in front. -/
def skipBlanks (s : List Char) : List Char := s.dropWhile isBlank

theorem length_skipBlanks_le (s : List Char) : (skipBlanks s).length ≤ s.length :=
  length_dropWhile_le isBlank s

/-! ### Numbers -/

/-- Reads digits onto a significand as long as it stays below `2 ^ 64`, and counts the digits that
no longer fit. -/
def wholeDigits (significand dropped : Nat) : List Char → Nat × Nat
  | [] => (significand, dropped)
  | c :: cs =>
      let next := significand * 10 + Decimal.digitValue c
      if dropped = 0 ∧ next < UInt64.size then wholeDigits next 0 cs
      else wholeDigits significand (dropped + 1) cs

/-- Reads digits after the point onto a significand as long as it stays below `2 ^ 64`, and counts
those it took; the others are too far down to matter. -/
def fractionDigits (significand taken : Nat) : List Char → Nat × Nat
  | [] => (significand, taken)
  | c :: cs =>
      let next := significand * 10 + Decimal.digitValue c
      if next < UInt64.size then fractionDigits next (taken + 1) cs else (significand, taken)

/-- A number that is no whole number of 64 bits. -/
def inexact (negative : Bool) (significand : Nat) (exponent : Int) : Json :=
  match Binary64.ofNumeral negative (UInt64.ofNat significand) exponent with
  | some bits => .number (.binary64 bits)
  | none => .void

/-- The value of an exponent's digits; beyond a million it makes no difference. -/
def exponentValue (digits : List Char) : Nat :=
  digits.foldl (fun n c => min 1000000 (n * 10 + Decimal.digitValue c)) 0

/-- The parts of a number as it is written. -/
structure Numeral where
  /-- Whether there is a minus sign. -/
  negative : Bool
  /-- The digits before the point. -/
  whole : List Char
  /-- The digits after the point, if there is one. -/
  fraction : Option (List Char)
  /-- The exponent, if there is one. -/
  exponent : Option Int

/-- **What a number denotes.**  Without point and exponent it is a whole number if 64 bits hold it;
minus zero is not one, for no whole number keeps its sign. -/
def Numeral.value (x : Numeral) : Json :=
  let (significand, dropped) := wholeDigits 0 0 x.whole
  match x.fraction, x.exponent with
  | none, none =>
      if dropped ≠ 0 then inexact x.negative significand dropped
      else if !x.negative then .number (.whole significand)
      else if 1 ≤ significand ∧ significand ≤ UInt64.size / 2 then .number (.whole (-significand))
      else inexact true significand 0
  | fraction, exponent =>
      let (significand, taken) := fractionDigits significand 0 (fraction.getD [])
      inexact x.negative significand ((dropped : Int) - taken + exponent.getD 0)

/-- Takes digits, of which there must be at least one. -/
def digits (s : List Char) : Option (Reading (List Char) s.length) :=
  match s with
  | [] => none
  | c :: cs =>
      if c.isDigit then
        some ⟨c :: cs.takeWhile Char.isDigit, cs.dropWhile Char.isDigit,
          Nat.lt_succ_of_le (length_dropWhile_le _ cs)⟩
      else none

/-- Takes the digits before the point: a zero alone, or digits that start with another one. -/
def wholePart (s : List Char) : Option (Reading (List Char) s.length) :=
  match s with
  | '0' :: cs => some (.leaving ['0'] cs)
  | s => digits s

/-- Takes a point and the digits after it, if there is a point. -/
def fractionPart (s : List Char) : Option (Reading (Option (List Char)) (s.length + 1)) :=
  match s with
  | '.' :: cs => (digits cs).map fun r => (r.map some).succ.succ
  | s => some (.leaving none s)

/-- Takes the digits of an exponent. -/
def exponentDigits (sign : Int) (s : List Char) : Option (Reading (Option Int) s.length) :=
  (digits s).map (·.map fun ds => some (sign * exponentValue ds))

/-- Takes an exponent, if there is one. -/
def exponentPart (s : List Char) : Option (Reading (Option Int) (s.length + 1)) :=
  match s with
  | e :: '+' :: cs =>
      if e == 'e' || e == 'E' then
        (exponentDigits 1 cs).map (·.succ.succ.succ)
      else some (.leaving none (e :: '+' :: cs))
  | e :: '-' :: cs =>
      if e == 'e' || e == 'E' then
        (exponentDigits (-1) cs).map (·.succ.succ.succ)
      else some (.leaving none (e :: '-' :: cs))
  | e :: cs =>
      if e == 'e' || e == 'E' then (exponentDigits 1 cs).map (·.succ.succ)
      else some (.leaving none (e :: cs))
  | [] => some (.leaving none [])

/-- Takes a number without its sign. -/
def unsignedNumber (negative : Bool) (s : List Char) : Option (Reading Json s.length) :=
  match wholePart s with
  | none => none
  | some whole =>
    match fractionPart whole.rest with
    | none => none
    | some fraction =>
      match exponentPart fraction.rest with
      | none => none
      | some exponent =>
        some ⟨Numeral.value ⟨negative, whole.value, fraction.value, exponent.value⟩, exponent.rest,
          by have := whole.shorter; have := fraction.shorter; have := exponent.shorter; omega⟩

/-- Takes a number. -/
def number (s : List Char) : Option (Reading Json s.length) :=
  match s with
  | '-' :: cs => (unsignedNumber true cs).map (·.succ)
  | s => unsignedNumber false s

/-! ### Texts -/

/-- The value of four hexadecimal digits. -/
def hexUnit? (a b c d : Char) : Option Nat := do
  return (((← hexValue? a) * 16 + (← hexValue? b)) * 16 + (← hexValue? c)) * 16 + (← hexValue? d)

/-- The character behind a backslash and a letter. -/
def unescape? : Char → Option Char
  | '"' => some '"'
  | '\\' => some '\\'
  | '/' => some '/'
  | 'b' => some '\x08'
  | 'f' => some '\x0c'
  | 'n' => some '\n'
  | 'r' => some '\r'
  | 't' => some '\t'
  | _ => none

/-- Whether a unit of sixteen bits is the first half of a surrogate pair. -/
def isHighHalf (u : Nat) : Bool := 0xD800 ≤ u && u < 0xDC00

/-- Whether a unit of sixteen bits is the second half of a surrogate pair. -/
def isLowHalf (u : Nat) : Bool := 0xDC00 ≤ u && u < 0xE000

/-- The character of a surrogate pair. -/
def ofHalves (high low : Nat) : Char :=
  Char.ofNat (0x10000 + (high - 0xD800) * 0x400 + (low - 0xDC00))

/-- Takes the second half of a surrogate pair, of which only the first half was found.  `none` for
the character says that the pair is not complete. -/
def secondHalf (high : Nat) (s : List Char) : Option (Reading (Option Char) (s.length + 1)) :=
  match s with
  | '\\' :: 'u' :: a :: b :: c :: d :: cs =>
      (hexUnit? a b c d).map fun low =>
        let pair := if isLowHalf low then some (ofHalves high low) else none
        (Reading.leaving pair cs).succ.succ.succ.succ.succ.succ
  | s => some (.leaving none s)

/-- Takes the rest of an escape, behind its backslash.  `none` for the character says that it is
half of a surrogate pair. -/
def escape (s : List Char) : Option (Reading (Option Char) s.length) :=
  match s with
  | 'u' :: a :: b :: c :: d :: cs =>
      match hexUnit? a b c d with
      | none => none
      | some unit =>
          if isHighHalf unit then (secondHalf unit cs).map (·.succ.succ.succ.succ)
          else
            let char := if isLowHalf unit then none else some (Char.ofNat unit)
            some (Reading.leaving char cs).succ.succ.succ.succ
  | e :: cs => (unescape? e).map fun c => .leaving (some c) cs
  | [] => none

/-- Appends a character to a text.  Either may have turned out to denote nothing. -/
def pushTo : Option String → Option Char → Option String
  | some text, some c => some (text.push c)
  | _, _ => none

/-- Takes the rest of a text, up to and with its closing quote.  `none` for the text says that it
holds half of a surrogate pair. -/
def stringTail (n : Nat) (out : Option String) (s : List Char) (h : s.length < n) :
    Option (Reading (Option String) n) :=
  match s with
  | [] => none
  | '"' :: cs => some ⟨out, cs, length_lt_of_succ_lt h⟩
  | '\\' :: cs =>
      match escape cs with
      | none => none
      | some r =>
          stringTail n (pushTo out r.value) r.rest
            (Nat.lt_trans r.shorter (length_lt_of_succ_lt h))
  | c :: cs =>
      if c.toNat < 0x20 then none
      else stringTail n (pushTo out (some c)) cs (length_lt_of_succ_lt h)
termination_by s.length
decreasing_by
  · exact Nat.lt_succ_of_lt r.shorter
  · exact length_lt_succ cs

/-! ### Values -/

/-- The object with some fields, unless a name denotes nothing. -/
def objectOf (fields : Array (Option String × Json)) : Json :=
  match fields.toList.mapM fun f => f.1.map fun name => (name, f.2) with
  | some fields => .object fields
  | none => .void

mutual

/-- **Takes a value that starts right here.** -/
def value (s : List Char) : Option (Reading Json s.length) :=
  match s with
  | '"' :: cs =>
      (stringTail (cs.length + 1) (some "") cs (length_lt_succ cs)).map
        (·.map fun t => match t with | some t => .string t | none => .void)
  | '[' :: cs =>
      match h : skipBlanks cs with
      | ']' :: r => some ⟨.array [], r, by
          have := length_skipBlanks_le cs
          rw [h, List.length_cons] at this
          exact Nat.lt_succ_of_lt this⟩
      | _ => items (cs.length + 1) #[] cs (length_lt_succ cs)
  | '\x7b' :: cs =>
      match h : skipBlanks cs with
      | '\x7d' :: r => some ⟨.object [], r, by
          have := length_skipBlanks_le cs
          rw [h, List.length_cons] at this
          exact Nat.lt_succ_of_lt this⟩
      | _ => fields (cs.length + 1) #[] cs (length_lt_succ cs)
  | 't' :: 'r' :: 'u' :: 'e' :: cs => some (Reading.leaving (.bool true) cs).succ.succ.succ
  | 'f' :: 'a' :: 'l' :: 's' :: 'e' :: cs =>
      some (Reading.leaving (.bool false) cs).succ.succ.succ.succ
  | 'n' :: 'u' :: 'l' :: 'l' :: cs => some (Reading.leaving .null cs).succ.succ.succ
  | s => number s
termination_by (s.length, 0)

/-- Takes items up to and with the closing bracket, after those already read. -/
def items (n : Nat) (done : Array Json) (s : List Char) (h : s.length < n) :
    Option (Reading Json n) :=
  match value (skipBlanks s) with
  | none => none
  | some item =>
      have hi : item.rest.length < s.length :=
        Nat.lt_of_lt_of_le item.shorter (length_skipBlanks_le s)
      match hr : skipBlanks item.rest with
      | ',' :: r =>
          have hlt : r.length < s.length := by
            have := length_skipBlanks_le item.rest; rw [hr, List.length_cons] at this; omega
          items n (done.push item.value) r (Nat.lt_trans hlt h)
      | ']' :: r =>
          some ⟨.array (done.push item.value).toList, r, by
            have := length_skipBlanks_le item.rest; rw [hr, List.length_cons] at this; omega⟩
      | _ => none
termination_by (s.length, 1)
decreasing_by
  · have := length_skipBlanks_le s
    rcases Nat.lt_or_eq_of_le this with hlt | heq
    · exact Prod.Lex.left _ _ hlt
    · rw [heq]; exact Prod.Lex.right _ (by omega)
  · exact Prod.Lex.left _ _ hlt

/-- Takes fields up to and with the closing brace, after those already read. -/
def fields (n : Nat) (done : Array (Option String × Json)) (s : List Char) (h : s.length < n) :
    Option (Reading Json n) :=
  match hs : skipBlanks s with
  | '"' :: cs =>
      have hcs : cs.length < s.length := by
        have := length_skipBlanks_le s; rw [hs, List.length_cons] at this; omega
      match stringTail (cs.length + 1) (some "") cs (length_lt_succ cs) with
      | none => none
      | some name =>
          match hn : skipBlanks name.rest with
          | ':' :: r =>
              have hr : r.length < s.length := by
                have := length_skipBlanks_le name.rest
                rw [hn, List.length_cons] at this
                have := name.shorter
                omega
              match value (skipBlanks r) with
              | none => none
              | some v =>
                  have hv : v.rest.length < s.length :=
                    Nat.lt_trans (Nat.lt_of_lt_of_le v.shorter (length_skipBlanks_le r)) hr
                  match hw : skipBlanks v.rest with
                  | ',' :: t =>
                      have ht : t.length < s.length := by
                        have := length_skipBlanks_le v.rest
                        rw [hw, List.length_cons] at this
                        omega
                      fields n (done.push (name.value, v.value)) t (Nat.lt_trans ht h)
                  | '\x7d' :: t =>
                      some ⟨objectOf (done.push (name.value, v.value)), t, by
                        have := length_skipBlanks_le v.rest
                        rw [hw, List.length_cons] at this
                        omega⟩
                  | _ => none
          | _ => none
  | _ => none
termination_by (s.length, 1)
decreasing_by
  · exact Prod.Lex.left _ _ (Nat.lt_of_le_of_lt (length_skipBlanks_le r) hr)
  · exact Prod.Lex.left _ _ ht

end

end Reader

open Reader in
/-- **Reads a text that is one value, with blanks around it.** -/
def ofList? (s : List Char) : Option Json :=
  match value (skipBlanks s) with
  | some r => if skipBlanks r.rest = [] then some r.value else none
  | none => none

/-- Reads a text that is one value, with blanks around it. -/
def ofText? (s : String) : Option Json := ofList? s.toList

end Prerequisite.Json
