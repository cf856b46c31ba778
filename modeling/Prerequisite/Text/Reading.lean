/-
Readings: what a reader took from the front of a text, and what it left.

Every reader of this library hands back the characters it did not use, together with a proof that
they are fewer than a given number.  A loop over a text then ends because each round is handed a
shorter one, and no count of steps has to be carried along.
-/
namespace Prerequisite.Text

/-- A value that was read, and the characters after it, of which there are fewer than `n`. -/
structure Reading (α : Type) (n : Nat) where
  /-- What was read. -/
  value : α
  /-- What comes after it. -/
  rest : List Char
  /-- Something was used up. -/
  shorter : rest.length < n

namespace Reading

/-- The same reading, seen from a longer text. -/
def widen {α : Type} {m n : Nat} (r : Reading α m) (h : m ≤ n) : Reading α n :=
  ⟨r.value, r.rest, Nat.lt_of_lt_of_le r.shorter h⟩

/-- The same reading, seen from a text with one more character. -/
def succ {α : Type} {n : Nat} (r : Reading α n) : Reading α (n + 1) :=
  r.widen (Nat.le_succ n)

/-- A value and what comes after it, which is all of a text but one character at most. -/
def leaving {α : Type} (value : α) (rest : List Char) : Reading α (rest.length + 1) :=
  ⟨value, rest, Nat.lt_succ_self _⟩

/-- The same characters, read as another value. -/
def map {α β : Type} {n : Nat} (f : α → β) (r : Reading α n) : Reading β n :=
  ⟨f r.value, r.rest, r.shorter⟩

end Reading

/-- A text is shorter than any that has one more character. -/
theorem length_lt_succ (s : List Char) : s.length < s.length + 1 := Nat.lt_succ_self _

/-- What is longer than a text and one more character is longer than the text. -/
theorem length_lt_of_succ_lt {s : List Char} {n : Nat} (h : s.length + 1 < n) : s.length < n :=
  Nat.lt_of_succ_lt h

/-- What is left after skipping characters is no longer than before. -/
theorem length_dropWhile_le (p : Char → Bool) (s : List Char) : (s.dropWhile p).length ≤ s.length :=
  (List.dropWhile_suffix p).length_le

end Prerequisite.Text
