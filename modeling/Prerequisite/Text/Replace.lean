/-
Replacing one text inside another.

A text is gone through from left to right.  Where the sought text begins, the new one takes its
place and the search goes on behind it, so occurrences do not overlap and what was put in is not
searched again.

The sought text is given by its first character and the others, for there must be one: it is what
makes each round shorter than the last.
-/
namespace Prerequisite.Text

/-- What comes after `pattern` in a text that starts with it. -/
def after? : List Char → List Char → Option (List Char)
  | [], s => some s
  | _ :: _, [] => none
  | p :: ps, c :: cs => if p = c then after? ps cs else none

/-- A text that starts with a pattern is the pattern and what comes after it. -/
theorem eq_append_of_after? {pattern s r : List Char} (h : after? pattern s = some r) :
    s = pattern ++ r := by
  induction pattern generalizing s with
  | nil => simpa [after?] using h
  | cons p ps ih =>
    cases s with
    | nil => simp [after?] at h
    | cons c cs =>
      unfold after? at h
      split at h
      · next hpc => rw [hpc, ih h, List.cons_append]
      · exact absurd h (by simp)

/-- **Replaces `first :: others` everywhere,** after what was already written. -/
def replaceOnto (first : Char) (others replacement : List Char) (out : Array Char)
    (s : List Char) : Array Char :=
  match s with
  | [] => out
  | c :: cs =>
      if c = first then
        match h : after? others cs with
        | some r =>
            have hr : r.length ≤ cs.length := by simp [eq_append_of_after? h]
            replaceOnto first others replacement (out ++ replacement) r
        | none => replaceOnto first others replacement (out.push c) cs
      else replaceOnto first others replacement (out.push c) cs
termination_by s.length
decreasing_by
  · simp only [List.length_cons]; omega
  · simp
  · simp

/-- Replaces `first :: others` everywhere in a text. -/
def replace (first : Char) (others replacement s : List Char) : List Char :=
  (replaceOnto first others replacement #[] s).toList

end Prerequisite.Text
