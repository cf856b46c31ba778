/-
What a replacement does, one step at a time.

Where the sought text begins, the new one is written and the search goes on behind it
(`replace_found`).  Where it does not begin, one character is kept (`replace_kept`).
-/
import Prerequisite.Text.Replace

namespace Prerequisite.Text

variable {first : Char} {others replacement : List Char}

theorem after?_append (pattern s : List Char) : after? pattern (pattern ++ s) = some s := by
  induction pattern with
  | nil => rfl
  | cons p ps ih => simpa [after?] using ih

theorem replaceOnto_found {s r : List Char} (h : after? (first :: others) s = some r)
    (out : Array Char) : replaceOnto first others replacement out s =
      replaceOnto first others replacement (out ++ replacement) r := by
  cases s with
  | nil => exact absurd h (by simp [after?])
  | cons c cs =>
      unfold after? at h
      by_cases hc : first = c
      · rw [if_pos hc] at h
        rw [replaceOnto, if_pos hc.symm]
        split
        · rename_i r' hr'
          rw [h] at hr'
          rw [Option.some.inj hr']
        · rename_i hnone
          rw [h] at hnone
          exact absurd hnone (by simp)
      · rw [if_neg hc] at h
        exact absurd h (by simp)

theorem replaceOnto_kept {c : Char} {cs : List Char}
    (h : after? (first :: others) (c :: cs) = none) (out : Array Char) :
    replaceOnto first others replacement out (c :: cs) =
      replaceOnto first others replacement (out.push c) cs := by
  unfold after? at h
  rw [replaceOnto]
  by_cases hc : first = c
  · rw [if_pos hc] at h
    rw [if_pos hc.symm]
    split
    · rename_i r' hr'
      rw [h] at hr'
      exact absurd hr' (by simp)
    · rfl
  · rw [if_neg fun heq => hc heq.symm]

/-- What was written before stays in front. -/
theorem toList_replaceOnto (out : Array Char) (s : List Char) :
    (replaceOnto first others replacement out s).toList =
      out.toList ++ replace first others replacement s := by
  -- The induction is on the length, for the search goes on behind what it has found.
  induction hn : s.length using Nat.strongRecOn generalizing out s with
  | _ n ih =>
    subst hn
    unfold replace
    cases s with
    | nil => simp [replaceOnto]
    | cons c cs =>
        cases h : after? (first :: others) (c :: cs) with
        | none =>
            have hlt : cs.length < (c :: cs).length := by simp
            rw [replaceOnto_kept h, replaceOnto_kept h, ih _ hlt (out.push c) cs rfl,
              ih _ hlt (Array.push #[] c) cs rfl]
            simp
        | some r =>
            have hlt : r.length < (c :: cs).length := by
              rw [eq_append_of_after? h, List.cons_append, List.length_cons, List.length_append]
              omega
            rw [replaceOnto_found h, replaceOnto_found h, ih _ hlt (out ++ replacement) r rfl,
              ih _ hlt (#[] ++ replacement) r rfl]
            simp

@[simp] theorem replace_nil : replace first others replacement [] = [] := by
  simp [replace, replaceOnto]

/-- **Where the sought text begins, the new one takes its place.** -/
theorem replace_found (s : List Char) :
    replace first others replacement (first :: (others ++ s)) =
      replacement ++ replace first others replacement s := by
  show (replaceOnto first others replacement #[] (first :: others ++ s)).toList = _
  rw [replaceOnto_found (after?_append (first :: others) s), toList_replaceOnto]
  simp

/-- **Where it does not begin, a character is kept.** -/
theorem replace_kept {c : Char} {cs : List Char}
    (h : after? (first :: others) (c :: cs) = none) :
    replace first others replacement (c :: cs) = c :: replace first others replacement cs := by
  show (replaceOnto first others replacement #[] (c :: cs)).toList = _
  rw [replaceOnto_kept h, toList_replaceOnto]
  rfl

/-- What has no character that begins the sought text is kept as it is. -/
theorem replace_append_of_not_mem {s : List Char} (h : first ∉ s) (t : List Char) :
    replace first others replacement (s ++ t) = s ++ replace first others replacement t := by
  induction s with
  | nil => rfl
  | cons c s ih =>
      have hc : first ≠ c := fun heq => h (by simp [heq])
      have hkept : after? (first :: others) (c :: (s ++ t)) = none := by
        rw [after?, if_neg hc]
      rw [List.cons_append, replace_kept hkept, ih fun hmem => h (List.mem_cons_of_mem c hmem)]
      rfl

end Prerequisite.Text
