/-
What a replacement does as a whole.

A text falls into parts at the occurrences of what is sought, of which each is the leftmost behind
the one before (`Splits`).  Every text does, and replacing puts the new text between the parts
(`replace_eq_intercalate`).

Nothing of what is sought may begin inside a part, not even if it ends behind it; that is why a part
is looked at together with all but the last character of the occurrence that follows.
-/
import Mathlib.Data.List.Infix
import Prerequisite.Proofs.Text.Replace

namespace Prerequisite.Text

theorem after?_eq_none_iff {pattern s : List Char} :
    after? pattern s = none ↔ ¬pattern <+: s := by
  constructor
  · rintro h ⟨r, rfl⟩
    exact absurd (after?_append pattern r) (by simp [h])
  · intro h
    cases hs : after? pattern s with
    | none => rfl
    | some r => exact absurd ⟨r, (eq_append_of_after? hs).symm⟩ h

/-- **The parts of a text** between the leftmost occurrences of a pattern that do not overlap. -/
inductive Splits (pattern : List Char) : List Char → List (List Char) → Prop
  /-- There is no occurrence. -/
  | last {s : List Char} (h : ¬pattern <:+: s) : Splits pattern s [s]
  /-- There is one, and none begins before it. -/
  | found {before s : List Char} {parts : List (List Char)}
      (h : ¬pattern <:+: before ++ pattern.dropLast) (hs : Splits pattern s parts) :
      Splits pattern (before ++ pattern ++ s) (before :: parts)

theorem Splits.parts_ne_nil {pattern s : List Char} {parts : List (List Char)}
    (h : Splits pattern s parts) : parts ≠ [] := by
  cases h with
  | last => exact List.cons_ne_nil _ _
  | found => exact List.cons_ne_nil _ _

theorem begins_without_last (before pattern s : List Char) :
    before ++ pattern.dropLast <+: before ++ pattern ++ s := by
  rw [List.append_assoc]
  exact (List.prefix_append_right_inj _).mpr
    ((List.dropLast_prefix pattern).trans (List.prefix_append pattern s))

/-- What begins before the end of a text does not need the last character behind it. -/
theorem prefix_append_dropLast {pattern before s : List Char} {c : Char}
    (h : pattern <+: c :: before ++ pattern ++ s) :
    pattern <+: c :: before ++ pattern.dropLast := by
  refine List.prefix_of_prefix_length_le h (begins_without_last _ _ _) ?_
  simp only [List.length_append, List.length_cons, List.length_dropLast]
  omega

section

variable {first : Char} {others replacement : List Char}

/-- What no occurrence begins in is kept. -/
theorem replace_before {s before : List Char}
    (h : ¬(first :: others) <:+: before ++ (first :: others).dropLast) :
    replace first others replacement (before ++ first :: others ++ s) =
      before ++ replacement ++ replace first others replacement s := by
  induction before with
  | nil => exact replace_found s
  | cons c before ih =>
      rw [List.cons_append, List.infix_cons_iff, not_or] at h
      have hkept : after? (first :: others) (c :: before ++ first :: others ++ s) = none :=
        after?_eq_none_iff.mpr fun hat => h.1 (prefix_append_dropLast hat)
      rw [List.cons_append, List.cons_append] at hkept
      rw [List.cons_append, List.cons_append, replace_kept hkept, ih h.2]
      rfl

theorem replace_of_no_occurrence {s : List Char} (h : ¬(first :: others) <:+: s) :
    replace first others replacement s = s := by
  induction s with
  | nil => exact replace_nil
  | cons c s ih =>
      rw [List.infix_cons_iff, not_or] at h
      rw [replace_kept (after?_eq_none_iff.mpr h.1), ih h.2]

/-- **Replacing puts the new text between the parts.** -/
theorem replace_eq_intercalate {s : List Char} {parts : List (List Char)}
    (h : Splits (first :: others) s parts) :
    replace first others replacement s = replacement.intercalate parts := by
  induction h with
  | last h => rw [replace_of_no_occurrence h, List.intercalate_singleton]
  | @found before s parts h hs ih =>
      rw [replace_before h, ih, List.intercalate_cons_of_ne_nil hs.parts_ne_nil]

/-- **Every text has parts.** -/
theorem exists_splits (first : Char) (others s : List Char) :
    ∃ parts, Splits (first :: others) s parts := by
  -- The induction is on the length, for behind an occurrence the text is shorter by all of it.
  induction hn : s.length using Nat.strongRecOn generalizing s with
  | _ n ih =>
    subst hn
    cases s with
    | nil => exact ⟨_, .last (by simp)⟩
    | cons c cs =>
        by_cases hat : (first :: others) <+: c :: cs
        · obtain ⟨r, hr⟩ := hat
          have hshorter : r.length < (c :: cs).length := by
            rw [← hr, List.length_append, List.length_cons]
            omega
          obtain ⟨parts, hparts⟩ := ih _ hshorter r rfl
          have hnone : ¬(first :: others) <:+: [] ++ (first :: others).dropLast := by
            intro hinfix
            have hle := hinfix.length_le
            rw [List.nil_append, List.length_dropLast, List.length_cons] at hle
            omega
          rw [← hr]
          exact ⟨_, .found hnone hparts⟩
        · obtain ⟨parts, hparts⟩ := ih cs.length (by simp) cs rfl
          cases hparts with
          | last h =>
              refine ⟨_, .last ?_⟩
              rw [List.infix_cons_iff, not_or]
              exact ⟨hat, h⟩
          | @found before s parts h hs =>
              have hnone : ¬(first :: others) <:+: c :: before ++ (first :: others).dropLast := by
                rw [List.cons_append, List.infix_cons_iff, not_or]
                refine ⟨?_, h⟩
                intro hbegins
                exact hat (List.IsPrefix.trans hbegins (begins_without_last (c :: before) _ s))
              exact ⟨_, Splits.found hnone hs⟩

end

end Prerequisite.Text
