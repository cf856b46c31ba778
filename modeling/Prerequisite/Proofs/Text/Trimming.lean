/-
What trimming leaves.

A text without the blanks around it is the part of it that has only blanks before and behind it and
none at its own ends.  There is one such part, and trimming finds it (`trim_eq_iff`).
-/
import Mathlib.Data.List.TakeWhile
import Prerequisite.Text.Blank

namespace Prerequisite.Text

/-- A character that Unicode calls white space; these are all 25. -/
def White (c : Char) : Prop :=
  c.toNat ∈ [0x09, 0x0A, 0x0B, 0x0C, 0x0D, 0x20, 0x85, 0xA0, 0x1680, 0x2000, 0x2001, 0x2002, 0x2003,
    0x2004, 0x2005, 0x2006, 0x2007, 0x2008, 0x2009, 0x200A, 0x2028, 0x2029, 0x202F, 0x205F, 0x3000]

instance : DecidablePred White := fun c => inferInstanceAs (Decidable (c.toNat ∈ _))

theorem isBlank_iff {c : Char} : isBlank c = true ↔ White c := by
  simp only [isBlank, White, Bool.or_eq_true, Bool.and_eq_true, decide_eq_true_eq, beq_iff_eq,
    List.mem_cons, List.not_mem_nil, or_false]
  omega

theorem isBlank_eq_false_iff {c : Char} : isBlank c = false ↔ ¬White c := by
  rw [← isBlank_iff, Bool.not_eq_true]

/-- **What is left of a text without the blanks around it.** -/
structure Trims (cs mid : List Char) : Prop where
  /-- What is left does not begin with a blank. -/
  first : ∀ c ∈ mid.head?, ¬White c
  /-- It does not end with one. -/
  last : ∀ c ∈ mid.getLast?, ¬White c
  /-- There are only blanks around it. -/
  around : ∃ before after, cs = before ++ mid ++ after ∧
    (∀ c ∈ before, White c) ∧ ∀ c ∈ after, White c

theorem dropWhile_blank_eq_self {cs : List Char} (h : ∀ c ∈ cs.head?, isBlank c = false) :
    cs.dropWhile isBlank = cs := by
  cases cs with
  | nil => rfl
  | cons c cs => rw [List.dropWhile_cons_of_neg (by simp [h c (by simp)])]

theorem head?_dropWhile_blank (cs : List Char) :
    ∀ c ∈ (cs.dropWhile isBlank).head?, isBlank c = false := by
  intro c hc
  have hnot := List.head?_dropWhile_not isBlank cs
  rw [Option.mem_def.mp hc] at hnot
  exact hnot

theorem trims_trim (cs : List Char) : Trims cs (trim cs) := by
  have hcs : cs.takeWhile isBlank ++ cs.dropWhile isBlank = cs :=
    List.takeWhile_append_dropWhile
  have hrest : trim cs ++ ((cs.dropWhile isBlank).reverse.takeWhile isBlank).reverse =
      cs.dropWhile isBlank := by
    rw [trim, ← List.reverse_append, List.takeWhile_append_dropWhile, List.reverse_reverse]
  refine ⟨?_, ?_, cs.takeWhile isBlank,
    ((cs.dropWhile isBlank).reverse.takeWhile isBlank).reverse, ?_, ?_, ?_⟩
  · intro c hc
    refine isBlank_eq_false_iff.mp (head?_dropWhile_blank cs c ?_)
    rw [← hrest, List.head?_append, Option.mem_def.mp hc]
    rfl
  · intro c hc
    rw [trim, List.getLast?_reverse] at hc
    exact isBlank_eq_false_iff.mp (head?_dropWhile_blank _ c hc)
  · rw [List.append_assoc, hrest, hcs]
  · exact fun c hc => isBlank_iff.mp (List.mem_takeWhile_imp hc)
  · exact fun c hc => isBlank_iff.mp (List.mem_takeWhile_imp (List.mem_reverse.mp hc))

/-- **Trimming leaves what there is without the blanks around it.** -/
theorem trim_eq_iff {cs mid : List Char} : trim cs = mid ↔ Trims cs mid := by
  constructor
  · intro h
    rw [← h]
    exact trims_trim cs
  · rintro ⟨hfirst, hlast, before, after, rfl, hbefore, hafter⟩
    simp only [← isBlank_iff, Bool.not_eq_true] at hfirst hlast hbefore hafter
    have hlast' : ∀ c ∈ mid.reverse.head?, isBlank c = false := by simpa using hlast
    have hback : (after.reverse ++ mid.reverse).dropWhile isBlank = mid.reverse := by
      rw [List.dropWhile_append_of_pos fun c hc => hafter c (List.mem_reverse.mp hc),
        dropWhile_blank_eq_self hlast']
    rw [trim, List.append_assoc, List.dropWhile_append_of_pos hbefore]
    cases mid with
    | nil =>
        have hnil : after.dropWhile isBlank = [] := List.dropWhile_eq_nil_iff.mpr hafter
        rw [List.nil_append, hnil]
        rfl
    | cons c mid =>
        have hfront : (c :: mid ++ after).dropWhile isBlank = c :: mid ++ after :=
          dropWhile_blank_eq_self (by simpa using hfirst)
        rw [hfront, List.reverse_append, hback, List.reverse_reverse]

theorem trim_eq_self {cs : List Char} (hfirst : ∀ c ∈ cs.head?, isBlank c = false)
    (hlast : ∀ c ∈ cs.getLast?, isBlank c = false) : trim cs = cs :=
  trim_eq_iff.mpr ⟨fun c hc => isBlank_eq_false_iff.mp (hfirst c hc),
    fun c hc => isBlank_eq_false_iff.mp (hlast c hc), [], [], by simp, by simp, by simp⟩

end Prerequisite.Text
