/-
Which fault a scan stops at.

Two things can be wrong with a text besides its size: a character that may not stand in it, and a
run of digits that is no id.  `Fault` says of a place in a text that one of them is there, without a
scan; a run is only ever looked at as a whole, so what is inside of one is no fault.

A scan goes on until it comes to the first fault (`onto_faults`).  What carries the induction is
that no digit stands behind the place it has come to when a digit stands in front of it.
-/
import Mathlib.Tactic
import Prerequisite.Proofs.Formula.Scan

namespace Prerequisite

namespace Scan

/-- The characters that may stand in a formula text. -/
def Legal (c : Char) : Prop :=
  c ∈ blanks ∨ c.isDigit = true ∨ c ∈ ['(', ')', '^', 'v', '!']

/-- **A whole run of digits** between two parts of a text. -/
structure WholeRun (before ds after : List Char) : Prop where
  nonempty : ds ≠ []
  digits : ∀ c ∈ ds, c.isDigit = true
  left : ∀ c ∈ before.getLast?, c.isDigit = false
  right : NoDigit after

/-- **What is wrong at a place in a text,** between two parts of it. -/
inductive Fault : List Char → List Char → FormulaError → Prop
  /-- A character that may not stand there. -/
  | character {before rest : List Char} {c : Char} (hc : ¬Legal c) :
      Fault before (c :: rest)
        (.unexpected .token (.source (String.ofList [c])) (Text.byteSize before))
  /-- A whole run of digits that stands for no id. -/
  | run {before ds after : List Char} (h : WholeRun before ds after)
      (large : maxId < Nat.ofDigitChars 10 ds 0) :
      Fault before (ds ++ after) (.invalidAtom (String.ofList ds) (Text.byteSize before))

/-- Nothing is wrong in front of some offset. -/
def FaultlessUpTo (n : Nat) (text : List Char) : Prop :=
  ∀ before rest e, text = before ++ rest → before.length < n → ¬Fault before rest e

/-- Nothing is wrong anywhere in a text. -/
def Faultless (text : List Char) : Prop := FaultlessUpTo (text.length + 1) text

/-- **The leftmost fault of a text.** -/
def FirstFault (text : List Char) (e : FormulaError) : Prop :=
  ∃ before rest, text = before ++ rest ∧ Fault before rest e ∧ FaultlessUpTo before.length text

/-! ### Places and faults -/

theorem ofChar?_eq_none_iff {c : Char} :
    Token.ofChar? c = none ↔ c ∉ ['(', ')', '^', 'v', '!'] := by
  constructor
  · intro h hc
    simp only [List.mem_cons, List.not_mem_nil, or_false] at hc
    rcases hc with rfl | rfl | rfl | rfl | rfl <;> exact absurd h (by decide)
  · intro hc
    cases h : Token.ofChar? c with
    | none => rfl
    | some t =>
        refine absurd ?_ hc
        rcases ofChar?_cases h with ⟨rfl, -⟩ | ⟨rfl, -⟩ | ⟨rfl, -⟩ | ⟨rfl, -⟩ | ⟨rfl, -⟩ <;> decide

theorem legal_of_ofChar? {c : Char} {t : Token} (h : Token.ofChar? c = some t) : Legal c := by
  rcases ofChar?_cases h with ⟨rfl, -⟩ | ⟨rfl, -⟩ | ⟨rfl, -⟩ | ⟨rfl, -⟩ | ⟨rfl, -⟩ <;>
    exact .inr (.inr (by decide))

theorem Legal.lt {c : Char} (hc : Legal c) : c.toNat < 128 := by
  rcases hc with hblank | hdigit | hmark
  · rcases mem_blanks.mp hblank with rfl | rfl | rfl | rfl <;> decide
  · exact Nat.lt_of_le_of_lt (Char.isDigit_iff_toNat.mp hdigit).2 (by decide)
  · simp only [List.mem_cons, List.not_mem_nil, or_false] at hmark
    rcases hmark with rfl | rfl | rfl | rfl | rfl <;> decide

/-- A whole run begins at a place in one way. -/
theorem WholeRun.unique {before before' ds ds' after after' : List Char}
    (h : WholeRun before ds after) (h' : WholeRun before' ds' after')
    (heq : ds ++ after = ds' ++ after') : ds = ds' := by
  rw [← takeWhile_run h.digits h.right, heq, takeWhile_run h'.digits h'.right]

/-- There is one fault at a place at most. -/
theorem Fault.unique {before rest : List Char} {e e' : FormulaError} (h : Fault before rest e)
    (h' : Fault before rest e') : e = e' := by
  have hlegal : ∀ {c : Char} {tail ds after : List Char}, ¬Legal c →
      WholeRun before ds after → c :: tail ≠ ds ++ after := by
    intro c tail ds after hc hrun heq
    obtain ⟨d, ds, rfl⟩ := List.exists_cons_of_ne_nil hrun.nonempty
    obtain ⟨rfl, -⟩ := List.cons.inj heq
    exact hc (.inr (.inl (hrun.digits c (by simp))))
  generalize hrest : rest = r at h'
  cases h with
  | character hc =>
      cases h' with
      | character _ => rw [(List.cons.inj hrest).1]
      | run hrun _ => exact absurd hrest (hlegal hc hrun)
  | run hrun _ =>
      cases h' with
      | character hc => exact absurd hrest.symm (hlegal hc hrun)
      | run hrun' _ => rw [hrun.unique hrun' hrest]

theorem FirstFault.unique {text : List Char} {e e' : FormulaError} (h : FirstFault text e)
    (h' : FirstFault text e') : e = e' := by
  obtain ⟨before, rest, rfl, hfault, hfirst⟩ := h
  obtain ⟨before', rest', heq, hfault', hfirst'⟩ := h'
  have hle : ¬before.length < before'.length := fun hlt => hfirst' _ _ _ rfl hlt hfault
  have hge : ¬before'.length < before.length := fun hlt => hfirst _ _ _ heq hlt hfault'
  obtain ⟨rfl, rfl⟩ := List.append_inj heq (by omega)
  exact hfault.unique hfault'

theorem FirstFault.not_faultless {text : List Char} {e : FormulaError} (h : FirstFault text e) :
    ¬Faultless text := by
  obtain ⟨before, rest, rfl, hfault, -⟩ := h
  intro hfree
  exact hfree before rest e rfl (by rw [List.length_append]; omega) hfault

/-- **Nothing is wrong with a text whose characters may stand in it and whose runs are ids.** -/
theorem faultless_iff {text : List Char} : Faultless text ↔
    (∀ c ∈ text, Legal c) ∧ ∀ before ds after, text = before ++ ds ++ after →
      WholeRun before ds after → Nat.ofDigitChars 10 ds 0 ≤ maxId := by
  constructor
  · intro h
    refine ⟨fun c hc => ?_, fun before ds after htext hrun => ?_⟩
    · obtain ⟨before, rest, rfl⟩ := List.append_of_mem hc
      by_contra hno
      exact h before (c :: rest) _ rfl (by simp) (.character hno)
    · by_contra hlarge
      rw [List.append_assoc] at htext
      exact h before (ds ++ after) _ htext (by simp [htext]) (.run hrun (by omega))
  · rintro ⟨hlegal, hruns⟩ before rest e rfl - hfault
    cases hfault with
    | character hc => exact hc (hlegal _ (by simp))
    | run hrun hlarge =>
        have hle := hruns before _ _ (List.append_assoc _ _ _).symm hrun
        omega

theorem faultless_of_blank {text : List Char} (h : ∀ c ∈ text, c ∈ blanks) :
    Faultless text := by
  refine faultless_iff.mpr ⟨fun c hc => .inl (h c hc), ?_⟩
  rintro before ds after rfl hrun
  obtain ⟨d, ds, rfl⟩ := List.exists_cons_of_ne_nil hrun.nonempty
  exact absurd (h d (by simp)) (not_mem_blanks_of_isDigit (hrun.digits d (by simp)))

/-! ### The scan -/

/-- A place that splits no run of digits. -/
def Unsplit (front rest : List Char) : Prop :=
  (∃ c ∈ front.getLast?, c.isDigit = true) → NoDigit rest

theorem unsplit_nil (rest : List Char) : Unsplit [] rest := fun ⟨_, hc, _⟩ => absurd hc (by simp)

theorem unsplit_of_not_digit {front rest : List Char} {c : Char} (hc : ¬c.isDigit = true) :
    Unsplit (front ++ [c]) rest := by
  rintro ⟨d, hd, hdigit⟩
  rw [List.getLast?_append, List.getLast?_singleton, Option.some_or] at hd
  obtain rfl : c = d := by simpa using hd
  exact absurd hdigit hc

/-- What follows on such a place as far as digits go is a whole run. -/
theorem Unsplit.wholeRun {front ds rest : List Char} (h : Unsplit front (ds ++ rest))
    (hne : ds ≠ []) (hd : ∀ c ∈ ds, c.isDigit = true) (hrest : NoDigit rest) :
    WholeRun front ds rest := by
  refine ⟨hne, hd, fun c hc => ?_, hrest⟩
  by_contra hdigit
  obtain ⟨d, ds, rfl⟩ := List.exists_cons_of_ne_nil hne
  have hno := h ⟨c, hc, by simpa using hdigit⟩ d (by simp)
  rw [hd d (by simp)] at hno
  exact absurd hno (by simp)

/-- A place where a scan may stand: nothing was wrong in front of it. -/
structure Reached (front rest : List Char) : Prop where
  unsplit : Unsplit front rest
  faultless : FaultlessUpTo front.length (front ++ rest)

theorem Reached.start (text : List Char) : Reached [] text :=
  ⟨unsplit_nil text, fun _ _ _ _ h => absurd h (by simp)⟩

theorem exists_append_of_le {α : Type} {front rest before tail : List α}
    (heq : front ++ rest = before ++ tail) (hle : front.length ≤ before.length) :
    ∃ mid, before = front ++ mid ∧ rest = mid ++ tail := by
  rcases List.append_eq_append_iff.mp heq with ⟨mid, hbefore, hrest⟩ | ⟨mid, hfront, htail⟩
  · exact ⟨mid, hbefore, hrest⟩
  · obtain rfl : mid = [] := by
      rw [hfront, List.length_append] at hle
      exact List.length_eq_zero_iff.mp (by omega)
    exact ⟨[], by simp [hfront], by simp [htail]⟩

/-- The scan goes on over what there is no fault in. -/
theorem Reached.step {front mid rest : List Char} (h : Reached front (mid ++ rest))
    (hlast : Unsplit (front ++ mid) rest)
    (hmid : ∀ before after e, mid = before ++ after → after ≠ [] →
      ¬Fault (front ++ before) (after ++ rest) e) : Reached (front ++ mid) rest := by
  refine ⟨hlast, ?_⟩
  intro before tail e heq hlt hfault
  by_cases hfront : before.length < front.length
  · exact h.faultless before tail e (by rw [← heq, List.append_assoc]) hfront hfault
  · -- The place is inside of what was taken last.
    rw [List.append_assoc] at heq
    obtain ⟨inner, rfl, hrest⟩ := exists_append_of_le heq (by omega)
    rw [List.length_append, List.length_append] at hlt
    obtain ⟨after, rfl, rfl⟩ := exists_append_of_le hrest.symm (by omega)
    refine hmid inner after e rfl ?_ hfault
    rintro rfl
    simp at hlt

/-- A character that may stand where it stands and is no digit is not where a fault is. -/
theorem not_fault_of_legal {before rest : List Char} {c : Char} {e : FormulaError} (hc : Legal c)
    (hdigit : ¬c.isDigit = true) : ¬Fault before (c :: rest) e := by
  intro hfault
  generalize htext : c :: rest = text at hfault
  cases hfault with
  | character hno =>
      obtain ⟨rfl, -⟩ := List.cons.inj htext
      exact hno hc
  | run hrun _ =>
      obtain ⟨d, ds, rfl⟩ := List.exists_cons_of_ne_nil hrun.nonempty
      obtain ⟨rfl, -⟩ := List.cons.inj htext
      exact hdigit (hrun.digits c (by simp))

theorem Reached.character {front rest : List Char} {c : Char} (h : Reached front (c :: rest))
    (hc : Legal c) (hdigit : ¬c.isDigit = true) : Reached (front ++ [c]) rest := by
  refine Reached.step h (unsplit_of_not_digit hdigit) fun before after e hmid hne => ?_
  rcases List.singleton_eq_append_iff.mp hmid with ⟨rfl, rfl⟩ | ⟨rfl, rfl⟩
  · rw [List.append_nil]
    exact not_fault_of_legal hc hdigit
  · exact absurd rfl hne

/-- A run that stands for an id is no fault, and neither is anything inside of it. -/
theorem Reached.run {front ds rest : List Char} (h : Reached front (ds ++ rest))
    (hrun : WholeRun front ds rest) (hle : Nat.ofDigitChars 10 ds 0 ≤ maxId) :
    Reached (front ++ ds) rest := by
  refine h.step (fun _ => hrun.right) ?_
  rintro before after e rfl hne hfault
  generalize htail : after ++ rest = tail at hfault
  obtain ⟨d, after, rfl⟩ := List.exists_cons_of_ne_nil hne
  have hd : d.isDigit = true := hrun.digits d (by simp)
  cases hfault with
  | character hno =>
      obtain ⟨rfl, -⟩ := List.cons.inj htail
      exact hno (.inr (.inl hd))
  | run hrun' hlarge =>
      rcases List.eq_nil_or_concat before with rfl | ⟨before, b, rfl⟩
      · rw [List.append_nil] at hrun'
        rw [← hrun.unique hrun' htail] at hlarge
        omega
      · -- What stands in front of this place is a digit of the same run.
        have hb := hrun'.left b (by simp)
        rw [hrun.digits b (by simp)] at hb
        exact absurd hb (by simp)

/-- What the outcome of a scan says about a text. -/
def Reports (text : List Char) : Except FormulaError (Array Piece) → Prop
  | .ok _ => Faultless text
  | .error e => FirstFault text e

/-- **A scan goes on until it comes to the first fault.** -/
theorem onto_faults {done : Array Piece} {p : Nat} {text : List Char} :
    ∀ front : List Char, Text.byteSize front = p → Reached front text →
      Reports (front ++ text) (onto done p text) := by
  induction done, p, text using onto.induct with
  | case1 done p =>
      intro front _ h
      rw [onto]
      intro before rest e heq hlt hfault
      rw [List.append_nil] at heq hlt
      have hlen := congrArg List.length heq
      rw [List.length_append] at hlen
      by_cases hlast : before.length < front.length
      · exact h.faultless before rest e (by rw [List.append_nil, heq]) hlast hfault
      · obtain rfl : rest = [] := List.length_eq_zero_iff.mp (by omega)
        generalize hnil : ([] : List Char) = r at hfault
        cases hfault with
        | character _ => exact absurd hnil (by simp)
        | run hrun _ => exact hrun.nonempty (List.append_eq_nil_iff.mp hnil.symm).1
  | case2 done p c rest hblank ih =>
      intro front hp h
      rw [onto, if_pos hblank, List.append_cons]
      have hmem := isBlank_iff.mp hblank
      exact ih (front ++ [c]) (by simp [hp])
        (h.character (.inl hmem) fun hd => not_mem_blanks_of_isDigit hd hmem)
  | case3 done p c rest hblank hdigit id hid ih =>
      intro front hp h
      rw [onto, if_neg hblank, if_pos hdigit, hid]
      obtain ⟨hne, hd, hval⟩ := SectionId.ofDigits_eq_ok_iff.mp hid
      rw [← List.takeWhile_append_dropWhile (p := Char.isDigit) (l := rest),
        ← List.cons_append] at h
      have hrun := h.unsplit.wholeRun hne hd (noDigit_dropWhile rest)
      have hreach := ih (front ++ c :: rest.takeWhile Char.isDigit) (by simp [hp])
        (h.run hrun (by rw [hval]; exact id.number_le))
      rwa [List.append_assoc, List.cons_append, List.takeWhile_append_dropWhile] at hreach
  | case4 done p c rest hblank hdigit e he =>
      intro front hp h
      rw [onto, if_neg hblank, if_pos hdigit, he]
      have hd : ∀ x ∈ c :: rest.takeWhile Char.isDigit, x.isDigit = true :=
        fun _ hx => isDigit_of_mem_run hdigit hx
      rw [← List.takeWhile_append_dropWhile (p := Char.isDigit) (l := rest),
        ← List.cons_append] at h
      have hrun := h.unsplit.wholeRun (by simp) hd (noDigit_dropWhile rest)
      refine ⟨front, c :: rest, rfl, ?_, ?_⟩
      · have hfault := Fault.run hrun (SectionId.lt_of_ofDigits_eq_error he hrun.nonempty hd)
        rwa [List.cons_append, List.takeWhile_append_dropWhile, hp] at hfault
      · have hfree := h.faultless
        rwa [List.cons_append, List.takeWhile_append_dropWhile] at hfree
  | case5 done p c rest hblank hdigit t ht ih =>
      intro front hp h
      rw [onto, if_neg hblank, if_neg hdigit, ht, List.append_cons]
      exact ih (front ++ [c]) (by simp [hp]) (h.character (legal_of_ofChar? ht) hdigit)
  | case6 done p c rest hblank hdigit hnone =>
      intro front hp h
      rw [onto, if_neg hblank, if_neg hdigit, hnone]
      refine ⟨front, c :: rest, rfl, ?_, h.faultless⟩
      rw [← hp]
      refine .character ?_
      rintro (hlegal | hlegal | hlegal)
      · exact hblank (isBlank_iff.mpr hlegal)
      · exact hdigit hlegal
      · exact ofChar?_eq_none_iff.mp hnone hlegal

end Scan

end Prerequisite
