/-
Sections under negations.

A section can be written in several places of a formula, and what a section does to the formula
there depends on how many negations it stands under.  `places` lists them all, in the order they
are written (`map_fst_placesUnder`).

Going from one assignment to another favours a formula if sections are only gained under an even
number of negations and only lost under an odd one.  Then the formula does not become false
(`value_imp`).  The induction goes through negations with both parities at once: what favours a
formula under one more negation is what its negation needs.
-/
import Mathlib.Tactic
import Prerequisite.Proofs.Formula.Evaluation

namespace Prerequisite.Formula

mutual

/-- The places of sections, each with the number of negations it is under, if `n` are around the
formula. -/
def placesUnder (n : Nat) : Formula → List (SectionId × Nat)
  | .atom id => [(id, n)]
  | .conj fs | .disj fs => placesUnderAll n fs
  | .neg f => placesUnder (n + 1) f
  | .group f => placesUnder n f

/-- The places of sections in a list of formulas. -/
def placesUnderAll (n : Nat) : List Formula → List (SectionId × Nat)
  | [] => []
  | f :: fs => placesUnder n f ++ placesUnderAll n fs

end

/-- **The places of sections from left to right,** each with the number of negations it is under. -/
def places (f : Formula) : List (SectionId × Nat) := placesUnder 0 f

/-- **All places of a section are under an even number of negations.** -/
def Positive (f : Formula) (id : SectionId) : Prop := ∀ p ∈ f.places, p.1 = id → Even p.2

/-- **All places of a section are under an odd number of negations.** -/
def Negative (f : Formula) (id : SectionId) : Prop := ∀ p ∈ f.places, p.1 = id → Odd p.2

instance (f : Formula) (id : SectionId) : Decidable (f.Positive id) :=
  inferInstanceAs (Decidable (∀ p ∈ f.places, p.1 = id → Even p.2))

instance (f : Formula) (id : SectionId) : Decidable (f.Negative id) :=
  inferInstanceAs (Decidable (∀ p ∈ f.places, p.1 = id → Odd p.2))

theorem placesUnder_node (n : Nat) (op : Operator) (fs : List Formula) :
    placesUnder n (op.node fs) = fs.flatMap (placesUnder n) := by
  have hall : placesUnderAll n fs = fs.flatMap (placesUnder n) := by
    induction fs with
    | nil => rfl
    | cons f fs ih => rw [placesUnderAll, ih, List.flatMap_cons]
  cases op <;> exact hall

/-- Every section of a formula has its places, and there are no others. -/
theorem map_fst_placesUnder (f : Formula) : ∀ n, (placesUnder n f).map Prod.fst = f.atoms := by
  induction f using induct with
  | atom id => intro n; rfl
  | node op fs ih =>
      intro n
      rw [placesUnder_node, atoms_node, List.map_flatMap]
      exact List.flatMap_congr fun f hf => ih f hf n
  | neg f ih => intro n; exact ih (n + 1)
  | group f ih => exact ih

/-! ### What favours a formula -/

/-- **Going from one assignment to another favours a place:** under an even number of negations its
section is not lost, and under an odd number it is not gained. -/
def Favours (before after : SectionId → Bool) (p : SectionId × Nat) : Prop :=
  (Even p.2 → before p.1 = true → after p.1 = true) ∧
    (Odd p.2 → after p.1 = true → before p.1 = true)

/-- Of a chain of either operator: it does not become false where none of its operands does. -/
theorem value_node_imp (op : Operator) {before after : SectionId → Bool} {fs : List Formula}
    (h : ∀ f ∈ fs, f.value before = true → f.value after = true) :
    (op.node fs).value before = true → (op.node fs).value after = true := by
  cases op with
  | and =>
      have hall : ∀ holds : SectionId → Bool, (Operator.and.node fs).value holds = true ↔
          ∀ f ∈ fs, f.value holds = true := by
        intro holds
        simpa [Operator.decisive] using not_congr (value_node_eq_decisive_iff .and holds fs)
      rw [hall, hall]
      exact fun hbefore f hf => h f hf (hbefore f hf)
  | or =>
      intro hbefore
      obtain ⟨f, hf, hvalue⟩ := (value_node_eq_decisive_iff .or before fs).mp hbefore
      exact (value_node_eq_decisive_iff .or after fs).mpr ⟨f, hf, h f hf hvalue⟩

theorem value_imp_under (f : Formula) {before after : SectionId → Bool} :
    ∀ n, (∀ p ∈ placesUnder n f, Favours before after p) →
      (Even n → f.value before = true → f.value after = true) ∧
        (Odd n → f.value after = true → f.value before = true) := by
  induction f using induct with
  | atom id => intro n h; exact h (id, n) (List.mem_singleton.mpr rfl)
  | node op fs ih =>
      intro n h
      rw [placesUnder_node] at h
      have hoperand := fun f hf => ih f hf n fun p hp => h p (List.mem_flatMap.mpr ⟨f, hf, hp⟩)
      refine ⟨fun heven => ?_, fun hodd => ?_⟩
      · exact value_node_imp op fun f hf => (hoperand f hf).1 heven
      · exact value_node_imp op fun f hf => (hoperand f hf).2 hodd
  | neg f ih =>
      intro n h
      obtain ⟨heven, hodd⟩ := ih (n + 1) h
      simp only [value, Bool.not_eq_true']
      refine ⟨fun hn hbefore => ?_, fun hn hafter => ?_⟩
      · by_contra hafter
        have hback := hodd hn.add_one (by simpa using hafter)
        simp [hbefore] at hback
      · by_contra hbefore
        have hon := heven hn.add_one (by simpa using hbefore)
        simp [hafter] at hon
  | group f ih => exact ih

/-- **What is favoured in all places does not become false.** -/
theorem value_imp {f : Formula} {before after : SectionId → Bool}
    (h : ∀ p ∈ f.places, Favours before after p) (hvalue : f.value before = true) :
    f.value after = true :=
  (f.value_imp_under 0 h).1 Even.zero hvalue

/-! ### One section more -/

/-- **The assignments are the same but for one section,** which is not completed in the first and
completed in the second. -/
structure Completes (id : SectionId) (before after : SectionId → Bool) : Prop where
  before_self : before id = false
  after_self : after id = true
  others : ∀ other, other ≠ id → after other = before other

section

variable {f : Formula} {id : SectionId} {before after : SectionId → Bool}

theorem Positive.value_imp (h : f.Positive id) (hmore : Completes id before after)
    (hvalue : f.value before = true) : f.value after = true := by
  refine Formula.value_imp (fun p hp => ?_) hvalue
  by_cases hid : p.1 = id
  · rw [Favours, hid, hmore.before_self, hmore.after_self]
    exact ⟨fun _ _ => rfl, fun hodd => absurd (h p hp hid) (Nat.not_even_iff_odd.mpr hodd)⟩
  · rw [Favours, hmore.others _ hid]
    exact ⟨fun _ hsame => hsame, fun _ hsame => hsame⟩

theorem Negative.value_imp (h : f.Negative id) (hmore : Completes id before after)
    (hvalue : f.value after = true) : f.value before = true := by
  refine Formula.value_imp (fun p hp => ?_) hvalue
  by_cases hid : p.1 = id
  · rw [Favours, hid, hmore.before_self, hmore.after_self]
    exact ⟨fun heven => absurd heven (Nat.not_even_iff_odd.mpr (h p hp hid)), fun _ _ => rfl⟩
  · rw [Favours, hmore.others _ hid]
    exact ⟨fun _ hsame => hsame, fun _ hsame => hsame⟩

/-- A section that has no place makes no difference. -/
theorem value_eq_of_not_mem (h : id ∉ f.atoms) (hmore : Completes id before after) :
    f.value after = f.value before := by
  have hplace : ∀ p ∈ f.places, p.1 ≠ id := by
    rintro p hp rfl
    exact h (map_fst_placesUnder f 0 ▸ List.mem_map_of_mem hp)
  have hpositive : f.Positive id := fun p hp hid => absurd hid (hplace p hp)
  have hnegative : f.Negative id := fun p hp hid => absurd hid (hplace p hp)
  exact Bool.eq_iff_iff.mpr ⟨hnegative.value_imp hmore, hpositive.value_imp hmore⟩

end

end Prerequisite.Formula
