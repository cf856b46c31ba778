/-
A user who completes more.

Two hosts are compared here that never fail to say what a user has completed (`Host.Knows`), or the
same host at two times.  What the user has completed by one and not by the other can only move the
decision in the direction that its negations allow.

So where nothing is negated, more sections are never worse.  Such a formula does not hold for those
who have completed nothing of it and holds for those who have completed all of it, for the chains
of a formula that was read have operands.
-/
import Prerequisite.Host.Records
import Prerequisite.Proofs.Condition.Decision
import Prerequisite.Proofs.Formula.Polarity

namespace Prerequisite

namespace Formula

/-- Without negations, no place is under more of them than are around the formula. -/
theorem placesUnder_of_no_negation {f : Formula} {n : Nat} (h : .not ∉ f.tokens) :
    ∀ p ∈ placesUnder n f, p.2 = n := by
  induction f using induct with
  | atom id =>
      intro p hp
      rw [List.mem_singleton.mp hp]
  | node op fs ih =>
      intro p hp
      rw [placesUnder_node] at hp
      obtain ⟨f, hf, hp⟩ := List.mem_flatMap.mp hp
      exact ih f hf (fun hmem => h (mem_tokens_node hf hmem)) p hp
  | neg f ih => exact absurd (by simp) h
  | group f ih => exact ih fun hmem => h (by simp [hmem])

/-- **Without negations, more sections are never worse.** -/
theorem value_imp_of_no_negation {f : Formula} (h : .not ∉ f.tokens)
    {before after : SectionId → Bool} (hmore : ∀ id, before id = true → after id = true)
    (hvalue : f.value before = true) : f.value after = true := by
  refine value_imp (fun p hp => ⟨fun _ => hmore p.1, fun hodd => ?_⟩) hvalue
  rw [placesUnder_of_no_negation h p hp] at hodd
  exact absurd hodd (by decide)

end Formula

/-- **A host always knows what a user has completed,** the sections with `holds`.  Of the others it
may also say that the user is not enrolled, now and then. -/
def Host.Knows {σ : Type} (host : Host σ) (user : UserId) (holds : SectionId → Bool) : Prop :=
  ∀ id s, ∃ x t, host.completed id user s = answering x t ∧ Condition.counted x = .ok (holds id)

namespace Condition

section

variable {σ τ : Type} {host : Host σ} {host' : Host τ} {user : UserId}
  {holds holds' : SectionId → Bool}

theorem counted_of_knows (h : host.Knows user holds) {s t : σ}
    {qs : List (SectionId × Except ServiceError Bool)} (hasks : Asks host.completed user s qs t) :
    ∀ q ∈ qs, counted q.2 = .ok (holds q.1) := by
  induction hasks with
  | nil => simp
  | @cons id x s t u qs hask _ ih =>
      obtain ⟨y, t', hy, hcounted⟩ := h id s
      obtain ⟨rfl, -⟩ := answering_inj (hask.symm.trans hy)
      exact List.forall_mem_cons.mpr ⟨hcounted, ih⟩

/-- **A host that knows what a user has completed comes to the value of the formula,** unless there
is nobody to ask. -/
theorem available_of_knows (h : host.Knows user holds) (c : Condition) (inBulk : Bool) (s : σ) :
    ∃ t, c.available host user false inBulk s =
      .ok (!host.dependency.isInstalled || c.tree.value holds) t := by
  unfold available satisfied
  cases host.dependency with
  | missing => exact ⟨_, rfl⟩
  | installed =>
      obtain ⟨qs, x, t, hdecision, heval⟩ := exists_decision host user c s
      have hcounted := counted_of_knows h hdecision.asked
      cases x with
      | ok v =>
          refine ⟨t, ?_⟩
          simp only [heval, answering, (hdecision.value v rfl).2 holds hcounted, Bool.bne_false]
          rfl
      | error e =>
          -- The last answer would be a failure, and it counts as a yes or a no.
          obtain ⟨hne, before, id, rfl, -⟩ := hdecision.failure e rfl
          have hlast := hcounted (id, .error e) (by simp)
          cases e with
          | notEnrolled u => exact absurd rfl (hne u)
          | unavailable reason | storage reason => exact absurd hlast (by simp [counted])

/--
**Availability follows polarity.**

Let two hosts know what a user has completed, and let both or neither have somebody to ask.  Both
come to a decision.  If by the second the user has completed one section more, and all its places
are under an even number of negations, the element is open by the second if it was by the first; if
they are under an odd number, it is the other way round; and if it has no place, nothing changes.

Without a `!` in its text, a condition is open by the second host if it was by the first and the
user has lost nothing.  It is not open to who has completed nothing of it if there is somebody to
ask, and it is open to who has completed all of it.
-/
theorem availability_follows_polarity (h : host.Knows user holds) (h' : host'.Knows user holds')
    (hdep : host'.dependency = host.dependency) (c : Condition) (inBulk : Bool) (s : σ) (t : τ) :
    ∃ b b' s' t', c.available host user false inBulk s = .ok b s' ∧
      c.available host' user false inBulk t = .ok b' t' ∧
      (∀ id, Formula.Completes id holds holds' →
        (c.tree.Positive id → b = true → b' = true) ∧
        (c.tree.Negative id → b' = true → b = true) ∧
        (id ∉ c.tree.atoms → b' = b)) ∧
      ('!' ∉ c.formula.toList →
        ((∀ id, holds id = true → holds' id = true) → b = true → b' = true) ∧
        (host.dependency = .installed → (∀ id ∈ c.tree.atoms, holds id = false) → b = false) ∧
        ((∀ id ∈ c.tree.atoms, holds id = true) → b = true)) := by
  obtain ⟨s', hs⟩ := available_of_knows h c inBulk s
  obtain ⟨t', ht⟩ := available_of_knows h' c inBulk t
  rw [hdep] at ht
  refine ⟨_, _, s', t', hs, ht, ?_, ?_⟩
  · intro id hmore
    simp only [Bool.or_eq_true]
    refine ⟨fun hpos => ?_, fun hneg => ?_, fun hno => ?_⟩
    · exact Or.imp_right (hpos.value_imp hmore)
    · exact Or.imp_right (hneg.value_imp hmore)
    · rw [Formula.value_eq_of_not_mem hno hmore]
  · intro htext
    have hnot := not_mem_tokens_of_no_negation htext
    refine ⟨fun hmore => ?_, fun hinstalled hnone => ?_, fun hall => ?_⟩
    · simp only [Bool.or_eq_true]
      exact Or.imp_right (Formula.value_imp_of_no_negation hnot hmore)
    · rw [hinstalled, value_uniform_of_no_negation htext hnone]
      rfl
    · rw [value_uniform_of_no_negation htext hall, Bool.or_true]

end

/-- Where there is nobody to ask, the element is open to a user who has completed nothing. -/
theorem available_without_dependency :
    ∃ (c : Condition) (j : Journal), c.formula = "1" ∧ '!' ∉ "1".toList ∧
      (Records.empty.withDependency .missing).answers.host.Knows ⟨7⟩ (fun _ => false) ∧
      c.available (Records.empty.withDependency .missing).answers.host ⟨7⟩ false false .empty =
        .ok true j := by
  have hread : Formula.parse Limits.default "1" = .ok (.atom ⟨1⟩) := by cbv
  refine ⟨⟨.room, "1", _, _, hread⟩, _, rfl, by decide, fun id j => ?_, rfl⟩
  exact ⟨_, _, Answers.reply_eq (.completion id ⟨7⟩)
    ((Records.empty.withDependency .missing).answers.completed id ⟨7⟩) j, rfl⟩

/-- A host where these sections are completed, and where nobody is enrolled for any other. -/
def enrolledFor (ids : List SectionId) : Answers where
  completed id user := if id ∈ ids then .ok true else .error (.notEnrolled user)
  sectionName _ := .ok ""
  phrase _ _ _ := .ok ""
  newId _ _ _ := .ok none
  dependency := .installed
  time := 0

/-- In `1^!(2^!3)` the third section is under two negations, and completing it closes nothing. -/
theorem availability_follows_polarity_of_two_negations :
    ∃ (c : Condition) (j j' : Journal), c.formula = "1^!(2^!3)" ∧
      c.tree.Positive ⟨3⟩ ∧ c.tree.Negative ⟨2⟩ ∧
      (enrolledFor [⟨1⟩]).host.Knows ⟨7⟩ (fun id => decide (id ∈ [⟨1⟩])) ∧
      (enrolledFor [⟨1⟩, ⟨3⟩]).host.Knows ⟨7⟩ (fun id => decide (id ∈ [⟨1⟩, ⟨3⟩])) ∧
      Formula.Completes ⟨3⟩ (fun id => decide (id ∈ [⟨1⟩])) (fun id => decide (id ∈ [⟨1⟩, ⟨3⟩])) ∧
      c.available (enrolledFor [⟨1⟩]).host ⟨7⟩ false false .empty = .ok true j ∧
      c.available (enrolledFor [⟨1⟩, ⟨3⟩]).host ⟨7⟩ false false .empty = .ok true j' := by
  have hknows : ∀ ids, (enrolledFor ids).host.Knows ⟨7⟩ fun id => decide (id ∈ ids) := by
    intro ids id j
    refine ⟨_, _, Answers.reply_eq (.completion id ⟨7⟩) ((enrolledFor ids).completed id ⟨7⟩) j, ?_⟩
    by_cases hid : id ∈ ids
    · simp [enrolledFor, hid, counted]
    · simp [enrolledFor, hid, counted]
  have hread : Formula.parse ⟨9, 3⟩ "1^!(2^!3)" =
      .ok (.conj [.atom ⟨1⟩, .neg (.group (.conj [.atom ⟨2⟩, .neg (.atom ⟨3⟩)]))]) := by cbv
  have hpositive : (Formula.conj [.atom ⟨1⟩,
      .neg (.group (.conj [.atom ⟨2⟩, .neg (.atom ⟨3⟩)]))]).Positive ⟨3⟩ := by decide
  have hnegative : (Formula.conj [.atom ⟨1⟩,
      .neg (.group (.conj [.atom ⟨2⟩, .neg (.atom ⟨3⟩)]))]).Negative ⟨2⟩ := by decide
  have hmore : Formula.Completes ⟨3⟩ (fun id => decide (id ∈ [⟨1⟩]))
      (fun id => decide (id ∈ [⟨1⟩, ⟨3⟩])) := by
    refine ⟨by decide, by decide, fun other hother => ?_⟩
    simp [hother]
  obtain ⟨b, b', j, j', hb, hb', hpolarity, -⟩ := availability_follows_polarity
    (hknows [⟨1⟩]) (hknows [⟨1⟩, ⟨3⟩]) rfl ⟨.room, "1^!(2^!3)", _, ⟨9, 3⟩, hread⟩ false .empty
    .empty
  obtain rfl : b = true := by
    have hopen : Condition.available (enrolledFor [⟨1⟩]).host ⟨7⟩ false false
        ⟨.room, "1^!(2^!3)", _, ⟨9, 3⟩, hread⟩ .empty = .ok true _ := rfl
    rw [hopen] at hb
    injection hb with hb
    exact hb.symm
  obtain rfl : b' = true := (hpolarity ⟨3⟩ hmore).1 hpositive rfl
  exact ⟨_, j, j', rfl, hpositive, hnegative, hknows _, hknows _, hmore, hb, hb'⟩

end Condition

end Prerequisite
