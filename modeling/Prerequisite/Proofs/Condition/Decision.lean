/-
Who may enter.

The decision about a user is made from what the host answers about the sections of a condition, and
from nothing else.  `Decision` says what it has come to between two states of the host: which
questions were put and answered, that they are those which the rules of short cuts leave
(`Formula.Decides`), and what follows from the answers.  Nothing is assumed about the host.  It may
answer the same question in different ways, and asking may change it.

A user who is not enrolled has completed nothing, so that answer counts as a no and is never passed
on as a failure.  Where there is nobody to ask, everybody may enter and the host is told once.

The value when nothing is completed needs the shape of formulas that were read: a chain without
operands could come out as true, and no text is read as one.
-/
import Prerequisite.Condition.Query
import Prerequisite.Proofs.Formula.Normal
import Prerequisite.Proofs.Formula.Shortcut
import Prerequisite.Proofs.Host

namespace Prerequisite

/-! ### Formulas without negations -/

theorem Scan.mem_of_not {p : Nat} {text : List Char} {ps : List Piece} (h : Cuts p text ps)
    (hnot : .not ∈ (ps.filterMap Piece.lexeme?).map Lexeme.token) : '!' ∈ text := by
  induction h with
  | nil => exact absurd hnot (by simp)
  | blank _ _ ih =>
      rw [lexemes_blank] at hnot
      exact List.mem_cons_of_mem _ (ih hnot)
  | @mark p c t rest ps hc _ ih =>
      rw [lexemes_lexeme, List.map_cons] at hnot
      rcases List.mem_cons.mp hnot with ht | hnot
      · have hchars := chars_of_ofChar? hc
        obtain rfl : .not = t := ht
        obtain rfl : '!' = c := List.singleton_inj.mp hchars
        exact List.mem_cons_self
      · exact List.mem_cons_of_mem _ (ih hnot)
  | run _ _ _ _ _ ih =>
      rw [lexemes_lexeme, List.map_cons] at hnot
      rcases List.mem_cons.mp hnot with ht | hnot
      · exact absurd ht (by simp)
      · exact List.mem_append_right _ (ih hnot)

namespace Formula

theorem mem_tokensIn {place : Place} {f : Formula} {t : Token} (h : t ∈ f.tokens) :
    t ∈ tokensIn place f := by
  unfold tokensIn
  split
  · exact List.mem_cons_of_mem _ (List.mem_append_left _ h)
  · exact h

theorem mem_tokens_node {op : Operator} {f : Formula} {fs : List Formula} {t : Token}
    (hf : f ∈ fs) (h : t ∈ f.tokens) : t ∈ (op.node fs).tokens := by
  rw [tokens_node]
  cases fs with
  | nil => exact absurd hf (by simp)
  | cons g fs =>
      rw [tokensChain_cons]
      rcases List.mem_cons.mp hf with rfl | hf
      · exact List.mem_append_left _ (mem_tokensIn h)
      · refine List.mem_append_right _ (List.mem_flatMap.mpr ⟨f, hf, ?_⟩)
        exact List.mem_cons_of_mem _ (mem_tokensIn h)

/-- Operands that have one value give it to their chain. -/
theorem value_node_of_forall (op : Operator) {holds : SectionId → Bool} {b : Bool}
    {fs : List Formula} (hne : fs ≠ []) (h : ∀ f ∈ fs, f.value holds = b) :
    (op.node fs).value holds = b := by
  induction fs with
  | nil => exact absurd rfl hne
  | cons f fs ih =>
      rw [value_node_cons, h f (by simp)]
      by_cases hb : b = op.decisive
      · rw [if_pos hb, hb]
      · rw [if_neg hb]
        by_cases hfs : fs = []
        · rw [hfs, value_node_nil]
          exact (Bool.eq_not_of_ne hb).symm
        · exact ih hfs fun g hg => h g (List.mem_cons_of_mem f hg)

/-- **A formula without negations has the value that all its sections have.** -/
theorem Normal.value_uniform {f : Formula} {holds : SectionId → Bool} {b : Bool} (h : f.Normal)
    (hnot : .not ∉ f.tokens) (hb : ∀ id ∈ f.atoms, holds id = b) : f.value holds = b := by
  have hchain : ∀ (op : Operator) (fs : List Formula), 2 ≤ fs.length →
      (∀ f ∈ fs, .not ∉ f.tokens → (∀ id ∈ f.atoms, holds id = b) → f.value holds = b) →
      .not ∉ (op.node fs).tokens → (∀ id ∈ (op.node fs).atoms, holds id = b) →
      (op.node fs).value holds = b := by
    intro op fs hlen ih hnot hb
    refine value_node_of_forall op (List.ne_nil_of_length_pos (by omega)) ?_
    intro f hf
    refine ih f hf (fun hmem => hnot (mem_tokens_node hf hmem)) fun id hid => hb id ?_
    rw [atoms_node]
    exact List.mem_flatMap.mpr ⟨f, hf, hid⟩
  induction h with
  | @atom id => exact hb id (by simp)
  | conj hlen _ _ ih => exact hchain .and _ hlen ih hnot hb
  | disj hlen _ _ ih => exact hchain .or _ hlen ih hnot hb
  | neg => exact absurd (by simp) hnot
  | group _ ih => exact ih (fun hmem => hnot (by simp [hmem])) hb

end Formula

namespace Condition

variable {σ : Type}

theorem not_mem_tokens_of_no_negation {c : Condition} (h : '!' ∉ c.formula.toList) :
    .not ∉ c.tree.tokens := by
  obtain ⟨ps, hps⟩ := Formula.cuts_of_parse c.reads
  rw [Formula.tokens_of_parse c.reads hps]
  exact fun hnot => h (Scan.mem_of_not hps hnot)

theorem value_uniform_of_no_negation {c : Condition} {holds : SectionId → Bool} {b : Bool}
    (h : '!' ∉ c.formula.toList) (hb : ∀ id ∈ c.tree.atoms, holds id = b) :
    c.tree.value holds = b :=
  (Formula.normal_of_parse c.reads).value_uniform (not_mem_tokens_of_no_negation h) hb

/-! ### What answers count as -/

/-- **What an answer about completion counts as:** a user who is not enrolled has completed
nothing. -/
def counted : Except ServiceError Bool → Except ServiceError Bool
  | .error (.notEnrolled _) => .ok false
  | x => x

theorem counted_eq_error {x : Except ServiceError Bool} {e : ServiceError}
    (h : counted x = .error e) : x = .error e ∧ ∀ user, e ≠ .notEnrolled user := by
  cases x with
  | ok b => exact absurd h (by simp [counted])
  | error e' =>
      cases e' with
      | notEnrolled user => exact absurd h (by simp [counted])
      | unavailable reason | storage reason =>
          injection h with he
          subst he
          exact ⟨rfl, fun _ => ServiceError.noConfusion⟩

theorem satisfied_eq_counted {host : Host σ} {id : SectionId} {user : UserId}
    {x : Except ServiceError Bool} {s t : σ} (h : host.completed id user s = answering x t) :
    host.satisfied id user s = answering (counted x) t := by
  unfold Host.satisfied
  rw [h]
  cases x with
  | ok b => rfl
  | error e => cases e <;> rfl

/-- A question and what its answer counts as. -/
def countedQuestion (q : SectionId × Except ServiceError Bool) :
    SectionId × Except ServiceError Bool :=
  (q.1, counted q.2)

/-- Behind the questions whether sections are satisfied are questions about completion. -/
theorem asks_completed {host : Host σ} {user : UserId} {s t : σ}
    {rs : List (SectionId × Except ServiceError Bool)} (h : Asks host.satisfied user s rs t) :
    ∃ qs, Asks host.completed user s qs t ∧ rs = qs.map countedQuestion := by
  induction h with
  | nil => exact ⟨[], .nil, rfl⟩
  | @cons id x s t u rs h _ ih =>
      obtain ⟨qs, hqs, rfl⟩ := ih
      obtain ⟨y, t', hy⟩ := exists_answering (host.completed id user s)
      have hsame : answering x t = answering (counted y) t' :=
        h.symm.trans (satisfied_eq_counted hy)
      obtain ⟨rfl, rfl⟩ : x = counted y ∧ t = t' := answering_inj hsame
      exact ⟨(id, y) :: qs, .cons hy hqs, rfl⟩

/-! ### The decision -/

/-- **What a decision has come to:** between two states of the host these questions were put and so
answered, and this is what follows from them. -/
structure Decision (host : Host σ) (user : UserId) (c : Condition) (s t : σ)
    (qs : List (SectionId × Except ServiceError Bool)) (x : Except ServiceError Bool) : Prop where
  /-- The host was used for these questions only. -/
  asked : Asks host.completed user s qs t
  /-- They are the ones that short cuts leave, and others could not change the value. -/
  shortcut : ∃ os, Occurrence.questions os = qs.map countedQuestion ∧ c.tree.Decides os x ∧
    ∀ v, x = .ok v → ∀ bs, List.Forall₂ Occurrence.Allows os bs → (c.tree.valueAlong bs).1 = v
  value : ∀ v, x = .ok v → (∀ q ∈ qs, ∃ b, counted q.2 = .ok b) ∧
    ∀ holds, (∀ q ∈ qs, counted q.2 = .ok (holds q.1)) → c.tree.value holds = v
  /-- A failure is the last answer, and those before it were answers. -/
  failure : ∀ e, x = .error e → (∀ u, e ≠ .notEnrolled u) ∧
    ∃ before id, qs = before ++ [(id, .error e)] ∧ ∀ q ∈ before, ∃ b, counted q.2 = .ok b

theorem exists_decision (host : Host σ) (user : UserId) (c : Condition) (s : σ) :
    ∃ qs x t, Decision host user c s t qs x ∧
      c.tree.eval host.satisfied user s = answering x t := by
  obtain ⟨os, x, t, hdec, hasks, heval⟩ := Formula.eval_decides host.satisfied user c.tree s
  obtain ⟨qs, hqs, hquestions⟩ := asks_completed hasks
  have hconcluded := hdec.concluded
  rw [hquestions] at hconcluded
  refine ⟨qs, x, t, ⟨hqs, ⟨os, hquestions, hdec, ?_⟩, ?_, ?_⟩, heval⟩
  · intro v hv bs hbs
    have hvalue := hdec.settles v hv bs hbs []
    rwa [List.append_nil] at hvalue
  · rintro v rfl
    refine ⟨?_, ?_⟩
    · intro q hq
      exact hconcluded.answered_of_ok _ (List.mem_map_of_mem hq)
    · intro holds hholds
      refine hdec.value_eq ?_
      rw [hquestions]
      intro r hr
      obtain ⟨q, hq, rfl⟩ := List.mem_map.mp hr
      exact hholds q hq
  · rintro e rfl
    obtain ⟨rs, id, hrs, hanswered⟩ := hconcluded.exists_last
    obtain ⟨before, last, rfl, rfl, hlast⟩ := List.map_eq_append_iff.mp hrs
    obtain ⟨q, rest, rfl, hq, hnil⟩ := List.map_eq_cons_iff.mp hlast
    obtain rfl : rest = [] := List.map_eq_nil_iff.mp hnil
    obtain ⟨hid, he⟩ := Prod.mk.inj hq
    obtain ⟨hq2, hne⟩ := counted_eq_error he
    refine ⟨hne, before, q.1, ?_, ?_⟩
    · rw [← hq2]
    · intro p hp
      exact hanswered _ (List.mem_map_of_mem hp)

/-- Who is not enrolled is decided about as one who has completed nothing. -/
theorem Decision.of_notEnrolled {host : Host σ} {user : UserId} {c : Condition} {s t : σ}
    {qs : List (SectionId × Except ServiceError Bool)} {x : Except ServiceError Bool}
    (h : Decision host user c s t qs x) (hno : ∀ q ∈ qs, ∃ u, q.2 = .error (.notEnrolled u)) :
    x = .ok (c.tree.value fun _ => false) := by
  cases x with
  | ok v =>
      obtain ⟨-, hvalue⟩ := h.value v rfl
      rw [hvalue (fun _ => false)]
      intro q hq
      obtain ⟨u, hu⟩ := hno q hq
      rw [hu]
      rfl
  | error e =>
      obtain ⟨hne, before, id, rfl, -⟩ := h.failure e rfl
      obtain ⟨u, hu⟩ := hno (id, .error e) (by simp)
      exact absurd (Except.error.inj hu) (hne u)

/--
**The decision about a user, in full.**

Where there is nobody to ask, everybody satisfies the condition, and all that happens is that the
host is told so.  Otherwise the host is asked what short cuts leave and nothing else, and the
decision is the value of the formula by the answers or the failure that was the last of them.  A
user who is not enrolled wherever that is asked gets the value of the formula when nothing is
completed, and that is false unless there is a `!` in it.  To negate a decision is to take its
opposite, after the same questions, and asking in bulk makes no difference.
-/
theorem available_in_full (host : Host σ) (user : UserId) (c : Condition) (s : σ) :
    (match host.dependency with
      | .missing => ∀ negate inBulk, c.available host user negate inBulk s = .ok (!negate)
          (host.record
            { name := "dependency_missing", time := host.now s, severity := .warning,
              scope := c.scope, formula := c.formula, user := some user, restore := none,
              sectionId := none, message := "local_adler is not available" } s)
      | .installed => ∃ qs x t, Decision host user c s t qs x ∧
          (∀ negate inBulk, c.available host user negate inBulk s =
            answering ((x.map (· != negate)).mapError .service) t) ∧
          ((∀ q ∈ qs, ∃ u, q.2 = .error (.notEnrolled u)) →
            x = .ok (c.tree.value fun _ => false))) ∧
    ('!' ∉ c.formula.toList → c.tree.value (fun _ => false) = false) := by
  refine ⟨?_, fun h => value_uniform_of_no_negation h fun _ _ => rfl⟩
  cases hdep : host.dependency with
  | missing =>
      intro negate inBulk
      unfold available satisfied
      simp only [hdep]
      rw [Bool.true_bne]
      rfl
  | installed =>
      obtain ⟨qs, x, t, hdecision, heval⟩ := exists_decision host user c s
      refine ⟨qs, x, t, hdecision, ?_, hdecision.of_notEnrolled⟩
      intro negate inBulk
      unfold available satisfied
      simp only [hdep, heval]
      cases x <;> rfl

end Condition

end Prerequisite
