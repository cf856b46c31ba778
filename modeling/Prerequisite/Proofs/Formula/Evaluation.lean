/-
Evaluating chains.

A conjunction goes on while its operands hold and a disjunction while they do not; otherwise the two
are evaluated in the same way.  `evalChain` is that way, for either operator: operands are evaluated
until one has the value that decides the chain.

Two evaluations are compared here.  Formulas with `SameAnswers` cannot be told apart by evaluating
them, not even by what is asked.  Results that are `Alike` come from evaluations over two states
that are kept in step.
-/
import Prerequisite.Formula.Evaluation
import Prerequisite.Proofs.Formula.Tree

namespace Prerequisite

/-- The value of an operand that decides a chain. -/
def Operator.decisive : Operator → Bool
  | .and => false
  | .or => true

namespace Formula

section

variable {ε σ : Type} (resolve : SectionId → UserId → EStateM ε σ Bool) (user : UserId)

/-- Evaluates operands until one decides the chain. -/
def evalChain (op : Operator) : List Formula → σ → EStateM.Result ε σ Bool
  | [], s => .ok (!op.decisive) s
  | f :: fs, s =>
      match f.eval resolve user s with
      | .ok b s' => if b = op.decisive then .ok b s' else evalChain op fs s'
      | .error e s' => .error e s'

private theorem evalAll_eq_evalChain (fs : List Formula) :
    ∀ s, evalAll resolve user fs s = evalChain resolve user .and fs s := by
  induction fs with
  | nil => intro s; rfl
  | cons f fs ih =>
      intro s
      rw [evalAll, evalChain]
      cases f.eval resolve user s with
      | error e s' => rfl
      | ok b s' =>
          cases b with
          | false => rfl
          | true => exact ih s'

private theorem evalAny_eq_evalChain (fs : List Formula) :
    ∀ s, evalAny resolve user fs s = evalChain resolve user .or fs s := by
  induction fs with
  | nil => intro s; rfl
  | cons f fs ih =>
      intro s
      rw [evalAny, evalChain]
      cases f.eval resolve user s with
      | error e s' => rfl
      | ok b s' =>
          cases b with
          | true => rfl
          | false => exact ih s'

theorem eval_node (op : Operator) (fs : List Formula) (s : σ) :
    (op.node fs).eval resolve user s = evalChain resolve user op fs s := by
  cases op with
  | and => rw [Operator.node, eval, evalAll_eq_evalChain]
  | or => rw [Operator.node, eval, evalAny_eq_evalChain]

end

/-! ### Values of chains -/

theorem value_node_nil (op : Operator) (holds : SectionId → Bool) :
    (op.node []).value holds = !op.decisive := by
  cases op <;> rfl

theorem value_node_cons (op : Operator) (holds : SectionId → Bool) (f : Formula)
    (fs : List Formula) : (op.node (f :: fs)).value holds =
      if f.value holds = op.decisive then op.decisive else (op.node fs).value holds := by
  cases op with
  | and =>
      show (f.value holds && valueAll holds fs) = _
      cases f.value holds <;> rfl
  | or =>
      show (f.value holds || valueAny holds fs) = _
      cases f.value holds <;> rfl

theorem value_eq_of_decisive_iff (op : Operator) {holds : SectionId → Bool} {f g : Formula}
    (h : f.value holds = op.decisive ↔ g.value holds = op.decisive) :
    f.value holds = g.value holds := by
  have hbool : ∀ a b d : Bool, (a = d ↔ b = d) → a = b := by decide
  exact hbool _ _ _ h

/-- **A chain is decided exactly if one of its operands decides it,** wherever that stands. -/
theorem value_node_eq_decisive_iff (op : Operator) (holds : SectionId → Bool)
    (fs : List Formula) :
    (op.node fs).value holds = op.decisive ↔ ∃ f ∈ fs, f.value holds = op.decisive := by
  induction fs with
  | nil => simp [value_node_nil]
  | cons f fs ih =>
      rw [value_node_cons]
      by_cases hf : f.value holds = op.decisive
      · simp [hf]
      · simp [hf, ih]

/-! ### Formulas with the same answers -/

/-- **Two formulas answer alike,** whoever is asked and whatever the asking changes. -/
def SameAnswers (f g : Formula) : Prop :=
  ∀ (ε σ : Type) (resolve : SectionId → UserId → EStateM ε σ Bool) (user : UserId) (s : σ),
    f.eval resolve user s = g.eval resolve user s

namespace SameAnswers

theorem refl (f : Formula) : SameAnswers f f := fun _ _ _ _ _ => rfl

theorem symm {f g : Formula} (h : SameAnswers f g) : SameAnswers g f :=
  fun ε σ resolve user s => (h ε σ resolve user s).symm

theorem trans {f g h : Formula} (hfg : SameAnswers f g) (hgh : SameAnswers g h) :
    SameAnswers f h :=
  fun ε σ resolve user s => (hfg ε σ resolve user s).trans (hgh ε σ resolve user s)

theorem neg {f g : Formula} (h : SameAnswers f g) : SameAnswers (.neg f) (.neg g) := by
  intro ε σ resolve user s
  rw [eval, eval, h]

theorem group {f g : Formula} (h : SameAnswers f g) : SameAnswers (.group f) (.group g) := by
  intro ε σ resolve user s
  rw [eval, eval, h]

theorem of_group (f : Formula) : SameAnswers (.group f) f := by
  intro ε σ resolve user s
  rw [eval]

/-- A chain of one operand answers like the operand. -/
theorem node_singleton (op : Operator) (f : Formula) : SameAnswers (op.node [f]) f := by
  intro ε σ resolve user s
  rw [eval_node, evalChain]
  cases f.eval resolve user s with
  | error e s' => rfl
  | ok b s' => cases op <;> cases b <;> rfl

/-- Operands in front of a chain can take the place of one operand that answers like their chain. -/
theorem node_append (op : Operator) {f : Formula} {fs gs hs : List Formula}
    (h : SameAnswers (op.node gs) f) (h' : SameAnswers (op.node hs) (op.node fs)) :
    SameAnswers (op.node (gs ++ hs)) (op.node (f :: fs)) := by
  intro ε σ resolve user s
  have hrest : ∀ s, evalChain resolve user op hs s = evalChain resolve user op fs s := by
    intro s
    rw [← eval_node, ← eval_node]
    exact h' ε σ resolve user s
  rw [eval_node, eval_node, evalChain, ← h, eval_node]
  clear h
  induction gs generalizing s with
  | nil =>
      have hopen : (!op.decisive) ≠ op.decisive := by cases op <;> decide
      rw [List.nil_append, evalChain]
      simp only [if_neg hopen]
      exact hrest s
  | cons g gs ih =>
      rw [List.cons_append, evalChain, evalChain]
      cases g.eval resolve user s with
      | error e s' => rfl
      | ok b s' =>
          by_cases hb : b = op.decisive
          · simp only [if_pos hb]
          · simp only [if_neg hb]
            exact ih s'

end SameAnswers

end Formula

/-! ### Evaluation in step -/

/-- **Two results are alike** when they give the same answer, in states that are related. -/
inductive Alike {ε σ τ α : Type} (R : σ → τ → Prop) :
    EStateM.Result ε σ α → EStateM.Result ε τ α → Prop
  | ok {a : α} {s : σ} {t : τ} (h : R s t) : Alike R (.ok a s) (.ok a t)
  | error {e : ε} {s : σ} {t : τ} (h : R s t) : Alike R (.error e s) (.error e t)

namespace Formula

variable {ε σ τ : Type} {R : σ → τ → Prop} {resolve : SectionId → UserId → EStateM ε σ Bool}
  {resolve' : SectionId → UserId → EStateM ε τ Bool} {user : UserId}

/-- Chains whose operands are evaluated in step are evaluated in step. -/
theorem evalChain_alike (op : Operator) {new : Formula → Formula} {fs : List Formula}
    (h : ∀ f ∈ fs, ∀ s t, R s t →
      Alike R (f.eval resolve user s) ((new f).eval resolve' user t)) :
    ∀ s t, R s t → Alike R (evalChain resolve user op fs s)
      (evalChain resolve' user op (fs.map new) t) := by
  induction fs with
  | nil => intro s t hst; exact .ok hst
  | cons f fs ih =>
      intro s t hst
      have hrest := ih fun g hg => h g (by simp [hg])
      have hf := h f (by simp) s t hst
      rw [List.map_cons, evalChain, evalChain]
      generalize f.eval resolve user s = r, (new f).eval resolve' user t = r' at hf ⊢
      cases hf with
      | error hst' => exact .error hst'
      | @ok b _ _ hst' =>
          by_cases hb : b = op.decisive
          · simp only [if_pos hb]
            exact .ok hst'
          · simp only [if_neg hb]
            exact hrest _ _ hst'

end Formula

end Prerequisite
