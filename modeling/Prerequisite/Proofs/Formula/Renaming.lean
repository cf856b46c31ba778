/-
Other sections in the same places.

A restore gives sections new ids.  On a tree that is `rename`, which changes the sections and
nothing else, and it need not be one-to-one: two sections may get the same id, and ids may be
exchanged.

Two things carry over.  A renamed formula is written with the renamed tokens (`tokens_rename`) and
is normal when the formula is.  And a renamed formula asks about the new ids where the formula asked
about the old ones: as long as the answers are alike the two are evaluated in step (`eval_rename`).
-/
import Prerequisite.Proofs.Formula.Evaluation
import Prerequisite.Proofs.Formula.Normal

namespace Prerequisite

/-- The token with another section, if it has one. -/
def Token.rename (new : SectionId → SectionId) : Token → Token
  | .atom id => .atom (new id)
  | t => t

namespace Formula

variable (new : SectionId → SectionId)

mutual

/-- **The formula with other sections in the same places.** -/
def rename : Formula → Formula
  | .atom id => .atom (new id)
  | .conj fs => .conj (renameAll fs)
  | .disj fs => .disj (renameAll fs)
  | .neg f => .neg (rename f)
  | .group f => .group (rename f)

/-- The formulas with other sections in the same places. -/
def renameAll : List Formula → List Formula
  | [] => []
  | f :: fs => rename f :: renameAll fs

end

private theorem renameAll_eq_map (fs : List Formula) :
    renameAll new fs = fs.map (rename new) := by
  induction fs with
  | nil => rfl
  | cons f fs ih => rw [renameAll, ih, List.map_cons]

theorem rename_node (op : Operator) (fs : List Formula) :
    (op.node fs).rename new = op.node (fs.map (rename new)) := by
  rw [← renameAll_eq_map]
  cases op <;> rfl

/-- A formula whose sections stay what they are stays what it is. -/
theorem rename_id (f : Formula) : f.rename id = f := by
  induction f using induct with
  | atom x => rfl
  | node op fs ih => rw [rename_node, List.map_congr_left ih, List.map_id']
  | neg f ih | group f ih => rw [rename, ih]

/-! ### The tokens of a renamed formula -/

theorem needsParens_rename (place : Place) (f : Formula) :
    needsParens place (f.rename new) = needsParens place f := by
  cases f <;> cases place <;> rfl

theorem admits_rename (op : Operator) (f : Formula) : op.admits (f.rename new) = op.admits f := by
  cases op <;> cases f <;> rfl

theorem tokensIn_rename {place : Place} {f : Formula}
    (h : (f.rename new).tokens = f.tokens.map (Token.rename new)) :
    tokensIn place (f.rename new) = (tokensIn place f).map (Token.rename new) := by
  unfold tokensIn
  rw [needsParens_rename, h]
  split
  · rw [List.map_cons, List.map_append]
    rfl
  · rfl

theorem tokensAfter_rename {op : Operator} {fs : List Formula}
    (h : ∀ f ∈ fs, (f.rename new).tokens = f.tokens.map (Token.rename new)) :
    tokensAfter op (fs.map (rename new)) = (tokensAfter op fs).map (Token.rename new) := by
  have hop : op.token.rename new = op.token := by cases op <;> rfl
  induction fs with
  | nil => rfl
  | cons f fs ih =>
      rw [List.map_cons, tokensAfter_cons, tokensAfter_cons, tokensIn_rename new (h f (by simp)),
        ih fun g hg => h g (by simp [hg]), List.map_cons, List.map_append, hop]

/-- A renamed formula is written with the renamed tokens. -/
theorem tokens_rename (f : Formula) :
    (f.rename new).tokens = f.tokens.map (Token.rename new) := by
  induction f using induct with
  | atom id => rfl
  | node op fs ih =>
      rw [rename_node, tokens_node, tokens_node]
      cases fs with
      | nil => rfl
      | cons f fs =>
          rw [List.map_cons, tokensChain_cons, tokensChain_cons,
            tokensIn_rename new (ih f (by simp)),
            tokensAfter_rename new fun g hg => ih g (List.mem_cons_of_mem f hg), List.map_append]
  | neg f ih =>
      rw [rename, tokens_neg, tokens_neg, tokensIn_rename new ih, List.map_cons]
      rfl
  | group f ih =>
      rw [rename, tokens_group, tokens_group, ih, List.map_cons, List.map_append]
      rfl

theorem Normal.rename {f : Formula} (h : f.Normal) : (f.rename new).Normal := by
  have chain : ∀ (op : Operator) (fs : List Formula), 2 ≤ fs.length →
      (∀ f ∈ fs, op.admits f = true) → (∀ f ∈ fs, (f.rename new).Normal) →
      ((op.node fs).rename new).Normal := by
    intro op fs hlen hkind ih
    rw [rename_node]
    refine normal_node.mpr ⟨by simpa using hlen, ?_, ?_⟩
    · exact List.forall_mem_map.mpr fun f hf => by rw [admits_rename, hkind f hf]
    · exact List.forall_mem_map.mpr ih
  induction h with
  | atom => exact .atom
  | conj hlen hkind _ ih => exact chain .and _ hlen hkind ih
  | disj hlen hkind _ ih => exact chain .or _ hlen hkind ih
  | @neg f hkind _ ih =>
      have hrenamed : (f.rename new).isFactor = true := by
        rw [← hkind]
        exact admits_rename new .and f
      exact .neg hrenamed ih
  | group _ ih => exact .group ih

/-- New ids do not nest a formula more deeply. -/
theorem nesting_rename (f : Formula) : (f.rename new).nesting = f.nesting := by
  induction f using induct with
  | atom id => rfl
  | node op fs ih =>
      rw [rename_node, nesting_node, nesting_node]
      induction fs with
      | nil => rfl
      | cons f fs ihs =>
          rw [List.map_cons, nestingAll, nestingAll, ih f (by simp),
            ihs fun g hg => ih g (List.mem_cons_of_mem f hg)]
  | neg f ih => rw [rename, nesting, nesting, ih]
  | group f ih => rw [rename, nesting, nesting, ih]

/-! ### Evaluation in step -/

/-- **A renamed formula is evaluated in step with the formula.**  Where asking about a new id is
alike to asking about the old one, so is evaluating the renamed formula to evaluating the formula.
-/
theorem eval_rename {ε σ τ : Type} {R : σ → τ → Prop}
    {resolve : SectionId → UserId → EStateM ε σ Bool}
    {resolve' : SectionId → UserId → EStateM ε τ Bool} {user : UserId} (f : Formula)
    (h : ∀ id ∈ f.atoms, ∀ s t, R s t → Alike R (resolve id user s) (resolve' (new id) user t)) :
    ∀ s t, R s t → Alike R (f.eval resolve user s) ((f.rename new).eval resolve' user t) := by
  induction f using induct with
  | atom id =>
      intro s t hst
      exact h id (by simp) s t hst
  | node op fs ih =>
      intro s t hst
      rw [rename_node, eval_node, eval_node]
      refine evalChain_alike op (fun f hf => ih f hf fun id hid => h id ?_) s t hst
      rw [atoms_node]
      exact List.mem_flatMap.mpr ⟨f, hf, hid⟩
  | neg f ih =>
      intro s t hst
      have hf := ih h s t hst
      rw [rename, eval, eval]
      generalize f.eval resolve user s = r, (f.rename new).eval resolve' user t = r' at hf ⊢
      cases hf with
      | ok hst' => exact .ok hst'
      | error hst' => exact .error hst'
  | group f ih =>
      intro s t hst
      rw [rename, eval, eval]
      exact ih h s t hst

end Formula

end Prerequisite
