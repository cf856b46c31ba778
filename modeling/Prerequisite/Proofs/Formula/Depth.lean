/-
How deep a formula can be.

A formula that was read has chains of any length, but what it is deep in are negations and groups:
below each of them come a disjunction, a conjunction and a factor at most before the next one.  So
the limit on nesting is a limit on depth, three levels for each level of nesting and three more
(`Normal.depth_le`).  There are formulas as deep as that for every nesting (`deepest`).

The limits on a text are put together here: they cut readings off and do nothing else.
-/
import Prerequisite.Proofs.Formula.Limits

namespace Prerequisite

namespace Formula

theorem depthAll_le {k : Nat} {fs : List Formula} (h : ∀ f ∈ fs, f.depth ≤ k) :
    ∀ {d : Nat}, d ≤ k → depthAll d fs ≤ k := by
  induction fs with
  | nil => intro d hd; exact hd
  | cons f fs ih =>
      intro d hd
      rw [depthAll]
      exact ih (fun g hg => h g (List.mem_cons_of_mem f hg)) (Nat.max_le.mpr ⟨hd, h f (by simp)⟩)

/-- A chain is one level deeper than its operands. -/
theorem depth_node_le (op : Operator) {k : Nat} {fs : List Formula}
    (h : ∀ f ∈ fs, f.depth ≤ k) : (op.node fs).depth ≤ k + 1 := by
  have hall : depthAll 0 fs ≤ k := depthAll_le h (Nat.zero_le k)
  have hdepth : (op.node fs).depth = 1 + depthAll 0 fs := by cases op <;> rfl
  omega

theorem nesting_le_of_mem {f : Formula} {fs : List Formula} (h : f ∈ fs) :
    f.nesting ≤ nestingAll fs := by
  induction fs with
  | nil => exact absurd h (by simp)
  | cons g fs ih =>
      rw [nestingAll]
      rcases List.mem_cons.mp h with rfl | h
      · exact Nat.le_max_left _ _
      · exact Nat.le_trans (ih h) (Nat.le_max_right _ _)

/-- How many levels a formula may have besides those below its negations and groups. -/
def tier : Formula → Nat
  | .atom _ | .neg _ | .group _ => 1
  | .conj _ => 2
  | .disj _ => 3

theorem tier_le (f : Formula) : f.tier ≤ 3 := by
  cases f <;> simp [tier]

theorem tier_of_isFactor {f : Formula} (h : f.isFactor = true) : f.tier = 1 := by
  cases f with
  | atom | neg | group => rfl
  | conj | disj => exact absurd h (by simp [isFactor])

theorem tier_le_of_isConjunct {f : Formula} (h : f.isConjunct = true) : f.tier ≤ 2 := by
  cases f with
  | atom | neg | group | conj => simp [tier]
  | disj => exact absurd h (by simp [isConjunct])

theorem Normal.depth_le_tier {f : Formula} (h : f.Normal) :
    f.depth ≤ 3 * f.nesting + f.tier := by
  induction h with
  | atom => exact Nat.le_refl 1
  | @conj fs _ hkind _ ih =>
      refine depth_node_le .and fun f hf => ?_
      have hdepth := ih f hf
      have hnesting : f.nesting ≤ (Formula.conj fs).nesting := nesting_le_of_mem hf
      have htier := tier_of_isFactor (hkind f hf)
      omega
  | @disj fs _ hkind _ ih =>
      refine depth_node_le .or fun f hf => ?_
      have hdepth := ih f hf
      have hnesting : f.nesting ≤ (Formula.disj fs).nesting := nesting_le_of_mem hf
      have htier := tier_le_of_isConjunct (hkind f hf)
      omega
  | @neg f hkind _ ih =>
      have htier := tier_of_isFactor hkind
      rw [depth, nesting, tier]
      omega
  | @group f _ ih =>
      have htier := f.tier_le
      rw [depth, nesting, tier]
      omega

/-- **A formula that was read is no deeper than its nesting allows.** -/
theorem Normal.depth_le {f : Formula} (h : f.Normal) : f.depth ≤ 3 * f.nesting + 3 :=
  Nat.le_trans h.depth_le_tier (Nat.add_le_add_left f.tier_le _)

/-! ### The deepest formulas -/

/-- A factor with a conjunction and a disjunction around it. -/
def layer (f : Formula) : Formula := .disj [.conj [f, .atom ⟨0⟩], .atom ⟨0⟩]

/-- **A formula that is as deep as its nesting allows.** -/
def deepest : Nat → Formula
  | 0 => layer (.atom ⟨0⟩)
  | n + 1 => layer (.group (deepest n))

theorem normal_layer {f : Formula} (hkind : f.isFactor = true) (h : f.Normal) :
    (layer f).Normal := by
  have hconj : (conj [f, .atom ⟨0⟩]).Normal := by
    refine .conj (Nat.le_refl 2) ?_ ?_
    · simpa using ⟨hkind, rfl⟩
    · simpa using ⟨h, .atom⟩
  refine .disj (Nat.le_refl 2) ?_ ?_
  · simpa using ⟨rfl, rfl⟩
  · simpa using ⟨hconj, .atom⟩

theorem nesting_layer (f : Formula) : (layer f).nesting = f.nesting := by
  simp [layer, nesting, nestingAll]

theorem depth_layer {f : Formula} (h : 0 < f.depth) : (layer f).depth = f.depth + 2 := by
  have hmax : max f.depth 1 = f.depth := Nat.max_eq_left h
  simp only [layer, depth, depthAll, Nat.zero_max, hmax]
  omega

theorem deepest_spec (n : Nat) :
    (deepest n).Normal ∧ (deepest n).nesting = n ∧ (deepest n).depth = 3 * n + 3 := by
  induction n with
  | zero => exact ⟨normal_layer rfl .atom, nesting_layer _, depth_layer Nat.one_pos⟩
  | succ n ih =>
      obtain ⟨hnormal, hnesting, hdepth⟩ := ih
      have hgroup : (group (deepest n)).depth = 1 + (deepest n).depth := rfl
      refine ⟨normal_layer rfl (.group hnormal), ?_, ?_⟩
      · rw [deepest, nesting_layer, nesting, hnesting]
      · rw [deepest, depth_layer (by omega), hgroup, hdepth]
        omega

/-! ### What limits do -/

theorem depth_le_of_parse {limits : Limits} {text : String} {f : Formula}
    (h : parse limits text = .ok f) : f.depth ≤ 3 * limits.maxNesting + 3 := by
  have hdepth := (normal_of_parse h).depth_le
  have hnesting := (admits_of_parse h).2
  omega

/--
**Limits cut readings off, do nothing else, and bound the tree.**

An answer that speaks of no limit stays the same under all limits that are no smaller.  What is read
under some limits is read as the same formula under others exactly when they admit the size of the
text and the nesting of the formula; else it is refused as too large, or as too deep at the first
token that opens something inside of as much as the limit allows.  A formula that was read has at
most three levels for each level of nesting and three more, and each limit on nesting has a text
that is read as a formula of just that depth.
-/
theorem limits_only_cut_off :
    (∀ (limits limits' : Limits) (text : String), limits.maxBytes ≤ limits'.maxBytes →
      limits.maxNesting ≤ limits'.maxNesting →
      (∀ max actual, parse limits text ≠ .error (.tooLarge max actual)) →
      (∀ max actual position, parse limits text ≠ .error (.tooDeep max actual position)) →
      parse limits' text = parse limits text) ∧
    (∀ (limits limits' : Limits) (text : String) (f : Formula), parse limits' text = .ok f →
      (parse limits text = .ok f ↔
        Text.byteSize text.toList ≤ limits.maxBytes ∧ f.nesting ≤ limits.maxNesting) ∧
      (limits.maxBytes < Text.byteSize text.toList → parse limits text =
        .error (.tooLarge limits.maxBytes (Text.byteSize text.toList))) ∧
      (Text.byteSize text.toList ≤ limits.maxBytes → limits.maxNesting < f.nesting →
        ∃ ls ts l, lexemes limits text = .ok ls ∧ Grammar.Expression 0 ts f ∧
          ts.map Placed.token = ls.map Lexeme.token ∧
          Walk.firstDeep limits.maxNesting ts ls = some l ∧ parse limits text =
            .error (.tooDeep limits.maxNesting (limits.maxNesting + 1) l.position))) ∧
    (∀ (limits : Limits) (text : String) (f : Formula), parse limits text = .ok f →
      f.depth ≤ 3 * limits.maxNesting + 3) ∧
    ∀ n, ∃ bytes text f, f.depth = 3 * n + 3 ∧
      ∀ limits : Limits, limits.maxNesting = n → bytes ≤ limits.maxBytes →
        parse limits text = .ok f := by
  refine ⟨fun limits limits' text => parse_of_le, ?_, fun limits text f => depth_le_of_parse, ?_⟩
  · intro limits limits' text f h
    refine ⟨⟨admits_of_parse, fun hadmits => parse_of_admits h hadmits.1 hadmits.2⟩,
      parse_of_tooLarge, parse_at_firstDeep h⟩
  · intro n
    obtain ⟨hnormal, hnesting, hdepth⟩ := deepest_spec n
    refine ⟨Text.byteSize (deepest n).print.toList, (deepest n).print, deepest n, hdepth, ?_⟩
    intro limits hlimit hbytes
    exact hnormal.parse_print hbytes (by omega)

end Formula

end Prerequisite
