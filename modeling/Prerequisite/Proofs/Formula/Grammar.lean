/-
The grammar of formulas.

The grammar is said as it is written down, with a derivation for each line:

    formula     := conjunction ('v' conjunction)*
    conjunction := factor ('^' factor)*
    factor      := '!' factor | section | '(' formula ')'

A derivation knows how many negations and groups stand around each of its tokens, so that a bound on
nesting is a condition on the tokens and not a rule of the grammar.
-/
import Prerequisite.Formula.Basic
import Prerequisite.Formula.Token
import Prerequisite.Formula.Parser

namespace Prerequisite

/-- A token, and how many negations and groups it is inside of. -/
structure Placed where
  token : Token
  around : Nat

/-- Whether a token begins a negation or a group. -/
def Token.opens : Token → Bool
  | .not | .opening => true
  | _ => false

/-- No negation and no group begins inside of `max` others. -/
def Within (max : Nat) (ts : List Placed) : Prop := ∀ p ∈ ts, p.token.opens = true → p.around < max

theorem within_nil (max : Nat) : Within max [] := fun _ hp => absurd hp (by simp)

theorem within_append {max : Nat} {ts us : List Placed} :
    Within max (ts ++ us) ↔ Within max ts ∧ Within max us := by
  unfold Within
  constructor
  · intro h
    exact ⟨fun p hp => h p (by simp [hp]), fun p hp => h p (by simp [hp])⟩
  · rintro ⟨hts, hus⟩ p hp
    rcases List.mem_append.mp hp with hp | hp
    · exact hts p hp
    · exact hus p hp

theorem within_cons {max : Nat} {p : Placed} {ts : List Placed} :
    Within max (p :: ts) ↔ (p.token.opens = true → p.around < max) ∧ Within max ts := by
  simp [Within]

namespace Grammar

mutual

/-- **`formula := conjunction ('v' conjunction)*`** -/
inductive Expression : Nat → List Placed → Formula → Prop
  /-- One conjunction is the formula itself. -/
  | single {n : Nat} {ts : List Placed} {f : Formula} (h : Conjunction n ts f) : Expression n ts f
  /-- Two or more are one disjunction. -/
  | chain {n : Nat} {ts us : List Placed} {f g : Formula} {fs : List Formula}
      (h : Conjunction n ts f) (hs : Disjuncts n us (g :: fs)) :
      Expression n (ts ++ us) (.disj (f :: g :: fs))

/-- `('v' conjunction)*` -/
inductive Disjuncts : Nat → List Placed → List Formula → Prop
  | nil {n : Nat} : Disjuncts n [] []
  | cons {n : Nat} {ts us : List Placed} {f : Formula} {fs : List Formula}
      (h : Conjunction n ts f) (hs : Disjuncts n us fs) :
      Disjuncts n (⟨.or, n⟩ :: (ts ++ us)) (f :: fs)

/-- **`conjunction := factor ('^' factor)*`** -/
inductive Conjunction : Nat → List Placed → Formula → Prop
  | single {n : Nat} {ts : List Placed} {f : Formula} (h : Factor n ts f) : Conjunction n ts f
  | chain {n : Nat} {ts us : List Placed} {f g : Formula} {fs : List Formula}
      (h : Factor n ts f) (hs : Conjuncts n us (g :: fs)) :
      Conjunction n (ts ++ us) (.conj (f :: g :: fs))

/-- `('^' factor)*` -/
inductive Conjuncts : Nat → List Placed → List Formula → Prop
  | nil {n : Nat} : Conjuncts n [] []
  | cons {n : Nat} {ts us : List Placed} {f : Formula} {fs : List Formula}
      (h : Factor n ts f) (hs : Conjuncts n us fs) :
      Conjuncts n (⟨.and, n⟩ :: (ts ++ us)) (f :: fs)

/-- **`factor := '!' factor | section | '(' formula ')'`** -/
inductive Factor : Nat → List Placed → Formula → Prop
  /-- A negation is around its operand. -/
  | neg {n : Nat} {ts : List Placed} {f : Formula} (h : Factor (n + 1) ts f) :
      Factor n (⟨.not, n⟩ :: ts) (.neg f)
  | atom {n : Nat} {id : SectionId} : Factor n [⟨.atom id, n⟩] (.atom id)
  /-- A group is around what its parentheses hold. -/
  | group {n : Nat} {ts : List Placed} {f : Formula} (h : Expression (n + 1) ts f) :
      Factor n (⟨.opening, n⟩ :: (ts ++ [⟨.closing, n⟩])) (.group f)

end

theorem Expression.of_chain {n : Nat} {ts us : List Placed} {f : Formula} {fs : List Formula}
    (h : Conjunction n ts f) (hs : Disjuncts n us fs) :
    Expression n (ts ++ us) (Parser.chain .disj (f :: fs)) := by
  cases hs with
  | nil => rw [List.append_nil]; exact .single h
  | cons h' hs' => exact .chain h (.cons h' hs')

theorem Conjunction.of_chain {n : Nat} {ts us : List Placed} {f : Formula} {fs : List Formula}
    (h : Factor n ts f) (hs : Conjuncts n us fs) :
    Conjunction n (ts ++ us) (Parser.chain .conj (f :: fs)) := by
  cases hs with
  | nil => rw [List.append_nil]; exact .single h
  | cons h' hs' => exact .chain h (.cons h' hs')

/-! ### Nothing has a derivation without tokens -/

theorem Factor.tokens_ne_nil {n : Nat} {ts : List Placed} {f : Formula} (h : Factor n ts f) :
    ts ≠ [] := by
  cases h <;> exact List.cons_ne_nil _ _

theorem Conjunction.tokens_ne_nil {n : Nat} {ts : List Placed} {f : Formula}
    (h : Conjunction n ts f) : ts ≠ [] := by
  cases h with
  | single h => exact h.tokens_ne_nil
  | chain h _ => exact List.append_ne_nil_of_left_ne_nil h.tokens_ne_nil _

theorem Expression.tokens_ne_nil {n : Nat} {ts : List Placed} {f : Formula}
    (h : Expression n ts f) : ts ≠ [] := by
  cases h with
  | single h => exact h.tokens_ne_nil
  | chain h _ => exact List.append_ne_nil_of_left_ne_nil h.tokens_ne_nil _

end Grammar

end Prerequisite
