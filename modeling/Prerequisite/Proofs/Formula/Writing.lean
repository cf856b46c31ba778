/-
What is written is scanned back.

A formula is written as its tokens with nothing between them, so two ids side by side would run
together.  They never do, whatever the tree: the operands of a chain have an operator between them
(`apart_tokens`).  The text of a formula therefore has the tokens of the formula again, and is read
exactly when those have a derivation (`parse_print_eq_ok_iff`).

How the printer appends is undone first.  What a formula is written as in a place, parentheses
included, is `tokensIn`, and a chain is written as `tokensChain`, whichever operator it has.
-/
import Prerequisite.Formula.Printer
import Prerequisite.Proofs.Formula.Scan
import Prerequisite.Proofs.Formula.Tree

namespace Prerequisite

namespace Operator

/-- The token of an operator. -/
def token : Operator → Token
  | .and => .and
  | .or => .or

/-- Where the operands of a chain stand. -/
def place : Operator → Formula.Place
  | .and => .conjunct
  | .or => .disjunct

theorem atom?_token (op : Operator) : op.token.atom? = none := by
  cases op <;> rfl

end Operator

namespace Formula

/-! ### The tokens of a formula -/

/-- The tokens of an operand in a place, with the parentheses that the place needs. -/
def tokensIn (place : Place) (f : Formula) : List Token :=
  if needsParens place f then .opening :: (f.tokens ++ [.closing]) else f.tokens

/-- The tokens of the operands after the first of a chain. -/
def tokensAfter (op : Operator) (fs : List Formula) : List Token :=
  fs.flatMap fun f => op.token :: tokensIn op.place f

/-- The tokens of the operands of a chain, with the operator between them. -/
def tokensChain (op : Operator) : List Formula → List Token
  | [] => []
  | f :: fs => tokensIn op.place f ++ tokensAfter op fs

private theorem toList_operand {place : Place} {f : Formula} {out : Array Token}
    (h : ∀ out, (pushTokens out f).toList = out.toList ++ f.tokens) :
    (pushClosing place f (pushTokens (pushOpening place f out) f)).toList =
      out.toList ++ tokensIn place f := by
  unfold pushClosing pushOpening tokensIn
  by_cases hp : needsParens place f = true
  · simp [if_pos hp, h]
  · simp [if_neg hp, h]

private theorem toList_pushChain {op : Operator} {fs : List Formula}
    (h : ∀ f ∈ fs, ∀ out, (pushTokens out f).toList = out.toList ++ f.tokens) :
    ∀ out, (pushChain op.place op.token out fs).toList = out.toList ++ tokensAfter op fs := by
  induction fs with
  | nil => intro out; simp [pushChain, tokensAfter]
  | cons f fs ih =>
      intro out
      rw [pushChain, ih (fun g hg => h g (by simp [hg])), toList_operand (h f (by simp))]
      simp [tokensAfter]

private theorem pushTokens_node_cons (op : Operator) (f : Formula) (fs : List Formula)
    (out : Array Token) :
    pushTokens out (op.node (f :: fs)) = pushChain op.place op.token
      (pushClosing op.place f (pushTokens (pushOpening op.place f out) f)) fs := by
  cases op <;> rfl

private theorem pushTokens_node {op : Operator} {fs : List Formula}
    (h : ∀ f ∈ fs, ∀ out, (pushTokens out f).toList = out.toList ++ f.tokens)
    (out : Array Token) :
    (pushTokens out (op.node fs)).toList = out.toList ++ tokensChain op fs := by
  cases fs with
  | nil => cases op <;> simp [Operator.node, pushTokens, tokensChain]
  | cons f fs =>
      rw [pushTokens_node_cons, toList_pushChain fun g hg => h g (List.mem_cons_of_mem f hg),
        toList_operand (h f (by simp)), tokensChain, List.append_assoc]

private theorem toList_pushTokens (f : Formula) :
    ∀ out, (pushTokens out f).toList = out.toList ++ f.tokens := by
  induction f using induct with
  | atom id => intro out; simp [pushTokens, tokens]
  | node op fs ih =>
      intro out
      rw [tokens, pushTokens_node ih, pushTokens_node ih]
      simp
  | neg f ih =>
      intro out
      rw [tokens, pushTokens, pushTokens, toList_operand ih, toList_operand ih]
      simp
  | group f ih =>
      intro out
      rw [tokens, pushTokens, pushTokens, Array.toList_push, Array.toList_push, ih, ih]
      simp

@[simp] theorem tokens_atom (id : SectionId) : (Formula.atom id).tokens = [.atom id] := rfl

@[simp] theorem tokens_node (op : Operator) (fs : List Formula) :
    (op.node fs).tokens = tokensChain op fs := by
  rw [tokens, pushTokens_node fun f _ => toList_pushTokens f]
  simp

@[simp] theorem tokens_neg (f : Formula) :
    (Formula.neg f).tokens = .not :: tokensIn .negated f := by
  rw [tokens, pushTokens, toList_operand (toList_pushTokens f)]
  simp

@[simp] theorem tokens_group (f : Formula) :
    (Formula.group f).tokens = .opening :: (f.tokens ++ [.closing]) := by
  rw [tokens, pushTokens, Array.toList_push, toList_pushTokens]
  simp

@[simp] theorem tokensAfter_nil (op : Operator) : tokensAfter op [] = [] := rfl

@[simp] theorem tokensAfter_cons (op : Operator) (f : Formula) (fs : List Formula) :
    tokensAfter op (f :: fs) = op.token :: (tokensIn op.place f ++ tokensAfter op fs) := rfl

@[simp] theorem tokensChain_nil (op : Operator) : tokensChain op [] = [] := rfl

@[simp] theorem tokensChain_cons (op : Operator) (f : Formula) (fs : List Formula) :
    tokensChain op (f :: fs) = tokensIn op.place f ++ tokensAfter op fs := rfl

theorem tokensAfter_append (op : Operator) (fs gs : List Formula) :
    tokensAfter op (fs ++ gs) = tokensAfter op fs ++ tokensAfter op gs := List.flatMap_append

/-- A chain that goes on after an operator is written like a chain of its own. -/
theorem tokensAfter_eq_cons (op : Operator) {fs : List Formula} (hne : fs ≠ []) :
    tokensAfter op fs = op.token :: tokensChain op fs := by
  cases fs with
  | nil => exact absurd rfl hne
  | cons f fs => rfl

theorem tokensIn_of_needsParens {place : Place} {f : Formula} (h : needsParens place f = true) :
    tokensIn place f = .opening :: (f.tokens ++ [.closing]) := if_pos h

theorem tokensIn_of_not_needsParens {place : Place} {f : Formula}
    (h : needsParens place f = false) : tokensIn place f = f.tokens := if_neg (by simp [h])

/-- The text of a formula is what its tokens are written as. -/
theorem toList_print (f : Formula) : f.print.toList = f.tokens.flatMap Token.chars := by
  have key : ∀ (ts : List Token) (out : String),
      (ts.foldl (fun out t => Text.pushAll out t.chars) out).toList =
        out.toList ++ ts.flatMap Token.chars := by
    intro ts
    induction ts with
    | nil => intro out; simp
    | cons t ts ih => intro out; rw [List.foldl_cons, ih]; simp
  rw [print, key]
  simp

example : (Formula.neg (.conj [.disj [.atom ⟨1⟩, .atom ⟨20⟩], .conj [.atom ⟨3⟩]])).print =
    "!((1v20)^3)" := by cbv

/-! ### The sections among the tokens -/

private theorem filterMap_tokensIn {place : Place} {f : Formula}
    (h : f.tokens.filterMap Token.atom? = f.atoms) :
    (tokensIn place f).filterMap Token.atom? = f.atoms := by
  unfold tokensIn
  split
  · rw [List.filterMap_cons_none rfl, List.filterMap_append, h]
    exact List.append_nil _
  · exact h

private theorem filterMap_tokensAfter {op : Operator} {fs : List Formula}
    (h : ∀ f ∈ fs, f.tokens.filterMap Token.atom? = f.atoms) :
    (tokensAfter op fs).filterMap Token.atom? = fs.flatMap atoms := by
  induction fs with
  | nil => rfl
  | cons f fs ih =>
      rw [tokensAfter_cons, List.filterMap_cons_none op.atom?_token, List.filterMap_append,
        filterMap_tokensIn (h f (by simp)), ih fun g hg => h g (by simp [hg]), List.flatMap_cons]

/-- **A formula is written with its sections,** in order and each as often as it is there. -/
theorem filterMap_atom?_tokens (f : Formula) : f.tokens.filterMap Token.atom? = f.atoms := by
  induction f using induct with
  | atom id => rfl
  | node op fs ih =>
      rw [tokens_node, atoms_node]
      cases fs with
      | nil => rfl
      | cons f fs =>
          rw [tokensChain_cons, List.filterMap_append, filterMap_tokensIn (ih f (by simp)),
            filterMap_tokensAfter fun g hg => ih g (List.mem_cons_of_mem f hg), List.flatMap_cons]
  | neg f ih =>
      rw [tokens_neg, List.filterMap_cons_none rfl, filterMap_tokensIn ih, atoms_neg]
  | group f ih =>
      rw [tokens_group, List.filterMap_cons_none rfl, List.filterMap_append, ih, atoms_group]
      exact List.append_nil _

end Formula

/-! ### Tokens that can be scanned back

A run of digits is taken as far as it goes, so the tokens that are found in a text written without
blanks are the ones it was written with only if no two of them are ids side by side.
-/

/-- No two of the tokens that stand side by side are ids. -/
inductive Apart : List Token → Prop
  | nil : Apart []
  | mark {t : Token} {ts : List Token} (ht : t.atom? = none) (h : Apart ts) : Apart (t :: ts)
  | atom {id : SectionId} {ts : List Token} (hnext : ∀ t ∈ ts.head?, t.atom? = none)
      (h : Apart ts) : Apart (.atom id :: ts)

theorem Apart.append {ts us : List Token} (h : Apart ts) (h' : Apart us)
    (hnext : ∀ t ∈ us.head?, t.atom? = none) : Apart (ts ++ us) := by
  induction h with
  | nil => exact h'
  | mark ht _ ih => exact .mark ht ih
  | @atom id ts hid _ ih =>
      refine .atom ?_ ih
      cases ts with
      | nil => exact hnext
      | cons t ts => exact hid

namespace Formula

theorem apart_tokensIn {place : Place} {f : Formula} (h : Apart f.tokens) :
    Apart (tokensIn place f) := by
  unfold tokensIn
  split
  · exact .mark rfl (h.append (.mark rfl .nil) (by simp [Token.atom?]))
  · exact h

theorem apart_tokensAfter (op : Operator) {fs : List Formula} (h : ∀ f ∈ fs, Apart f.tokens) :
    Apart (tokensAfter op fs) ∧ ∀ t ∈ (tokensAfter op fs).head?, t.atom? = none := by
  induction fs with
  | nil => exact ⟨.nil, by simp⟩
  | cons f fs ih =>
      obtain ⟨hrest, hhead⟩ := ih fun g hg => h g (by simp [hg])
      rw [tokensAfter_cons]
      refine ⟨.mark op.atom?_token ?_, by simp [op.atom?_token]⟩
      exact (apart_tokensIn (h f (by simp))).append hrest hhead

/-- **No formula is written with two ids side by side,** whatever its tree. -/
theorem apart_tokens (f : Formula) : Apart f.tokens := by
  induction f using induct with
  | atom id => exact .atom (by simp) .nil
  | node op fs ih =>
      rw [tokens_node]
      cases fs with
      | nil => exact .nil
      | cons f fs =>
          obtain ⟨hrest, hhead⟩ := apart_tokensAfter op fun g hg => ih g (List.mem_cons_of_mem f hg)
          exact (apart_tokensIn (ih f (by simp))).append hrest hhead
  | neg f ih => rw [tokens_neg]; exact .mark rfl (apart_tokensIn ih)
  | group f ih =>
      rw [tokens_group]
      exact .mark rfl (ih.append (.mark rfl .nil) (by simp [Token.atom?]))

end Formula

/-! ### Scanning what was written -/

namespace Scan

theorem ofChar?_of_chars {t : Token} (ht : t.atom? = none) :
    ∃ c, t.chars = [c] ∧ Token.ofChar? c = some t := by
  cases t with
  | atom id => exact absurd ht (by simp [Token.atom?])
  | and => exact ⟨'^', rfl, rfl⟩
  | or => exact ⟨'v', rfl, rfl⟩
  | not => exact ⟨'!', rfl, rfl⟩
  | opening => exact ⟨'(', rfl, rfl⟩
  | closing => exact ⟨')', rfl, rfl⟩

/-- What starts with a token of one character does not start with a digit. -/
theorem noDigit_chars {ts : List Token} (h : ∀ t ∈ ts.head?, t.atom? = none) :
    NoDigit (ts.flatMap Token.chars) := by
  cases ts with
  | nil => intro c hc; exact absurd hc (by simp)
  | cons t ts =>
      obtain ⟨c, hc, hof⟩ := ofChar?_of_chars (h t (by simp))
      intro x hx
      rw [List.flatMap_cons, hc] at hx
      obtain rfl : c = x := by simpa using hx
      simpa using not_isDigit_of_ofChar? hof

/-- **Tokens without two ids side by side are scanned back.** -/
theorem cuts_chars {ts : List Token} (h : Apart ts) :
    ∀ p, ∃ ps, Cuts p (ts.flatMap Token.chars) ps ∧
      (ps.filterMap Piece.lexeme?).map Lexeme.token = ts := by
  induction h with
  | nil => intro p; exact ⟨[], .nil, rfl⟩
  | @mark t ts ht _ ih =>
      intro p
      obtain ⟨c, hc, hof⟩ := ofChar?_of_chars ht
      obtain ⟨ps, hps, hts⟩ := ih (p + c.utf8Size)
      refine ⟨.lexeme ⟨t, [c], p⟩ :: ps, ?_, ?_⟩
      · rw [List.flatMap_cons, hc]
        exact .mark hof hps
      · rw [lexemes_lexeme, List.map_cons, hts]
  | @atom id ts hnext _ ih =>
      intro p
      obtain ⟨ps, hps, hts⟩ := ih (p + Text.byteSize id.digits)
      refine ⟨.lexeme ⟨.atom id, id.digits, p⟩ :: ps, ?_, ?_⟩
      · obtain ⟨hne, hd, hval⟩ := SectionId.ofDigits_eq_ok_iff.mp id.ofDigits_digits
        exact .run hne hd (noDigit_chars hnext) hval hps
      · rw [lexemes_lexeme, List.map_cons, hts]

/-- Every token takes a byte at least. -/
theorem length_le_byteSize_chars (ts : List Token) :
    ts.length ≤ Text.byteSize (ts.flatMap Token.chars) := by
  have hchars : ∀ t : Token, 0 < Text.byteSize t.chars := by
    intro t
    have hne : t.chars ≠ [] := by
      cases t with
      | atom id => exact id.digits_ne_nil
      | and | or | not | opening | closing => exact List.cons_ne_nil _ _
    obtain ⟨c, cs, hc⟩ := List.exists_cons_of_ne_nil hne
    rw [hc, Text.byteSize_cons]
    exact Nat.lt_of_lt_of_le c.utf8Size_pos (Nat.le_add_right _ _)
  induction ts with
  | nil => simp
  | cons t ts ih =>
      have := hchars t
      rw [List.flatMap_cons, Text.byteSize_append, List.length_cons]
      omega

end Scan

end Prerequisite
