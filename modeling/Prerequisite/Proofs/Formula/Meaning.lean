/-
What the text of a tree means.

Any tree can be written, also one that no text is read as: with chains inside of chains, chains of
one operand, and any chain under a negation.  Its text is then read as another tree.  What is proved
here is that the other tree answers like the one that was written (`SameAnswers`), asking the same
sections in the same order and failing where it failed.

There is such a tree, unless some chain has no operands at all (`exists_normal`).  A chain without
operands is written as nothing, and then the tokens do not alternate: an operator or a closing
parenthesis stands where an operand is wanted, or the text ends there
(`noEmptyChain_iff_alternate`).
-/
import Prerequisite.Proofs.Formula.Evaluation
import Prerequisite.Proofs.Formula.Normal

namespace Prerequisite

namespace Formula

/-- **No conjunction and no disjunction in a formula is without operands.** -/
inductive NoEmptyChain : Formula → Prop
  | atom {id : SectionId} : NoEmptyChain (.atom id)
  | conj {fs : List Formula} (hne : fs ≠ []) (h : ∀ f ∈ fs, NoEmptyChain f) :
      NoEmptyChain (.conj fs)
  | disj {fs : List Formula} (hne : fs ≠ []) (h : ∀ f ∈ fs, NoEmptyChain f) :
      NoEmptyChain (.disj fs)
  | neg {f : Formula} (h : NoEmptyChain f) : NoEmptyChain (.neg f)
  | group {f : Formula} (h : NoEmptyChain f) : NoEmptyChain (.group f)

theorem Normal.noEmptyChain {f : Formula} (h : f.Normal) : f.NoEmptyChain := by
  have hne : ∀ fs : List Formula, 2 ≤ fs.length → fs ≠ [] := by
    rintro fs hlen rfl
    exact absurd hlen (by simp)
  induction h with
  | atom => exact .atom
  | conj hlen _ _ ih => exact .conj (hne _ hlen) ih
  | disj hlen _ _ ih => exact .disj (hne _ hlen) ih
  | neg _ _ ih => exact .neg ih
  | group _ ih => exact .group ih

theorem noEmptyChain_node {op : Operator} {fs : List Formula} :
    (op.node fs).NoEmptyChain ↔ fs ≠ [] ∧ ∀ f ∈ fs, f.NoEmptyChain := by
  constructor
  · intro h
    cases op with
    | and => cases h with | conj hne h => exact ⟨hne, h⟩
    | or => cases h with | disj hne h => exact ⟨hne, h⟩
  · rintro ⟨hne, h⟩
    cases op with
    | and => exact .conj hne h
    | or => exact .disj hne h

theorem noEmptyChain_neg {f : Formula} : (Formula.neg f).NoEmptyChain ↔ f.NoEmptyChain := by
  constructor
  · intro h
    cases h with | neg h => exact h
  · exact .neg

theorem noEmptyChain_group {f : Formula} : (Formula.group f).NoEmptyChain ↔ f.NoEmptyChain := by
  constructor
  · intro h
    cases h with | group h => exact h
  · exact .group

/-! ### The formula that a text is read as

An operand that is a chain itself gives its own operands to the chain around it where the operator
is the same.  Where it is not, it is one operand, in parentheses if its place needs them.  Which it
is depends on the place, so there is a statement for each.
-/

/-- A formula answers like a chain of normal ones that is written with these tokens. -/
def AnswersAs (op : Operator) (ts : List Token) (f : Formula) : Prop :=
  ∃ gs, gs ≠ [] ∧ (∀ g ∈ gs, op.admits g = true ∧ g.Normal) ∧ tokensChain op gs = ts ∧
    SameAnswers (op.node gs) f

/-- There are normal formulas that are written like a formula in each place and answer alike. -/
structure Restated (f : Formula) : Prop where
  operand : ∀ op : Operator, AnswersAs op (tokensIn op.place f) f
  negated : ∃ g, (g.isFactor = true ∧ g.Normal) ∧ g.tokens = tokensIn .negated f ∧ SameAnswers g f

theorem AnswersAs.of_admits {op : Operator} {ts : List Token} {f g : Formula}
    (hok : op.admits g = true) (hnormal : g.Normal) (htok : g.tokens = ts)
    (hsame : SameAnswers g f) : AnswersAs op ts f := by
  refine ⟨[g], by simp, by simp [hok, hnormal], ?_,
    (SameAnswers.node_singleton op g).trans hsame⟩
  simp [tokensIn_of_admits hok, htok]

/-- A chain is one formula: its node, or its operand if there is only one. -/
theorem AnswersAs.exists_one {op : Operator} {ts : List Token} {f : Formula}
    (h : AnswersAs op ts f) :
    ∃ g, (op = .and → g.isConjunct = true) ∧ g.Normal ∧ g.tokens = ts ∧ SameAnswers g f := by
  obtain ⟨gs, hne, hkind, rfl, hsame⟩ := h
  match gs, hne with
  | [g], _ =>
      obtain ⟨hok, hnormal⟩ := hkind g (by simp)
      refine ⟨g, ?_, hnormal, by simp [tokensIn_of_admits hok],
        (SameAnswers.node_singleton op g).symm.trans hsame⟩
      rintro rfl
      exact isConjunct_of_isFactor hok
  | g :: g' :: gs, _ =>
      refine ⟨op.node (g :: g' :: gs), ?_, normal_node.mpr ⟨by simp, fun x hx => (hkind x hx).1,
        fun x hx => (hkind x hx).2⟩, tokens_node op _, hsame⟩
      rintro rfl
      rfl

/-- A formula that needs no parentheses anywhere is restated alike in each place. -/
theorem Restated.of_factor {f g : Formula} (hf : f.isFactor = true) (hg : g.isFactor = true)
    (hnormal : g.Normal) (htok : g.tokens = f.tokens) (hsame : SameAnswers g f) : Restated f where
  operand op := .of_admits (op.admits_of_isFactor hg) hnormal
    (htok.trans (tokensIn_of_isFactor hf).symm) hsame
  negated := ⟨g, ⟨hg, hnormal⟩, htok.trans (tokensIn_of_isFactor hf).symm, hsame⟩

/-- The operands of a chain are restated one by one, and what they are restated as is put into one
chain. -/
theorem restate_operands {op : Operator} {fs : List Formula} (hne : fs ≠ [])
    (h : ∀ f ∈ fs, AnswersAs op (tokensIn op.place f) f) :
    AnswersAs op (op.node fs).tokens (op.node fs) := by
  -- What comes after an operator may be nothing, so the induction is on that and not on the chain.
  have key : ∃ gs, (fs ≠ [] → gs ≠ []) ∧ (∀ g ∈ gs, op.admits g = true ∧ g.Normal) ∧
      tokensAfter op gs = tokensAfter op fs ∧ SameAnswers (op.node gs) (op.node fs) := by
    clear hne
    induction fs with
    | nil => exact ⟨[], id, fun _ hg => absurd hg (by simp), rfl, .refl _⟩
    | cons f fs ih =>
        obtain ⟨gs, hgs, hkind, htok, hsame⟩ := h f (by simp)
        obtain ⟨hs, -, hkind', htok', hsame'⟩ := ih fun g hg => h g (by simp [hg])
        refine ⟨gs ++ hs, fun _ => List.append_ne_nil_of_left_ne_nil hgs _, ?_, ?_,
          .node_append op hsame hsame'⟩
        · intro g hg
          rcases List.mem_append.mp hg with hg | hg
          · exact hkind g hg
          · exact hkind' g hg
        · rw [tokensAfter_append, tokensAfter_eq_cons op hgs, htok, htok', tokensAfter_cons]
          rfl
  obtain ⟨gs, hgs, hkind, htok, hsame⟩ := key
  rw [tokensAfter_eq_cons op hne, tokensAfter_eq_cons op (hgs hne)] at htok
  exact ⟨gs, hgs hne, hkind, (List.cons.inj htok).2.trans (tokens_node op fs).symm, hsame⟩

/-- What answers like a formula does so in parentheses as well, where the formula needs them. -/
theorem exists_group {f g : Formula} (hnormal : g.Normal) (htok : g.tokens = f.tokens)
    (hsame : SameAnswers g f) (place : Place) (hp : needsParens place f = true) :
    ∃ g', (g'.isFactor = true ∧ g'.Normal) ∧ g'.tokens = tokensIn place f ∧ SameAnswers g' f := by
  refine ⟨.group g, ⟨rfl, .group hnormal⟩, ?_, (SameAnswers.of_group g).trans hsame⟩
  rw [tokens_group, htok, tokensIn_of_needsParens hp]

/-- A chain is restated by its operands under its own operator, and as one operand elsewhere. -/
theorem Restated.of_node (op : Operator) {fs : List Formula} (hne : fs ≠ [])
    (h : ∀ f ∈ fs, Restated f) : Restated (op.node fs) := by
  have hall := restate_operands hne fun f hf => (h f hf).operand op
  obtain ⟨g, hkind, hnormal, htok, hsame⟩ := hall.exists_one
  have hneg : needsParens .negated (op.node fs) = true := by cases op <;> rfl
  refine ⟨?_, exists_group hnormal htok hsame .negated hneg⟩
  intro op'
  cases op with
  | and =>
      cases op' with
      | and => exact hall
      | or => exact .of_admits (hkind rfl) hnormal (htok.trans (tokensIn_disjunct _).symm) hsame
  | or =>
      cases op' with
      | and =>
          obtain ⟨g', ⟨hfactor, hnormal'⟩, htok', hsame'⟩ :=
            exists_group hnormal htok hsame .conjunct rfl
          exact .of_admits hfactor hnormal' htok' hsame'
      | or =>
          rw [← tokensIn_disjunct] at hall
          exact hall

theorem restated_of_noEmptyChain {f : Formula} (h : f.NoEmptyChain) : Restated f := by
  induction h with
  | atom => exact .of_factor rfl rfl .atom rfl (.refl _)
  | conj hne _ ih => exact .of_node .and hne ih
  | disj hne _ ih => exact .of_node .or hne ih
  | @neg f _ ih =>
      obtain ⟨g, ⟨hfactor, hnormal⟩, htok, hsame⟩ := ih.negated
      refine .of_factor rfl rfl (.neg hfactor hnormal) ?_ hsame.neg
      rw [tokens_neg, tokens_neg, tokensIn_of_isFactor hfactor, htok]
  | @group f _ ih =>
      obtain ⟨g, -, hnormal, htok, hsame⟩ := (ih.operand .or).exists_one
      refine .of_factor rfl rfl (.group hnormal) ?_ hsame.group
      rw [tokens_group, tokens_group, htok]
      exact congrArg (fun ts => Token.opening :: (ts ++ [.closing])) (tokensIn_disjunct f)

/-- **A formula without empty chains is written like a normal one** that answers alike. -/
theorem exists_normal {f : Formula} (h : f.NoEmptyChain) :
    ∃ g : Formula, g.Normal ∧ g.tokens = f.tokens ∧ SameAnswers g f := by
  obtain ⟨g, -, hnormal, htok, hsame⟩ := ((restated_of_noEmptyChain h).operand .or).exists_one
  exact ⟨g, hnormal, htok.trans (tokensIn_disjunct f), hsame⟩

end Formula

/-! ### Tokens that alternate

Between tokens either an operand is wanted or an operator.  In the tokens of a formula with an empty
chain something else comes, or nothing.
-/

/-- What is wanted between tokens. -/
inductive Wanted where
  | operand
  | operator

/-- What is wanted after a token, if it may stand there. -/
def Wanted.after : Wanted → Token → Option Wanted
  | .operand, .atom _ => some .operator
  | .operand, .not | .operand, .opening => some .operand
  | .operator, .and | .operator, .or => some .operand
  | .operator, .closing => some .operator
  | _, _ => none

/-- **What is wanted after tokens,** if they may all stand there. -/
def Wanted.afterAll (w : Wanted) (ts : List Token) : Option Wanted := ts.foldlM Wanted.after w

namespace Wanted

theorem afterAll_nil (w : Wanted) : w.afterAll [] = some w := rfl

theorem afterAll_cons (w : Wanted) (t : Token) (ts : List Token) :
    w.afterAll (t :: ts) = (w.after t).bind fun w' => w'.afterAll ts := rfl

theorem after_operator (op : Operator) :
    operand.after op.token = none ∧ operator.after op.token = some .operand := by
  cases op <;> exact ⟨rfl, rfl⟩

theorem afterAll_append (w : Wanted) (ts us : List Token) :
    w.afterAll (ts ++ us) = (w.afterAll ts).bind fun w' => w'.afterAll us :=
  List.foldlM_append

end Wanted

namespace Formula

theorem alternate_parens (ts : List Token) :
    Wanted.operand.afterAll (.opening :: (ts ++ [.closing])) = some .operator ↔
      Wanted.operand.afterAll ts = some .operator := by
  rw [Wanted.afterAll_cons, Wanted.after, Option.bind_some, Wanted.afterAll_append]
  cases Wanted.operand.afterAll ts with
  | none => simp
  | some w => cases w <;> simp [Wanted.afterAll_cons, Wanted.afterAll_nil, Wanted.after]

theorem alternate_tokensIn (place : Place) (f : Formula) :
    Wanted.operand.afterAll (tokensIn place f) = some .operator ↔
      Wanted.operand.afterAll f.tokens = some .operator := by
  unfold tokensIn
  split
  · exact alternate_parens _
  · rfl

theorem alternate_tokensAfter {op : Operator} {fs : List Formula} {w : Wanted} :
    w.afterAll (tokensAfter op fs) = some .operator ↔
      w = .operator ∧ ∀ f ∈ fs, Wanted.operand.afterAll f.tokens = some .operator := by
  induction fs generalizing w with
  | nil => simp [Wanted.afterAll_nil]
  | cons f fs ih =>
      rw [tokensAfter_cons, Wanted.afterAll_cons]
      cases w with
      | operand => simp [(Wanted.after_operator op).1]
      | operator =>
          rw [(Wanted.after_operator op).2, Option.bind_some, Wanted.afterAll_append,
            Option.bind_eq_some_iff]
          constructor
          · rintro ⟨w, hw, hrest⟩
            obtain ⟨rfl, hfs⟩ := ih.mp hrest
            exact ⟨rfl, List.forall_mem_cons.mpr ⟨(alternate_tokensIn _ _).mp hw, hfs⟩⟩
          · rintro ⟨-, hall⟩
            obtain ⟨hf, hfs⟩ := List.forall_mem_cons.mp hall
            exact ⟨.operator, (alternate_tokensIn _ _).mpr hf, ih.mpr ⟨rfl, hfs⟩⟩

theorem alternate_tokensChain {op : Operator} {fs : List Formula} :
    Wanted.operand.afterAll (tokensChain op fs) = some .operator ↔
      fs ≠ [] ∧ ∀ f ∈ fs, Wanted.operand.afterAll f.tokens = some .operator := by
  by_cases hne : fs = []
  · subst hne
    simp [Wanted.afterAll_nil]
  · have hstart : Wanted.operand.afterAll (tokensChain op fs) =
        Wanted.operator.afterAll (tokensAfter op fs) := by
      rw [tokensAfter_eq_cons op hne, Wanted.afterAll_cons, (Wanted.after_operator op).2]
      rfl
    rw [hstart, alternate_tokensAfter]
    simp [hne]

/-- **The tokens of a formula alternate exactly when it has no empty chain.** -/
theorem noEmptyChain_iff_alternate (f : Formula) :
    f.NoEmptyChain ↔ Wanted.operand.afterAll f.tokens = some .operator := by
  induction f using induct with
  | atom id => exact ⟨fun _ => rfl, fun _ => .atom⟩
  | node op fs ih =>
      rw [tokens_node, alternate_tokensChain, noEmptyChain_node]
      constructor
      · rintro ⟨hne, h⟩
        exact ⟨hne, fun f hf => (ih f hf).mp (h f hf)⟩
      · rintro ⟨hne, h⟩
        exact ⟨hne, fun f hf => (ih f hf).mpr (h f hf)⟩
  | neg f ih =>
      rw [noEmptyChain_neg, ih, ← alternate_tokensIn .negated, tokens_neg]
      rfl
  | group f ih => rw [noEmptyChain_group, ih, tokens_group, alternate_parens]

/-! ### Reading what was written -/

/-- Only the text of a formula without empty chains is read. -/
theorem noEmptyChain_of_parse_print {limits : Limits} {f g : Formula}
    (h : parse limits f.print = .ok g) : f.NoEmptyChain := by
  obtain ⟨-, -, hnormal, htok⟩ := parse_print_eq_ok_iff_normal.mp h
  rw [noEmptyChain_iff_alternate, ← htok, ← noEmptyChain_iff_alternate]
  exact hnormal.noEmptyChain

/-- The text of a formula without empty chains is read, under limits as large as the text. -/
theorem exists_parse_print {limits : Limits} {f : Formula} (h : f.NoEmptyChain)
    (hbytes : Text.byteSize f.print.toList ≤ limits.maxBytes)
    (hdeep : Text.byteSize f.print.toList ≤ limits.maxNesting) :
    ∃ g, parse limits f.print = .ok g := by
  obtain ⟨g, hg, htok, -⟩ := exists_normal h
  have hlen : g.tokens.length ≤ Text.byteSize f.print.toList := by
    rw [htok, toList_print]
    exact Scan.length_le_byteSize_chars _
  have hnest := g.nesting_le_length_tokens
  exact ⟨g, parse_print_eq_ok_iff_normal.mpr ⟨hbytes, by omega, hg, htok⟩⟩

/-- What the text of a formula is read as answers like the formula. -/
theorem sameAnswers_of_parse_print {limits : Limits} {f g : Formula}
    (h : parse limits f.print = .ok g) : SameAnswers g f := by
  obtain ⟨-, -, hnormal, htok⟩ := parse_print_eq_ok_iff_normal.mp h
  obtain ⟨g', hg', htok', hsame⟩ := exists_normal (noEmptyChain_of_parse_print h)
  obtain rfl : g = g' := hnormal.eq_of_tokens hg' (htok.trans htok'.symm)
  exact hsame

/--
**Writing any tree keeps its meaning.**

Under limits that are as large as the text of a formula, the text is read if and only if every chain
in the formula has an operand; a formula with an empty chain is read under no limits.  What is read
evaluates as the formula does, over any state and for any way to ask: to the same value or the same
error, with the same state after it.  For a resolver that is a function this says that it is asked
the same questions in the same order.
-/
theorem print_keeps_meaning (f : Formula) :
    (∀ limits : Limits, Text.byteSize f.print.toList ≤ limits.maxBytes →
      Text.byteSize f.print.toList ≤ limits.maxNesting →
      ((∃ g, parse limits f.print = .ok g) ↔ f.NoEmptyChain)) ∧
    (¬f.NoEmptyChain → ∀ limits : Limits, ∃ e, parse limits f.print = .error e) ∧
    ∀ (limits : Limits) (g : Formula), parse limits f.print = .ok g →
      (∀ (ε σ : Type) (resolve : SectionId → UserId → EStateM ε σ Bool) (user : UserId) (s : σ),
        g.eval resolve user s = f.eval resolve user s) ∧
      ∀ (ε : Type) (r : Resolver ε) (user : UserId), r.evaluate user g = r.evaluate user f := by
  refine ⟨?_, ?_, ?_⟩
  · intro limits hbytes hdeep
    exact ⟨fun ⟨_, h⟩ => noEmptyChain_of_parse_print h, fun h => exists_parse_print h hbytes hdeep⟩
  · intro h limits
    cases hread : parse limits f.print with
    | error e => exact ⟨e, rfl⟩
    | ok g => exact absurd (noEmptyChain_of_parse_print hread) h
  · intro limits g h
    have hsame := sameAnswers_of_parse_print h
    exact ⟨hsame, fun ε r user => hsame ε _ r.ask user #[]⟩

end Formula

end Prerequisite
