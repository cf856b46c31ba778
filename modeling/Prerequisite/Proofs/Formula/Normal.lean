/-
The formulas that a text is read as.

Not every tree is read from a text.  A chain that was read has two operands or more, and none of
them is written with an operator that would have to be in parentheses there: `Normal` is exactly
that.  A formula with a derivation is normal and is written with the tokens it was derived from
(`Expression.fits`), and a normal formula has a derivation from its own tokens
(`Normal.expression`).  So reading and writing undo each other on normal formulas.

The limits go along.  The tokens of a derivation are nested as deeply as the formula is
(`Fits.within`), and the text of a formula is never longer than one it was read from.  In all, a
text is read as the normal formula that is written with its tokens (`parse_eq_ok_iff_normal`), and
no derivation has to be looked at any more.
-/
import Prerequisite.Proofs.Formula.Reading
import Prerequisite.Proofs.Formula.Writing

namespace Prerequisite

namespace Formula

/-! ### Normal formulas -/

/-- A formula that needs no parentheses anywhere: a section, a negation or a group. -/
def isFactor : Formula → Bool
  | .atom _ | .neg _ | .group _ => true
  | .conj _ | .disj _ => false

/-- A formula that needs no parentheses under a disjunction: a factor or a conjunction. -/
def isConjunct : Formula → Bool
  | .disj _ => false
  | .atom _ | .neg _ | .group _ | .conj _ => true

/-- **The shape of a formula that was read.** -/
inductive Normal : Formula → Prop
  | atom {id : SectionId} : Normal (.atom id)
  | conj {fs : List Formula} (hlen : 2 ≤ fs.length) (hkind : ∀ f ∈ fs, f.isFactor = true)
      (h : ∀ f ∈ fs, Normal f) : Normal (.conj fs)
  | disj {fs : List Formula} (hlen : 2 ≤ fs.length) (hkind : ∀ f ∈ fs, f.isConjunct = true)
      (h : ∀ f ∈ fs, Normal f) : Normal (.disj fs)
  | neg {f : Formula} (hkind : f.isFactor = true) (h : Normal f) : Normal (.neg f)
  | group {f : Formula} (h : Normal f) : Normal (.group f)

theorem isConjunct_of_isFactor {f : Formula} (h : f.isFactor = true) : f.isConjunct = true := by
  cases f with
  | atom | neg | group | conj => rfl
  | disj => exact h

end Formula

namespace Operator

/-- Whether a formula can be an operand of a chain that was read. -/
def admits : Operator → Formula → Bool
  | .and => Formula.isFactor
  | .or => Formula.isConjunct

theorem opens_token (op : Operator) : op.token.opens = false := by
  cases op <;> rfl

theorem admits_of_isFactor (op : Operator) {f : Formula} (h : f.isFactor = true) :
    op.admits f = true := by
  cases op with
  | and => exact h
  | or => exact Formula.isConjunct_of_isFactor h

end Operator

namespace Formula

theorem normal_node {op : Operator} {fs : List Formula} :
    (op.node fs).Normal ↔
      2 ≤ fs.length ∧ (∀ f ∈ fs, op.admits f = true) ∧ ∀ f ∈ fs, f.Normal := by
  constructor
  · intro h
    cases op with
    | and => cases h with | conj hlen hkind h => exact ⟨hlen, hkind, h⟩
    | or => cases h with | disj hlen hkind h => exact ⟨hlen, hkind, h⟩
  · rintro ⟨hlen, hkind, h⟩
    cases op with
    | and => exact .conj hlen hkind h
    | or => exact .disj hlen hkind h

theorem tokensIn_of_isFactor {place : Place} {f : Formula} (h : f.isFactor = true) :
    tokensIn place f = f.tokens := by
  refine tokensIn_of_not_needsParens ?_
  cases f with
  | atom | neg | group => cases place <;> rfl
  | conj | disj => exact absurd h (by simp [isFactor])

theorem tokensIn_disjunct (f : Formula) : tokensIn .disjunct f = f.tokens :=
  tokensIn_of_not_needsParens (by cases f <;> rfl)

theorem tokensIn_of_admits {op : Operator} {f : Formula} (h : op.admits f = true) :
    tokensIn op.place f = f.tokens := by
  cases op with
  | and => exact tokensIn_of_isFactor h
  | or => exact tokensIn_disjunct f

/-! ### How deeply a formula is nested -/

mutual

/-- **The largest number of negations and groups on a path** from the root to a leaf. -/
def nesting : Formula → Nat
  | .atom _ => 0
  | .conj fs | .disj fs => nestingAll fs
  | .neg f | .group f => nesting f + 1

/-- The largest number of negations and groups on a path into one of the formulas. -/
def nestingAll : List Formula → Nat
  | [] => 0
  | f :: fs => max (nesting f) (nestingAll fs)

end

theorem nesting_node (op : Operator) (fs : List Formula) :
    (op.node fs).nesting = nestingAll fs := by
  cases op <;> rfl

private theorem nesting_le_tokensIn {place : Place} {f : Formula}
    (h : f.nesting ≤ f.tokens.length) : f.nesting ≤ (tokensIn place f).length := by
  unfold tokensIn
  split
  · simp only [List.length_cons, List.length_append]
    omega
  · exact h

private theorem nestingAll_le_tokensAfter {op : Operator} {fs : List Formula}
    (h : ∀ f ∈ fs, f.nesting ≤ f.tokens.length) :
    nestingAll fs ≤ (tokensAfter op fs).length := by
  induction fs with
  | nil => exact Nat.zero_le _
  | cons f fs ih =>
      have hf : f.nesting ≤ (tokensIn op.place f).length := nesting_le_tokensIn (h f (by simp))
      have hfs := ih fun g hg => h g (by simp [hg])
      rw [nestingAll, tokensAfter_cons, List.length_cons, List.length_append]
      omega

/-- Each negation and each group is written with a token of its own. -/
theorem nesting_le_length_tokens (f : Formula) : f.nesting ≤ f.tokens.length := by
  induction f using induct with
  | atom id => exact Nat.zero_le _
  | node op fs ih =>
      rw [nesting_node, tokens_node]
      cases fs with
      | nil => exact Nat.zero_le _
      | cons f fs =>
          have hf : f.nesting ≤ (tokensIn op.place f).length := nesting_le_tokensIn (ih f (by simp))
          have hfs : nestingAll fs ≤ (tokensAfter op fs).length :=
            nestingAll_le_tokensAfter fun g hg => ih g (List.mem_cons_of_mem f hg)
          rw [nestingAll, tokensChain_cons, List.length_append]
          omega
  | neg f ih =>
      rw [nesting, tokens_neg, List.length_cons]
      exact Nat.succ_le_succ (nesting_le_tokensIn ih)
  | group f ih =>
      rw [nesting, tokens_group, List.length_cons, List.length_append]
      omega

end Formula

namespace Grammar

open Formula

/-! ### What was derived is normal and written as it was -/

/-- A formula fits tokens when it is written as they are and nested as deeply, and is normal. -/
structure Fits (n : Nat) (ts : List Placed) (f : Formula) : Prop where
  normal : f.Normal
  tokens : f.tokens = ts.map Placed.token
  within : ∀ max, Within max ts ↔ f.nesting = 0 ∨ n + f.nesting ≤ max

/-- The same for the operands after the first of a chain. -/
structure FitAfter (op : Operator) (n : Nat) (ts : List Placed) (fs : List Formula) : Prop where
  admitted : ∀ f ∈ fs, op.admits f = true
  normal : ∀ f ∈ fs, f.Normal
  tokens : tokensAfter op fs = ts.map Placed.token
  within : ∀ max, Within max ts ↔ nestingAll fs = 0 ∨ n + nestingAll fs ≤ max

theorem FitAfter.nil (op : Operator) (n : Nat) : FitAfter op n [] [] :=
  ⟨fun _ h => absurd h (by simp), fun _ h => absurd h (by simp), rfl,
    fun max => ⟨fun _ => .inl rfl, fun _ => within_nil max⟩⟩

theorem FitAfter.cons {op : Operator} {n : Nat} {ts us : List Placed} {f : Formula}
    {fs : List Formula} (hok : op.admits f = true) (h : Fits n ts f)
    (hs : FitAfter op n us fs) : FitAfter op n (⟨op.token, n⟩ :: (ts ++ us)) (f :: fs) := by
  refine ⟨List.forall_mem_cons.mpr ⟨hok, hs.admitted⟩,
    List.forall_mem_cons.mpr ⟨h.normal, hs.normal⟩, ?_, ?_⟩
  · rw [tokensAfter_cons, tokensIn_of_admits hok, h.tokens, hs.tokens, List.map_cons,
      List.map_append]
  · intro max
    have hclosed : op.token.opens = true → n < max :=
      fun hopen => absurd hopen (by simp [op.opens_token])
    rw [within_cons, within_append, h.within, hs.within, nestingAll]
    constructor
    · intro hin
      omega
    · intro hle
      exact ⟨hclosed, by omega, by omega⟩

/-- Two operands or more fit as one chain. -/
theorem Fits.node (op : Operator) {n : Nat} {ts us : List Placed} {f g : Formula}
    {fs : List Formula} (hok : op.admits f = true) (h : Fits n ts f)
    (hs : FitAfter op n us (g :: fs)) : Fits n (ts ++ us) (op.node (f :: g :: fs)) := by
  refine ⟨normal_node.mpr ⟨by simp, List.forall_mem_cons.mpr ⟨hok, hs.admitted⟩,
    List.forall_mem_cons.mpr ⟨h.normal, hs.normal⟩⟩, ?_, ?_⟩
  · rw [tokens_node, tokensChain_cons, tokensIn_of_admits hok, h.tokens, hs.tokens,
      List.map_append]
  · intro bound
    have hmax : nestingAll (f :: g :: fs) = max f.nesting (nestingAll (g :: fs)) := rfl
    rw [within_append, h.within, hs.within, nesting_node, hmax]
    omega

mutual

theorem Expression.fits {n : Nat} {ts : List Placed} {f : Formula} :
    Expression n ts f → Fits n ts f
  | .single h => h.fits.1
  | .chain h hs => .node .or h.fits.2 h.fits.1 hs.fits

theorem Disjuncts.fits {n : Nat} {ts : List Placed} {fs : List Formula} :
    Disjuncts n ts fs → FitAfter .or n ts fs
  | .nil => .nil _ _
  | .cons h hs => .cons h.fits.2 h.fits.1 hs.fits

theorem Conjunction.fits {n : Nat} {ts : List Placed} {f : Formula} :
    Conjunction n ts f → Fits n ts f ∧ f.isConjunct = true
  | .single h => ⟨h.fits.1, isConjunct_of_isFactor h.fits.2⟩
  | .chain h hs => ⟨.node .and h.fits.2 h.fits.1 hs.fits, rfl⟩

theorem Conjuncts.fits {n : Nat} {ts : List Placed} {fs : List Formula} :
    Conjuncts n ts fs → FitAfter .and n ts fs
  | .nil => .nil _ _
  | .cons h hs => .cons h.fits.2 h.fits.1 hs.fits

theorem Factor.fits {n : Nat} {ts : List Placed} {f : Formula} :
    Factor n ts f → Fits n ts f ∧ f.isFactor = true
  | @Factor.neg n ts f h => by
      obtain ⟨hf, hkind⟩ := h.fits
      refine ⟨⟨.neg hkind hf.normal, ?_, ?_⟩, rfl⟩
      · rw [tokens_neg, tokensIn_of_isFactor hkind, hf.tokens, List.map_cons]
      · intro max
        rw [within_cons, hf.within, nesting]
        simp only [Token.opens, true_implies]
        omega
  | .atom => by
      refine ⟨⟨.atom, rfl, fun max => ⟨fun _ => .inl rfl, fun _ => ?_⟩⟩, rfl⟩
      exact within_cons.mpr ⟨fun hopen => absurd hopen (by simp [Token.opens]), within_nil max⟩
  | @Factor.group n ts f h => by
      have hf := h.fits
      refine ⟨⟨.group hf.normal, ?_, ?_⟩, rfl⟩
      · rw [tokens_group, hf.tokens, List.map_cons, List.map_append]
        rfl
      · intro max
        have hclose : Within max [⟨.closing, n⟩] :=
          within_cons.mpr ⟨fun hopen => absurd hopen (by simp [Token.opens]), within_nil max⟩
        rw [within_cons, within_append, hf.within, nesting]
        simp only [Token.opens, true_implies, hclose, and_true]
        omega

end

/-! ### What is normal has a derivation -/

/-- Operands that each have a derivation from their own tokens have one as a chain's rest. -/
theorem Conjuncts.of_each {n : Nat} {fs : List Formula} (hkind : ∀ f ∈ fs, f.isFactor = true)
    (h : ∀ f ∈ fs, ∃ ts, Factor n ts f ∧ ts.map Placed.token = f.tokens) :
    ∃ us, Conjuncts n us fs ∧ us.map Placed.token = tokensAfter .and fs := by
  induction fs with
  | nil => exact ⟨[], .nil, rfl⟩
  | cons f fs ih =>
      obtain ⟨ts, hts, hmap⟩ := h f (by simp)
      obtain ⟨us, hus, hmap'⟩ :=
        ih (fun g hg => hkind g (by simp [hg])) (fun g hg => h g (by simp [hg]))
      refine ⟨⟨.and, n⟩ :: (ts ++ us), .cons hts hus, ?_⟩
      rw [List.map_cons, List.map_append, hmap, hmap', tokensAfter_cons,
        tokensIn_of_isFactor (hkind f (by simp))]
      rfl

theorem Disjuncts.of_each {n : Nat} {fs : List Formula}
    (h : ∀ f ∈ fs, ∃ ts, Conjunction n ts f ∧ ts.map Placed.token = f.tokens) :
    ∃ us, Disjuncts n us fs ∧ us.map Placed.token = tokensAfter .or fs := by
  induction fs with
  | nil => exact ⟨[], .nil, rfl⟩
  | cons f fs ih =>
      obtain ⟨ts, hts, hmap⟩ := h f (by simp)
      obtain ⟨us, hus, hmap'⟩ := ih (fun g hg => h g (by simp [hg]))
      refine ⟨⟨.or, n⟩ :: (ts ++ us), .cons hts hus, ?_⟩
      rw [List.map_cons, List.map_append, hmap, hmap', tokensAfter_cons, Operator.place,
        tokensIn_disjunct]
      rfl

/-- A normal formula has a derivation from its own tokens on each level that it can stand on. -/
structure Derived (n : Nat) (f : Formula) : Prop where
  factor : f.isFactor = true → ∃ ts, Factor n ts f ∧ ts.map Placed.token = f.tokens
  conjunction : f.isConjunct = true → ∃ ts, Conjunction n ts f ∧ ts.map Placed.token = f.tokens
  expression : ∃ ts, Expression n ts f ∧ ts.map Placed.token = f.tokens

theorem Derived.of_factor {n : Nat} {f : Formula}
    (h : ∃ ts, Factor n ts f ∧ ts.map Placed.token = f.tokens) : Derived n f := by
  obtain ⟨ts, hts, hmap⟩ := h
  exact ⟨fun _ => ⟨ts, hts, hmap⟩, fun _ => ⟨ts, .single hts, hmap⟩, ts, .single (.single hts),
    hmap⟩

theorem exists_two {fs : List Formula} (h : 2 ≤ fs.length) :
    ∃ f g rest, fs = f :: g :: rest := by
  match fs, h with
  | f :: g :: rest, _ => exact ⟨f, g, rest, rfl⟩

theorem derived_of_normal {f : Formula} (h : f.Normal) : ∀ n, Derived n f := by
  induction h with
  | atom => intro n; exact .of_factor ⟨_, .atom, rfl⟩
  | @conj fs hlen hkind _ ih =>
      intro n
      obtain ⟨f, g, fs, rfl⟩ := exists_two hlen
      obtain ⟨ts, hts, hmap⟩ := (ih f (by simp) n).factor (hkind f (by simp))
      obtain ⟨us, hus, hmap'⟩ := Conjuncts.of_each (fun x hx => hkind x (List.mem_cons_of_mem f hx))
        (fun x hx => (ih x (List.mem_cons_of_mem f hx) n).factor
          (hkind x (List.mem_cons_of_mem f hx)))
      have htok : (ts ++ us).map Placed.token = (Operator.and.node (f :: g :: fs)).tokens := by
        rw [List.map_append, hmap, hmap', tokens_node, tokensChain_cons,
          tokensIn_of_isFactor (hkind f (by simp))]
      exact ⟨fun hc => absurd hc (by simp [isFactor]), fun _ => ⟨_, .chain hts hus, htok⟩,
        _, .single (.chain hts hus), htok⟩
  | @disj fs hlen hkind _ ih =>
      intro n
      obtain ⟨f, g, fs, rfl⟩ := exists_two hlen
      obtain ⟨ts, hts, hmap⟩ := (ih f (by simp) n).conjunction (hkind f (by simp))
      obtain ⟨us, hus, hmap'⟩ := Disjuncts.of_each (fun x hx =>
        (ih x (List.mem_cons_of_mem f hx) n).conjunction (hkind x (List.mem_cons_of_mem f hx)))
      have htok : (ts ++ us).map Placed.token = (Operator.or.node (f :: g :: fs)).tokens := by
        rw [List.map_append, hmap, hmap', tokens_node, tokensChain_cons, Operator.place,
          tokensIn_disjunct]
      exact ⟨fun hc => absurd hc (by simp [isFactor]), fun hc => absurd hc (by simp [isConjunct]),
        _, .chain hts hus, htok⟩
  | neg hkind _ ih =>
      intro n
      obtain ⟨ts, hts, hmap⟩ := (ih (n + 1)).factor hkind
      refine .of_factor ⟨_, .neg hts, ?_⟩
      rw [List.map_cons, hmap, tokens_neg, tokensIn_of_isFactor hkind]
  | group _ ih =>
      intro n
      obtain ⟨ts, hts, hmap⟩ := (ih (n + 1)).expression
      refine .of_factor ⟨_, .group hts, ?_⟩
      rw [List.map_cons, List.map_append, hmap, tokens_group]
      rfl

end Grammar

namespace Formula

/-! ### Reading and writing undo each other -/

/-- **Which formula a text is read as.**  It is the normal formula that is written with the tokens
of the text, if the text is small enough and the formula is not nested too deeply. -/
theorem parse_eq_ok_iff_normal {limits : Limits} {text : String} {f : Formula} {ps : List Piece}
    (hps : Scan.Cuts 0 text.toList ps) :
    parse limits text = .ok f ↔ Text.byteSize text.toList ≤ limits.maxBytes ∧
      f.nesting ≤ limits.maxNesting ∧ f.Normal ∧
      f.tokens = (ps.filterMap Piece.lexeme?).map Lexeme.token := by
  rw [parse_eq_ok_iff]
  constructor
  · intro h
    obtain ⟨hsize, ls, ⟨-, qs, hqs, rfl⟩, ts, hts, hmap, hw⟩ := h
    have hfits := hts.fits
    have hdeep := (hfits.within _).mp hw
    refine ⟨hsize, by omega, hfits.normal, ?_⟩
    rw [hps.unique hqs, hfits.tokens, hmap]
  · intro h
    obtain ⟨hsize, hdeep, hnormal, htok⟩ := h
    obtain ⟨ts, hts, hmap⟩ := (Grammar.derived_of_normal hnormal 0).expression
    refine ⟨hsize, _, ⟨?_, ps, hps, rfl⟩, ts, hts, hmap.trans htok,
      (hts.fits.within _).mpr (by omega)⟩
    intro hnil
    rw [hnil, ← hmap] at htok
    exact hts.tokens_ne_nil (by simpa using htok)

theorem cuts_of_parse {limits : Limits} {text : String} {f : Formula}
    (h : parse limits text = .ok f) : ∃ ps, Scan.Cuts 0 text.toList ps := by
  obtain ⟨-, ls, ⟨-, ps, hps, -⟩, -⟩ := parse_eq_ok_iff.mp h
  exact ⟨ps, hps⟩

theorem normal_of_parse {limits : Limits} {text : String} {f : Formula}
    (h : parse limits text = .ok f) : f.Normal := by
  obtain ⟨ps, hps⟩ := cuts_of_parse h
  exact ((parse_eq_ok_iff_normal hps).mp h).2.2.1

/-- A formula is written with the tokens that it was read from. -/
theorem tokens_of_parse {limits : Limits} {text : String} {f : Formula} {ps : List Piece}
    (h : parse limits text = .ok f) (hps : Scan.Cuts 0 text.toList ps) :
    f.tokens = (ps.filterMap Piece.lexeme?).map Lexeme.token :=
  ((parse_eq_ok_iff_normal hps).mp h).2.2.2

/-- The sections of a formula that was read are the ids of its text, in order. -/
theorem atoms_of_lexemes {limits : Limits} {text : String} {f : Formula} {ls : List Lexeme}
    (h : parse limits text = .ok f) (hls : lexemes limits text = .ok ls) :
    ls.filterMap (·.token.atom?) = f.atoms := by
  obtain ⟨-, -, ps, hps, rfl⟩ := Scan.lexemes_eq_ok_iff.mp hls
  rw [← filterMap_atom?_tokens, tokens_of_parse h hps, List.filterMap_map]
  rfl

/-- A formula that was read is written as the shortest form of the text. -/
theorem print_of_parse {limits : Limits} {text : String} {f : Formula}
    (h : parse limits text = .ok f) : f.print.toList = Scan.compact text.toList := by
  obtain ⟨ps, hps⟩ := cuts_of_parse h
  rw [toList_print, tokens_of_parse h hps, Scan.compact_of_cuts hps]

theorem byteSize_print_of_parse {limits : Limits} {text : String} {f : Formula}
    (h : parse limits text = .ok f) :
    Text.byteSize f.print.toList ≤ Text.byteSize text.toList := by
  obtain ⟨ps, hps⟩ := cuts_of_parse h
  rw [toList_print, tokens_of_parse h hps]
  exact Scan.byteSize_chars_le hps

/-- The text of any tree is read as the normal formula that is written like it. -/
theorem parse_print_eq_ok_iff_normal {limits : Limits} {f g : Formula} :
    parse limits f.print = .ok g ↔ Text.byteSize f.print.toList ≤ limits.maxBytes ∧
      g.nesting ≤ limits.maxNesting ∧ g.Normal ∧ g.tokens = f.tokens := by
  obtain ⟨ps, hps, htok⟩ := Scan.cuts_chars f.apart_tokens 0
  rw [← toList_print] at hps
  rw [parse_eq_ok_iff_normal hps, htok]

/-- **A normal formula is read back from its text** under all limits that admit the two. -/
theorem Normal.parse_print {limits : Limits} {f : Formula} (h : f.Normal)
    (hsize : Text.byteSize f.print.toList ≤ limits.maxBytes)
    (hdeep : f.nesting ≤ limits.maxNesting) : parse limits f.print = .ok f :=
  parse_print_eq_ok_iff_normal.mpr ⟨hsize, hdeep, h, rfl⟩

/-- What was read is read back from what is written, under the same limits. -/
theorem parse_print_of_parse {limits : Limits} {text : String} {f : Formula}
    (h : parse limits text = .ok f) : parse limits f.print = .ok f := by
  obtain ⟨ps, hps⟩ := cuts_of_parse h
  obtain ⟨hsize, hdeep, hnormal, -⟩ := (parse_eq_ok_iff_normal hps).mp h
  exact hnormal.parse_print (Nat.le_trans (byteSize_print_of_parse h) hsize) hdeep

/-- Normal formulas that are written with the same tokens are the same. -/
theorem Normal.eq_of_tokens {f g : Formula} (hf : f.Normal) (hg : g.Normal)
    (h : f.tokens = g.tokens) : f = g := by
  obtain ⟨ts, hts, hmap⟩ := (Grammar.derived_of_normal hf 0).expression
  obtain ⟨us, hus, hmap'⟩ := (Grammar.derived_of_normal hg 0).expression
  exact hts.unique hus (by rw [hmap, hmap', h])

/--
**Reading and writing are inverse to each other on normal formulas.**

What is read is normal and is written as the shortest form of its text, which is no longer than the
text and is read as the same formula under the same limits; the sections of the formula are the ids
of the text, in order.  A normal formula is read back from its text under all limits that admit its
size and its nesting.  So two texts are read as the same formula if and only if they have the same
tokens.
-/
theorem parse_and_print_inverse :
    (∀ (limits : Limits) (text : String) (f : Formula), parse limits text = .ok f →
      f.Normal ∧ f.print.toList = Scan.compact text.toList ∧
      Text.byteSize f.print.toList ≤ Text.byteSize text.toList ∧
      parse limits f.print = .ok f ∧
      ∃ ls, lexemes limits text = .ok ls ∧ f.atoms = ls.filterMap fun l => l.token.atom?) ∧
    (∀ (limits : Limits) (f : Formula), f.Normal →
      Text.byteSize f.print.toList ≤ limits.maxBytes → f.nesting ≤ limits.maxNesting →
      parse limits f.print = .ok f) ∧
    ∀ (limits limits' : Limits) (text text' : String) (f f' : Formula) (ls ls' : List Lexeme),
      parse limits text = .ok f → parse limits' text' = .ok f' →
      lexemes limits text = .ok ls → lexemes limits' text' = .ok ls' →
      (f = f' ↔ ls.map Lexeme.token = ls'.map Lexeme.token) := by
  refine ⟨?_, ?_, ?_⟩
  · intro limits text f h
    obtain ⟨hsize, ls, hls, -⟩ := parse_eq_ok_iff.mp h
    refine ⟨normal_of_parse h, print_of_parse h, byteSize_print_of_parse h, parse_print_of_parse h,
      ls, Scan.lexemes_eq_ok_iff.mpr ⟨hsize, hls⟩, ?_⟩
    obtain ⟨-, ps, hps, rfl⟩ := hls
    rw [← filterMap_atom?_tokens, tokens_of_parse h hps, List.filterMap_map]
    rfl
  · intro limits f h hsize hdeep
    exact h.parse_print hsize hdeep
  · intro limits limits' text text' f f' ls ls' h h' hls hls'
    obtain ⟨-, -, ps, hps, rfl⟩ := Scan.lexemes_eq_ok_iff.mp hls
    obtain ⟨-, -, ps', hps', rfl⟩ := Scan.lexemes_eq_ok_iff.mp hls'
    have htok := tokens_of_parse h hps
    have htok' := tokens_of_parse h' hps'
    constructor
    · rintro rfl
      rw [← htok, htok']
    · intro heq
      exact (normal_of_parse h).eq_of_tokens (normal_of_parse h') (by rw [htok, htok', heq])

end Formula

end Prerequisite
