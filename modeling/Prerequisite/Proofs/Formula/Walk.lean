/-
Which mistake a text is refused for.

The parser goes up and down the levels of the grammar, and its limit counts the calls that it is
inside of.  What it answers can be said without any of that.  A walk goes through the tokens once,
from left to right, and knows two things: whether an operand or an operator is wanted, and what is
open, which are the parentheses without their partners and the negations without their operands.

Each procedure of the parser goes a part of that way (`Agrees`).  It starts where an operand is
wanted, and if it succeeds the walk has come to the same place with the operand complete; if it
fails the walk ends with the same error.  What is open is on the one side a list and on the other
the number that a cursor carries, and the invariant is that the number is the length of the list.

A chain is read as far as it goes, so behind a conjunction there is no `^` and behind a formula no
operator at all.  That is why a parenthesis that is not closed there is blamed on what stands in
its place.
-/
import Mathlib.Tactic
import Prerequisite.Proofs.Formula.Meaning
import Prerequisite.Proofs.Formula.Reading

namespace Prerequisite

/-- What is open around a place. -/
inductive Opening where
  /-- A parenthesis, by its byte offset. -/
  | group (start : Nat)
  /-- A negation that has no complete operand. -/
  | negation

namespace Opening

/-- The innermost parenthesis that is open, and what is open around it. -/
def innermost : List Opening → Option (Nat × List Opening)
  | [] => none
  | .group start :: around => some (start, around)
  | .negation :: around => innermost around

/-- What stays open when an operand is complete, which its negations do not. -/
def settle : List Opening → List Opening
  | .negation :: around => settle around
  | opened => opened

end Opening

/-- A place on the walk through the tokens: what is wanted, and what is open, innermost first. -/
structure Walk where
  wanted : Wanted
  opened : List Opening

namespace Walk

open Prerequisite.Parser Opening

/-- The walk at its beginning. -/
def start : Walk := ⟨.operand, []⟩

/-- The walk when an operand is complete inside of what was open. -/
def complete (opened : List Opening) : Walk := ⟨.operator, settle opened⟩

/-- The walk when a token has opened something, which must not be inside of too much. -/
def enter (max : Nat) (l : Lexeme) (o : Opening) (opened : List Opening) :
    Except FormulaError Walk :=
  if opened.length < max then .ok ⟨.operand, o :: opened⟩
  else .error (.tooDeep max (max + 1) l.position)

/-- **The walk over one token.** -/
def step (max : Nat) (w : Walk) (l : Lexeme) : Except FormulaError Walk :=
  match w.wanted, l.token with
  | .operand, .atom _ => .ok (complete w.opened)
  | .operand, .opening => enter max l (.group l.position) w.opened
  | .operand, .not => enter max l .negation w.opened
  | .operand, _ => .error (.unexpected .operand (.source (String.ofList l.source)) l.position)
  | .operator, .and | .operator, .or => .ok ⟨.operand, w.opened⟩
  | .operator, .closing =>
      match innermost w.opened with
      | some (_, around) => .ok (complete around)
      | none => .error (.unbalanced l.position)
  | .operator, _ =>
      match innermost w.opened with
      | some _ => .error (.unexpected .continuation (.source (String.ofList l.source)) l.position)
      | none => .error (.trailing l.position)

/-- What is said at the end of a text of a given size. -/
def finish (size : Nat) (w : Walk) : Except FormulaError Unit :=
  match w.wanted with
  | .operand => .error (.unexpected .operand .endOfInput size)
  | .operator =>
      match innermost w.opened with
      | some (start, _) => .error (.unbalanced start)
      | none => .ok ()

/-- **What is said of tokens from a place on:** the first mistake, or that there is none. -/
def verdict (frame : Frame) (w : Walk) : List Lexeme → Except FormulaError Unit
  | [] => w.finish frame.size
  | l :: ls =>
      match w.step frame.maxNesting l with
      | .ok w' => verdict frame w' ls
      | .error e => .error e

/-! ### The walk and the procedures of the parser -/

section

variable {frame : Frame} {w w' : Walk} {l : Lexeme} {ls : List Lexeme}

theorem verdict_of_step (h : w.step frame.maxNesting l = .ok w') :
    w.verdict frame (l :: ls) = w'.verdict frame ls := by
  rw [verdict, h]

theorem verdict_of_step_error {e : FormulaError} (h : w.step frame.maxNesting l = .error e) :
    w.verdict frame (l :: ls) = .error e := by
  rw [verdict, h]

end

/-- **A reply agrees with the walk.**  A procedure that succeeds brings the walk to a place on the
same level, with lexemes left that satisfy `ended`; one that fails ends the walk. -/
def Agrees (frame : Frame) (n : Nat) (w after : Walk) (ls : List Lexeme)
    (ended : List Lexeme → Prop) {m : Nat} : Reply m → Prop
  | .done _ next _ =>
      next.nesting = n ∧ ended next.rest ∧ w.verdict frame ls = after.verdict frame next.rest
  | .failed e _ => w.verdict frame ls = .error e

/-- No operator comes next. -/
def NoOperator (ls : List Lexeme) : Prop := NotNext .or ls ∧ NotNext .and ls

/-- Where an operand is wanted and none begins, the parser and the walk say the same. -/
theorem verdict_missingOperand {frame : Frame} {opened : List Opening} {ls : List Lexeme}
    (h : ∀ l ∈ ls.head?, l.token.opens = false ∧ l.token.atom? = none) :
    verdict frame ⟨.operand, opened⟩ ls = .error (missingOperand frame ls) := by
  cases ls with
  | nil => rfl
  | cons l ls =>
      obtain ⟨hopens, hatom⟩ := h l (by simp)
      apply verdict_of_step_error
      unfold step
      cases hl : l.token with
      | atom id => rw [hl] at hatom; exact absurd hatom (by simp [Token.atom?])
      | not | opening => rw [hl] at hopens; exact absurd hopens (by simp [Token.opens])
      | and | or | closing => rfl

/-- Where a parenthesis should close and does not, they say the same. -/
theorem verdict_missingClosing {frame : Frame} {start : Nat} {opened : List Opening}
    {ls : List Lexeme} (hend : NoOperator ls) (h : NotNext .closing ls) :
    verdict frame ⟨.operator, .group start :: opened⟩ ls = .error (missingClosing start ls) := by
  cases ls with
  | nil => rfl
  | cons l ls =>
      have hor : l.token ≠ .or := hend.1 l (by simp)
      have hand : l.token ≠ .and := hend.2 l (by simp)
      have hclosing : l.token ≠ .closing := h l (by simp)
      apply verdict_of_step_error
      unfold step
      cases hl : l.token with
      | or => exact absurd hl hor
      | and => exact absurd hl hand
      | closing => exact absurd hl hclosing
      | atom | not | opening => rfl

/-- Where a formula is complete and something follows, they say the same. -/
theorem verdict_surplus {frame : Frame} {l : Lexeme} {ls : List Lexeme}
    (hend : NoOperator (l :: ls)) :
    verdict frame ⟨.operator, []⟩ (l :: ls) = .error (surplus l) := by
  have hor : l.token ≠ .or := hend.1 l (by simp)
  have hand : l.token ≠ .and := hend.2 l (by simp)
  apply verdict_of_step_error
  unfold step surplus
  cases hl : l.token with
  | or => exact absurd hl hor
  | and => exact absurd hl hand
  | closing | atom | not | opening => rfl

/-- Where a token opens something, it does so on both sides or is too deep on both. -/
theorem verdict_enter {frame : Frame} {n : Nat} {opened : List Opening} (l : Lexeme)
    (ls : List Lexeme) (o : Opening) (hlen : opened.length = n) (hmax : n ≤ frame.maxNesting)
    (hstep : step frame.maxNesting ⟨.operand, opened⟩ l = enter frame.maxNesting l o opened) :
    verdict frame ⟨.operand, opened⟩ (l :: ls) =
      if n < frame.maxNesting then verdict frame ⟨.operand, o :: opened⟩ ls
      else .error (.tooDeep frame.maxNesting (n + 1) l.position) := by
  unfold enter at hstep
  by_cases hdeep : n < frame.maxNesting
  · rw [if_pos (by omega)] at hstep
    rw [if_pos hdeep, verdict_of_step hstep]
  · have hfull : n = frame.maxNesting := by omega
    rw [if_neg (by omega)] at hstep
    rw [if_neg hdeep, verdict_of_step_error hstep, hfull]

/-- What comes after a part of the walk agrees with the whole of it. -/
theorem Agrees.after {frame : Frame} {n m : Nat} {w mid after : Walk} {ls ms : List Lexeme}
    {ended : List Lexeme → Prop} {r : Reply m}
    (hwalk : w.verdict frame ls = mid.verdict frame ms)
    (h : Agrees frame n mid after ms ended r) : Agrees frame n w after ls ended r := by
  cases r with
  | done f next shorter =>
      obtain ⟨hlevel, hend, hrest⟩ := h
      exact ⟨hlevel, hend, hwalk.trans hrest⟩
  | failed e stop => exact hwalk.trans h

mutual

theorem formula_agrees {frame : Frame} {n : Nat} {opened : List Opening}
    (hlen : opened.length = n) (hmax : n ≤ frame.maxNesting) (hsettled : settle opened = opened)
    (ls : List Lexeme) :
    Agrees frame n ⟨.operand, opened⟩ ⟨.operator, opened⟩ ls NoOperator
      (formula frame ⟨ls, n⟩) := by
  have hfirst := conjunction_agrees hlen hmax hsettled ls
  rw [formula]
  cases hc : conjunction frame ⟨ls, n⟩ with
  | failed e stop =>
      rw [hc] at hfirst
      exact hfirst
  | done f next less =>
      rw [hc] at hfirst
      obtain ⟨hlevel, hand, hwalk⟩ := hfirst
      obtain ⟨ms, k⟩ := next
      obtain rfl : k = n := hlevel
      exact .after hwalk (disjuncts_agrees hlen hmax hsettled ms less hand)
termination_by (ls.length, 4)

theorem disjuncts_agrees {frame : Frame} {m n : Nat} {done : List Formula} {opened : List Opening}
    (hlen : opened.length = n) (hmax : n ≤ frame.maxNesting) (hsettled : settle opened = opened) :
    ∀ (ls : List Lexeme) (hm : ls.length < m), NotNext .and ls →
      Agrees frame n ⟨.operator, opened⟩ ⟨.operator, opened⟩ ls NoOperator
        (disjuncts frame m done ⟨ls, n⟩ hm)
  | [], hm, hand => by
      rw [disjuncts_stop (notNext_nil _)]
      exact ⟨rfl, ⟨notNext_nil _, hand⟩, rfl⟩
  | l :: ls, hm, hand => by
      by_cases hor : l.token = .or
      · have hstep : step frame.maxNesting ⟨.operator, opened⟩ l = .ok ⟨.operand, opened⟩ := by
          rw [step, hor]
        have hnext := (conjunction_agrees hlen hmax hsettled ls).after (verdict_of_step hstep)
        cases hc : conjunction frame ⟨ls, n⟩ with
        | failed e stop =>
            rw [hc] at hnext
            rw [disjuncts]
            simp only [if_pos hor, hc]
            exact hnext
        | done f next less =>
            rw [hc] at hnext
            obtain ⟨hlevel, hand', hwalk⟩ := hnext
            obtain ⟨ms, k⟩ := next
            obtain rfl : k = n := hlevel
            have hshort : ms.length < ls.length := less
            rw [disjuncts_more hor hc]
            exact .after hwalk (disjuncts_agrees hlen hmax hsettled ms _ hand')
      · rw [disjuncts_stop (notNext_cons hor)]
        exact ⟨rfl, ⟨notNext_cons hor, hand⟩, rfl⟩
termination_by ls => (ls.length, 3)
decreasing_by
  all_goals
    apply Prod.Lex.left
    simp only [List.length_cons]
    omega

theorem conjunction_agrees {frame : Frame} {n : Nat} {opened : List Opening}
    (hlen : opened.length = n) (hmax : n ≤ frame.maxNesting) (hsettled : settle opened = opened)
    (ls : List Lexeme) :
    Agrees frame n ⟨.operand, opened⟩ ⟨.operator, opened⟩ ls (NotNext .and)
      (conjunction frame ⟨ls, n⟩) := by
  have hfirst := factor_agrees hlen hmax ls
  have hcomplete : complete opened = ⟨.operator, opened⟩ := by rw [complete, hsettled]
  rw [hcomplete] at hfirst
  rw [conjunction]
  cases hc : factor frame ⟨ls, n⟩ with
  | failed e stop =>
      rw [hc] at hfirst
      exact hfirst
  | done f next less =>
      rw [hc] at hfirst
      obtain ⟨hlevel, -, hwalk⟩ := hfirst
      obtain ⟨ms, k⟩ := next
      obtain rfl : k = n := hlevel
      exact .after hwalk (conjuncts_agrees hlen hmax hsettled ms less)
termination_by (ls.length, 2)

theorem conjuncts_agrees {frame : Frame} {m n : Nat} {done : List Formula} {opened : List Opening}
    (hlen : opened.length = n) (hmax : n ≤ frame.maxNesting) (hsettled : settle opened = opened) :
    ∀ (ls : List Lexeme) (hm : ls.length < m),
      Agrees frame n ⟨.operator, opened⟩ ⟨.operator, opened⟩ ls (NotNext .and)
        (conjuncts frame m done ⟨ls, n⟩ hm)
  | [], hm => by
      rw [conjuncts_stop (notNext_nil _)]
      exact ⟨rfl, notNext_nil _, rfl⟩
  | l :: ls, hm => by
      by_cases hand : l.token = .and
      · have hstep : step frame.maxNesting ⟨.operator, opened⟩ l = .ok ⟨.operand, opened⟩ := by
          rw [step, hand]
        have hcomplete : complete opened = ⟨.operator, opened⟩ := by rw [complete, hsettled]
        have hnext := (factor_agrees hlen hmax ls).after (verdict_of_step hstep)
        rw [hcomplete] at hnext
        cases hc : factor frame ⟨ls, n⟩ with
        | failed e stop =>
            rw [hc] at hnext
            rw [conjuncts]
            simp only [if_pos hand, hc]
            exact hnext
        | done f next less =>
            rw [hc] at hnext
            obtain ⟨hlevel, -, hwalk⟩ := hnext
            obtain ⟨ms, k⟩ := next
            obtain rfl : k = n := hlevel
            have hshort : ms.length < ls.length := less
            rw [conjuncts_more hand hc]
            exact .after hwalk (conjuncts_agrees hlen hmax hsettled ms _)
      · rw [conjuncts_stop (notNext_cons hand)]
        exact ⟨rfl, notNext_cons hand, rfl⟩
termination_by ls => (ls.length, 1)
decreasing_by
  all_goals
    apply Prod.Lex.left
    simp only [List.length_cons]
    omega

theorem factor_agrees {frame : Frame} {n : Nat} {opened : List Opening}
    (hlen : opened.length = n) (hmax : n ≤ frame.maxNesting) :
    ∀ ls : List Lexeme, Agrees frame n ⟨.operand, opened⟩ (complete opened) ls (fun _ => True)
      (factor frame ⟨ls, n⟩)
  | [] => by
      rw [factor]
      exact verdict_missingOperand (fun l hl => absurd hl (by simp))
  | l :: ls => by
      have hmissing : l.token.opens = false → l.token.atom? = none →
          verdict frame ⟨.operand, opened⟩ (l :: ls) = .error (missingOperand frame (l :: ls)) := by
        intro hopens hatom
        apply verdict_missingOperand
        intro x hx
        obtain rfl : l = x := by simpa using hx
        exact ⟨hopens, hatom⟩
      rw [factor]
      cases hl : l.token with
      | and | or | closing =>
          simp only [hl]
          exact hmissing (by rw [hl]; rfl) (by rw [hl]; rfl)
      | atom id =>
          simp only [hl]
          refine ⟨rfl, trivial, verdict_of_step ?_⟩
          rw [step, hl]
      | not =>
          have henter := verdict_enter l ls .negation hlen hmax (by rw [step, hl])
          simp only [hl]
          by_cases hdeep : n < frame.maxNesting
          · rw [if_pos hdeep] at henter
            simp only [if_pos hdeep]
            have hlen' : (.negation :: opened).length = n + 1 := congrArg (· + 1) hlen
            have hinner := (factor_agrees hlen' hdeep ls).after henter
            cases hc : factor frame ⟨ls, n + 1⟩ with
            | failed e stop =>
                rw [hc] at hinner
                exact hinner
            | done f next less =>
                rw [hc] at hinner
                obtain ⟨hlevel, -, hwalk⟩ := hinner
                exact ⟨congrArg (· - 1) hlevel, trivial, hwalk⟩
          · rw [if_neg hdeep] at henter
            simp only [if_neg hdeep]
            exact henter
      | opening =>
          have henter := verdict_enter l ls (.group l.position) hlen hmax (by rw [step, hl])
          simp only [hl]
          by_cases hdeep : n < frame.maxNesting
          · rw [if_pos hdeep] at henter
            simp only [if_pos hdeep]
            have hlen' : (.group l.position :: opened).length = n + 1 := congrArg (· + 1) hlen
            have hinner := (formula_agrees hlen' hdeep rfl ls).after henter
            cases hc : formula frame ⟨ls, n + 1⟩ with
            | failed e stop =>
                rw [hc] at hinner
                exact hinner
            | done f next less =>
                rw [hc] at hinner
                obtain ⟨hlevel, hend, hwalk⟩ := hinner
                obtain ⟨after, m⟩ := next
                cases after with
                | nil => exact hwalk.trans (verdict_missingClosing hend (notNext_nil _))
                | cons r after =>
                    by_cases hr : r.token = .closing
                    · have hclose : step frame.maxNesting
                          ⟨.operator, .group l.position :: opened⟩ r = .ok (complete opened) := by
                        rw [step, hr]
                        rfl
                      simp only [if_pos hr]
                      exact ⟨congrArg (· - 1) hlevel, trivial,
                        hwalk.trans (verdict_of_step hclose)⟩
                    · simp only [if_neg hr]
                      exact hwalk.trans (verdict_missingClosing hend (notNext_cons hr))
          · rw [if_neg hdeep] at henter
            simp only [if_neg hdeep]
            exact henter
termination_by ls => (ls.length, 0)
decreasing_by
  all_goals
    apply Prod.Lex.left
    simp only [List.length_cons]
    omega

end

/-- The parser accepts what the walk finds no mistake in, and names the first one that it finds. -/
theorem whole_eq_verdict (frame : Frame) (ls : List Lexeme) :
    (whole frame ls).map (fun _ => ()) = start.verdict frame ls := by
  have hlen : ([] : List Opening).length = 0 := rfl
  have hread := formula_agrees hlen (Nat.zero_le frame.maxNesting) rfl ls
  unfold whole start
  cases hc : formula frame ⟨ls, 0⟩ with
  | failed e stop =>
      rw [hc] at hread
      exact hread.symm
  | done f next less =>
      rw [hc] at hread
      obtain ⟨-, hend, hwalk⟩ := hread
      obtain ⟨ms, k⟩ := next
      rw [hwalk]
      cases ms with
      | nil => rfl
      | cons l ms => exact (verdict_surplus hend).symm

end Walk

namespace Formula

/-- A text that tokenizes is read or refused as the walk through its lexemes says. -/
theorem parse_eq_verdict {limits : Limits} {text : String} {ls : List Lexeme}
    (h : lexemes limits text = .ok ls) :
    (parse limits text).map (fun _ => ()) =
      Walk.start.verdict ⟨limits.maxNesting, Text.byteSize text.toList⟩ ls := by
  rw [parse, h]
  exact Walk.whole_eq_verdict _ ls

end Formula

end Prerequisite
