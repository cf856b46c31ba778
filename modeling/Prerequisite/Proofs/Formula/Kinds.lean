/-
Only the kinds of tokens matter.

Whether a text is read does not depend on its ids, nor on where its tokens stand and how they are
written.  The walk shows it: where it goes from a token is settled by the kind of the token, and
all that it remembers of an open parenthesis besides its kind is an offset, which is used for
errors only.  So a walk is compared with the same walk when all of that is left out (`step_bare`).
-/
import Prerequisite.Proofs.Formula.Walk

namespace Prerequisite

/-- The token without its id, if it has one. -/
def Token.kind : Token → Token
  | .atom _ => .atom ⟨0⟩
  | t => t

/-- What is left of a lexeme when only its kind counts. -/
def Lexeme.bare (l : Lexeme) : Lexeme := ⟨l.token.kind, [], 0⟩

/-- What is left of an opening when only its kind counts. -/
def Opening.bare : Opening → Opening
  | .group _ => .group 0
  | .negation => .negation

namespace Opening

theorem settle_bare (opened : List Opening) :
    settle (opened.map bare) = (settle opened).map bare := by
  induction opened with
  | nil => rfl
  | cons o around ih =>
      cases o with
      | group start => rfl
      | negation => exact ih

theorem innermost_bare (opened : List Opening) :
    innermost (opened.map bare) = (innermost opened).map fun x => (0, x.2.map bare) := by
  induction opened with
  | nil => rfl
  | cons o around ih =>
      cases o with
      | group start => rfl
      | negation => exact ih

end Opening

namespace Walk

open Prerequisite.Parser Opening

/-- What is left of a place on the walk when only kinds count. -/
def bare (w : Walk) : Walk := ⟨w.wanted, w.opened.map Opening.bare⟩

theorem enter_bare (max : Nat) (l : Lexeme) (o : Opening) (opened : List Opening) :
    (enter max l.bare o.bare (opened.map Opening.bare)).toOption =
      (enter max l o opened).toOption.map bare := by
  unfold enter
  rw [List.length_map]
  by_cases hdeep : opened.length < max
  · rw [if_pos hdeep, if_pos hdeep]
    rfl
  · rw [if_neg hdeep, if_neg hdeep]
    rfl

/-- A walk goes the same way when only kinds count. -/
theorem step_bare (max : Nat) (w : Walk) (l : Lexeme) :
    (w.bare.step max l.bare).toOption = (w.step max l).toOption.map bare := by
  obtain ⟨wanted, opened⟩ := w
  have hbare : l.bare.token = l.token.kind := rfl
  unfold step
  cases wanted with
  | operand =>
      cases hl : l.token with
      | atom id =>
          simp only [bare, hbare, hl, Token.kind, complete, settle_bare]
          rfl
      | opening =>
          simp only [bare, hbare, hl, Token.kind]
          exact enter_bare max l (.group l.position) opened
      | not =>
          simp only [bare, hbare, hl, Token.kind]
          exact enter_bare max l .negation opened
      | and | or | closing =>
          simp only [bare, hbare, hl, Token.kind]
          rfl
  | operator =>
      cases hl : l.token with
      | and | or =>
          simp only [bare, hbare, hl, Token.kind]
          rfl
      | closing =>
          simp only [bare, hbare, hl, Token.kind, innermost_bare]
          cases innermost opened with
          | none => rfl
          | some x =>
              simp only [Option.map_some, complete, settle_bare]
              rfl
      | atom | opening | not =>
          simp only [bare, hbare, hl, Token.kind, innermost_bare]
          cases innermost opened <;> rfl

theorem finish_bare (size size' : Nat) (w : Walk) :
    (w.bare.finish size').toOption = (w.finish size).toOption := by
  obtain ⟨wanted, opened⟩ := w
  unfold finish
  cases wanted with
  | operand => rfl
  | operator =>
      simp only [bare, innermost_bare]
      cases innermost opened <;> rfl

/-- A walk ends well when it does so with only kinds counting, in a text of whatever size. -/
theorem verdict_bare {max : Nat} (size size' : Nat) (ls : List Lexeme) :
    ∀ w : Walk, (w.bare.verdict ⟨max, size'⟩ (ls.map Lexeme.bare)).toOption =
      (w.verdict ⟨max, size⟩ ls).toOption := by
  induction ls with
  | nil => exact finish_bare size size'
  | cons l ls ih =>
      intro w
      have hstep := step_bare max w l
      rw [List.map_cons]
      cases hw : w.step max l with
      | ok v =>
          rw [hw] at hstep
          have hbare : w.bare.step max l.bare = .ok v.bare := by
            cases hb : w.bare.step max l.bare with
            | ok u => rw [hb] at hstep; exact congrArg Except.ok (Option.some.inj hstep)
            | error e => rw [hb] at hstep; exact absurd hstep (by simp [Except.toOption])
          rw [verdict_of_step hbare, verdict_of_step hw]
          exact ih v
      | error e =>
          rw [hw] at hstep
          obtain ⟨e', hbare⟩ : ∃ e', w.bare.step max l.bare = .error e' := by
            cases hb : w.bare.step max l.bare with
            | ok u => rw [hb] at hstep; exact absurd hstep (by simp [Except.toOption])
            | error e' => exact ⟨e', rfl⟩
          rw [verdict_of_step_error hbare, verdict_of_step_error hw]
          rfl

end Walk

namespace Formula

/-- **Of two texts with the same kinds of tokens, one is read if the other is.** -/
theorem exists_parse_of_kinds {limits : Limits} {text text' : String} {ls ls' : List Lexeme}
    {f : Formula} (hls : lexemes limits text = .ok ls) (hls' : lexemes limits text' = .ok ls')
    (hkinds : ls.map (·.token.kind) = ls'.map (·.token.kind))
    (h : parse limits text = .ok f) : ∃ g, parse limits text' = .ok g := by
  have hbare : ls.map Lexeme.bare = ls'.map Lexeme.bare := by
    have key := congrArg (List.map fun t => (⟨t, [], 0⟩ : Lexeme)) hkinds
    rwa [List.map_map, List.map_map] at key
  have hold := parse_eq_verdict hls
  have hnew := parse_eq_verdict hls'
  have hsame : (Walk.start.verdict ⟨limits.maxNesting, Text.byteSize text'.toList⟩ ls').toOption =
      (Walk.start.verdict ⟨limits.maxNesting, Text.byteSize text.toList⟩ ls).toOption := by
    rw [← Walk.verdict_bare _ 0 ls', ← Walk.verdict_bare _ 0 ls, hbare]
  rw [← hold, ← hnew, h] at hsame
  cases hread : parse limits text' with
  | ok g => exact ⟨g, rfl⟩
  | error e => rw [hread] at hsame; exact absurd hsame (by simp [Except.map, Except.toOption])

end Formula

end Prerequisite
