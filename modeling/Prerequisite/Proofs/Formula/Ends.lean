/-
The ends of a text that is read.

A formula begins with an operand and ends with one.  On the walk through its tokens an operand is
wanted at the beginning, and at the end an operator is, which it is only where an operand has ended.
-/
import Prerequisite.Proofs.Formula.Walk

namespace Prerequisite

/-- Whether an operand can begin with a token. -/
def Token.starts : Token → Bool
  | .atom _ | .not | .opening => true
  | .and | .or | .closing => false

/-- Whether an operand can end with a token. -/
def Token.ends : Token → Bool
  | .atom _ | .closing => true
  | .and | .or | .not | .opening => false

namespace Walk

open Prerequisite.Parser

variable {frame : Frame} {w w' : Walk} {l : Lexeme} {ls : List Lexeme}

/-- A walk that is not over has begun with an operand. -/
theorem starts_of_step {max : Nat} (hw : w.wanted = .operand) (h : w.step max l = .ok w') :
    l.token.starts = true := by
  unfold step at h
  rw [hw] at h
  cases hl : l.token with
  | atom _ | not | opening => rfl
  | and | or | closing => simp [hl] at h

/-- An operator is wanted only where an operand has ended. -/
theorem ends_of_step {max : Nat} (h : w.step max l = .ok w') (hw' : w'.wanted = .operator) :
    l.token.ends = true := by
  have henter : ∀ {o opened}, enter max l o opened = .ok w' → False := by
    intro o opened h
    unfold enter at h
    split at h
    · obtain rfl := Except.ok.inj h
      exact absurd hw' (by simp)
    · exact absurd h (by simp)
  unfold step at h
  cases hl : l.token with
  | atom _ | closing => rfl
  | not | opening =>
      cases hwant : w.wanted with
      | operand =>
          simp only [hwant, hl] at h
          exact (henter h).elim
      | operator =>
          simp only [hwant, hl] at h
          split at h <;> exact absurd h (by simp)
  | and | or =>
      cases hwant : w.wanted with
      | operand => simp [hwant, hl] at h
      | operator =>
          simp only [hwant, hl] at h
          obtain rfl := Except.ok.inj h
          exact absurd hw' (by simp)

/-- A walk that ends well has ended with an operand. -/
theorem ends_of_verdict : ∀ {w : Walk}, w.verdict frame ls = .ok () →
    ∀ l ∈ ls.getLast?, l.token.ends = true := by
  induction ls with
  | nil => intro w _ l hl; exact absurd hl (by simp)
  | cons l ls ih =>
      intro w h last hlast
      cases hstep : w.step frame.maxNesting l with
      | error e =>
          rw [verdict_of_step_error hstep] at h
          exact absurd h (by simp)
      | ok w' =>
          rw [verdict_of_step hstep] at h
          cases ls with
          | cons l' ls => exact ih h last (by rwa [List.getLast?_cons_cons] at hlast)
          | nil =>
              obtain rfl : l = last := by simpa using hlast
              refine ends_of_step hstep ?_
              rw [verdict, finish] at h
              cases hwant : w'.wanted with
              | operator => rfl
              | operand => simp [hwant] at h

end Walk

namespace Formula

variable {accepted limits : Limits} {text : String} {f : Formula} {ls : List Lexeme}

theorem verdict_of_parse (h : parse accepted text = .ok f) (hls : lexemes limits text = .ok ls) :
    Walk.start.verdict ⟨accepted.maxNesting, Text.byteSize text.toList⟩ ls = .ok () := by
  obtain ⟨hsize, ls', hlexes, -⟩ := parse_eq_ok_iff.mp h
  have hls' : lexemes accepted text = .ok ls :=
    Scan.lexemes_eq_ok_iff.mpr ⟨hsize, (Scan.lexemes_eq_ok_iff.mp hls).2⟩
  rw [← parse_eq_verdict hls', h]
  rfl

theorem starts_of_parse (h : parse accepted text = .ok f) (hls : lexemes limits text = .ok ls) :
    ∀ l ∈ ls.head?, l.token.starts = true := by
  intro l hl
  cases ls with
  | nil => exact absurd hl (by simp)
  | cons l' ls =>
      obtain rfl : l' = l := by simpa using hl
      have hverdict := verdict_of_parse h hls
      cases hstep : Walk.start.step accepted.maxNesting l' with
      | error e =>
          rw [Walk.verdict_of_step_error hstep] at hverdict
          exact absurd hverdict (by simp)
      | ok w => exact Walk.starts_of_step rfl hstep

theorem ends_of_parse (h : parse accepted text = .ok f) (hls : lexemes limits text = .ok ls) :
    ∀ l ∈ ls.getLast?, l.token.ends = true :=
  Walk.ends_of_verdict (verdict_of_parse h hls)

end Formula

end Prerequisite
