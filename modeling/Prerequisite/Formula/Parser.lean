/-
Reading formulas.

The grammar has three levels, and a chain of one operator is one node:

    formula     := conjunction ('v' conjunction)*
    conjunction := factor ('^' factor)*
    factor      := '!' factor | section | '(' formula ')'

There is one procedure for each level and one for each chain.  A procedure starts at a cursor, the
lexemes not read yet and the number of parentheses and negations around them, and comes back with a
formula and a cursor, or with an error and the cursor where it stopped.  It uses up at least one
lexeme before it succeeds, and it calls a procedure only after that or on a tighter level of the
grammar; so reading ends, by the number of lexemes left and then the level.

A parenthesis and a negation count one level up on the way in and one down on the way out, whether
what they hold could be read or not.
-/
import Prerequisite.Formula.Basic
import Prerequisite.Formula.Token

namespace Prerequisite

namespace Parser

/-- What a reading depends on besides its lexemes. -/
structure Frame where
  /-- The most parentheses and negations around a place. -/
  maxNesting : Nat
  /-- The size of the whole text, which is where it ends. -/
  size : Nat

/-- A place in the list of lexemes. -/
structure Cursor where
  /-- The lexemes not read yet. -/
  rest : List Lexeme
  /-- The number of parentheses and negations around the place. -/
  nesting : Nat

/-- The same place, one level further out. -/
def Cursor.leave (c : Cursor) : Cursor := { c with nesting := c.nesting - 1 }

/-- The answer of a procedure: fewer than `n` lexemes are left after a formula. -/
inductive Reply (n : Nat) where
  /-- A formula, and the place after it. -/
  | done (formula : Formula) (next : Cursor) (shorter : next.rest.length < n)
  /-- An error, and the place where reading stopped. -/
  | failed (error : FormulaError) (stop : Cursor)

/-- A chain of operands as one formula: a single one is itself. -/
def chain (node : List Formula → Formula) : List Formula → Formula
  | [f] => f
  | fs => node fs

/-- What is wrong where an operand should start. -/
def missingOperand (frame : Frame) : List Lexeme → FormulaError
  | [] => .unexpected .operand .endOfInput frame.size
  | l :: _ => .unexpected .operand (.source (String.ofList l.source)) l.position

/-- What is wrong where the parenthesis opened at `start` should close. -/
def missingClosing (start : Nat) : List Lexeme → FormulaError
  | [] => .unbalanced start
  | l :: _ => .unexpected .continuation (.source (String.ofList l.source)) l.position

mutual

/-- Reads a formula. -/
def formula (frame : Frame) (c : Cursor) : Reply c.rest.length :=
  match conjunction frame c with
  | .failed e stop => .failed e stop
  | .done f next shorter => disjuncts frame c.rest.length [f] next shorter
termination_by (c.rest.length, 4)

/-- Reads the disjuncts that follow those already read, the last of which comes first. -/
def disjuncts (frame : Frame) (n : Nat) (done : List Formula) (c : Cursor)
    (shorter : c.rest.length < n) : Reply n :=
  match h : c.rest with
  | l :: rest =>
      if l.token = .or then
        match conjunction frame ⟨rest, c.nesting⟩ with
        | .failed e stop => .failed e stop
        | .done f next less =>
            have hlt : next.rest.length < c.rest.length := by
              rw [h]; exact Nat.lt_succ_of_lt less
            disjuncts frame n (f :: done) next (Nat.lt_trans hlt shorter)
      else .done (chain .disj done.reverse) c shorter
  | [] => .done (chain .disj done.reverse) c shorter
termination_by (c.rest.length, 3)
decreasing_by
  · apply Prod.Lex.left; simp only [h, List.length_cons]; omega
  · apply Prod.Lex.left; omega

/-- Reads a conjunction. -/
def conjunction (frame : Frame) (c : Cursor) : Reply c.rest.length :=
  match factor frame c with
  | .failed e stop => .failed e stop
  | .done f next shorter => conjuncts frame c.rest.length [f] next shorter
termination_by (c.rest.length, 2)

/-- Reads the conjuncts that follow those already read, the last of which comes first. -/
def conjuncts (frame : Frame) (n : Nat) (done : List Formula) (c : Cursor)
    (shorter : c.rest.length < n) : Reply n :=
  match h : c.rest with
  | l :: rest =>
      if l.token = .and then
        match factor frame ⟨rest, c.nesting⟩ with
        | .failed e stop => .failed e stop
        | .done f next less =>
            have hlt : next.rest.length < c.rest.length := by
              rw [h]; exact Nat.lt_succ_of_lt less
            conjuncts frame n (f :: done) next (Nat.lt_trans hlt shorter)
      else .done (chain .conj done.reverse) c shorter
  | [] => .done (chain .conj done.reverse) c shorter
termination_by (c.rest.length, 1)
decreasing_by
  · apply Prod.Lex.left; simp only [h, List.length_cons]; omega
  · apply Prod.Lex.left; omega

/-- Reads a factor: negations in front of a section or a group. -/
def factor (frame : Frame) (c : Cursor) : Reply c.rest.length :=
  match h : c.rest with
  | [] => .failed (missingOperand frame c.rest) c
  | l :: rest =>
      match l.token with
      | .not =>
          if c.nesting < frame.maxNesting then
            match factor frame ⟨rest, c.nesting + 1⟩ with
            | .failed e stop => .failed e stop.leave
            | .done f next less => .done (.neg f) next.leave (Nat.lt_succ_of_lt less)
          else
            .failed (.tooDeep frame.maxNesting (c.nesting + 1) l.position) ⟨rest, c.nesting⟩
      | .atom id => .done (.atom id) ⟨rest, c.nesting⟩ (Nat.lt_succ_self _)
      | .opening =>
          if c.nesting < frame.maxNesting then
            match formula frame ⟨rest, c.nesting + 1⟩ with
            | .failed e stop => .failed e stop.leave
            | .done f next less =>
                match hn : next.rest with
                | r :: after =>
                    if r.token = .closing then
                      .done (.group f) (Cursor.leave ⟨after, next.nesting⟩) (by
                        have h1 : after.length < next.rest.length := by simp [hn]
                        have h2 : next.rest.length < rest.length := less
                        have h3 : (Cursor.leave ⟨after, next.nesting⟩).rest.length = after.length :=
                          rfl
                        simp only [List.length_cons]
                        omega)
                    else .failed (missingClosing l.position next.rest) next.leave
                | [] => .failed (missingClosing l.position next.rest) next.leave
          else
            .failed (.tooDeep frame.maxNesting (c.nesting + 1) l.position) ⟨rest, c.nesting⟩
      | _ => .failed (missingOperand frame c.rest) c
termination_by (c.rest.length, 0)
decreasing_by
  all_goals
    apply Prod.Lex.left
    simp only [h, List.length_cons]
    omega

end

/-- What is wrong with text after a complete formula. -/
def surplus (l : Lexeme) : FormulaError :=
  if l.token = .closing then .unbalanced l.position else .trailing l.position

/-- Reads lexemes that are one formula. -/
def whole (frame : Frame) (ls : List Lexeme) : Except FormulaError Formula :=
  match formula frame ⟨ls, 0⟩ with
  | .failed e _ => .error e
  | .done f next _ =>
      match next.rest with
      | [] => .ok f
      | l :: _ => .error (surplus l)

end Parser

namespace Formula

/-- **Reads a formula text under limits.** -/
def parse (limits : Limits) (text : String) : Except FormulaError Formula :=
  match lexemes limits text with
  | .error e => .error e
  | .ok ls => Parser.whole ⟨limits.maxNesting, Text.byteSize text.toList⟩ ls

end Formula

end Prerequisite
