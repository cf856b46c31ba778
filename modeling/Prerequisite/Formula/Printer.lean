/-
Writing formulas.

A formula is written as a sequence of tokens, each in its shortest form and nothing between them.
Groups are nodes of the formula, and a formula that was read has a group wherever a pair of
parentheses is needed.  For the others the printer adds some: around a disjunction under a
conjunction, and around either under a negation.  An operand with the operator of the chain around
it gets none, which does not change the value.
-/
import Prerequisite.Formula.Basic
import Prerequisite.Formula.Token
import Prerequisite.Text.Push

namespace Prerequisite.Formula

/-- The places an operand can stand in. -/
inductive Place where
  /-- Under a conjunction. -/
  | conjunct
  /-- Under a disjunction. -/
  | disjunct
  /-- Under a negation. -/
  | negated
  deriving DecidableEq, Repr

/-- Whether a formula needs parentheses in a place. -/
def needsParens : Place → Formula → Bool
  | .conjunct, .disj _ => true
  | .negated, .conj _ => true
  | .negated, .disj _ => true
  | _, _ => false

/-- Appends the parenthesis in front of an operand, where its place needs one. -/
def pushOpening (place : Place) (f : Formula) (out : Array Token) : Array Token :=
  if needsParens place f then out.push .opening else out

/-- Appends the parenthesis behind an operand, where its place needs one. -/
def pushClosing (place : Place) (f : Formula) (out : Array Token) : Array Token :=
  if needsParens place f then out.push .closing else out

mutual

/-- Appends the tokens of a formula. -/
def pushTokens (out : Array Token) : Formula → Array Token
  | .atom id => out.push (.atom id)
  | .conj [] => out
  | .conj (f :: fs) =>
      pushChain .conjunct .and
        (pushClosing .conjunct f (pushTokens (pushOpening .conjunct f out) f)) fs
  | .disj [] => out
  | .disj (f :: fs) =>
      pushChain .disjunct .or
        (pushClosing .disjunct f (pushTokens (pushOpening .disjunct f out) f)) fs
  | .neg f => pushClosing .negated f (pushTokens (pushOpening .negated f (out.push .not)) f)
  | .group f => (pushTokens (out.push .opening) f).push .closing

/-- Appends the tokens of the operands of a chain after its first, each behind the operator. -/
def pushChain (place : Place) (operator : Token) (out : Array Token) :
    List Formula → Array Token
  | [] => out
  | f :: fs =>
      pushChain place operator
        (pushClosing place f (pushTokens (pushOpening place f (out.push operator)) f)) fs

end

/-- The tokens of a formula. -/
def tokens (f : Formula) : List Token := (pushTokens #[] f).toList

/-- **The text of a formula.** -/
def print (f : Formula) : String :=
  f.tokens.foldl (fun out t => Text.pushAll out t.chars) ""

end Prerequisite.Formula
