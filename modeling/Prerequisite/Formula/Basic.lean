/-
Formulas over sections.

A formula is built from sections by conjunction, disjunction and negation.  A chain of one operator
is one node with a list of operands, so `1^2^3` has three operands and no inner conjunction.
Written parentheses are kept as nodes of their own: they change nothing about the value, but they
are part of what the author wrote.

The constructors put no bound on the number of operands.  A conjunction of nothing holds and a
disjunction of nothing does not; no text is read as either.
-/
import Prerequisite.Identifier

namespace Prerequisite

/-- A formula over sections. -/
inductive Formula where
  /-- A section, which holds when it is completed. -/
  | atom (id : SectionId)
  /-- All of the operands. -/
  | conj (operands : List Formula)
  /-- Some of the operands. -/
  | disj (operands : List Formula)
  /-- Not the operand. -/
  | neg (operand : Formula)
  /-- The operand in parentheses. -/
  | group (operand : Formula)
  deriving Repr

namespace Formula

/-! ### Equality

Two formulas are equal when they have the same shape and the same sections in the same places. -/

mutual

/-- Whether two formulas are the same tree. -/
def beq : Formula → Formula → Bool
  | .atom a, .atom b => a == b
  | .conj fs, .conj gs => beqAll fs gs
  | .disj fs, .disj gs => beqAll fs gs
  | .neg f, .neg g => beq f g
  | .group f, .group g => beq f g
  | _, _ => false

/-- Whether two lists hold the same trees in the same order. -/
def beqAll : List Formula → List Formula → Bool
  | [], [] => true
  | f :: fs, g :: gs => beq f g && beqAll fs gs
  | _, _ => false

end

mutual

private theorem eq_of_beq : ∀ {f g : Formula}, beq f g = true → f = g
  | .atom a, .atom b, h => by simpa [beq] using h
  | .conj _, .conj _, h => congrArg conj (eq_of_beqAll (by simpa [beq] using h))
  | .disj _, .disj _, h => congrArg disj (eq_of_beqAll (by simpa [beq] using h))
  | .neg _, .neg _, h => congrArg neg (eq_of_beq (by simpa [beq] using h))
  | .group _, .group _, h => congrArg group (eq_of_beq (by simpa [beq] using h))
  | .atom _, .conj _, h | .atom _, .disj _, h | .atom _, .neg _, h | .atom _, .group _, h
  | .conj _, .atom _, h | .conj _, .disj _, h | .conj _, .neg _, h | .conj _, .group _, h
  | .disj _, .atom _, h | .disj _, .conj _, h | .disj _, .neg _, h | .disj _, .group _, h
  | .neg _, .atom _, h | .neg _, .conj _, h | .neg _, .disj _, h | .neg _, .group _, h
  | .group _, .atom _, h | .group _, .conj _, h | .group _, .disj _, h | .group _, .neg _, h => by
      simp [beq] at h

private theorem eq_of_beqAll : ∀ {fs gs : List Formula}, beqAll fs gs = true → fs = gs
  | [], [], _ => rfl
  | f :: fs, g :: gs, h => by
      have h' : beq f g = true ∧ beqAll fs gs = true := by simpa [beqAll] using h
      rw [eq_of_beq h'.1, eq_of_beqAll h'.2]
  | [], _ :: _, h | _ :: _, [], h => by simp [beqAll] at h

end

mutual

private theorem beq_self : ∀ f : Formula, beq f f = true
  | .atom a => by simp [beq]
  | .conj fs | .disj fs => by simpa [beq] using beqAll_self fs
  | .neg f | .group f => by simpa [beq] using beq_self f

private theorem beqAll_self : ∀ fs : List Formula, beqAll fs fs = true
  | [] => rfl
  | f :: fs => by simp [beqAll, beq_self f, beqAll_self fs]

end

/-- **The comparison decides equality.** -/
theorem beq_iff_eq {f g : Formula} : beq f g = true ↔ f = g :=
  ⟨eq_of_beq, fun h => h ▸ beq_self f⟩

instance : DecidableEq Formula := fun _ _ => decidable_of_iff _ beq_iff_eq

/-! ### Depth and atoms -/

mutual

/-- The number of nodes on the longest path from the root to a leaf. -/
def depth : Formula → Nat
  | .atom _ => 1
  | .conj fs | .disj fs => 1 + depthAll 0 fs
  | .neg f | .group f => 1 + depth f

/-- The greatest depth in a list, and at least `deepest`. -/
def depthAll (deepest : Nat) : List Formula → Nat
  | [] => deepest
  | f :: fs => depthAll (max deepest (depth f)) fs

end

mutual

/-- Appends the sections of a formula from left to right. -/
def pushAtoms (out : Array SectionId) : Formula → Array SectionId
  | .atom id => out.push id
  | .conj fs | .disj fs => pushAtomsAll out fs
  | .neg f | .group f => pushAtoms out f

/-- Appends the sections of a list of formulas from left to right. -/
def pushAtomsAll (out : Array SectionId) : List Formula → Array SectionId
  | [] => out
  | f :: fs => pushAtomsAll (pushAtoms out f) fs

end

/-- **The sections of a formula in the order they are written,** each as often as it is. -/
def atoms (f : Formula) : List SectionId := (pushAtoms #[] f).toList

end Formula

end Prerequisite
