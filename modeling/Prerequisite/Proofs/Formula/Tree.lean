/-
Formulas as trees.

Conjunctions and disjunctions are alike in almost everything: they are chains of one operator, and
what is proved of one is proved of the other in the same words.  So chains are spoken of by their
operator here (`Operator.node`).

The operands of a chain are a list, so an induction on formulas has to go into lists of them.
`Formula.induct` does that once: what holds of a node whenever it holds of all its operands holds of
every formula.
-/
import Prerequisite.Formula.Basic

namespace Prerequisite

/-- The operators that operands are chained with. -/
inductive Operator where
  | and
  | or

/-- The chain of some operands. -/
def Operator.node : Operator → List Formula → Formula
  | .and => .conj
  | .or => .disj

namespace Formula

/-- Induction on formulas, with a hypothesis for each operand of a chain. -/
theorem induct {motive : Formula → Prop} (atom : ∀ id, motive (.atom id))
    (node : ∀ (op : Operator) fs, (∀ f ∈ fs, motive f) → motive (op.node fs))
    (neg : ∀ f, motive f → motive (.neg f)) (group : ∀ f, motive f → motive (.group f))
    (f : Formula) : motive f := by
  refine @Formula.rec motive (fun fs => ∀ f ∈ fs, motive f) atom (node .and) (node .or) neg group
    ?_ ?_ f
  · intro f hf
    exact absurd hf (by simp)
  · intro f fs hf hfs g hg
    rcases List.mem_cons.mp hg with rfl | hg
    · exact hf
    · exact hfs g hg

/-! ### The sections of a formula

They are collected behind those already found, which is undone here: the sections of a chain are
those of its operands one after the other.
-/

private theorem pushAtoms_node (op : Operator) (fs : List Formula) (out : Array SectionId) :
    pushAtoms out (op.node fs) = pushAtomsAll out fs := by
  cases op <;> rfl

private theorem toList_pushAtomsAll {fs : List Formula}
    (h : ∀ f ∈ fs, ∀ out, (pushAtoms out f).toList = out.toList ++ f.atoms) :
    ∀ out, (pushAtomsAll out fs).toList = out.toList ++ fs.flatMap atoms := by
  induction fs with
  | nil => intro out; simp [pushAtomsAll]
  | cons f fs ih =>
      intro out
      rw [pushAtomsAll, ih (fun g hg => h g (by simp [hg])), h f (by simp), List.flatMap_cons,
        List.append_assoc]

private theorem toList_pushAtoms (f : Formula) :
    ∀ out, (pushAtoms out f).toList = out.toList ++ f.atoms := by
  induction f using induct with
  | atom id => intro out; simp [pushAtoms, atoms]
  | node op fs ih =>
      intro out
      rw [atoms, pushAtoms_node, pushAtoms_node, toList_pushAtomsAll ih, toList_pushAtomsAll ih]
      simp
  | neg f ih | group f ih =>
      intro out
      rw [atoms, pushAtoms, pushAtoms, ih, ih]
      simp

@[simp] theorem atoms_atom (id : SectionId) : (Formula.atom id).atoms = [id] := rfl

@[simp] theorem atoms_node (op : Operator) (fs : List Formula) :
    (op.node fs).atoms = fs.flatMap atoms := by
  rw [atoms, pushAtoms_node, toList_pushAtomsAll fun f _ => toList_pushAtoms f]
  simp

@[simp] theorem atoms_neg (f : Formula) : (Formula.neg f).atoms = f.atoms := rfl

@[simp] theorem atoms_group (f : Formula) : (Formula.group f).atoms = f.atoms := rfl

end Formula

end Prerequisite
