/-
Questions and their answers, apart from any evaluation.

Asking may change a state and may fail.  The answer and the state after it are taken apart by
`answering`, and of a state it is only said which questions have been noted (`Notes`).

A formula is also valued by occurrence.  Nothing is asked there: a list says of one occurrence after
the other whether it holds, and where all occurrences of a section say the same the value is that of
the formula (`valueAlong_map`).
-/
import Prerequisite.Proofs.Formula.Evaluation

namespace Prerequisite

/-- The result with an answer, in a state. -/
def answering {ε σ α : Type} (x : Except ε α) (s : σ) : EStateM.Result ε σ α :=
  match x with
  | .ok a => .ok a s
  | .error e => .error e s

theorem answering_eq_ok {ε σ α : Type} {x : Except ε α} {s t : σ} {a : α} :
    answering x s = .ok a t ↔ x = .ok a ∧ s = t := by
  cases x with
  | ok b => simp [answering]
  | error e => simp [answering]

namespace Formula

/-- Asking about a section gives the answer of a function, and the question is noted. -/
def Notes {ε σ : Type} (resolve : SectionId → UserId → EStateM ε σ Bool) (user : UserId)
    (r : SectionId → Except ε Bool) (asked : σ → List (SectionId × UserId)) : Prop :=
  ∀ id s, ∃ t, asked t = asked s ++ [(id, user)] ∧ resolve id user s = answering (r id) t

/-! ### Values by occurrence -/

mutual

/-- **The value of a formula whose sections hold as a list says,** one occurrence after the other
from left to right; and what is left of the list. -/
def valueAlong : Formula → List Bool → Bool × List Bool
  | .atom _, bs => (bs.headD false, bs.tail)
  | .conj fs, bs => valueAlongAll fs bs
  | .disj fs, bs => valueAlongAny fs bs
  | .neg f, bs => ((!(valueAlong f bs).1), (valueAlong f bs).2)
  | .group f, bs => valueAlong f bs

/-- Whether all of the formulas hold. -/
def valueAlongAll : List Formula → List Bool → Bool × List Bool
  | [], bs => (true, bs)
  | f :: fs, bs =>
      let first := valueAlong f bs
      let others := valueAlongAll fs first.2
      (first.1 && others.1, others.2)

/-- Whether some of the formulas hold. -/
def valueAlongAny : List Formula → List Bool → Bool × List Bool
  | [], bs => (false, bs)
  | f :: fs, bs =>
      let first := valueAlong f bs
      let others := valueAlongAny fs first.2
      (first.1 || others.1, others.2)

end

mutual

/-- Where the occurrences of a section hold when it does, the value is that of the formula. -/
theorem valueAlong_map (holds : SectionId → Bool) (bs : List Bool) : ∀ f : Formula,
    f.valueAlong (f.atoms.map holds ++ bs) = (f.value holds, bs)
  | .atom id => rfl
  | .conj fs => by
      have hatoms : (conj fs).atoms = fs.flatMap atoms := atoms_node .and fs
      rw [hatoms]
      exact valueAlongAll_map holds bs fs
  | .disj fs => by
      have hatoms : (disj fs).atoms = fs.flatMap atoms := atoms_node .or fs
      rw [hatoms]
      exact valueAlongAny_map holds bs fs
  | .neg f => by rw [valueAlong, atoms_neg, valueAlong_map holds bs f, value]
  | .group f => by rw [valueAlong, atoms_group, valueAlong_map holds bs f, value]

theorem valueAlongAll_map (holds : SectionId → Bool) (bs : List Bool) : ∀ fs : List Formula,
    valueAlongAll fs ((fs.flatMap atoms).map holds ++ bs) = (valueAll holds fs, bs)
  | [] => rfl
  | f :: fs => by
      rw [List.flatMap_cons, List.map_append, List.append_assoc, valueAlongAll, valueAlong_map,
        valueAlongAll_map, valueAll]

theorem valueAlongAny_map (holds : SectionId → Bool) (bs : List Bool) : ∀ fs : List Formula,
    valueAlongAny fs ((fs.flatMap atoms).map holds ++ bs) = (valueAny holds fs, bs)
  | [] => rfl
  | f :: fs => by
      rw [List.flatMap_cons, List.map_append, List.append_assoc, valueAlongAny, valueAlong_map,
        valueAlongAny_map, valueAny]

end

end Formula

end Prerequisite
