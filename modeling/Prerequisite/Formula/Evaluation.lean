/-
Evaluating formulas.

`value` is what a formula says about sections that are each completed or not.  `eval` finds it out
by asking about one section after the other, and does not ask what can no longer matter: the
operands of a chain are gone through from left to right, and a chain is decided as soon as one
operand decides it.  Asking may change a state and may fail, and a failure ends the evaluation.

The state is any type.  A resolver that is only a function keeps the list of what it was asked.
-/
import Prerequisite.Formula.Basic

namespace Prerequisite

namespace Formula

/-! ### The value of a formula -/

mutual

/-- **The value of a formula when exactly the sections with `holds` are completed.** -/
def value (holds : SectionId → Bool) : Formula → Bool
  | .atom id => holds id
  | .conj fs => valueAll holds fs
  | .disj fs => valueAny holds fs
  | .neg f => !value holds f
  | .group f => value holds f

/-- Whether all of the formulas hold. -/
def valueAll (holds : SectionId → Bool) : List Formula → Bool
  | [] => true
  | f :: fs => value holds f && valueAll holds fs

/-- Whether some of the formulas hold. -/
def valueAny (holds : SectionId → Bool) : List Formula → Bool
  | [] => false
  | f :: fs => value holds f || valueAny holds fs

end

/-- The value of a formula when every section is completed. -/
def validation (f : Formula) : Bool := f.value fun _ => true

/-! ### Evaluation by asking -/

section

variable {ε σ : Type} (resolve : SectionId → UserId → EStateM ε σ Bool) (user : UserId)

mutual

/-- **Evaluates a formula for a user,** asking `resolve` about sections from left to right. -/
def eval : Formula → σ → EStateM.Result ε σ Bool
  | .atom id, s => resolve id user s
  | .conj fs, s => evalAll fs s
  | .disj fs, s => evalAny fs s
  | .neg f, s =>
      match eval f s with
      | .ok b s' => .ok (!b) s'
      | .error e s' => .error e s'
  | .group f, s => eval f s

/-- Evaluates operands until one does not hold. -/
def evalAll : List Formula → σ → EStateM.Result ε σ Bool
  | [], s => .ok true s
  | f :: fs, s =>
      match eval f s with
      | .ok true s' => evalAll fs s'
      | .ok false s' => .ok false s'
      | .error e s' => .error e s'

/-- Evaluates operands until one holds. -/
def evalAny : List Formula → σ → EStateM.Result ε σ Bool
  | [], s => .ok false s
  | f :: fs, s =>
      match eval f s with
      | .ok true s' => .ok true s'
      | .ok false s' => evalAny fs s'
      | .error e s' => .error e s'

end

end

end Formula

/-! ### Resolvers that are functions -/

/-- Says whether a user has completed a section, or fails. -/
abbrev Resolver (ε : Type) := SectionId → UserId → Except ε Bool

namespace Resolver

/-- Asks a resolver and keeps what it was asked, in the order of the questions. -/
def ask {ε : Type} (r : Resolver ε) (id : SectionId) (user : UserId) :
    EStateM ε (Array (SectionId × UserId)) Bool := fun asked =>
  match r id user with
  | .ok b => .ok b (asked.push (id, user))
  | .error e => .error e (asked.push (id, user))

/-- **Evaluates a formula with a resolver,** together with what the resolver was asked. -/
def evaluate {ε : Type} (r : Resolver ε) (user : UserId) (f : Formula) :
    EStateM.Result ε (Array (SectionId × UserId)) Bool :=
  f.eval r.ask user #[]

end Resolver

/-- A section that a table says nothing about. -/
structure UnknownAtom where
  /-- The section. -/
  id : SectionId
  deriving DecidableEq, Repr

/-- The wording of an unknown section. -/
def UnknownAtom.message (e : UnknownAtom) : String := "no truth value for section " ++ e.id.text

/-- A table of sections, each with whether it is completed, whoever asks. -/
abbrev Truths := List (SectionId × Bool)

namespace Truths

/-- The resolver that looks into a table. -/
def resolver (table : Truths) : Resolver UnknownAtom := fun id _ =>
  match table.lookup id with
  | some b => .ok b
  | none => .error ⟨id⟩

end Truths

/-! ### Truth tables -/

namespace Formula

/-- The sections of a formula, each once, in ascending order. -/
def distinctAtoms (f : Formula) : List SectionId :=
  (f.atoms.mergeSort fun a b => a.number ≤ b.number).eraseReps

/-- The assignment with a row's number: a section holds when its bit is set. -/
def assignment (atoms : List SectionId) (row : Nat) (id : SectionId) : Bool :=
  row.testBit (atoms.idxOf id)

/-- **The values of a formula under all assignments,** in the order of their numbers. -/
def truthTable (f : Formula) : List Bool :=
  let atoms := f.distinctAtoms
  (List.range (Nat.pow 2 atoms.length)).map fun row => f.value (assignment atoms row)

end Formula

end Prerequisite
