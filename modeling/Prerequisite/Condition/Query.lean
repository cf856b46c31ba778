/-
What a condition is asked.

Whether a user may enter, and what to tell them.  The decision is made on the tree and asks no more
than it needs; the description goes through the text and asks about everything in it.

Where there is nobody to ask about completion, everybody may enter, and the host is told so.
-/
import Prerequisite.Condition.Basic
import Prerequisite.Formula.Evaluation
import Prerequisite.Rendering

namespace Prerequisite.Condition

variable {σ : Type}

/-- Whether a user satisfies a condition. -/
def satisfied (host : Host σ) (user : UserId) (c : Condition) :
    σ → EStateM.Result ServiceError σ Bool := fun s =>
  match host.dependency with
  | .installed => c.tree.eval host.satisfied user s
  | .missing =>
      .ok true (host.record (.dependencyMissing (host.now s) c.scope c.formula user) s)

/-- **Whether an element is open to a user.**  With `negate` it is open to those who do not satisfy
the condition.  Whether the host asks about many users at a time, `inBulk`, makes no difference. -/
def available (host : Host σ) (user : UserId) (negate _inBulk : Bool) (c : Condition) :
    EStateM ConditionError σ Bool := fun s =>
  match c.satisfied host user s with
  | .ok b s' => .ok (b != negate) s'
  | .error e s' => .error (.service e) s'

/-- **Tells a user what a condition demands.**  Whether the host wants a full description makes no
difference. -/
def describe (host : Host σ) (user : UserId) (negate _full : Bool) (c : Condition) :
    EStateM ConditionError σ String := fun s =>
  match render host user c.limits c.formula s with
  | .error e s' => .error e s'
  | .ok shown s' =>
      let sentence := Phrase.required c.scope negate
      match host.phrase component sentence.name [("condition", shown)] s' with
      | .ok text s'' => .ok text s''
      | .error e s'' => .error (.service e) s''

end Prerequisite.Condition
