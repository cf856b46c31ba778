/-
Conditions after a restore.

The ids in a condition's text give way to their new ones, and the condition becomes the one with the
new text.  That it can be read follows the same rules as before, and it may have grown beyond the
limits.  Nothing happens to a condition whose restore fails, nor to one whose text stays the same.
-/
import Prerequisite.Condition.Basic
import Prerequisite.Host
import Prerequisite.Remap

namespace Prerequisite.Condition

/-- What a restore made of a condition. -/
structure Restored where
  /-- The condition after the restore. -/
  condition : Condition
  /-- Whether its text is another one. -/
  changed : Bool
  deriving DecidableEq

/-- The condition with another text, read under the same limits. -/
def reworded (c : Condition) (formula : String) : Except ConditionError Condition :=
  (ofFormula c.limits formula).map fun d => d.withScope c.scope

/-- **Gives the sections of a condition the ids they got in a restore.** -/
def restore {σ : Type} (host : Host σ) (restore : RestoreId) (c : Condition) :
    EStateM ConditionError σ Restored := fun s =>
  match remap (host.newId restore .courseSection) c.limits c.formula s with
  | .error (.unknownSection id) s' =>
      let event := .restoreUnknownSection (host.now s') c.scope c.formula restore id
      .error (.unknownSection id) (host.record event s')
  | .error e s' => .error e s'
  | .ok new s' =>
      if new.changed then
        match c.reworded new.formula with
        | .error e => .error e s'
        | .ok d =>
            let event := .restoreRemapped (host.now s') c.scope c.formula new.formula restore
            .ok ⟨d, true⟩ (host.record event s')
      else .ok ⟨c, false⟩ s'

end Prerequisite.Condition
