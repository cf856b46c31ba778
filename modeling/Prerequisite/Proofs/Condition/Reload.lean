/-
Conditions that are stored and read back.

What is stored of a condition is its text.  Its scope and its limits are lost, and it is read back
with the scope and the limits that are given where none are.  So a condition that was built under
larger limits may not come back, and what stands in its way is its size or, if that will do, its
nesting.
-/
import Prerequisite.Proofs.Condition.Restore
import Prerequisite.Proofs.Formula.Limits

namespace Prerequisite.Condition

/-- A condition is within its limits. -/
theorem admitted (c : Condition) : Text.byteSize c.formula.toList ≤ c.limits.maxBytes ∧
    c.tree.nesting ≤ c.limits.maxNesting := by
  obtain ⟨ps, hps⟩ := Formula.cuts_of_parse c.reads
  obtain ⟨hsize, hdeep, -⟩ := (Formula.parse_eq_ok_iff_normal hps).mp c.reads
  exact ⟨hsize, hdeep⟩

/-- The value that a condition is stored as is read as the structure it is stored in. -/
theorem ofJson_toJson (c : Condition) : ofJson c.toJson = ofFormula Limits.default c.formula := by
  have hread : StoredCondition.ofJson c.toJson = .ok c.save := rfl
  rw [ofJson, hread]
  rfl

/--
**What becomes of a condition that is stored and read back.**

The structure and the value that it is stored as say the same.  Read under its own limits it comes
back but for its scope.  Read where no limits are given it comes back with the same text and the
same formula if the text has at most 65536 bytes and no path of the formula more than 32 negations
and groups, and is refused as too large or else as too deep if not.  It is the same condition only
if it stood in front of a section and had the limits that are given where none are.
-/
theorem save_and_reload (c : Condition) :
    c.save.toJson = c.toJson ∧
    (∃ d, ofStored c.limits c.save = .ok d ∧ d.formula = c.formula ∧ d.tree = c.tree ∧
      d.limits = c.limits ∧ d.scope = .courseSection) ∧
    (Text.byteSize c.formula.toList ≤ 65536 → c.tree.nesting ≤ 32 →
      ∃ d, ofJson c.toJson = .ok d ∧ d.formula = c.formula ∧ d.tree = c.tree) ∧
    (65536 < Text.byteSize c.formula.toList → ofJson c.toJson =
      .error (.invalidFormula (.tooLarge 65536 (Text.byteSize c.formula.toList)))) ∧
    (Text.byteSize c.formula.toList ≤ 65536 → 32 < c.tree.nesting →
      ∃ position, ofJson c.toJson = .error (.invalidFormula (.tooDeep 32 33 position))) ∧
    (ofJson c.toJson = .ok c ↔ Text.byteSize c.formula.toList ≤ 65536 ∧ c.tree.nesting ≤ 32 ∧
      c.scope = .courseSection ∧ c.limits = ⟨65536, 32⟩) := by
  refine ⟨rfl, ⟨_, ofFormula_of_parse c.reads, rfl, rfl, rfl, rfl⟩, ?_, ?_, ?_, ?_⟩
  · intro hsize hdeep
    rw [ofJson_toJson]
    exact ⟨_, ofFormula_of_parse (Formula.parse_of_admits c.reads hsize hdeep), rfl, rfl⟩
  · intro hlarge
    rw [ofJson_toJson]
    exact ofFormula_of_parse_error (Formula.parse_of_tooLarge hlarge)
  · intro hsize hdeep
    obtain ⟨position, hread⟩ :=
      Formula.parse_of_tooDeep c.reads (show _ ≤ Limits.default.maxBytes from hsize) hdeep
    rw [ofJson_toJson]
    exact ⟨position, ofFormula_of_parse_error hread⟩
  · rw [ofJson_toJson, ofFormula_eq_ok_iff]
    constructor
    · rintro ⟨-, hlimits, hscope⟩
      have hadmitted := c.admitted
      rw [hlimits] at hadmitted
      exact ⟨hadmitted.1, hadmitted.2, hscope, hlimits⟩
    · rintro ⟨-, -, hscope, hlimits⟩
      exact ⟨rfl, hlimits, hscope⟩

end Prerequisite.Condition
