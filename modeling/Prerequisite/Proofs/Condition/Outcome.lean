/-
How a restore ends.

A restore in place answers whether the text has changed or why it failed, and leaves a condition
and a state of the host behind.  There are five ways this can end, and `Outcome` lists them with
all that is left behind in each.

None of the five is a text that cannot be read.  New ids do not change the kinds of the tokens, so
the new text can only be too large; and it is looked at only after every id has been given.  Which
way a restore ends is settled by the host's answers alone, so there is always one way and never a
second.
-/
import Prerequisite.Proofs.Condition.Restore
import Prerequisite.Proofs.Rewording
import Prerequisite.Session

namespace Prerequisite

namespace Condition

/-- What a restore in place leaves behind. -/
structure Aftermath (σ : Type) where
  /-- Whether the text has changed, or why the restore failed. -/
  answer : Except ConditionError Bool
  condition : Condition
  /-- The state of the host. -/
  state : σ

variable {σ : Type}

/-- **Restores a condition in place;** it stays as it is where the restore fails. -/
def restoring (host : Host σ) (r : RestoreId) (c : Condition) (s : σ) : Aftermath σ :=
  match c.restore host r s with
  | .ok res t => ⟨.ok res.changed, res.condition, t⟩
  | .error e t => ⟨.error e, c, t⟩

/-- A session restores its condition in place. -/
theorem step_restore {s : Session} {c : Condition} (h : s.condition = some c) (r : RestoreId) :
    s.step (.restore r) = ⟨((c.restoring s.host r .empty).answer.map .truth).mapError .condition,
      (c.restoring s.host r .empty).state,
      { s with condition := some (c.restoring s.host r .empty).condition }⟩ := by
  have hact : s.act (.restore r) .empty =
      match c.restore s.host r .empty with
      | .ok res j => .ok (.truth res.changed, { s with condition := some res.condition }) j
      | .error e j => .error (.condition e) j := by
    have hfirst : s.act (.restore r) .empty =
        EStateM.bind (Session.lift (c.restore s.host r)) (fun res => EStateM.pure
          (.truth res.changed, { s with condition := some res.condition })) .empty := by
      unfold Session.act
      rw [h]
      rfl
    rw [hfirst, EStateM.bind.eq_def, Session.lift, EStateM.adaptExcept.eq_def]
    cases c.restore s.host r .empty <;> rfl
  have hsame : { s with condition := some c } = s := by rw [← h]
  unfold Session.step restoring
  rw [hact]
  cases c.restore s.host r .empty with
  | ok res j => rfl
  | error e j => rw [hsame]; rfl

/-- **How a restore can end.** -/
inductive Outcome (host : Host σ) (r : RestoreId) (c : Condition) (s : σ) : Aftermath σ → Prop
  /-- Every id was given, and the new text is another one: text and tree are replaced, and the host
  is told once. -/
  | remapped {news : List SectionId} {t : σ} {d : Condition}
      (given : Remap.Gives (host.newId r .courseSection) s c.tree.atoms news t)
      (text : d.formula = Remap.newText news c.formula)
      (other : Remap.newText news c.formula ≠ c.formula)
      (fits : Text.byteSize (Remap.newText news c.formula).toList ≤ c.limits.maxBytes)
      (tree : Formula.parse c.limits d.formula = .ok d.tree ∧ d.tree.atoms = news)
      (scope : d.scope = c.scope) (limits : d.limits = c.limits) :
      Outcome host r c s ⟨.ok true, d, host.record
        { name := "restore_remapped", time := host.now t, severity := .info, scope := c.scope,
          formula := Remap.newText news c.formula, user := none, restore := some r,
          sectionId := none, message := "condition remapped from `" ++ c.formula ++ "`" } t⟩
  /-- Every id was given, and the text stays the same. -/
  | unchanged {news : List SectionId} {t : σ}
      (given : Remap.Gives (host.newId r .courseSection) s c.tree.atoms news t)
      (same : Remap.newText news c.formula = c.formula) :
      Outcome host r c s ⟨.ok false, c, t⟩
  /-- A section has no new id: the host is told once. -/
  | unknown {before after news : List SectionId} {id : SectionId} {t t' : σ}
      (atoms : c.tree.atoms = before ++ id :: after)
      (given : Remap.Gives (host.newId r .courseSection) s before news t)
      (none : host.newId r .courseSection id t = .ok none t') :
      Outcome host r c s ⟨.error (.unknownSection id), c, host.record
        { name := "restore_unknown_section", time := host.now t', severity := .error,
          scope := c.scope, formula := c.formula, user := .none, restore := some r,
          sectionId := some id, message := "section " ++ id.text ++ " was not restored" } t'⟩
  /-- The host failed to answer. -/
  | failed {before after news : List SectionId} {id : SectionId} {e : ServiceError} {t t' : σ}
      (atoms : c.tree.atoms = before ++ id :: after)
      (given : Remap.Gives (host.newId r .courseSection) s before news t)
      (fails : host.newId r .courseSection id t = .error e t') :
      Outcome host r c s ⟨.error (.service e), c, t'⟩
  /-- Every id was given, and the new text is too large. -/
  | tooLarge {news : List SectionId} {t : σ}
      (given : Remap.Gives (host.newId r .courseSection) s c.tree.atoms news t)
      (other : Remap.newText news c.formula ≠ c.formula)
      (large : c.limits.maxBytes < Text.byteSize (Remap.newText news c.formula).toList) :
      Outcome host r c s ⟨.error (.invalidFormula (.tooLarge c.limits.maxBytes
        (Text.byteSize (Remap.newText news c.formula).toList))), c, t⟩

variable {host : Host σ} {r : RestoreId} {c : Condition} {s : σ}

theorem reworded_eq {d : Condition} (hscope : d.scope = c.scope) (hlimits : d.limits = c.limits) :
    c.reworded d.formula = .ok d := by
  obtain ⟨scope, formula, tree, limits, reads⟩ := d
  obtain rfl : scope = c.scope := hscope
  obtain rfl : limits = c.limits := hlimits
  rw [reworded, ofFormula_of_parse reads]
  rfl

theorem reworded_eq_error {text : String} {e : FormulaError}
    (h : Formula.parse c.limits text = .error e) :
    c.reworded text = .error (.invalidFormula e) := by
  rw [reworded, ofFormula_of_parse_error h]
  rfl

/-- An outcome is what the restore does. -/
theorem Outcome.restoring_eq {x : Aftermath σ} (h : Outcome host r c s x) :
    c.restoring host r s = x := by
  obtain ⟨ps, hps, -, hatoms⟩ := Formula.pieces_of_parse c.reads
  unfold restoring restore
  cases h with
  | @remapped news t d given text other fits tree hscope hlimits =>
      rw [← hatoms] at given
      have hword := reworded_eq hscope hlimits
      rw [text] at hword
      simp only [remap_of_gives hps given, bne_iff_ne.mpr other, if_true, hword]
      rfl
  | @unchanged news t given same =>
      rw [← hatoms] at given
      simp only [remap_of_gives hps given, same, bne_self_eq_false, Bool.false_eq_true, if_false]
  | unknown atoms given none =>
      simp only [remap_of_refuses hps (hatoms.trans atoms) given (.unknown none)]
      rfl
  | failed atoms given fails =>
      simp only [remap_of_refuses hps (hatoms.trans atoms) given (.failed fails)]
  | tooLarge given other large =>
      rw [← hatoms] at given
      have hword := reworded_eq_error (c := c) (Formula.parse_of_tooLarge large)
      simp only [remap_of_gives hps given, bne_iff_ne.mpr other, if_true, hword]

/-- A restore has an outcome, whatever the host answers. -/
theorem exists_outcome (host : Host σ) (r : RestoreId) (c : Condition) (s : σ) :
    ∃ x, Outcome host r c s x := by
  rcases Remap.gives_or_refuses (host.newId r .courseSection) c.tree.atoms s with
    ⟨news, t, given⟩ | ⟨before, id, after, news, t, e, t', atoms, given, hno⟩
  · by_cases hsame : Remap.newText news c.formula = c.formula
    · exact ⟨_, .unchanged given hsame⟩
    · by_cases hfits : Text.byteSize (Remap.newText news c.formula).toList ≤ c.limits.maxBytes
      · -- Tokens of the same kinds: if it is small enough, the new text can be read.
        obtain ⟨f, hread, hatoms⟩ := Formula.parse_newText c.reads given.length hfits
        exact ⟨_, .remapped (d := ⟨c.scope, _, f, c.limits, hread⟩) given rfl hsame hfits
          ⟨hread, hatoms⟩ rfl rfl⟩
      · exact ⟨_, .tooLarge given hsame (Nat.lt_of_not_le hfits)⟩
  · cases hno with
    | unknown hnone => exact ⟨_, .unknown atoms given hnone⟩
    | failed hfails => exact ⟨_, .failed atoms given hfails⟩

/--
**A restore ends in one of five ways, and in only one.**

Whatever the host answers, over whatever state, what a restore in place leaves behind is an outcome,
and nothing else is.  The sections of the formula are asked about in the order they are written.
-/
theorem outcome_iff (host : Host σ) (r : RestoreId) (c : Condition) (s : σ) (x : Aftermath σ) :
    Outcome host r c s x ↔ c.restoring host r s = x := by
  constructor
  · exact Outcome.restoring_eq
  · intro h
    obtain ⟨y, hy⟩ := exists_outcome host r c s
    have heq : x = y := h.symm.trans hy.restoring_eq
    rw [heq]
    exact hy

/-- A restore keeps scope and limits, however it ends. -/
theorem keeps_restoring (host : Host σ) (r : RestoreId) (c : Condition) (s : σ) :
    (c.restoring host r s).condition.scope = c.scope ∧
      (c.restoring host r s).condition.limits = c.limits := by
  obtain ⟨x, hx⟩ := exists_outcome host r c s
  rw [hx.restoring_eq]
  cases hx with
  | remapped _ _ _ _ _ hscope hlimits => exact ⟨hscope, hlimits⟩
  | unchanged | unknown | failed | tooLarge => exact ⟨rfl, rfl⟩

end Condition

end Prerequisite
