/-
Conditions that are read from values.

A value can fail to be a condition for six reasons, and one value may have several of them.  They
come from three places: the value may be no object, what its fields hold may be of the wrong kind,
and what they say may be no condition of this kind.  `ReadsAs` is the whole table, one row for each
reason with what must have gone well before it counts, and a row for success.

An object is gone through field by field in ascending order of the names, so `condition` is looked
at before `type` (`visitAll`).  That is why a wrong formula field is reported before a wrong type,
although what the formula says is looked at last.  No other field is looked at
(`ofJson_eq_visitAll`).
-/
import Prerequisite.Proofs.Condition.Restore

namespace Prerequisite

/-! ### What an object holds under a name -/

namespace Json

/-- The last field with a name is what counts. -/
theorem lookup_cons (name : String) (f : String × Json) (fs : List (String × Json)) :
    lookup name (f :: fs) = (lookup name fs).or (if f.1 = name then some f.2 else none) := by
  suffices hfound : ∀ found : Option Json,
      fs.foldl (fun found f => if f.1 = name then some f.2 else found) found =
        (lookup name fs).or found from hfound _
  induction fs with
  | nil => intro found; rfl
  | cons g fs ih =>
      intro found
      have hnone : lookup name (g :: fs) =
          (lookup name fs).or (if g.1 = name then some g.2 else none) := ih _
      rw [List.foldl_cons, ih, hnone]
      by_cases hg : g.1 = name
      · simp [hg]
      · simp [hg]

theorem lookup_eq_none_iff {name : String} {fs : List (String × Json)} :
    lookup name fs = none ↔ ∀ f ∈ fs, f.1 ≠ name := by
  induction fs with
  | nil => simp [lookup]
  | cons f fs ih => rw [lookup_cons, Option.or_eq_none_iff, ih]; simp [and_comm]

/-- A new name has a place among ascending ones. -/
theorem exists_insert (f : String × Json) {fs : List (String × Json)}
    (h : fs.Pairwise fun f g => f.1 < g.1) (hnew : ∀ g ∈ fs, g.1 ≠ f.1) :
    ∃ gs, gs.Pairwise (fun f g => f.1 < g.1) ∧ (∀ g ∈ gs, g = f ∨ g ∈ fs) ∧
      ∀ name, lookup name gs = lookup name (f :: fs) := by
  induction fs with
  | nil => exact ⟨[f], List.pairwise_singleton _ f, by simp, fun _ => rfl⟩
  | cons g fs ih =>
      obtain ⟨hg, hfs⟩ := List.pairwise_cons.mp h
      have hne : g.1 ≠ f.1 := hnew g List.mem_cons_self
      by_cases hbefore : f.1 < g.1
      · refine ⟨f :: g :: fs, List.pairwise_cons.mpr ⟨?_, h⟩, by simp, fun _ => rfl⟩
        intro e he
        rcases List.mem_cons.mp he with heq | he
        · rw [heq]
          exact hbefore
        · exact String.lt_trans hbefore (hg e he)
      · have hafter : g.1 < f.1 := by
          refine Decidable.by_contra fun hnot => ?_
          exact hne (String.le_antisymm (String.not_lt.mp hbefore) (String.not_lt.mp hnot))
        obtain ⟨gs, hgs, hmem, hsame⟩ := ih hfs fun e he => hnew e (List.mem_cons_of_mem g he)
        refine ⟨g :: gs, List.pairwise_cons.mpr ⟨?_, hgs⟩, ?_, ?_⟩
        · intro e he
          rcases hmem e he with heq | he
          · rw [heq]
            exact hafter
          · exact hg e he
        · intro e he
          rcases List.mem_cons.mp he with heq | he
          · exact .inr (heq ▸ List.mem_cons_self)
          · exact (hmem e he).imp id (List.mem_cons_of_mem g)
        · intro name
          simp only [lookup_cons, hsame]
          by_cases hf : f.1 = name
          · have hname : g.1 ≠ name := fun heq => hne (heq.trans hf.symm)
            simp [hname]
          · simp [hf]

/-- **Fields can be put in ascending order,** of which each name has the one that counts. -/
theorem exists_ascending (fields : List (String × Json)) :
    ∃ ascending : List (String × Json), ascending.Pairwise (fun f g => f.1 < g.1) ∧
      ∀ name, lookup name ascending = lookup name fields := by
  induction fields with
  | nil => exact ⟨[], .nil, fun _ => rfl⟩
  | cons f fs ih =>
      obtain ⟨ascending, hascending, hsame⟩ := ih
      cases hfound : lookup f.1 ascending with
      | none =>
          obtain ⟨gs, hgs, -, hlookup⟩ :=
            exists_insert f hascending (lookup_eq_none_iff.mp hfound)
          refine ⟨gs, hgs, ?_⟩
          intro name
          rw [hlookup, lookup_cons, lookup_cons, hsame]
      | some v =>
          -- A later field with the same name counts instead of this one.
          refine ⟨ascending, hascending, ?_⟩
          intro name
          rw [lookup_cons, ← hsame]
          by_cases hf : f.1 = name
          · rw [← hf, hfound, Option.some_or]
          · rw [if_neg hf, Option.or_none]

end Json

namespace StoredCondition

/-! ### The formula field -/

/-- **What a field says about the formula:** that there is none, if it is missing or null, or else
its text. -/
inductive SaysFormula : Option Json → Option String → Prop
  | missing : SaysFormula none none
  | null : SaysFormula (some .null) none
  | text {s : String} : SaysFormula (some (.string s)) (some s)

theorem expectText?_of_says {field : Option Json} {formula : Option String}
    (h : SaysFormula field formula) : expectText? field = .ok formula := by
  cases h with
  | missing => rfl
  | null => rfl
  | text => rfl

theorem says_text_iff {field : Option Json} {s : String} :
    SaysFormula field (some s) ↔ field = some (.string s) := by
  constructor
  · intro h
    cases h with
    | text => rfl
  · intro h
    rw [h]
    exact .text

theorem expectText_of_not_text {v : Json} (h : v.string? = none) :
    expectText v = .error (.notText (found v)) := by
  cases v with
  | string s => exact absurd h (by simp [Json.string?])
  | _ => rfl

theorem expectText?_of_not_text {v : Json} (hnull : v ≠ .null) (h : v.string? = none) :
    expectText? (some v) = .error (.notText (found v)) := by
  have hexpect := expectText_of_not_text h
  cases v with
  | null => exact absurd rfl hnull
  | _ => exact congrArg (Except.map some) hexpect

theorem exists_text (v : Json) : v.string? = none ∨ ∃ s, v = .string s := by
  cases v with
  | string s => exact .inr ⟨s, rfl⟩
  | _ => exact .inl rfl

theorem says_or_not (field : Option Json) :
    (∃ formula, SaysFormula field formula) ∨
      ∃ v, field = some v ∧ v ≠ .null ∧ v.string? = none := by
  cases field with
  | none => exact .inl ⟨none, .missing⟩
  | some v =>
      by_cases hnull : v = .null
      · rw [hnull]
        exact .inl ⟨none, .null⟩
      · rcases exists_text v with htext | htext
        · exact .inr ⟨v, rfl, hnull, htext⟩
        · obtain ⟨s, rfl⟩ := htext
          exact .inl ⟨some s, .text⟩

/-! ### Field by field -/

/-- The draft after one more field.  The fields of an object that was read have different names, so
none is there already. -/
def Draft.visit (d : Draft) (f : String × Json) : Except StructureFault Draft :=
  if f.1 = "condition" then
    (expectText? (some f.2)).map fun formula => { d with formula := some formula }
  else if f.1 = "type" then (expectText f.2).map fun kind => { d with kind := some kind }
  else .ok d

/-- The structure of a draft, which needs a kind. -/
def Draft.settle (d : Draft) : Except StructureFault StoredCondition :=
  match d.kind with
  | some kind => .ok ⟨kind, d.formula.join⟩
  | none => .error (.missingField "type")

/-- **Reads a structure from fields,** one after the other. -/
def visitAll (fields : List (String × Json)) : Except StructureFault StoredCondition :=
  (fields.foldlM Draft.visit ⟨none, none⟩).bind Draft.settle

/-- What a field does to a draft, if there is such a field. -/
def Draft.visitField (name : String) (fields : List (String × Json)) (d : Draft) :
    Except StructureFault Draft :=
  match Json.lookup name fields with
  | some v => d.visit (name, v)
  | none => .ok d

theorem Draft.visitField_cons_self {name : String} {fs : List (String × Json)}
    (h : Json.lookup name fs = none) (v : Json) (d : Draft) :
    d.visitField name ((name, v) :: fs) = d.visit (name, v) := by
  rw [visitField, Json.lookup_cons, h, if_pos rfl]
  rfl

theorem Draft.visitField_cons_ne {name : String} {f : String × Json} (h : f.1 ≠ name)
    (fs : List (String × Json)) (d : Draft) :
    d.visitField name (f :: fs) = d.visitField name fs := by
  rw [visitField, Json.lookup_cons, if_neg h, Option.or_none]
  rfl

theorem Draft.visitField_of_lookup {name : String} {fs : List (String × Json)}
    (h : Json.lookup name fs = none) (d : Draft) : d.visitField name fs = .ok d := by
  rw [visitField, h]

/-- **Of ascending fields the formula is visited first and then the type,** and nothing else
counts. -/
theorem Draft.foldlM_visit {fields : List (String × Json)}
    (h : fields.Pairwise fun f g => f.1 < g.1) : ∀ d : Draft, fields.foldlM visit d =
      (d.visitField "condition" fields).bind fun d => d.visitField "type" fields := by
  induction fields with
  | nil => intro d; rfl
  | cons f fs ih =>
      intro d
      obtain ⟨hf, hfs⟩ := List.pairwise_cons.mp h
      have hstep : (f :: fs).foldlM visit d = (d.visit f).bind fun d =>
          (d.visitField "condition" fs).bind fun d => d.visitField "type" fs := by
        rw [List.foldlM_cons]
        exact congrArg (Except.bind (d.visit f)) (funext (ih hfs))
      -- A name that this one is not before does not come any more.
      have hlater : ∀ name, ¬f.1 < name → Json.lookup name fs = none := by
        intro name hname
        refine Json.lookup_eq_none_iff.mpr ?_
        intro g hg heq
        exact hname (heq ▸ hf g hg)
      obtain ⟨name, v⟩ := f
      rw [hstep]
      by_cases hcondition : name = "condition"
      · subst hcondition
        have hnone := hlater "condition" (String.lt_irrefl _)
        have hne : (("condition", v) : String × Json).1 ≠ "type" := by
          show "condition" ≠ "type"
          decide
        simp only [visitField_of_lookup hnone, visitField_cons_self hnone, visitField_cons_ne hne]
        rfl
      by_cases htype : name = "type"
      · subst htype
        have hnone := hlater "type" (String.lt_irrefl _)
        have hbefore : ¬(("type", v) : String × Json).1 < "condition" := by
          show ¬"type" < "condition"
          decide
        simp only [visitField_cons_ne (f := ("type", v)) hcondition, visitField_cons_self hnone,
          visitField_of_lookup hnone, visitField_of_lookup (hlater "condition" hbefore)]
        show _ = d.visit ("type", v)
        cases d.visit ("type", v) with
        | ok d => rfl
        | error fault => rfl
      · have hskip : d.visit (name, v) = .ok d := by
          rw [visit, if_neg hcondition, if_neg htype]
        simp only [hskip, visitField_cons_ne (f := (name, v)) hcondition,
          visitField_cons_ne (f := (name, v)) htype]
        rfl

theorem ofJson_object (fields : List (String × Json)) :
    ofJson (.object fields) = (expectText? (Json.lookup "condition" fields)).bind fun formula =>
      match Json.lookup "type" fields with
      | some v => (expectText v).map fun kind => ⟨kind, formula⟩
      | none => .error (.missingField "type") := by
  show Except.bind _ _ = _
  refine congrArg (Except.bind _) (funext ?_)
  intro formula
  cases Json.lookup "type" fields with
  | none => rfl
  | some v => cases expectText v <;> rfl

/-- After the formula was visited, a kind completes the structure. -/
theorem settle_visitField {d : Draft} {formula : Option String} (hkind : d.kind = none)
    (hformula : d.formula.join = formula) (fields : List (String × Json)) :
    (d.visitField "type" fields).bind Draft.settle =
      match Json.lookup "type" fields with
      | some v => (expectText v).map fun kind => ⟨kind, formula⟩
      | none => .error (.missingField "type") := by
  unfold Draft.visitField
  cases Json.lookup "type" fields with
  | none =>
      show d.settle = _
      rw [Draft.settle, hkind]
  | some v =>
      show (d.visit ("type", v)).bind Draft.settle = (expectText v).map _
      have hvisit : d.visit ("type", v) =
          (expectText v).map fun kind => { d with kind := some kind } := rfl
      rw [hvisit, ← hformula]
      cases expectText v with
      | ok kind => rfl
      | error fault => rfl

/-- **A structure is read field by field.**  It does not matter how an object was written, only what
it holds under each name. -/
theorem ofJson_eq_visitAll {fields ascending : List (String × Json)}
    (h : ascending.Pairwise fun f g => f.1 < g.1)
    (hsame : ∀ name, Json.lookup name ascending = Json.lookup name fields) :
    ofJson (.object fields) = visitAll ascending := by
  rw [visitAll, Draft.foldlM_visit h, ofJson_object, ← hsame "condition", ← hsame "type"]
  unfold Draft.visitField
  cases hcondition : Json.lookup "condition" ascending with
  | none => exact (settle_visitField (d := ⟨none, none⟩) rfl rfl ascending).symm
  | some v =>
      have hvisit : Draft.visit ⟨none, none⟩ ("condition", v) =
          (expectText? (some v)).map fun formula => ⟨none, some formula⟩ := rfl
      simp only [hvisit]
      cases expectText? (some v) with
      | ok formula =>
          exact (settle_visitField (d := ⟨none, some formula⟩) rfl rfl ascending).symm
      | error fault => rfl

end StoredCondition

/-! ### The table -/

namespace Condition

open StoredCondition

/--
**What is read from a value,** by the first thing that is wrong with it.

What the fields hold is looked at before what they say, and there the formula comes first.  Of what
they say the type comes first: where it is another one, a formula need not even be there.
-/
inductive ReadsAs : Json → Except ConditionError Condition → Prop
  /-- The value is no object. -/
  | notObject {v : Json} (h : ∀ fields, v ≠ .object fields) :
      ReadsAs v (.error (.malformed .notObject))
  /-- The formula is there and is neither null nor a text. -/
  | formulaNotText {fields : List (String × Json)} {v : Json}
      (hformula : Json.lookup "condition" fields = some v) (hnull : v ≠ .null)
      (htext : v.string? = none) :
      ReadsAs (.object fields) (.error (.malformed (.notText (found v))))
  /-- There is no type. -/
  | typeMissing {fields : List (String × Json)} {formula : Option String}
      (hformula : SaysFormula (Json.lookup "condition" fields) formula)
      (htype : Json.lookup "type" fields = none) :
      ReadsAs (.object fields) (.error (.malformed (.missingField "type")))
  /-- The type is no text. -/
  | typeNotText {fields : List (String × Json)} {formula : Option String} {v : Json}
      (hformula : SaysFormula (Json.lookup "condition" fields) formula)
      (htype : Json.lookup "type" fields = some v) (htext : v.string? = none) :
      ReadsAs (.object fields) (.error (.malformed (.notText (found v))))
  /-- The type is another one, whatever is said of a formula. -/
  | foreign {fields : List (String × Json)} {formula : Option String} {kind : String}
      (hformula : SaysFormula (Json.lookup "condition" fields) formula)
      (htype : Json.lookup "type" fields = some (.string kind)) (hkind : kind ≠ "adler") :
      ReadsAs (.object fields) (.error (.unsupportedType kind))
  /-- The formula is missing or null. -/
  | noFormula {fields : List (String × Json)}
      (hformula : SaysFormula (Json.lookup "condition" fields) none)
      (htype : Json.lookup "type" fields = some (.string "adler")) :
      ReadsAs (.object fields) (.error .missingCondition)
  /-- The text of the formula cannot be read. -/
  | unreadable {fields : List (String × Json)} {formula : String} {e : FormulaError}
      (hformula : Json.lookup "condition" fields = some (.string formula))
      (htype : Json.lookup "type" fields = some (.string "adler"))
      (hread : Formula.parse Limits.default formula = .error e) :
      ReadsAs (.object fields) (.error (.invalidFormula e))
  /-- Nothing is wrong. -/
  | condition {fields : List (String × Json)} {formula : String} {tree : Formula}
      (hformula : Json.lookup "condition" fields = some (.string formula))
      (htype : Json.lookup "type" fields = some (.string "adler"))
      (hread : Formula.parse Limits.default formula = .ok tree) :
      ReadsAs (.object fields) (.ok ⟨.courseSection, formula, tree, Limits.default, hread⟩)

theorem ofJson_of_structure {fields : List (String × Json)} {formula : Option String}
    {kind : String} (hformula : SaysFormula (Json.lookup "condition" fields) formula)
    (htype : Json.lookup "type" fields = some (.string kind)) :
    ofJson (.object fields) = ofStored Limits.default ⟨kind, formula⟩ := by
  have hread : StoredCondition.ofJson (.object fields) = .ok ⟨kind, formula⟩ := by
    rw [ofJson_object, expectText?_of_says hformula, htype]
    rfl
  rw [ofJson, hread]

theorem ofJson_of_fault {v : Json} {fault : StructureFault}
    (h : StoredCondition.ofJson v = .error fault) : ofJson v = .error (.malformed fault) := by
  rw [ofJson, h]

theorem ofStored_adler (limits : Limits) (formula : String) :
    ofStored limits ⟨"adler", some formula⟩ = ofFormula limits formula := by
  rw [ofStored, adler, if_pos rfl]

/-- Every row says what is read. -/
theorem ReadsAs.sound {v : Json} {x : Except ConditionError Condition} (h : ReadsAs v x) :
    ofJson v = x := by
  cases h with
  | notObject hno =>
      refine ofJson_of_fault ?_
      cases v with
      | object fields => exact absurd rfl (hno fields)
      | _ => rfl
  | formulaNotText hformula hnull htext =>
      refine ofJson_of_fault ?_
      rw [ofJson_object, hformula, expectText?_of_not_text hnull htext]
      rfl
  | typeMissing hformula htype =>
      refine ofJson_of_fault ?_
      rw [ofJson_object, expectText?_of_says hformula, htype]
      rfl
  | typeNotText hformula htype htext =>
      refine ofJson_of_fault ?_
      rw [ofJson_object, expectText?_of_says hformula, htype]
      show Except.map _ (expectText _) = _
      rw [expectText_of_not_text htext]
      rfl
  | foreign hformula htype hkind =>
      rw [ofJson_of_structure hformula htype, ofStored, adler, if_neg hkind]
  | noFormula hformula htype =>
      rw [ofJson_of_structure hformula htype, ofStored, adler, if_pos rfl]
  | unreadable hformula htype hread =>
      rw [ofJson_of_structure (says_text_iff.mpr hformula) htype, ofStored_adler,
        ofFormula_of_parse_error hread]
  | condition hformula htype hread =>
      rw [ofJson_of_structure (says_text_iff.mpr hformula) htype, ofStored_adler,
        ofFormula_of_parse hread]
      rfl

/-- Some row applies to an object whose fields hold texts, or nothing where a formula is meant. -/
theorem exists_readsAs_of_structure {fields : List (String × Json)} {formula : Option String}
    {kind : String} (hformula : SaysFormula (Json.lookup "condition" fields) formula)
    (htype : Json.lookup "type" fields = some (.string kind)) :
    ∃ x, ReadsAs (.object fields) x := by
  by_cases hkind : kind = "adler"
  · rw [hkind] at htype
    cases formula with
    | none => exact ⟨_, .noFormula hformula htype⟩
    | some formula =>
        have htext := says_text_iff.mp hformula
        cases hread : Formula.parse Limits.default formula with
        | error e => exact ⟨_, .unreadable htext htype hread⟩
        | ok tree => exact ⟨_, .condition htext htype hread⟩
  · exact ⟨_, .foreign hformula htype hkind⟩

/-- **Some row applies to every value.** -/
theorem exists_readsAs (v : Json) : ∃ x, ReadsAs v x := by
  by_cases hobject : ∃ fields, v = .object fields
  · obtain ⟨fields, rfl⟩ := hobject
    rcases says_or_not (Json.lookup "condition" fields) with ⟨formula, hformula⟩ | hnot
    · cases htype : Json.lookup "type" fields with
      | none => exact ⟨_, .typeMissing hformula htype⟩
      | some w =>
          rcases exists_text w with htext | ⟨kind, rfl⟩
          · exact ⟨_, .typeNotText hformula htype htext⟩
          · exact exists_readsAs_of_structure hformula htype
    · obtain ⟨w, hw, hnull, htext⟩ := hnot
      exact ⟨_, .formulaNotText hw hnull htext⟩
  · exact ⟨_, .notObject fun fields heq => hobject ⟨fields, heq⟩⟩

theorem ofJson_eq_iff {v : Json} {x : Except ConditionError Condition} :
    ofJson v = x ↔ ReadsAs v x := by
  constructor
  · intro h
    obtain ⟨y, hy⟩ := exists_readsAs v
    rw [← h, hy.sound]
    exact hy
  · exact ReadsAs.sound

/-- A condition is read just from the objects that hold one. -/
theorem ofJson_eq_ok_iff {v : Json} {c : Condition} :
    ofJson v = .ok c ↔ ∃ fields, v = .object fields ∧
      Json.lookup "type" fields = some (.string "adler") ∧
      Json.lookup "condition" fields = some (.string c.formula) ∧
      Formula.parse Limits.default c.formula = .ok c.tree ∧
      c.scope = .courseSection ∧ c.limits = Limits.default := by
  rw [ofJson_eq_iff]
  constructor
  · intro h
    cases h with
    | condition hformula htype hread => exact ⟨_, rfl, htype, hformula, hread, rfl, rfl⟩
  · rintro ⟨fields, rfl, htype, hformula, hread, hscope, hlimits⟩
    have hc : c = ⟨.courseSection, c.formula, c.tree, Limits.default, hread⟩ := by
      obtain ⟨scope, formula, tree, limits, reads⟩ := c
      subst hscope hlimits
      rfl
    rw [hc]
    exact .condition hformula htype hread

/--
**What is read from a value is decided by the first thing that is wrong with it.**

Each value has one row of the table, and what the row says is what is read.  A condition is read
just from the objects whose type is the one of this library and whose formula can be read under the
limits where none are given; it has the formula as it was written, whatever other fields there are.

The fields are visited with ascending names, and only then is it looked at what they say.  That is
where the order of the rows comes from.
-/
theorem read_by_first_fault (v : Json) :
    (∀ x, ofJson v = x ↔ ReadsAs v x) ∧
    (∀ c : Condition, ofJson v = .ok c ↔ ∃ fields, v = .object fields ∧
      Json.lookup "type" fields = some (.string "adler") ∧
      Json.lookup "condition" fields = some (.string c.formula) ∧
      Formula.parse Limits.default c.formula = .ok c.tree ∧
      c.scope = .courseSection ∧ c.limits = Limits.default) ∧
    ∀ fields, v = .object fields → ∃ ascending : List (String × Json),
      ascending.Pairwise (fun f g => f.1 < g.1) ∧
      (∀ name, Json.lookup name ascending = Json.lookup name fields) ∧
      ofJson v = match visitAll ascending with
        | .ok s => ofStored Limits.default s
        | .error fault => .error (.malformed fault) := by
  refine ⟨fun x => ofJson_eq_iff, fun c => ofJson_eq_ok_iff, ?_⟩
  intro fields hv
  obtain ⟨ascending, hascending, hsame⟩ := Json.exists_ascending fields
  refine ⟨ascending, hascending, hsame, ?_⟩
  have hvisit : StoredCondition.ofJson v = visitAll ascending :=
    hv ▸ ofJson_eq_visitAll hascending hsame
  cases hread : visitAll ascending with
  | ok s =>
      show ofJson v = ofStored Limits.default s
      rw [ofJson, hvisit, hread]
  | error fault => exact ofJson_of_fault (hvisit.trans hread)

-- A formula of the wrong kind comes before another type, which comes before a missing formula.
example : ofJson (.object [("type", .string "grade"), ("condition", .bool true)]) =
    .error (.malformed (.notText "boolean `true`")) := rfl

example : ofJson (.object [("type", .string "grade"), ("condition", .null)]) =
    .error (.unsupportedType "grade") := rfl

end Condition
end Prerequisite
