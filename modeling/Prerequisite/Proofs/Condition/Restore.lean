/-
What a restore does to the decision.

A restore works on the text of a condition, and whether an element is open is decided on the tree
that the new text is read as.  The two are brought together here: the new tree is the old one with
the new ids in the places of the old (`tree_of_restore`), whether or not the text has changed.  So a
host that says of each new id what another says of the old one is asked about the same sections in
the same order, and the answer is the same.
-/
import Prerequisite.Condition.Query
import Prerequisite.Condition.Restore
import Prerequisite.Proofs.Remap

namespace Prerequisite

namespace Condition

variable {a : Answers} {r : RestoreId} {c : Condition}

/-! ### The condition after a restore -/

theorem reworded_ok {d : Condition} {text : String} (h : c.reworded text = .ok d) :
    d.formula = text ∧ d.scope = c.scope ∧ d.limits = c.limits := by
  unfold reworded ofFormula at h
  split at h
  · injection h with hd
    subst hd
    exact ⟨rfl, rfl, rfl⟩
  · exact absurd h (by simp [Except.map])

theorem ofFormula_of_parse {limits : Limits} {text : String} {f : Formula}
    (h : Formula.parse limits text = .ok f) :
    ofFormula limits text = .ok ⟨Scope.default, text, f, limits, h⟩ := by
  unfold ofFormula
  split
  · rename_i tree htree
    obtain rfl : tree = f := by simpa [h, eq_comm] using htree
    rfl
  · rename_i e he
    exact absurd (h.symm.trans he) (by simp)

/-- A condition is built from its text and its limits, as far as its scope allows. -/
theorem ofFormula_eq_ok_iff {limits : Limits} {text : String} {c : Condition} :
    ofFormula limits text = .ok c ↔
      c.formula = text ∧ c.limits = limits ∧ c.scope = Scope.default := by
  constructor
  · intro h
    unfold ofFormula at h
    split at h
    · injection h with hc
      subst hc
      exact ⟨rfl, rfl, rfl⟩
    · exact absurd h (by simp)
  · obtain ⟨scope, formula, tree, limits', reads⟩ := c
    rintro ⟨rfl, rfl, rfl⟩
    exact ofFormula_of_parse reads

theorem ofFormula_of_parse_error {limits : Limits} {text : String} {e : FormulaError}
    (h : Formula.parse limits text = .error e) :
    ofFormula limits text = .error (.invalidFormula e) := by
  unfold ofFormula
  split
  · rename_i tree htree
    exact absurd (h.symm.trans htree) (by simp)
  · rename_i e' he
    obtain rfl : e' = e := by simpa [h, eq_comm] using he
    rfl

/-- A restore succeeds where the remapped text is another one and can be read. -/
theorem restore_of_remap {σ : Type} {host : Host σ} {new : Remapped} {s t : σ} {f : Formula}
    (hmap : remap (host.newId r .courseSection) c.limits c.formula s = .ok new t)
    (hchanged : new.changed = true) (hread : Formula.parse c.limits new.formula = .ok f) :
    ∃ t', c.restore host r s =
      .ok ⟨⟨c.scope, new.formula, f, c.limits, hread⟩, true⟩ t' := by
  unfold restore
  simp only [hmap, if_pos hchanged, reworded, ofFormula_of_parse hread]
  exact ⟨_, rfl⟩

/-- A restore that succeeds keeps all of a condition but the text, which is the remapped one. -/
theorem restore_ok {σ : Type} {host : Host σ} {res : Restored} {s s' : σ}
    (h : c.restore host r s = .ok res s') :
    ∃ new t, remap (host.newId r .courseSection) c.limits c.formula s = .ok new t ∧
      res.condition.formula = new.formula ∧ res.condition.scope = c.scope ∧
      res.condition.limits = c.limits := by
  unfold restore at h
  cases hmap : remap (host.newId r .courseSection) c.limits c.formula s with
  | error e t =>
      rw [hmap] at h
      cases e <;> exact absurd h (by simp)
  | ok new t =>
      refine ⟨new, t, rfl, ?_⟩
      simp only [hmap] at h
      by_cases hchanged : new.changed = true
      · rw [if_pos hchanged] at h
        cases hword : c.reworded new.formula with
        | error e => simp [hword] at h
        | ok d =>
            simp only [hword] at h
            injection h with hres
            subst hres
            exact reworded_ok hword
      · rw [if_neg hchanged] at h
        injection h with hres
        subst hres
        obtain ⟨_, news, -, -, rfl⟩ := remap_ok hmap
        have hsame : Remap.newText news c.formula = c.formula := by simpa using hchanged
        exact ⟨hsame.symm, rfl, rfl⟩

/-- **The tree after a restore is the old one with the new ids,** and every id has got one. -/
theorem tree_of_restore {res : Restored} {j j' : Journal}
    (h : c.restore a.host r j = .ok res j') :
    (∀ id ∈ c.tree.atoms, a.Translates r id) ∧
      res.condition.tree = c.tree.rename (a.restored r) := by
  obtain ⟨new, s, hmap, hformula, -, -⟩ := restore_ok h
  obtain ⟨ps, news, hpieces, hgives, rfl⟩ := remap_ok hmap
  obtain ⟨htrans, rfl⟩ := hgives.restored
  obtain ⟨qs, hqs, hcut, hatoms⟩ := Formula.pieces_of_parse c.reads
  obtain rfl : qs = ps := Except.ok.inj (hqs.symm.trans hpieces)
  rw [hatoms] at htrans
  have htext : res.condition.formula.toList = qs.flatMap (Piece.renamed (a.restored r)) := by
    rw [hformula, Remap.toList_newText, Scan.reword_map _ hcut]
  exact ⟨htrans, Formula.rename_of_parse_renamed hcut htext c.reads res.condition.reads⟩

/-- **A restore succeeds when every id has got a new one and the new text is small enough.** -/
theorem restore_of_translates {text : String} {ps : List Piece}
    (hps : Scan.Cuts 0 c.formula.toList ps)
    (htext : text.toList = ps.flatMap (Piece.renamed (a.restored r)))
    (htrans : ∀ id ∈ c.tree.atoms, a.Translates r id)
    (hsize : Text.byteSize text.toList ≤ c.limits.maxBytes) (j : Journal) :
    ∃ res j', c.restore a.host r j = .ok res j' ∧ res.condition.formula = text := by
  obtain ⟨qs, hpieces, hcut, hatoms⟩ := Formula.pieces_of_parse c.reads
  obtain rfl := hcut.unique hps
  rw [← hatoms] at htrans
  obtain ⟨s, hgives⟩ := Remap.gives_of_translates htrans j
  have hmap := remap_of_gives hpieces hgives
  have hformula : Remap.newText ((qs.filterMap Piece.id?).map (a.restored r)) c.formula = text := by
    rw [← String.toList_inj, Remap.toList_newText, Scan.reword_map _ hps, htext]
  rw [hformula] at hmap
  by_cases hsame : text = c.formula
  · have h : c.restore a.host r j = .ok ⟨c, false⟩ s := by
      unfold restore
      simp only [hmap, hsame, bne_self_eq_false, Bool.false_eq_true, if_false]
    exact ⟨_, s, h, hsame.symm⟩
  · have hdeep := ((Formula.parse_eq_ok_iff_normal hps).mp c.reads).2.1
    have hread := Formula.parse_renamed hps htext c.reads hsize hdeep
    obtain ⟨j', h⟩ := restore_of_remap hmap (bne_iff_ne.mpr hsame) hread
    exact ⟨_, j', h, rfl⟩

end Condition

/-! ### Asking under other ids

A journal grows by one question for each section that is asked about.  Two journals are kept side by
side here, one with the old ids and one with the new.
-/

/-- The journals `j` and `k` have gone on with the same questions about a user, `k` under the new
ids. -/
def SameQuestions (new : SectionId → SectionId) (user : UserId) (j k j' k' : Journal) : Prop :=
  ∃ asked : List SectionId,
    j'.calls = j.calls ++ (asked.map fun id => Call.completion id user).toArray ∧
    k'.calls = k.calls ++ (asked.map fun id => Call.completion (new id) user).toArray

section

variable {new : SectionId → SectionId} {user : UserId} {j k j' k' : Journal}

theorem SameQuestions.none : SameQuestions new user j k j k := ⟨[], by simp, by simp⟩

theorem SameQuestions.ask (h : SameQuestions new user j k j' k') (id : SectionId) :
    SameQuestions new user j k (j'.call (.completion id user))
      (k'.call (.completion (new id) user)) := by
  obtain ⟨asked, hj, hk⟩ := h
  refine ⟨asked ++ [id], ?_, ?_⟩
  · rw [Journal.call, hj]
    simp
  · rw [Journal.call, hk]
    simp

/-- Hosts that say the same of two ids are asked alike about them. -/
theorem satisfied_alike {before after : Answers} {id : SectionId}
    (hsame : after.completed (new id) user = before.completed id user)
    (h : SameQuestions new user j k j' k') :
    Alike (SameQuestions new user j k) (before.host.satisfied id user j')
      (after.host.satisfied (new id) user k') := by
  have hask := h.ask id
  unfold Host.satisfied Answers.host Answers.reply
  simp only [hsame]
  cases before.completed id user with
  | ok b => exact .ok hask
  | error e =>
      cases e with
      | notEnrolled u => exact .ok hask
      | unavailable reason => exact .error hask
      | storage reason => exact .error hask

end

namespace Condition

/-- Conditions whose trees differ by new ids are decided alike where hosts say the same of them. -/
theorem available_alike {new : SectionId → SectionId} {before after : Answers} {c d : Condition}
    (htree : d.tree = c.tree.rename new) (hdep : after.dependency = before.dependency)
    (hsame : ∀ id ∈ c.tree.atoms, ∀ user,
      after.completed (new id) user = before.completed id user)
    (user : UserId) (negate inBulk : Bool) (j k : Journal) :
    Alike (SameQuestions new user j k) (c.available before.host user negate inBulk j)
      (d.available after.host user negate inBulk k) := by
  have key : Alike (SameQuestions new user j k) (c.satisfied before.host user j)
      (d.satisfied after.host user k) := by
    have hdep' : after.host.dependency = before.host.dependency := hdep
    unfold satisfied
    rw [hdep', htree]
    cases before.host.dependency with
    | missing => exact .ok ⟨[], (Array.append_empty).symm, (Array.append_empty).symm⟩
    | installed =>
        exact c.tree.eval_rename new (fun id hid s t hst => satisfied_alike (hsame id hid user) hst)
          j k .none
  unfold available
  generalize c.satisfied before.host user j = x, d.satisfied after.host user k = y at key ⊢
  cases key with
  | ok h => exact .ok h
  | error h => exact .error h

/--
**A restore keeps the decision.**

If a restore succeeds, every section of the condition has got a new id, the tree is the old one with
those ids in the same places, and scope and limits are what they were.  Any two hosts that agree on
whether there is somebody to ask, and of which the second says of every new id what the first says
of the old one, then decide alike, with the same value or the same error, and are asked the same
questions in the same order, the second under the new ids.
-/
theorem restore_keeps_decision {a : Answers} {r : RestoreId} {c : Condition} {res : Restored}
    {j j' : Journal} (h : c.restore a.host r j = .ok res j') :
    (∀ id ∈ c.tree.atoms, a.newId r .courseSection id = .ok (some (a.restored r id))) ∧
    res.condition.tree = c.tree.rename (a.restored r) ∧
    res.condition.scope = c.scope ∧ res.condition.limits = c.limits ∧
    ∀ before after : Answers, after.dependency = before.dependency →
      (∀ id ∈ c.tree.atoms, ∀ user,
        after.completed (a.restored r id) user = before.completed id user) →
      ∀ (user : UserId) (negate inBulk : Bool) (old new : Journal),
        Alike (SameQuestions (a.restored r) user old new)
          (c.available before.host user negate inBulk old)
          (res.condition.available after.host user negate inBulk new) := by
  obtain ⟨htrans, htree⟩ := tree_of_restore h
  obtain ⟨_, _, -, -, hscope, hlimits⟩ := restore_ok h
  refine ⟨?_, htree, hscope, hlimits, ?_⟩
  · intro id hid
    obtain ⟨new, hnew⟩ := htrans id hid
    rw [hnew, Answers.restored_of_newId hnew]
  · intro before after hdep hsame user negate inBulk old new
    exact available_alike htree hdep hsame user negate inBulk old new

/-- A host where one section is completed, and where a restore makes `2` of `1` and `10` of `2`. -/
def movedUp (completed : SectionId) : Answers where
  completed id _ := .ok (id == completed)
  sectionName _ := .ok ""
  phrase _ _ _ := .ok ""
  newId _ _ id := .ok (if id = ⟨1⟩ then some ⟨2⟩ else if id = ⟨2⟩ then some ⟨10⟩ else none)
  dependency := .installed
  time := 0

/-- The ids of `01^ 2` move up in a restore, the first to where the second was. -/
theorem restore_keeps_decision_of_chained_ids :
    ∃ (c : Condition) (res : Restored) (j' : Journal),
      c.formula = "01^ 2" ∧ c.restore (movedUp ⟨0⟩).host ⟨"copy"⟩ .empty = .ok res j' ∧
      res.condition.formula = "2^ 10" ∧
      res.condition.tree = c.tree.rename ((movedUp ⟨0⟩).restored ⟨"copy"⟩) ∧
      ∀ (user : UserId) (negate inBulk : Bool) (old new : Journal),
        Alike (SameQuestions ((movedUp ⟨0⟩).restored ⟨"copy"⟩) user old new)
          (c.available (movedUp ⟨1⟩).host user negate inBulk old)
          (res.condition.available (movedUp ⟨2⟩).host user negate inBulk new) := by
  have hcut : ∃ ps, Scan.Cuts 0 "01^ 2".toList ps ∧
      (Formula.conj [.atom ⟨1⟩, .atom ⟨2⟩]).tokens =
        (ps.filterMap Piece.lexeme?).map Lexeme.token ∧
      ps.flatMap (Piece.renamed ((movedUp ⟨0⟩).restored ⟨"copy"⟩)) = "2^ 10".toList := by
    have hmark : Scan.NoDigit ['^', ' ', '2'] := by
      intro c hc
      obtain rfl : '^' = c := by simpa using hc
      rfl
    have hend : Scan.NoDigit [] := fun c hc => absurd hc (by simp)
    have hone : ∀ c ∈ ['0', '1'], c.isDigit = true := List.all_eq_true.mp (by decide)
    have htwo : ∀ c ∈ ['2'], c.isDigit = true := List.all_eq_true.mp (by decide)
    have htext : "01^ 2".toList = ['0', '1', '^', ' ', '2'] := by decide
    rw [htext]
    exact ⟨_, @Scan.Cuts.run 0 ['0', '1'] _ ⟨1⟩ _ (by decide) hone hmark rfl
      (.mark rfl (.blank (by decide)
        (@Scan.Cuts.run _ ['2'] [] ⟨2⟩ [] (by decide) htwo hend rfl .nil))), rfl, by decide⟩
  obtain ⟨ps, hps, htok, hnew⟩ := hcut
  have hnormal : (Formula.conj [.atom ⟨1⟩, .atom ⟨2⟩]).Normal := by
    refine .conj (by decide) (by decide) ?_
    intro f hf
    rcases List.mem_cons.mp hf with rfl | hf
    · exact .atom
    · obtain rfl := List.mem_singleton.mp hf
      exact .atom
  have hread : Formula.parse ⟨9, 2⟩ "01^ 2" = .ok (.conj [.atom ⟨1⟩, .atom ⟨2⟩]) :=
    (Formula.parse_eq_ok_iff_normal hps).mpr ⟨by decide, by decide, hnormal, htok⟩
  have hids : ∀ id ∈ (Formula.conj [.atom ⟨1⟩, .atom ⟨2⟩]).atoms, id = ⟨1⟩ ∨ id = ⟨2⟩ := by
    intro id hid
    rcases List.mem_cons.mp hid with rfl | hid
    · exact .inl rfl
    · exact .inr (List.mem_singleton.mp hid)
  have htrans : ∀ id ∈ (Formula.conj [.atom ⟨1⟩, .atom ⟨2⟩]).atoms,
      (movedUp ⟨0⟩).Translates ⟨"copy"⟩ id := by
    intro id hid
    rcases hids id hid with rfl | rfl
    · exact ⟨⟨2⟩, rfl⟩
    · exact ⟨⟨10⟩, rfl⟩
  have hsize : Text.byteSize "2^ 10".toList ≤ 9 := by decide
  obtain ⟨res, j', h, hformula⟩ := restore_of_translates
    (c := ⟨.room, "01^ 2", _, _, hread⟩) hps hnew.symm htrans hsize .empty
  obtain ⟨-, htree, -, -, halike⟩ := restore_keeps_decision h
  refine ⟨_, res, j', rfl, h, hformula, htree, halike _ _ rfl ?_⟩
  intro id hid user
  rcases hids id hid with rfl | rfl <;> rfl

end Condition

end Prerequisite
