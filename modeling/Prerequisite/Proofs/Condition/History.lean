/-
What a condition goes through.

A condition is built in one of four ways, and then it is copied, its copies get other scopes, and
they go through restores, each with a host of its own that answers as it likes.  A history is one
such sequence of changes, and what it ends with is the list of all copies.

Whatever has happened, each copy's text is read as its tree under the limits that the first
condition was built with, and its tree is written as its text is, blanks and needless zeros aside
(`Sound`).  A change keeps that of every copy (`Change.sound`), hence so does every history.

Nothing is said about a condition by saying that it has a history, for every one has
(`exists_history`).
-/
import Prerequisite.Proofs.Condition.Outcome

namespace Prerequisite

/-- Where a condition comes from: a formula text, or what it was stored as. -/
inductive Origin where
  | formula (text : String)
  | stored (s : StoredCondition)
  /-- The structure it was stored in, read under limits of one's own. -/
  | storedWithin (limits : Limits) (s : StoredCondition)
  | json (v : Json)

namespace Origin

/-- The limits that a condition is built with. -/
def limits : Origin → Limits
  | .storedWithin limits _ => limits
  | .formula _ | .stored _ | .json _ => Limits.default

/-- The condition as it is built. -/
def build : Origin → Except ConditionError Condition
  | .formula text => Condition.ofFormula Limits.default text
  | .stored s => Condition.ofStored Limits.default s
  | .storedWithin limits s => Condition.ofStored limits s
  | .json v => Condition.ofJson v

end Origin

/-- What can happen to one of several conditions, by its place among them. -/
inductive Change : Type 1 where
  | rescope (i : Nat) (scope : Scope)
  | copy (i : Nat)
  /-- It goes through a restore, at a host in some state. -/
  | restore {σ : Type} (i : Nat) (host : Host σ) (r : RestoreId) (s : σ)

/-- The conditions after a change; a copy comes last. -/
def Change.apply (cs : List Condition) : Change → List Condition
  | .rescope i scope => cs.modify i fun c => c.withScope scope
  | .copy i => cs ++ cs[i]?.toList
  | .restore i host r s => cs.modify i fun c => (c.restoring host r s).condition

/-- **The conditions that there are at the end of a history;** none if none could be built. -/
def Origin.history (o : Origin) (changes : List Change) : List Condition :=
  match o.build with
  | .ok c => changes.foldl Change.apply [c]
  | .error _ => []

namespace Condition

/-- Text and tree of a condition belong together, under the limits it was built with. -/
structure Sound (limits : Limits) (c : Condition) : Prop where
  reads : Formula.parse c.limits c.formula = .ok c.tree
  limits : c.limits = limits
  prints : c.tree.print.toList = Scan.stripped c.formula.toList

/-- What is left to show of a condition is which limits it has. -/
theorem sound_of_limits {limits : Limits} {c : Condition} (h : c.limits = limits) :
    c.Sound limits := by
  refine ⟨c.reads, h, ?_⟩
  rw [Formula.print_of_parse c.reads, Scan.compact_eq_stripped]

theorem limits_of_ofFormula {limits : Limits} {text : String} {c : Condition}
    (h : ofFormula limits text = .ok c) : c.limits = limits :=
  (ofFormula_eq_ok_iff.mp h).2.1

theorem limits_of_ofStored {limits : Limits} {s : StoredCondition} {c : Condition}
    (h : ofStored limits s = .ok c) : c.limits = limits := by
  unfold ofStored at h
  by_cases hkind : s.kind = StoredCondition.adler
  · rw [if_pos hkind] at h
    cases hformula : s.formula with
    | some text => rw [hformula] at h; exact limits_of_ofFormula h
    | none => rw [hformula] at h; exact absurd h (by simp)
  · rw [if_neg hkind] at h
    exact absurd h (by simp)

end Condition

theorem Origin.limits_of_build {o : Origin} {c : Condition} (h : o.build = .ok c) :
    c.limits = o.limits := by
  cases o with
  | formula text => exact Condition.limits_of_ofFormula h
  | stored s => exact Condition.limits_of_ofStored h
  | storedWithin limits s => exact Condition.limits_of_ofStored h
  | json v =>
      have hjson : Condition.ofJson v = .ok c := h
      unfold Condition.ofJson at hjson
      split at hjson
      · exact Condition.limits_of_ofStored hjson
      · exact absurd hjson (by simp)

/-- What holds of all elements and is kept by a function holds after one was modified. -/
theorem forall_mem_modify {α : Type} {p : α → Prop} {f : α → α} {l : List α} (i : Nat)
    (h : ∀ x ∈ l, p x) (hf : ∀ x, p x → p (f x)) : ∀ x ∈ l.modify i f, p x := by
  induction l generalizing i with
  | nil => simp
  | cons a l ih =>
      have ha : p a := h a (by simp)
      have hl : ∀ x ∈ l, p x := fun x hx => h x (by simp [hx])
      cases i with
      | zero =>
          intro x hx
          rcases List.mem_cons.mp hx with rfl | hx
          · exact hf a ha
          · exact hl x hx
      | succ i =>
          intro x hx
          rcases List.mem_cons.mp hx with rfl | hx
          · exact ha
          · exact ih i hl x hx

/-- **A change keeps the conditions sound.** -/
theorem Change.sound {limits : Limits} {cs : List Condition} (h : ∀ c ∈ cs, c.Sound limits)
    (change : Change) : ∀ c ∈ change.apply cs, c.Sound limits := by
  cases change with
  | rescope i scope =>
      exact forall_mem_modify i h fun c hc => Condition.sound_of_limits hc.limits
  | copy i =>
      intro c hc
      rcases List.mem_append.mp hc with hc | hc
      · exact h c hc
      · exact h c (List.mem_of_getElem? (Option.mem_toList.mp hc))
  | restore i host r s =>
      refine forall_mem_modify i h fun c hc => Condition.sound_of_limits ?_
      rw [(Condition.keeps_restoring host r c s).2, hc.limits]

theorem Change.sound_foldl {limits : Limits} {cs : List Condition} (h : ∀ c ∈ cs, c.Sound limits)
    (changes : List Change) : ∀ c ∈ changes.foldl Change.apply cs, c.Sound limits := by
  induction changes generalizing cs with
  | nil => exact h
  | cons change changes ih => exact ih (change.sound h)

/--
**In every history, text and tree stay together.**

However a condition was built, and whatever its copies have gone through, each of them has a text
that is read as its tree under its limits, which are those given in the beginning, and a tree that
is written as its text is without blanks and without the zeros in front of its numbers.
-/
theorem sound_of_mem_history {o : Origin} {changes : List Change} {c : Condition}
    (h : c ∈ o.history changes) :
    Formula.parse c.limits c.formula = .ok c.tree ∧ c.limits = o.limits ∧
      c.tree.print.toList = Scan.stripped c.formula.toList := by
  unfold Origin.history at h
  cases hbuild : o.build with
  | error e => rw [hbuild] at h; exact absurd h (by simp)
  | ok first =>
      rw [hbuild] at h
      have hfirst : ∀ d ∈ [first], d.Sound o.limits := by
        intro d hd
        rw [List.mem_singleton.mp hd]
        exact Condition.sound_of_limits (Origin.limits_of_build hbuild)
      have hc := Change.sound_foldl hfirst changes c h
      exact ⟨hc.reads, hc.limits, hc.prints⟩

/-- Of two copies of `01^ 2` the second gets other ids in a restore and another scope afterwards. -/
theorem sound_of_mem_history_of_restored_copy :
    ∃ c ∈ (Origin.storedWithin ⟨9, 2⟩ (.ofFormula "01^ 2")).history
        [.copy 0, .restore 1 (Condition.movedUp ⟨0⟩).host ⟨"copy"⟩ .empty, .rescope 1 .room],
      c.formula = "2^ 10" ∧ Formula.parse c.limits c.formula = .ok c.tree ∧
        c.limits = ⟨9, 2⟩ ∧ c.tree.print.toList = Scan.stripped c.formula.toList := by
  have hold : Formula.parse ⟨9, 2⟩ "01^ 2" = .ok (.conj [.atom ⟨1⟩, .atom ⟨2⟩]) := by cbv
  have hnew : Formula.parse ⟨9, 2⟩ "2^ 10" = .ok (.conj [.atom ⟨2⟩, .atom ⟨10⟩]) := by cbv
  have htext : Remap.newText [⟨2⟩, ⟨10⟩] "01^ 2" = "2^ 10" := by cbv
  have hother : Remap.newText [⟨2⟩, ⟨10⟩] "01^ 2" ≠ "01^ 2" := by rw [htext]; decide
  have hfits : Text.byteSize (Remap.newText [⟨2⟩, ⟨10⟩] "01^ 2").toList ≤ 9 := by
    rw [htext]; decide
  have hbuild : (Origin.storedWithin ⟨9, 2⟩ (.ofFormula "01^ 2")).build =
      .ok ⟨Scope.default, "01^ 2", _, _, hold⟩ := Condition.ofFormula_of_parse hold
  have hrestore : Condition.Outcome (Condition.movedUp ⟨0⟩).host ⟨"copy"⟩
      ⟨Scope.default, "01^ 2", _, _, hold⟩ .empty _ :=
    .remapped (d := ⟨Scope.default, "2^ 10", _, _, hnew⟩) (.cons rfl (.cons rfl .nil)) htext.symm
      hother hfits ⟨hnew, rfl⟩ rfl rfl
  have hmem : (⟨.room, "2^ 10", _, _, hnew⟩ : Condition) ∈
      (Origin.storedWithin ⟨9, 2⟩ (.ofFormula "01^ 2")).history
        [.copy 0, .restore 1 (Condition.movedUp ⟨0⟩).host ⟨"copy"⟩ .empty, .rescope 1 .room] := by
    have hsecond := congrArg Condition.Aftermath.condition hrestore.restoring_eq
    simp [Origin.history, hbuild, Change.apply, hsecond, Condition.withScope]
  exact ⟨_, hmem, rfl, sound_of_mem_history hmem⟩

/-- Every condition has a history. -/
theorem exists_history (c : Condition) : ∃ (o : Origin) (changes : List Change),
    c ∈ o.history changes := by
  refine ⟨.storedWithin c.limits (.ofFormula c.formula), [.rescope 0 c.scope], ?_⟩
  have hbuild : (Origin.storedWithin c.limits (.ofFormula c.formula)).build =
      .ok ⟨Scope.default, c.formula, c.tree, c.limits, c.reads⟩ :=
    Condition.ofFormula_of_parse c.reads
  unfold Origin.history
  rw [hbuild]
  exact List.mem_singleton.mpr rfl

end Prerequisite
