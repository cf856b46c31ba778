/-
Evaluation with short cuts, as rules.

An evaluation asks about some occurrences of sections and passes over the others.  `Decides` says
which, without the procedure that asks: it goes through the operands of a chain while they leave it
open, and at the first that does not, the rest of the chain is passed over.  What somebody answers
is not bound by what they answered before, so the rules speak of each occurrence on its own.

Three things follow from the rules alone.  Every occurrence is accounted for, in the order they are
written (`Decides.sections`); nothing is asked after a failure (`Decides.concluded`); and a decision
is the value of the formula however the occurrences that were passed over are valued
(`Decides.settles`).

The procedure keeps to the rules, whoever is asked (`eval_decides`).
-/
import Mathlib.Tactic
import Prerequisite.Proofs.Formula.Asking

namespace Prerequisite

theorem exists_answering {ε σ α : Type} (r : EStateM.Result ε σ α) : ∃ x t, r = answering x t := by
  cases r with
  | ok a t => exact ⟨.ok a, t, rfl⟩
  | error e t => exact ⟨.error e, t, rfl⟩

theorem answering_inj {ε σ α : Type} {x y : Except ε α} {s t : σ}
    (h : answering x s = answering y t) : x = y ∧ s = t := by
  cases x with
  | ok a =>
      obtain ⟨hy, ht⟩ := answering_eq_ok.mp h.symm
      exact ⟨hy.symm, ht.symm⟩
  | error e =>
      cases y with
      | ok b => exact absurd h (by simp [answering])
      | error e' =>
          injection h with he hs
          exact ⟨congrArg Except.error he, hs⟩

theorem forall₂_append_left {α β : Type} {R : α → β → Prop} {xs xs' : List α} {ys : List β}
    (h : List.Forall₂ R (xs ++ xs') ys) :
    ∃ as as', List.Forall₂ R xs as ∧ List.Forall₂ R xs' as' ∧ ys = as ++ as' := by
  refine ⟨ys.take xs.length, ys.drop xs.length, ?_, ?_, (List.take_append_drop _ ys).symm⟩
  · exact (List.forall₂_take_append ys xs xs' h.flip).flip
  · exact (List.forall₂_drop_append ys xs xs' h.flip).flip

/-! ### Questions -/

/-- Somebody is asked about sections, one after the other, and gives these answers. -/
inductive Asks {ε σ : Type} (ask : SectionId → UserId → EStateM ε σ Bool) (user : UserId) :
    σ → List (SectionId × Except ε Bool) → σ → Prop
  | nil {s : σ} : Asks ask user s [] s
  | cons {id : SectionId} {x : Except ε Bool} {s t u : σ} {qs : List (SectionId × Except ε Bool)}
      (h : ask id user s = answering x t) (hs : Asks ask user t qs u) :
      Asks ask user s ((id, x) :: qs) u

theorem Asks.append {ε σ : Type} {ask : SectionId → UserId → EStateM ε σ Bool} {user : UserId}
    {s t u : σ} {qs rs : List (SectionId × Except ε Bool)} (h : Asks ask user s qs t)
    (h' : Asks ask user t rs u) : Asks ask user s (qs ++ rs) u := by
  induction h with
  | nil => exact h'
  | cons h _ ih => exact .cons h (ih h')

/-- Where a section is written, and what was answered if it was asked about there. -/
abbrev Occurrence (ε : Type) := SectionId × Option (Except ε Bool)

namespace Occurrence

variable {ε : Type}

/-- The questions among occurrences, with their answers. -/
def questions (os : List (Occurrence ε)) : List (SectionId × Except ε Bool) :=
  os.filterMap fun o => o.2.map fun x => (o.1, x)

/-- Sections that are not asked about. -/
def passedOver (ids : List SectionId) : List (Occurrence ε) := ids.map fun id => (id, none)

/-- A truth value is possible where there was no other answer. -/
def Allows (o : Occurrence ε) (b : Bool) : Prop := ∀ x ∈ o.2, x = .ok b

theorem questions_append (os os' : List (Occurrence ε)) :
    questions (os ++ os') = questions os ++ questions os' := List.filterMap_append

theorem questions_sublist (os : List (Occurrence ε)) :
    ((questions os).map Prod.fst).Sublist (os.map Prod.fst) := by
  induction os with
  | nil => exact List.Sublist.refl []
  | cons o os ih =>
      obtain ⟨id, answer⟩ := o
      cases answer with
      | none => exact ih.cons id
      | some x => exact ih.cons_cons id

theorem questions_passedOver (ids : List SectionId) :
    questions (passedOver ids : List (Occurrence ε)) = [] := by
  induction ids with
  | nil => rfl
  | cons id ids ih => exact ih

end Occurrence

/-- **Questions lead to a conclusion** when they were all answered, or all but the last. -/
inductive Concludes {ε : Type} : List (SectionId × Except ε Bool) → Except ε Bool → Prop
  | value {qs : List (SectionId × Except ε Bool)} {b : Bool}
      (answered : ∀ q ∈ qs, ∃ a, q.2 = .ok a) : Concludes qs (.ok b)
  | failure {qs : List (SectionId × Except ε Bool)} {id : SectionId} {e : ε}
      (answered : ∀ q ∈ qs, ∃ a, q.2 = .ok a) : Concludes (qs ++ [(id, .error e)]) (.error e)

namespace Concludes

variable {ε : Type} {qs rs : List (SectionId × Except ε Bool)} {x : Except ε Bool}

theorem answered_of_ok {b : Bool} (h : Concludes qs (.ok b)) : ∀ q ∈ qs, ∃ a, q.2 = .ok a := by
  cases h with
  | value answered => exact answered

theorem exists_last {e : ε} (h : Concludes qs (.error e)) :
    ∃ before id, qs = before ++ [(id, .error e)] ∧ ∀ q ∈ before, ∃ a, q.2 = .ok a := by
  cases h with
  | failure answered => exact ⟨_, _, rfl, answered⟩

theorem append (answered : ∀ q ∈ qs, ∃ a, q.2 = .ok a) (h : Concludes rs x) :
    Concludes (qs ++ rs) x := by
  cases h with
  | value answered' => exact .value (List.forall_mem_append.mpr ⟨answered, answered'⟩)
  | failure answered' =>
      rw [← List.append_assoc]
      exact .failure (List.forall_mem_append.mpr ⟨answered, answered'⟩)

theorem map (g : Bool → Bool) (h : Concludes qs x) : Concludes qs (x.map g) := by
  cases h with
  | value answered => exact .value answered
  | failure answered => exact .failure answered

end Concludes

namespace Formula

open Occurrence

/-! ### Values by occurrence -/

theorem valueAlong_node_nil (op : Operator) (bs : List Bool) :
    (op.node []).valueAlong bs = (!op.decisive, bs) := by
  cases op <;> rfl

theorem valueAlong_node_cons (op : Operator) (f : Formula) (fs : List Formula) (bs : List Bool) :
    (op.node (f :: fs)).valueAlong bs =
      (if (f.valueAlong bs).1 = op.decisive then op.decisive
        else ((op.node fs).valueAlong (f.valueAlong bs).2).1,
        ((op.node fs).valueAlong (f.valueAlong bs).2).2) := by
  cases op with
  | and =>
      show ((f.valueAlong bs).1 && (valueAlongAll fs (f.valueAlong bs).2).1, _) = _
      cases (f.valueAlong bs).1 <;> rfl
  | or =>
      show ((f.valueAlong bs).1 || (valueAlongAny fs (f.valueAlong bs).2).1, _) = _
      cases (f.valueAlong bs).1 <;> rfl

/-- A formula takes one truth value for each occurrence of a section. -/
theorem valueAlong_snd (f : Formula) : ∀ bs, (f.valueAlong bs).2 = bs.drop f.atoms.length := by
  induction f using induct with
  | atom id => intro bs; exact List.drop_one.symm
  | neg f ih | group f ih => exact ih
  | node op fs ih =>
      rw [atoms_node]
      induction fs with
      | nil => intro bs; rw [valueAlong_node_nil]; rfl
      | cons f fs ihs =>
          intro bs
          have hrest := ihs fun g hg => ih g (List.mem_cons_of_mem f hg)
          rw [valueAlong_node_cons, hrest, ih f (by simp), List.drop_drop, List.flatMap_cons,
            List.length_append]

/-! ### The rules -/

/-- **What an evaluation asks about and what it comes to.** -/
inductive Decides {ε : Type} : Formula → List (Occurrence ε) → Except ε Bool → Prop
  | atom {id : SectionId} {x : Except ε Bool} : Decides (.atom id) [(id, some x)] x
  /-- A chain that is open to its end. -/
  | exhausted {op : Operator} : Decides (op.node []) [] (.ok (!op.decisive))
  /-- An operand that leaves the chain open. -/
  | further {op : Operator} {f : Formula} {fs : List Formula} {os os' : List (Occurrence ε)}
      {x : Except ε Bool} (h : Decides f os (.ok (!op.decisive)))
      (hs : Decides (op.node fs) os' x) : Decides (op.node (f :: fs)) (os ++ os') x
  /-- An operand that decides the chain, or fails. -/
  | cut {op : Operator} {f : Formula} {fs : List Formula} {os : List (Occurrence ε)}
      {x : Except ε Bool} (h : Decides f os x) (hx : x ≠ .ok (!op.decisive)) :
      Decides (op.node (f :: fs)) (os ++ passedOver (fs.flatMap atoms)) x
  | neg {f : Formula} {os : List (Occurrence ε)} {x : Except ε Bool} (h : Decides f os x) :
      Decides (.neg f) os (x.map (!·))
  | group {f : Formula} {os : List (Occurrence ε)} {x : Except ε Bool} (h : Decides f os x) :
      Decides (.group f) os x

section

variable {ε : Type} {f : Formula} {os : List (Occurrence ε)} {x : Except ε Bool}

theorem Decides.sections (h : f.Decides os x) : os.map Prod.fst = f.atoms := by
  induction h with
  | atom => rfl
  | exhausted => rw [atoms_node]; rfl
  | further _ _ ih ihs =>
      rw [atoms_node] at ihs
      rw [List.map_append, ih, ihs, atoms_node, List.flatMap_cons]
  | cut _ _ ih =>
      rw [List.map_append, ih, atoms_node, List.flatMap_cons, passedOver, List.map_map]
      exact congrArg _ (List.map_id _)
  | neg _ ih | group _ ih => exact ih

theorem Decides.concluded (h : f.Decides os x) : Concludes (questions os) x := by
  induction h with
  | @atom id x =>
      cases x with
      | ok b => exact .value (by simp [questions])
      | error e =>
          have hlast : Concludes ([] ++ [(id, .error e)]) (.error e) := .failure (by simp)
          exact hlast
  | exhausted => exact .value (by simp [questions])
  | further _ _ ih ihs =>
      rw [questions_append]
      exact ihs.append ih.answered_of_ok
  | cut _ _ ih =>
      rw [questions_append, questions_passedOver, List.append_nil]
      exact ih
  | neg _ ih => exact ih.map _
  | group _ ih => exact ih

/-- **A decision does not depend on what was passed over.** -/
theorem Decides.settles (h : f.Decides os x) : ∀ b, x = .ok b → ∀ bs, List.Forall₂ Allows os bs →
    ∀ rest, (f.valueAlong (bs ++ rest)).1 = b := by
  induction h with
  | @atom id x =>
      rintro b rfl bs hbs rest
      obtain ⟨a, as, ha, -, rfl⟩ := List.forall₂_cons_left_iff.mp hbs
      exact (Except.ok.inj (ha _ rfl)).symm
  | @exhausted op =>
      rintro b hb bs - rest
      rw [valueAlong_node_nil]
      exact Except.ok.inj hb
  | @further op f fs os os' x h _ ih ihs =>
      rintro b rfl bs hbs rest
      obtain ⟨as, as', has, has', rfl⟩ := forall₂_append_left hbs
      have hlen : as.length = f.atoms.length := by
        rw [← h.sections, List.length_map, has.length_eq]
      have hopen : (!op.decisive) ≠ op.decisive := by cases op <;> decide
      rw [List.append_assoc, valueAlong_node_cons, ih _ rfl as has, if_neg hopen, valueAlong_snd,
        ← hlen, List.drop_left]
      exact ihs b rfl as' has' rest
  | @cut op f fs os x h hx ih =>
      rintro b rfl bs hbs rest
      obtain ⟨as, as', has, -, rfl⟩ := forall₂_append_left hbs
      have hb : b = op.decisive := by
        by_contra hne
        exact hx (congrArg Except.ok (Bool.eq_not_of_ne hne))
      rw [List.append_assoc, valueAlong_node_cons, ih b rfl as has, if_pos hb, hb]
  | @neg f os x h ih =>
      intro b hb bs hbs rest
      cases x with
      | error e => exact absurd hb (by simp [Except.map])
      | ok a =>
          obtain rfl : (!a) = b := Except.ok.inj hb
          rw [valueAlong, ih a rfl bs hbs]
  | group _ ih => exact ih

/-- In particular it is the value of the formula when sections hold as was answered. -/
theorem Decides.value_eq {b : Bool} (h : f.Decides os (.ok b)) {holds : SectionId → Bool}
    (hholds : ∀ q ∈ questions os, q.2 = .ok (holds q.1)) : f.value holds = b := by
  have hallows : List.Forall₂ Allows os (f.atoms.map holds) := by
    rw [← h.sections, List.map_map, List.forall₂_map_right_iff, List.forall₂_same]
    intro o ho x hx
    exact hholds (o.1, x) (List.mem_filterMap.mpr ⟨o, ho, by rw [Option.mem_def.mp hx]; rfl⟩)
  have hvalue := h.settles b rfl _ hallows []
  rwa [valueAlong_map] at hvalue

end

/-! ### The procedure -/

section

variable {ε σ : Type} {resolve : SectionId → UserId → EStateM ε σ Bool} {user : UserId}

theorem evalChain_decides (op : Operator) {fs : List Formula}
    (h : ∀ f ∈ fs, ∀ s, ∃ os x t, f.Decides os x ∧ Asks resolve user s (questions os) t ∧
      f.eval resolve user s = answering x t) :
    ∀ s, ∃ os x t, (op.node fs).Decides os x ∧ Asks resolve user s (questions os) t ∧
      evalChain resolve user op fs s = answering x t := by
  induction fs with
  | nil => intro s; exact ⟨[], _, s, .exhausted, .nil, rfl⟩
  | cons f fs ih =>
      intro s
      obtain ⟨os, x, t, hdec, hasks, heval⟩ := h f (by simp) s
      rw [evalChain, heval]
      by_cases hx : x = .ok (!op.decisive)
      · obtain ⟨os', x', u, hdec', hasks', heval'⟩ :=
          ih (fun g hg => h g (List.mem_cons_of_mem f hg)) t
        have hopen : (!op.decisive) ≠ op.decisive := by cases op <;> decide
        subst hx
        refine ⟨os ++ os', x', u, .further hdec hdec', ?_, ?_⟩
        · rw [questions_append]
          exact hasks.append hasks'
        · simp only [answering, if_neg hopen]
          exact heval'
      · refine ⟨os ++ passedOver (fs.flatMap atoms), x, t, .cut hdec hx, ?_, ?_⟩
        · rw [questions_append, questions_passedOver, List.append_nil]
          exact hasks
        · cases x with
          | error e => rfl
          | ok b =>
              have hb : b = op.decisive := by
                by_contra hne
                exact hx (congrArg Except.ok (Bool.eq_not_of_ne hne))
              simp only [answering, if_pos hb]

/-- **An evaluation keeps to the rules,** whoever is asked and whatever the asking changes. -/
theorem eval_decides (resolve : SectionId → UserId → EStateM ε σ Bool) (user : UserId)
    (f : Formula) : ∀ s, ∃ os x t, f.Decides os x ∧ Asks resolve user s (questions os) t ∧
      f.eval resolve user s = answering x t := by
  induction f using induct with
  | atom id =>
      intro s
      obtain ⟨x, t, h⟩ := exists_answering (resolve id user s)
      exact ⟨_, x, t, .atom, .cons h .nil, h⟩
  | node op fs ih =>
      intro s
      rw [eval_node]
      exact evalChain_decides op ih s
  | neg f ih =>
      intro s
      obtain ⟨os, x, t, hdec, hasks, heval⟩ := ih s
      refine ⟨os, _, t, .neg hdec, hasks, ?_⟩
      rw [eval, heval]
      cases x <;> rfl
  | group f ih =>
      intro s
      obtain ⟨os, x, t, hdec, hasks, heval⟩ := ih s
      exact ⟨os, x, t, .group hdec, hasks, heval⟩

/-! ### Where the answers are a function -/

variable {r : SectionId → Except ε Bool} {asked : σ → List (SectionId × UserId)}

theorem asks_of_notes (hnotes : Notes resolve user r asked) {s t : σ}
    {qs : List (SectionId × Except ε Bool)} (h : Asks resolve user s qs t) :
    (∀ q ∈ qs, q.2 = r q.1) ∧ asked t = asked s ++ (qs.map Prod.fst).map fun id => (id, user) := by
  induction h with
  | nil => exact ⟨by simp, by simp⟩
  | @cons id x s t u qs h _ ih =>
      obtain ⟨hanswers, hasked⟩ := ih
      obtain ⟨t', hnoted, hr⟩ := hnotes id s
      have hsame : answering x t = answering (r id) t' := h.symm.trans hr
      obtain ⟨rfl, rfl⟩ := answering_inj hsame
      refine ⟨?_, ?_⟩
      · exact List.forall_mem_cons.mpr ⟨rfl, hanswers⟩
      · rw [hasked, hnoted, List.append_assoc]
        rfl

/-- **Where every section is answered, the answers make the value.** -/
theorem eval_of_holds (hnotes : Notes resolve user r asked) {f : Formula}
    {holds : SectionId → Bool} (h : ∀ id ∈ f.atoms, r id = .ok (holds id)) (s : σ) :
    ∃ (ids : List SectionId) (t : σ), ids.Sublist f.atoms ∧
      asked t = asked s ++ (ids.map fun id => (id, user)) ∧
      f.eval resolve user s = .ok (f.value holds) t := by
  obtain ⟨os, x, t, hdec, hasks, heval⟩ := eval_decides resolve user f s
  obtain ⟨hanswers, hasked⟩ := asks_of_notes hnotes hasks
  have hsub : ((questions os).map Prod.fst).Sublist f.atoms := hdec.sections ▸ questions_sublist os
  have hholds : ∀ q ∈ questions os, q.2 = .ok (holds q.1) := by
    intro q hq
    rw [hanswers q hq, h q.1 (hsub.subset (List.mem_map_of_mem hq))]
  refine ⟨_, t, hsub, hasked, ?_⟩
  cases x with
  | ok b =>
      rw [heval, hdec.value_eq hholds]
      rfl
  | error e =>
      -- The question that failed was one of the formula's, and those are all answered.
      obtain ⟨before, id, hlast, -⟩ := hdec.concluded.exists_last
      exact absurd (hholds (id, .error e) (by simp [hlast])) (by simp)

end

end Formula

end Prerequisite
