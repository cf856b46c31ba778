/-
Hosts that are watched.

What a host is asked about completion can be followed from outside: `Host.Observed` is a host
together with a record of those questions, whose answers are a function of the section and the
user.  About its other services nothing is assumed, and they may answer the same question in
different ways.

Deciding asks through `Host.satisfied`, where a user who is not enrolled has no section; so what is
found out are the answers of `satisfiedBy`.
-/
import Prerequisite.Host
import Prerequisite.Proofs.Formula.Asking

namespace Prerequisite

/-! ### Steps one after the other -/

/-- A computation of two steps that succeeds has gone through both. -/
theorem bind_eq_ok {ε σ α β : Type} {x : EStateM ε σ α} {f : α → EStateM ε σ β} {b : β} {s s' : σ}
    (h : (x >>= f) s = .ok b s') : ∃ a t, x s = .ok a t ∧ f a t = .ok b s' := by
  have hbind : (x >>= f) s = EStateM.bind x f s := rfl
  rw [hbind, EStateM.bind.eq_def] at h
  cases hx : x s with
  | ok a t => rw [hx] at h; exact ⟨a, t, rfl, h⟩
  | error e t => rw [hx] at h; exact absurd h (by simp)

theorem map_eq_ok_iff {ε σ α β : Type} {g : α → β} {x : EStateM ε σ α} {b : β} {s s' : σ} :
    (g <$> x) s = .ok b s' ↔ ∃ a, x s = .ok a s' ∧ b = g a := by
  have hmap : (g <$> x) s = EStateM.map g x s := rfl
  rw [hmap, EStateM.map.eq_def]
  cases x s with
  | ok a t =>
      constructor
      · intro h
        injection h with hb ht
        exact ⟨a, by rw [ht], hb.symm⟩
      · rintro ⟨a', ha, rfl⟩
        injection ha with ha ht
        show EStateM.Result.ok (g a) t = _
        rw [ha, ht]
  | error e t => simp

/-- A computation of two steps fails in the first or in the second. -/
theorem bind_eq_error_iff {ε σ α β : Type} {x : EStateM ε σ α} {f : α → EStateM ε σ β} {e : ε}
    {s s' : σ} :
    (x >>= f) s = .error e s' ↔ x s = .error e s' ∨ ∃ a t, x s = .ok a t ∧ f a t = .error e s' := by
  have hbind : (x >>= f) s = EStateM.bind x f s := rfl
  rw [hbind, EStateM.bind.eq_def]
  cases x s with
  | ok a t =>
      constructor
      · intro h
        exact .inr ⟨a, t, rfl, h⟩
      · rintro (h | ⟨a', t', h, h'⟩)
        · exact absurd h (by simp)
        · injection h with ha ht
          subst ha ht
          exact h'
  | error e' t => simp

theorem map_eq_error_iff {ε σ α β : Type} {g : α → β} {x : EStateM ε σ α} {e : ε} {s s' : σ} :
    (g <$> x) s = .error e s' ↔ x s = .error e s' := by
  have hmap : (g <$> x) s = EStateM.map g x s := rfl
  rw [hmap, EStateM.map.eq_def]
  cases x s with
  | ok a t => simp
  | error e' t => simp

/-! ### Questions about completion -/

/-- **A host whose answers about completion are a function,** and a record of the questions about
it.  What things are called, and how phrases read, may be answered differently each time. -/
structure Host.Observed {σ : Type} (host : Host σ)
    (completed : SectionId → UserId → Except ServiceError Bool)
    (asked : σ → List (SectionId × UserId)) : Prop where
  completion : ∀ id user s, ∃ t, asked t = asked s ++ [(id, user)] ∧
    host.completed id user s = answering (completed id user) t
  sectionName : ∀ id s, ∃ x t, asked t = asked s ∧ host.sectionName id s = answering x t
  phrase : ∀ owner name args s, ∃ x t, asked t = asked s ∧
    host.phrase owner name args s = answering x t

/-- Whether a user satisfies a section, given what is known of completion. -/
def satisfiedBy (completed : SectionId → UserId → Except ServiceError Bool) (user : UserId)
    (id : SectionId) : Except ServiceError Bool :=
  match completed id user with
  | .error (.notEnrolled _) => .ok false
  | x => x

/-- The question about completion that a call is, if it is one. -/
def Call.lookup? : Call → Option (SectionId × UserId)
  | .completion id user => some (id, user)
  | .sectionName _ | .phrase _ _ _ | .newId _ _ _ => none

/-- The questions about completion in a journal. -/
def Journal.lookups (j : Journal) : List (SectionId × UserId) :=
  j.calls.toList.filterMap Call.lookup?

theorem Journal.lookups_call (j : Journal) (c : Call) :
    (j.call c).lookups = j.lookups ++ c.lookup?.toList := by
  unfold lookups call
  rw [Array.toList_push, List.filterMap_append]
  cases hc : c.lookup? <;> simp [hc]

theorem Answers.reply_eq {α : Type} (c : Call) (x : Except ServiceError α) (j : Journal) :
    Answers.reply c x j = answering x (j.call c) := by
  cases x <;> rfl

/-- A host that is a function is watched by its journal. -/
theorem Answers.observed (a : Answers) : a.host.Observed a.completed Journal.lookups where
  completion id user j := ⟨_, j.lookups_call _, reply_eq (.completion id user) _ j⟩
  sectionName id j := by
    refine ⟨_, _, ?_, reply_eq (.sectionName id) _ j⟩
    rw [j.lookups_call]
    exact List.append_nil _
  phrase owner name args j := by
    refine ⟨_, _, ?_, reply_eq _ (a.phrase owner name args) j⟩
    rw [j.lookups_call]
    exact List.append_nil _

theorem Host.Observed.notes {σ : Type} {host : Host σ}
    {completed : SectionId → UserId → Except ServiceError Bool}
    {asked : σ → List (SectionId × UserId)} (h : host.Observed completed asked) (user : UserId) :
    Formula.Notes host.satisfied user (satisfiedBy completed user) asked := by
  intro id s
  obtain ⟨t, hasked, hcompleted⟩ := h.completion id user s
  refine ⟨t, hasked, ?_⟩
  unfold Host.satisfied satisfiedBy
  rw [hcompleted]
  cases completed id user with
  | ok b => rfl
  | error e => cases e <;> rfl

end Prerequisite
