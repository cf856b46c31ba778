/-
What a rendering asks.

Each token has its questions: a section is asked about twice, first whether it is completed and then
what it is called, and an operator once.  A rendering goes through the questions of the tokens from
left to right until one of them fails, whatever the host answers and however an answer changes it
(`segmentsOnto_follows`).

`Asked` is such a walk.  What becomes of it is said of the result of a computation by `Follows`, and
of two computations one after the other it follows from what is said of each (`Follows.bind`).
-/
import Prerequisite.Proofs.Rendering.Failure

namespace Prerequisite

/-! ### Questions one after the other -/

/-- What an answer fails with, if it does. -/
def failureOf? {α : Type} : Except ServiceError α → Option ServiceError
  | .ok _ => none
  | .error e => some e

/-- **A question to a host and what it fails with,** if it does.  That a user is not enrolled is no
failure where completion is asked about. -/
inductive Host.Answered {σ : Type} (host : Host σ) : σ → Call → Option ServiceError → σ → Prop
  | completion {s t : σ} {id : SectionId} {user : UserId} {x : Except ServiceError Bool}
      (h : host.completed id user s = answering x t) :
      Answered host s (.completion id user) (failureOf? (Condition.counted x)) t
  | sectionName {s t : σ} {id : SectionId} {x : Except ServiceError String}
      (h : host.sectionName id s = answering x t) :
      Answered host s (.sectionName id) (failureOf? x) t
  | phrase {s t : σ} {owner name : String} {args : Arguments} {x : Except ServiceError String}
      (h : host.phrase owner name args s = answering x t) :
      Answered host s (.phrase owner name (args.map (·.1))) (failureOf? x) t
  | newId {s t : σ} {restore : RestoreId} {kind : BackupKind} {old : SectionId}
      {x : Except ServiceError (Option SectionId)}
      (h : host.newId restore kind old s = answering x t) :
      Answered host s (.newId restore kind old) (failureOf? x) t

/-- **Questions are gone through in order until one fails.**  With the failure comes the question
it was an answer to; those behind it are not asked. -/
inductive Host.Asked {σ : Type} (host : Host σ) :
    σ → List Call → Option (Call × ServiceError) → σ → Prop
  | nil {s : σ} : Asked host s [] none s
  | further {s t u : σ} {q : Call} {qs : List Call} {failure : Option (Call × ServiceError)}
      (h : host.Answered s q none t) (hs : Asked host t qs failure u) :
      Asked host s (q :: qs) failure u
  | failed {s t : σ} {q : Call} {qs : List Call} {e : ServiceError}
      (h : host.Answered s q (some e) t) : Asked host s (q :: qs) (some (q, e)) t

/-- A result has come about by going through some questions. -/
def Host.Follows {σ α : Type} (host : Host σ) (s : σ) (qs : List Call) :
    EStateM.Result ServiceError σ α → Prop
  | .ok _ t => host.Asked s qs none t
  | .error e t => ∃ q, host.Asked s qs (some (q, e)) t

section

variable {σ : Type} {host : Host σ} {s t u : σ} {qs rs : List Call}

namespace Host

theorem Asked.append {failure : Option (Call × ServiceError)} (h : host.Asked s qs none t)
    (hs : host.Asked t rs failure u) : host.Asked s (qs ++ rs) failure u := by
  generalize hnone : (none : Option (Call × ServiceError)) = all at h
  induction h with
  | nil => exact hs
  | further h _ ih => exact .further h (ih hs hnone)
  | failed => exact absurd hnone (by simp)

theorem Asked.append_of_failed {p : Call × ServiceError} (h : host.Asked s qs (some p) t)
    (rs : List Call) : host.Asked s (qs ++ rs) (some p) t := by
  generalize hsome : some p = failure at h
  induction h with
  | nil => exact absurd hsome (by simp)
  | further h _ ih => exact .further h (ih hsome)
  | failed h => exact .failed h

/-- The failure is one of a question that was to be asked. -/
theorem Asked.failure_mem {q : Call} {e : ServiceError} (h : host.Asked s qs (some (q, e)) t) :
    q ∈ qs ∧ ∃ u, host.Answered u q (some e) t := by
  generalize hsome : some (q, e) = failure at h
  induction h with
  | nil => exact absurd hsome (by simp)
  | further _ _ ih =>
      obtain ⟨hq, hanswered⟩ := ih hsome
      exact ⟨List.mem_cons_of_mem _ hq, hanswered⟩
  | failed h =>
      obtain ⟨rfl, rfl⟩ := Prod.mk.inj (Option.some.inj hsome)
      exact ⟨List.mem_cons_self, _, h⟩

theorem Follows.pure {α : Type} (a : α) (s : σ) :
    host.Follows s [] ((Pure.pure a : EStateM ServiceError σ α) s) := Asked.nil

/-- After questions that did not fail a computation goes on with its own. -/
theorem Follows.after {α : Type} {r : EStateM.Result ServiceError σ α} (h : host.Asked s qs none t)
    (hr : host.Follows t rs r) : host.Follows s (qs ++ rs) r := by
  cases r with
  | ok a u => exact Asked.append h hr
  | error e u =>
      obtain ⟨q, hq⟩ := hr
      exact ⟨q, Asked.append h hq⟩

/-- **Two computations ask their questions one after the other.** -/
theorem Follows.bind {α β : Type} {x : EStateM ServiceError σ α} {f : α → EStateM ServiceError σ β}
    (h : host.Follows s qs (x s)) (hf : ∀ a t, x s = .ok a t → host.Follows t rs (f a t)) :
    host.Follows s (qs ++ rs) ((x >>= f) s) := by
  have hbind : (x >>= f) s = EStateM.bind x f s := rfl
  rw [hbind, EStateM.bind.eq_def]
  cases hx : x s with
  | error e t =>
      rw [hx] at h
      obtain ⟨q, hq⟩ := h
      exact ⟨q, hq.append_of_failed rs⟩
  | ok a t =>
      rw [hx] at h
      exact .after h (hf a t hx)

theorem Follows.map {α β : Type} {x : EStateM ServiceError σ α} (g : α → β)
    (h : host.Follows s qs (x s)) : host.Follows s qs ((g <$> x) s) := by
  have hmap : (g <$> x) s = EStateM.map g x s := rfl
  rw [hmap, EStateM.map.eq_def]
  cases hx : x s with
  | ok a t =>
      rw [hx] at h
      exact h
  | error e t =>
      rw [hx] at h
      exact h

/-- One question. -/
theorem follows_of_answered {α : Type} {q : Call} {x : Except ServiceError α}
    (h : host.Answered s q (failureOf? x) t) : host.Follows s [q] (answering x t) := by
  cases x with
  | ok a => exact .further h .nil
  | error e => exact ⟨q, .failed h⟩

theorem satisfied_follows (id : SectionId) (user : UserId) (s : σ) :
    host.Follows s [.completion id user] (host.satisfied id user s) := by
  obtain ⟨x, t, hx⟩ := exists_answering (host.completed id user s)
  rw [Condition.satisfied_eq_counted hx]
  exact follows_of_answered (.completion hx)

theorem sectionName_follows (id : SectionId) (s : σ) :
    host.Follows s [.sectionName id] (host.sectionName id s) := by
  obtain ⟨x, t, hx⟩ := exists_answering (host.sectionName id s)
  rw [hx]
  exact follows_of_answered (.sectionName hx)

theorem phrase_follows (owner name : String) (args : Arguments) (s : σ) :
    host.Follows s [.phrase owner name (args.map (·.1))] (host.phrase owner name args s) := by
  obtain ⟨x, t, hx⟩ := exists_answering (host.phrase owner name args s)
  rw [hx]
  exact follows_of_answered (.phrase hx)

end Host

/-! ### The questions of a text -/

/-- **What is asked about a token.** -/
def Token.questions (user : UserId) : Token → List Call
  | .atom id => [.completion id user, .sectionName id]
  | .and => [.phrase component Phrase.and.name []]
  | .or => [.phrase component Phrase.or.name []]
  | .not => [.phrase component Phrase.not.name []]
  | .opening | .closing => []

namespace Rendering

theorem segment_follows (host : Host σ) (user : UserId) (m : Token) (s : σ) :
    host.Follows s (m.questions user) (segment host user m s) := by
  cases m with
  | atom id =>
      show host.Follows s ([.completion id user] ++ [.sectionName id]) _
      refine (Host.satisfied_follows id user s).bind ?_
      intro satisfied t _
      show host.Follows t ([.sectionName id] ++ []) _
      exact (Host.sectionName_follows id t).bind fun name u _ => Host.Follows.pure _ u
  | and | or | not => exact (Host.phrase_follows _ _ [] s).map _
  | opening | closing => exact Host.Follows.pure _ s

/-- **The segments of tokens are found by asking what there is to ask,** token by token. -/
theorem segmentsOnto_follows (host : Host σ) (user : UserId) (done : Array Segment)
    (ls : List Lexeme) (s : σ) :
    host.Follows s ((ls.map Lexeme.token).flatMap (Token.questions user))
      (segmentsOnto host user done ls s) := by
  induction ls generalizing done s with
  | nil => exact Host.Asked.nil
  | cons l ls ih =>
      rw [segmentsOnto, List.map_cons, List.flatMap_cons]
      have hfirst := segment_follows host user l.token s
      cases hl : segment host user l.token s with
      | error e t =>
          rw [hl] at hfirst
          obtain ⟨q, hq⟩ := hfirst
          exact ⟨q, hq.append_of_failed _⟩
      | ok x t =>
          rw [hl] at hfirst
          exact .after hfirst (ih (done.push x) t)

end Rendering

end

end Prerequisite
