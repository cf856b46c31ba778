/-
Who is told that a user is not enrolled.

Whoever asks about a user may be answered that the user is not enrolled.  As an answer about
completion it counts as a no (`Host.satisfied_ne_notEnrolled`), and neither a decision nor a
rendering fails with it.

But the host can give the same answer when it is asked what a section is called or how a phrase
reads, and there it is a failure as any other: it ends the rendering and is what the caller is told.
A rendering stops at the first token whose segment is not found, and nothing is asked about the
tokens behind it (`segmentsOnto_eq_error_iff`).
-/
import Prerequisite.Host.Records
import Prerequisite.Proofs.Condition.Decision
import Prerequisite.Proofs.Rendering.Run

namespace Prerequisite

/-- The phrase that a token is shown as, if it is one. -/
def Token.phrase? : Token → Option Phrase
  | .and => some .and
  | .or => some .or
  | .not => some .not
  | .atom _ | .opening | .closing => none

section

variable {σ : Type} {host : Host σ} {user : UserId}

theorem Host.satisfied_ne_notEnrolled (id : SectionId) (u : UserId) (s t : σ) :
    host.satisfied id user s ≠ .error (.notEnrolled u) t := by
  intro h
  obtain ⟨x, v, hx⟩ := exists_answering (host.completed id user s)
  have hsame : answering (Condition.counted x) v = answering (.error (.notEnrolled u)) t :=
    (Condition.satisfied_eq_counted hx).symm.trans h
  obtain ⟨hcounted, -⟩ := answering_inj hsame
  exact (Condition.counted_eq_error hcounted).2 u rfl

namespace Rendering

/-- **How the segment of a token is not found,** and in which state the host is then. -/
inductive Fails (host : Host σ) (user : UserId) : σ → Token → ServiceError → σ → Prop
  /-- The host fails to say whether the user satisfies a section. -/
  | completion {s t : σ} {id : SectionId} {e : ServiceError}
      (h : host.satisfied id user s = .error e t) : Fails host user s (.atom id) e t
  /-- The host fails to say what the section is called. -/
  | name {s t u : σ} {id : SectionId} {satisfied : Bool} {e : ServiceError}
      (hsatisfied : host.satisfied id user s = .ok satisfied t)
      (h : host.sectionName id t = .error e u) : Fails host user s (.atom id) e u
  /-- The host fails to say how an operator reads. -/
  | phrase {s t : σ} {m : Token} {p : Phrase} {e : ServiceError} (hm : m.phrase? = some p)
      (h : host.phrase component p.name [] s = .error e t) : Fails host user s m e t

theorem segment_eq_error_iff {m : Token} {e : ServiceError} {s t : σ} :
    segment host user m s = .error e t ↔ Fails host user s m e t := by
  constructor
  · intro h
    cases m with
    | atom id =>
        rcases bind_eq_error_iff.mp h with h | ⟨satisfied, u, hsatisfied, h⟩
        · exact .completion h
        · rcases bind_eq_error_iff.mp h with h | ⟨name, v, -, h⟩
          · exact .name hsatisfied h
          · exact absurd h (by simp [pure, EStateM.pure])
    | and | or | not => exact .phrase rfl (map_eq_error_iff.mp h)
    | opening | closing => exact absurd h (by simp [segment, pure, EStateM.pure])
  · intro h
    cases h with
    | completion h => exact bind_eq_error_iff.mpr (.inl h)
    | name hsatisfied h =>
        exact bind_eq_error_iff.mpr (.inr ⟨_, _, hsatisfied, bind_eq_error_iff.mpr (.inl h)⟩)
    | phrase hm h =>
        cases m with
        | and | or | not =>
            cases hm
            exact map_eq_error_iff.mpr h
        | atom | opening | closing => exact absurd hm (by simp [Token.phrase?])

theorem Finds.uncons {m : Token} {ts : List Token} {xs : List Segment} {s u : σ}
    (h : Finds host user s (m :: ts) xs u) :
    ∃ x rest t, xs = x :: rest ∧ segment host user m s = .ok x t ∧
      Finds host user t ts rest u := by
  cases h with
  | @atom _ _ t _ id satisfied name _ rest hsatisfied hname hrest =>
      refine ⟨_, rest, t, rfl, ?_, hrest⟩
      have hsegment : segment host user (.atom id) s =
          EStateM.bind (host.satisfied id user) (fun satisfied =>
            EStateM.bind (host.sectionName id) fun name =>
              EStateM.pure (.atom satisfied name)) s := rfl
      rw [hsegment, EStateM.bind.eq_def, hsatisfied]
      simp only [EStateM.bind.eq_def, hname]
      rfl
  | @mark _ t _ _ x _ rest _ hx hrest => exact ⟨x, rest, t, rfl, hx, hrest⟩

/-- Segments are found from left to right. -/
theorem segmentsOnto_append {rest : List Lexeme} {u : σ} {before : List Lexeme} :
    ∀ {done : Array Segment} {xs : List Segment} {s : σ},
      Finds host user s (before.map Lexeme.token) xs u →
      segmentsOnto host user done (before ++ rest) s =
        segmentsOnto host user (xs.foldl Array.push done) rest u := by
  induction before with
  | nil =>
      intro done xs s h
      cases h
      rfl
  | cons l before ih =>
      intro done xs s h
      obtain ⟨x, xs, t, rfl, hx, hrest⟩ := h.uncons
      rw [List.cons_append, segmentsOnto, hx]
      exact ih hrest

/-- **The search for segments ends at the first one that is not found,** whatever comes behind. -/
theorem segmentsOnto_eq_error_iff {ls : List Lexeme} {done : Array Segment} {e : ServiceError}
    {s t : σ} :
    segmentsOnto host user done ls s = .error e t ↔
      ∃ before m after xs u, ls.map Lexeme.token = before ++ m :: after ∧
        Finds host user s before xs u ∧ Fails host user u m e t := by
  constructor
  · intro h
    induction ls generalizing done s with
    | nil => exact absurd h (by simp [segmentsOnto])
    | cons l ls ih =>
        rw [segmentsOnto] at h
        cases hl : segment host user l.token s with
        | error e' t' =>
            rw [hl] at h
            injection h with he ht
            subst he ht
            exact ⟨[], l.token, ls.map Lexeme.token, [], s, rfl, .nil, segment_eq_error_iff.mp hl⟩
        | ok x u =>
            rw [hl] at h
            obtain ⟨before, m, after, xs, v, hls, hfinds, hfails⟩ := ih h
            exact ⟨l.token :: before, m, after, x :: xs, v, congrArg (l.token :: ·) hls,
              .cons hl hfinds, hfails⟩
  · rintro ⟨before, m, after, xs, u, hls, hfinds, hfails⟩
    obtain ⟨ls₁, ls₂, rfl, rfl, hrest⟩ := List.map_eq_append_iff.mp hls
    obtain ⟨l, ls₂, rfl, rfl, rfl⟩ := List.map_eq_cons_iff.mp hrest
    rw [segmentsOnto_append hfinds, segmentsOnto, segment_eq_error_iff.mpr hfails]

/-- A rendering fails with what a service fails with, or because the text is no list of tokens. -/
theorem render_eq_service_error_iff {limits : Limits} {text : String} {e : ServiceError} {s t : σ} :
    render host user limits text s = .error (.service e) t ↔
      ∃ ls before m after xs u, lexemes limits text = .ok ls ∧
        ls.map Lexeme.token = before ++ m :: after ∧ Finds host user s before xs u ∧
        Fails host user u m e t := by
  unfold render
  rw [map_eq_error_iff]
  unfold segments
  constructor
  · intro h
    cases hls : lexemes limits text with
    | error d => simp [hls] at h
    | ok ls =>
        simp only [hls] at h
        cases hrun : segmentsOnto host user #[] ls s with
        | ok done u => simp [hrun] at h
        | error e' u =>
            simp only [hrun] at h
            injection h with he hu
            injection he with he
            subst he hu
            obtain ⟨before, m, after, xs, v, htokens, hfinds, hfails⟩ :=
              segmentsOnto_eq_error_iff.mp hrun
            exact ⟨ls, before, m, after, xs, v, rfl, htokens, hfinds, hfails⟩
  · rintro ⟨ls, before, m, after, xs, u, hls, htokens, hfinds, hfails⟩
    simp only [hls,
      segmentsOnto_eq_error_iff.mpr ⟨before, m, after, xs, u, htokens, hfinds, hfails⟩]

/-- That a user is not enrolled ends a rendering where a name or a phrase is asked for. -/
theorem fails_notEnrolled_iff {m : Token} {u : UserId} {s t : σ} :
    Fails host user s m (.notEnrolled u) t ↔
      (∃ id satisfied v, m = .atom id ∧ host.satisfied id user s = .ok satisfied v ∧
        host.sectionName id v = .error (.notEnrolled u) t) ∨
      ∃ p, m.phrase? = some p ∧ host.phrase component p.name [] s = .error (.notEnrolled u) t := by
  constructor
  · intro h
    cases h with
    | completion h => exact absurd h (Host.satisfied_ne_notEnrolled _ u s t)
    | name hsatisfied h => exact .inl ⟨_, _, _, rfl, hsatisfied, h⟩
    | phrase hm h => exact .inr ⟨_, hm, h⟩
  · rintro (⟨id, satisfied, v, rfl, hsatisfied, h⟩ | ⟨p, hm, h⟩)
    · exact .name hsatisfied h
    · exact .phrase hm h

end Rendering

namespace Condition

theorem available_ne_notEnrolled (c : Condition) (negate inBulk : Bool) (u : UserId) (s t : σ) :
    c.available host user negate inBulk s ≠ .error (.service (.notEnrolled u)) t := by
  obtain ⟨qs, x, v, hdecision, heval⟩ := exists_decision host user c s
  unfold available satisfied
  cases host.dependency with
  | missing => simp
  | installed =>
      cases x with
      | ok b => simp [heval, answering]
      | error e =>
          obtain ⟨hne, -⟩ := hdecision.failure e rfl
          simpa [heval, answering] using fun h => absurd h (hne u)

theorem describe_eq_error_iff {c : Condition} {negate full : Bool} {e : ConditionError} {s t : σ} :
    c.describe host user negate full s = .error e t ↔
      render host user c.limits c.formula s = .error e t ∨
      ∃ shown u d, render host user c.limits c.formula s = .ok shown u ∧ e = .service d ∧
        host.phrase component (Phrase.required c.scope negate).name [("condition", shown)] u =
          .error d t := by
  unfold describe
  cases render host user c.limits c.formula s with
  | error e' u => simp
  | ok shown u =>
      cases hp : host.phrase component (Phrase.required c.scope negate).name
        [("condition", shown)] u with
      | ok text v => simp [hp]
      | error d v => simp [hp, eq_comm]

/--
**Where the caller is told that a user is not enrolled.**

Never by a decision, whatever the host answers.  By a rendering, just where everything before some
token was found and then the host says so instead of what the section of that token is called, the
question about its completion being answered, or instead of how that operator reads.  By a
description where the rendering fails so, or where the host says so instead of the sentence around
it.
-/
theorem notEnrolled_surfaces_iff (host : Host σ) (user u : UserId) (s t : σ) :
    (∀ (c : Condition) (negate inBulk : Bool),
      c.available host user negate inBulk s ≠ .error (.service (.notEnrolled u)) t) ∧
    (∀ (limits : Limits) (text : String),
      render host user limits text s = .error (.service (.notEnrolled u)) t ↔
        ∃ ls before m after xs v, lexemes limits text = .ok ls ∧
          ls.map Lexeme.token = before ++ m :: after ∧ Rendering.Finds host user s before xs v ∧
          ((∃ id satisfied w, m = .atom id ∧ host.satisfied id user v = .ok satisfied w ∧
            host.sectionName id w = .error (.notEnrolled u) t) ∨
          ∃ p, m.phrase? = some p ∧
            host.phrase component p.name [] v = .error (.notEnrolled u) t)) ∧
    ∀ (c : Condition) (negate full : Bool),
      c.describe host user negate full s = .error (.service (.notEnrolled u)) t ↔
        render host user c.limits c.formula s = .error (.service (.notEnrolled u)) t ∨
        ∃ shown v, render host user c.limits c.formula s = .ok shown v ∧
          host.phrase component (Phrase.required c.scope negate).name [("condition", shown)] v =
            .error (.notEnrolled u) t := by
  refine ⟨fun c negate inBulk => available_ne_notEnrolled c negate inBulk u s t, ?_, ?_⟩
  · intro limits text
    rw [Rendering.render_eq_service_error_iff]
    simp only [Rendering.fails_notEnrolled_iff]
  · intro c negate full
    rw [describe_eq_error_iff]
    simp

/-- The name of a section is kept from a user because the user is not enrolled.  The rendering and
the description fail with that. -/
theorem notEnrolled_surfaces_of_name_kept :
    ∃ c : Condition, c.formula = "1" ∧ c.limits = Limits.default ∧
      render (Records.empty.fail ⟨.names, none⟩ (.notEnrolled ⟨5⟩)).answers.host ⟨5⟩
        Limits.default "1" .empty = .error (.service (.notEnrolled ⟨5⟩))
          ⟨#[.completion ⟨1⟩ ⟨5⟩, .sectionName ⟨1⟩], #[]⟩ ∧
      ∀ negate full, c.describe (Records.empty.fail ⟨.names, none⟩ (.notEnrolled ⟨5⟩)).answers.host
        ⟨5⟩ negate full .empty = .error (.service (.notEnrolled ⟨5⟩))
          ⟨#[.completion ⟨1⟩ ⟨5⟩, .sectionName ⟨1⟩], #[]⟩ := by
  have hread : Formula.parse Limits.default "1" = .ok (.atom ⟨1⟩) := by cbv
  have hlexemes : lexemes Limits.default "1" = .ok [⟨.atom ⟨1⟩, ['1'], 0⟩] := by cbv
  have hrender : render (Records.empty.fail ⟨.names, none⟩ (.notEnrolled ⟨5⟩)).answers.host ⟨5⟩
      Limits.default "1" .empty = .error (.service (.notEnrolled ⟨5⟩))
        ⟨#[.completion ⟨1⟩ ⟨5⟩, .sectionName ⟨1⟩], #[]⟩ :=
    Rendering.render_eq_service_error_iff.mpr
      ⟨_, [], .atom ⟨1⟩, [], [], _, hlexemes, rfl, .nil, .name rfl rfl⟩
  exact ⟨⟨.room, "1", _, _, hread⟩, rfl, rfl, hrender,
    fun _ _ => describe_eq_error_iff.mpr (.inl hrender)⟩

end Condition

end

end Prerequisite
