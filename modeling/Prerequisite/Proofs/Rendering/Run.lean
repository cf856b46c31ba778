/-
What a rendering goes through.

A rendering asks the host about one token after the other, and what it has found in the end is one
segment for each.  `Finds` is such a run, which takes the host from one state to another.  A
rendering that succeeds is the markup of what some run has found, and a description that succeeds is
a sentence around a rendering.
-/
import Prerequisite.Condition.Query
import Prerequisite.Proofs.Host

namespace Prerequisite

section

variable {σ : Type} {host : Host σ} {user : UserId}

/-- **The segments that a rendering finds,** one for each token, which takes the host from one state
to another.  The segment of a section has what the host answers about it then. -/
inductive Rendering.Finds (host : Host σ) (user : UserId) :
    σ → List Token → List Segment → σ → Prop
  | nil {s : σ} : Finds host user s [] [] s
  /-- A section, with its colour and its name. -/
  | atom {s t u v : σ} {id : SectionId} {satisfied : Bool} {name : String} {ts : List Token}
      {xs : List Segment} (hsatisfied : host.satisfied id user s = .ok satisfied t)
      (hname : host.sectionName id t = .ok name u) (hrest : Finds host user u ts xs v) :
      Finds host user s (.atom id :: ts) (.atom satisfied name :: xs) v
  /-- An operator or a parenthesis. -/
  | mark {s t u : σ} {m : Token} {x : Segment} {ts : List Token} {xs : List Segment}
      (hm : m.atom? = none) (hx : Rendering.segment host user m s = .ok x t)
      (hrest : Finds host user t ts xs u) : Finds host user s (m :: ts) (x :: xs) u

namespace Rendering

theorem Finds.cons {s t u : σ} {m : Token} {x : Segment} {ts : List Token} {xs : List Segment}
    (hx : segment host user m s = .ok x t) (hrest : Finds host user t ts xs u) :
    Finds host user s (m :: ts) (x :: xs) u := by
  cases hm : m with
  | atom id =>
      rw [hm] at hx
      obtain ⟨satisfied, v, hsatisfied, hthen⟩ := bind_eq_ok hx
      obtain ⟨name, w, hname, hdone⟩ := bind_eq_ok hthen
      injection hdone with hsegment hw
      subst hsegment hw
      exact .atom hsatisfied hname hrest
  | and | or | not | opening | closing => exact .mark rfl (hm ▸ hx) hrest

theorem finds_of_segmentsOnto {ls : List Lexeme} : ∀ {done out : Array Segment} {s s' : σ},
    segmentsOnto host user done ls s = .ok out s' →
      ∃ xs, out.toList = done.toList ++ xs ∧ Finds host user s (ls.map Lexeme.token) xs s' := by
  induction ls with
  | nil =>
      intro done out s s' h
      rw [segmentsOnto] at h
      injection h with hout hs
      subst hout hs
      exact ⟨[], by simp, .nil⟩
  | cons l ls ih =>
      intro done out s s' h
      rw [segmentsOnto] at h
      cases hl : segment host user l.token s with
      | error e t => rw [hl] at h; exact absurd h (by simp)
      | ok x t =>
          rw [hl] at h
          obtain ⟨xs, hout, hrest⟩ := ih h
          exact ⟨x :: xs, by rw [hout, Array.toList_push, List.append_assoc]; rfl, .cons hl hrest⟩

theorem finds_of_segments {limits : Limits} {text : String} {xs : List Segment} {s s' : σ}
    (h : segments host user limits text s = .ok xs s') :
    ∃ ls, lexemes limits text = .ok ls ∧ Finds host user s (ls.map Lexeme.token) xs s' := by
  unfold segments at h
  cases hls : lexemes limits text with
  | error e => rw [hls] at h; exact absurd h (by simp)
  | ok ls =>
      rw [hls] at h
      cases hout : segmentsOnto host user #[] ls s with
      | error e t => simp [hout] at h
      | ok out t =>
          simp only [hout] at h
          injection h with hxs ht
          subst hxs ht
          obtain ⟨xs, hxs, hfinds⟩ := finds_of_segmentsOnto hout
          exact ⟨ls, rfl, by rwa [hxs]⟩

/-- A rendering that succeeds is the markup of what it has found. -/
theorem finds_of_render {limits : Limits} {text shown : String} {s s' : σ}
    (h : render host user limits text s = .ok shown s') :
    ∃ ls xs, lexemes limits text = .ok ls ∧ Finds host user s (ls.map Lexeme.token) xs s' ∧
      shown = markup xs := by
  obtain ⟨xs, hxs, rfl⟩ := map_eq_ok_iff.mp h
  obtain ⟨ls, hls, hfinds⟩ := finds_of_segments hxs
  exact ⟨ls, xs, hls, hfinds, rfl⟩

end Rendering

/-- A description that succeeds is a sentence around a rendering. -/
theorem Condition.render_of_describe {c : Condition} {negate full : Bool} {text : String} {s s' : σ}
    (h : c.describe host user negate full s = .ok text s') :
    ∃ shown t, render host user c.limits c.formula s = .ok shown t ∧
      host.phrase component (Phrase.required c.scope negate).name [("condition", shown)] t =
        .ok text s' := by
  unfold describe at h
  cases hshown : render host user c.limits c.formula s with
  | error e t => simp [hshown] at h
  | ok shown t =>
      refine ⟨shown, t, rfl, ?_⟩
      simp only [hshown] at h
      split at h
      · rename_i text' u hu
        injection h with htext hs
        rw [hu, htext, hs]
      · exact absurd h (by simp)

end

end Prerequisite
