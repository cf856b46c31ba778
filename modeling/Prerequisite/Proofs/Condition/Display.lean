/-
What is shown and what is decided.

A formula is shown from its text, token by token, and everything in it is asked about.  The
decision is made on the tree and stops asking when it can.  The two agree because the sections of
the tree are the ids of the text in the same order, and because whoever says who has completed what
says the same when it is asked again (`Host.Observed`).

The text that is shown is made of fragments, one for each token, and a section's is a span whose tag
says whether it is satisfied (`Rendering.Shows`).  If there is such a text then all sections were
answered, so the decision cannot fail; and its value is that of the tree when each occurrence of a
section holds whose span is green.
-/
import Mathlib.Tactic
import Prerequisite.Proofs.Formula.Normal
import Prerequisite.Proofs.Formula.Shortcut
import Prerequisite.Proofs.Rendering.Colours

namespace Prerequisite

open Rendering

section

variable {σ : Type} {host : Host σ} {completed : SectionId → UserId → Except ServiceError Bool}
  {asked : σ → List (SectionId × UserId)} {user : UserId}

/-! ### Fragments and tokens -/

/-- What was found shows its tokens, and each section has been asked about once. -/
theorem shows_of_finds (hobs : host.Observed completed asked) {ts : List Token} {xs : List Segment}
    {s s' : σ} (h : Rendering.Finds host user s ts xs s') :
    List.Forall₂ (Shows (satisfiedBy completed user)) ts (xs.map Segment.fragment) ∧
      asked s' = asked s ++ ((ts.filterMap Token.atom?).map fun id => (id, user)) := by
  have hword : ∀ {p : Phrase} {text : String} {s s' : σ}, Rendering.word host p s = .ok text s' →
      asked s' = asked s := by
    intro p text s s' hp
    obtain ⟨y, u, hasked, hphrase⟩ := hobs.phrase component p.name [] s
    obtain ⟨-, rfl⟩ := answering_eq_ok.mp (hphrase.symm.trans hp)
    exact hasked
  induction h with
  | nil => exact ⟨.nil, by simp⟩
  | @atom s t u v id b name ts xs hsat hname _ ih =>
      -- Only the first of the two questions is about completion.
      obtain ⟨_, hnoted, hsat'⟩ := hobs.notes user id s
      obtain ⟨hr, rfl⟩ := answering_eq_ok.mp (hsat'.symm.trans hsat)
      obtain ⟨_, _, hsame, hname'⟩ := hobs.sectionName id _
      obtain ⟨-, rfl⟩ := answering_eq_ok.mp (hname'.symm.trans hname)
      obtain ⟨hshown, hasked⟩ := ih
      refine ⟨.cons (.atom hr) hshown, ?_⟩
      rw [hasked, hsame, hnoted, List.append_assoc]
      rfl
  | @mark s t u m x ts xs hm hx _ ih =>
      obtain ⟨hshown, hasked⟩ := ih
      have hmark : Shows (satisfiedBy completed user) m x.fragment ∧ asked t = asked s := by
        cases m with
        | atom id => exact absurd hm (by simp [Token.atom?])
        | and =>
            obtain ⟨text, hp, rfl⟩ := map_eq_ok_iff.mp hx
            exact ⟨.and, hword hp⟩
        | or =>
            obtain ⟨text, hp, rfl⟩ := map_eq_ok_iff.mp hx
            exact ⟨.or, hword hp⟩
        | not =>
            obtain ⟨text, hp, rfl⟩ := map_eq_ok_iff.mp hx
            exact ⟨.not, hword hp⟩
        | opening =>
            injection hx with hx hs
            subst hx hs
            exact ⟨.opening, rfl⟩
        | closing =>
            injection hx with hx hs
            subst hx hs
            exact ⟨.closing, rfl⟩
      refine ⟨.cons hmark.1 hshown, ?_⟩
      rw [hasked, hmark.2, List.filterMap_cons_none hm]

/-- The colours of fragments are the answers about the sections that they show. -/
theorem green?_of_shows {r : SectionId → Except ServiceError Bool} {ts : List Token}
    {fs : List Fragment} (h : List.Forall₂ (Shows r) ts fs) :
    ∃ holds : SectionId → Bool, (∀ id ∈ ts.filterMap Token.atom?, r id = .ok (holds id)) ∧
      fs.filterMap Fragment.green? = (ts.filterMap Token.atom?).map holds := by
  refine ⟨fun id => (r id).toOption.getD false, ?_⟩
  induction h with
  | nil => exact ⟨by simp, rfl⟩
  | @cons t f ts fs hshows _ ih =>
      obtain ⟨hanswers, hgreen⟩ := ih
      cases hshows with
      | @atom id b name hr =>
          have hholds : (r id).toOption.getD false = b := by rw [hr]; rfl
          refine ⟨?_, ?_⟩
          · intro id' hid
            rcases List.mem_cons.mp hid with rfl | hid
            · show r id' = .ok ((r id').toOption.getD false)
              rw [hholds, hr]
            · exact hanswers id' hid
          · show b :: fs.filterMap Fragment.green? =
              (r id).toOption.getD false :: (ts.filterMap Token.atom?).map _
            rw [hgreen, hholds]
      | and | or | not | opening | closing => exact ⟨hanswers, hgreen⟩

/-! ### The decision -/

namespace Condition

/-- Where all sections are answered, the decision is the value that the answers make. -/
theorem available_of_holds (hobs : host.Observed completed asked)
    (hdep : host.dependency = .installed) {c : Condition} {holds : SectionId → Bool}
    (h : ∀ id ∈ c.tree.atoms, satisfiedBy completed user id = .ok (holds id)) (inBulk : Bool)
    (s : σ) : ∃ (ids : List SectionId) (t : σ), ids.Sublist c.tree.atoms ∧
      asked t = asked s ++ (ids.map fun id => (id, user)) ∧
      c.available host user false inBulk s = .ok (c.tree.value holds) t := by
  obtain ⟨ids, t, hsub, hasked, heval⟩ := Formula.eval_of_holds (hobs.notes user) h s
  refine ⟨ids, t, hsub, hasked, ?_⟩
  unfold available satisfied
  rw [hdep]
  simp only [heval, Bool.xor_false]

/-- **What is shown of a condition agrees with what is decided,** between two states. -/
structure Agreement (host : Host σ) (completed : SectionId → UserId → Except ServiceError Bool)
    (asked : σ → List (SectionId × UserId)) (user : UserId) (c : Condition) (s s' : σ)
    (shown : String) (ls : List Lexeme) (fs : List Fragment) : Prop where
  /-- Each token of the text is shown by one fragment. -/
  tokens : lexemes c.limits c.formula = .ok ls
  shows : List.Forall₂ (Shows (satisfiedBy completed user)) (ls.map Lexeme.token) fs
  /-- What is shown are the fragments one behind the other, without blanks around them and in
  quotation marks. -/
  text : ∃ mid, Text.Trims (fs.flatMap Fragment.chars) mid ∧ shown.toList = '"' :: (mid ++ ['"'])
  /-- The colours can be read off the text, if no operator reads as markup. -/
  legible : host.PlainWords → colours shown.toList = fs.filterMap Fragment.green?
  /-- Each occurrence of a section is asked about once, from left to right. -/
  sections : ls.filterMap (·.token.atom?) = c.tree.atoms
  lookups : asked s' = asked s ++ (c.tree.atoms.map fun id => (id, user))
  /-- The decision is the value of the tree by the colours, and asks some of the same questions. -/
  decision : ∀ (inBulk : Bool) (t : σ), ∃ (ids : List SectionId) (t' : σ),
    ids.Sublist c.tree.atoms ∧ asked t' = asked t ++ (ids.map fun id => (id, user)) ∧
    c.available host user false inBulk t =
      .ok (c.tree.valueAlong (fs.filterMap Fragment.green?)).1 t'

theorem agreement_of_render (hobs : host.Observed completed asked)
    (hdep : host.dependency = .installed) {c : Condition} {shown : String} {s s' : σ}
    (h : render host user c.limits c.formula s = .ok shown s') :
    ∃ ls fs, Agreement host completed asked user c s s' shown ls fs := by
  obtain ⟨ls, xs, hls, hfinds, rfl⟩ := finds_of_render h
  obtain ⟨hshows, hlookups⟩ := shows_of_finds hobs hfinds
  obtain ⟨holds, hanswers, hgreen⟩ := green?_of_shows hshows
  have hsections := Formula.atoms_of_lexemes c.reads hls
  have hatoms : (ls.map Lexeme.token).filterMap Token.atom? = c.tree.atoms := by
    rw [← hsections, List.filterMap_map]
    rfl
  rw [hatoms] at hlookups hanswers hgreen
  refine ⟨ls, xs.map Segment.fragment, hls, hshows, ?_, ?_, hsections, hlookups, ?_⟩
  · have hchars : (xs.map Segment.fragment).flatMap Fragment.chars = xs.flatMap Segment.chars := by
      rw [List.flatMap_map]
      rfl
    exact ⟨_, by rw [hchars]; exact Text.trims_trim _, toList_markup xs⟩
  · intro hwords
    rw [colours_markup hwords hfinds, List.filterMap_map]
    rfl
  · intro inBulk u
    -- The rendering met no failure, so whichever sections the decision asks about answer.
    obtain ⟨ids, u', hsub, hasked, havail⟩ := available_of_holds hobs hdep hanswers inBulk u
    have hvalue : (c.tree.valueAlong ((xs.map Segment.fragment).filterMap Fragment.green?)).1 =
        c.tree.value holds := by
      rw [hgreen, ← List.append_nil (c.tree.atoms.map holds), Formula.valueAlong_map]
    exact ⟨ids, u', hsub, hasked, by rw [hvalue, havail]⟩

/--
**What a user is shown agrees with what is decided.**

Let there be somebody to ask, and let the answers about completion be a function.  A rendering that
succeeds has asked about each occurrence of a section once, in order.  Its text is made of one
fragment for each token, and the fragment of a section is a span with its colour in the tag.  The
decision then succeeds as well.  Its value is that of the tree when each occurrence holds whose span
is green, and it asks some of the questions that the rendering has asked, in the same order.  Where
the phrases of operators have no bracket in them, whoever looks for tags in the text finds these
colours and no others.  A description that succeeds has such a rendering in it.
-/
theorem shown_as_decided (hobs : host.Observed completed asked)
    (hdep : host.dependency = .installed) (user : UserId) (c : Condition) (s : σ) :
    (∀ shown s', render host user c.limits c.formula s = .ok shown s' →
      ∃ ls fs, Agreement host completed asked user c s s' shown ls fs) ∧
    ∀ negate full text s', c.describe host user negate full s = .ok text s' →
      ∃ shown ls fs t, render host user c.limits c.formula s = .ok shown t ∧
        host.phrase component (Phrase.required c.scope negate).name [("condition", shown)] t =
          .ok text s' ∧
        Agreement host completed asked user c s s' shown ls fs := by
  refine ⟨fun shown s' h => agreement_of_render hobs hdep h, ?_⟩
  intro negate full text s' h
  obtain ⟨shown, t, hshown, hphrase⟩ := render_of_describe h
  obtain ⟨ls, fs, hagree⟩ := agreement_of_render hobs hdep hshown
  obtain ⟨y, u, hasked, hanswer⟩ := hobs.phrase component
    (Phrase.required c.scope negate).name [("condition", shown)] t
  obtain ⟨-, rfl⟩ := answering_eq_ok.mp (hanswer.symm.trans hphrase)
  refine ⟨shown, ls, fs, t, hshown, hphrase, { hagree with lookups := ?_ }⟩
  rw [hasked, hagree.lookups]

end Condition

end

namespace Condition

/-- A host where a user has completed the first section and is not enrolled for the second, and
where every name looks like a tag. -/
def halfDone : Answers where
  completed id user := if id = ⟨2⟩ then .error (.notEnrolled user) else .ok true
  sectionName id := .ok ("<" ++ id.text ++ ">")
  phrase _ _ _ := .ok "or"
  newId _ _ _ := .ok none
  dependency := .installed
  time := 0

theorem halfDone_plainWords : halfDone.host.PlainWords := by
  intro p _ text j j' h
  injection h with htext _
  rw [← htext]
  decide

/-- Both sections of `01v2` are shown and asked about, and one that is green is enough. -/
theorem shown_as_decided_of_one_green :
    ∃ (c : Condition) (shown : String) (j : Journal), c.formula = "01v2" ∧
      shown = "\"<span style=\"color: green;\">&lt;1&gt;</span> or " ++
        "<span style=\"color: red;\">&lt;2&gt;</span>\"" ∧
      render halfDone.host ⟨7⟩ c.limits c.formula .empty = .ok shown j ∧
      colours shown.toList = [true, false] ∧ j.lookups = [(⟨1⟩, ⟨7⟩), (⟨2⟩, ⟨7⟩)] ∧
      ∃ j', c.available halfDone.host ⟨7⟩ false false .empty = .ok true j' := by
  have hread : Formula.parse ⟨9, 2⟩ "01v2" = .ok (.disj [.atom ⟨1⟩, .atom ⟨2⟩]) := by cbv
  obtain ⟨j, hfound⟩ : ∃ j, segments halfDone.host ⟨7⟩ ⟨9, 2⟩ "01v2" .empty =
      .ok [.atom true "<1>", .between "or", .atom false "<2>"] j := ⟨_, by cbv⟩
  have hshown : render halfDone.host ⟨7⟩ ⟨9, 2⟩ "01v2" .empty = .ok _ j :=
    map_eq_ok_iff.mpr ⟨_, hfound, rfl⟩
  obtain ⟨ls, fs, hagree⟩ := (shown_as_decided halfDone.observed rfl ⟨7⟩
    ⟨.room, "01v2", _, ⟨9, 2⟩, hread⟩ .empty).1 _ j hshown
  have hlegible := hagree.legible halfDone_plainWords
  obtain ⟨_, -, hfinds⟩ := finds_of_segments hfound
  have hcolours := colours_markup halfDone_plainWords hfinds
  obtain ⟨ids, j', -, -, havail⟩ := hagree.decision false .empty
  rw [← hlegible, hcolours] at havail
  refine ⟨⟨.room, "01v2", _, ⟨9, 2⟩, hread⟩, _, j, rfl, String.toList_inj.mp ?_, hshown, hcolours,
    hagree.lookups, j', havail⟩
  rw [toList_markup]
  decide +kernel

end Condition

end Prerequisite
