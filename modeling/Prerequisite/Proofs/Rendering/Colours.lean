/-
Where the colours of a rendering stand.

What a user is shown is one text, and all it says about completion is the colours of its spans.  So
what a rendering has found is compared with the text itself.  `Shows` says what each token is shown
as, character by character, with the tags of the spans written out; and a rendering puts such
fragments one behind the other (`toList_markup`).

Somebody who reads the text does not see the fragments and looks for tags (`colours`).  No name can
bring a tag with it, for names are escaped.  The phrases of operators are not, so they must not have
a bracket in them; then what is found in the text are the colours of the fragments
(`colours_of_finds`).  Trimming and quotation marks take nothing away and add nothing, because a tag
neither begins nor ends with a blank.
-/
import Mathlib.Data.List.Infix
import Prerequisite.Proofs.Rendering.Run
import Prerequisite.Proofs.Text.Markup
import Prerequisite.Proofs.Text.Splitting
import Prerequisite.Proofs.Text.Trimming

namespace Prerequisite

/-! ### The characters of segments -/

namespace Segment

/-- The characters of the markup of a segment. -/
def chars : Segment → List Char
  | .atom satisfied name =>
      (spanStart satisfied).toList ++ (Text.Markup.escape name.toList ++ spanEnd.toList)
  | .between phrase => ' ' :: (phrase.toList ++ [' '])
  | .before phrase => phrase.toList ++ [' ']
  | .opening => ['(']
  | .closing => [')']

theorem toList_write (out : String) (x : Segment) :
    (write out x).toList = out.toList ++ x.chars := by
  cases x <;> simp [write, chars, Text.Markup.toList_escaped]

theorem toList_foldl_write (xs : List Segment) :
    ∀ out : String, (xs.foldl write out).toList = out.toList ++ xs.flatMap chars := by
  induction xs with
  | nil => intro out; simp
  | cons x xs ih => intro out; rw [List.foldl_cons, ih, toList_write]; simp

/-- Whether the span of a section is green; other segments have none. -/
def green? : Segment → Option Bool
  | .atom satisfied _ => some satisfied
  | .between _ | .before _ | .opening | .closing => none

end Segment

namespace Rendering

theorem toList_markup (xs : List Segment) :
    (markup xs).toList = '"' :: (Text.trim (xs.flatMap Segment.chars) ++ ['"']) := by
  simp [markup, Text.trimmed, Segment.toList_foldl_write]

/-! ### What tokens are shown as -/

/-- What a green span begins with, and a red one. -/
def tag (green : Bool) : List Char :=
  (if green then "<span style=\"color: green;\">" else "<span style=\"color: red;\">").toList

/-- A part of what is shown. -/
structure Fragment where
  /-- Its characters. -/
  chars : List Char
  /-- Whether it is green, if it is a span. -/
  green? : Option Bool

/-- **A fragment shows a token.**  A section is a span around its escaped name, green if it is
satisfied and red if not; an operator is a phrase between blanks or in front of one. -/
inductive Shows (r : SectionId → Except ServiceError Bool) : Token → Fragment → Prop
  | atom {id : SectionId} {b : Bool} {name : String} (h : r id = .ok b) :
      Shows r (.atom id)
        ⟨tag b ++ (Text.Markup.escape name.toList ++ "</span>".toList), some b⟩
  | and {phrase : String} : Shows r .and ⟨' ' :: (phrase.toList ++ [' ']), none⟩
  | or {phrase : String} : Shows r .or ⟨' ' :: (phrase.toList ++ [' ']), none⟩
  | not {phrase : String} : Shows r .not ⟨phrase.toList ++ [' '], none⟩
  | opening : Shows r .opening ⟨['('], none⟩
  | closing : Shows r .closing ⟨[')'], none⟩

end Rendering

/-- The fragment of a segment. -/
def Segment.fragment (x : Segment) : Rendering.Fragment := ⟨x.chars, x.green?⟩

namespace Rendering

/-! ### Looking for tags -/

/-- **The colours that a text has,** from left to right: whether each tag in it is a green one. -/
def colours : List Char → List Bool
  | [] => []
  | c :: cs =>
      if tag true <+: c :: cs then true :: colours cs
      else if tag false <+: c :: cs then false :: colours cs
      else colours cs

/-- A tag is between two brackets. -/
theorem exists_inner (b : Bool) :
    ∃ inner, tag b = '<' :: (inner ++ ['>']) ∧ '<' ∉ inner ++ ['>'] := by
  cases b with
  | true => exact ⟨"span style=\"color: green;\"".toList, by decide, by decide⟩
  | false => exact ⟨"span style=\"color: red;\"".toList, by decide, by decide⟩

theorem colours_kept {c : Char} {cs : List Char} (h : ∀ b, ¬tag b <+: c :: cs) :
    colours (c :: cs) = colours cs := by
  rw [colours, if_neg (h true), if_neg (h false)]

/-- No tag begins but at a bracket. -/
theorem colours_append_of_not_mem {s : List Char} (h : '<' ∉ s) (rest : List Char) :
    colours (s ++ rest) = colours rest := by
  induction s with
  | nil => rfl
  | cons c s ih =>
      rw [List.mem_cons, not_or] at h
      rw [List.cons_append, colours_kept, ih h.2]
      intro b htag
      obtain ⟨inner, hinner, -⟩ := exists_inner b
      rw [hinner] at htag
      exact h.1 (List.cons_prefix_cons.mp htag).1

/-- A tag has its own colour. -/
theorem colours_tag (b : Bool) (rest : List Char) :
    colours (tag b ++ rest) = b :: colours rest := by
  obtain ⟨inner, hinner, hnot⟩ := exists_inner b
  have hkept : colours (inner ++ ['>'] ++ rest) = colours rest :=
    colours_append_of_not_mem hnot rest
  have hat : tag b <+: '<' :: (inner ++ ['>'] ++ rest) := ⟨rest, by rw [hinner]; rfl⟩
  rw [hinner, List.cons_append, colours]
  cases b with
  | true => rw [if_pos hat, hkept]
  | false =>
      have hother : ¬tag true <+: tag false ++ rest := Text.after?_eq_none_iff.mp rfl
      rw [hinner, List.cons_append] at hother
      rw [if_neg hother, if_pos hat, hkept]

/-- What ends a span is no tag. -/
theorem colours_spanEnd (rest : List Char) : colours ("</span>".toList ++ rest) = colours rest := by
  have hkept : colours ('<' :: ("/span>".toList ++ rest)) = colours ("/span>".toList ++ rest) :=
    colours_kept fun b => Text.after?_eq_none_iff.mp (by cases b <;> rfl)
  exact hkept.trans (colours_append_of_not_mem (by decide) rest)

/-- A tag ends with a bracket, so none reaches into a text without one. -/
theorem tag_prefix_append {after : List Char} (hclose : '>' ∉ after) (b : Bool) (s : List Char) :
    tag b <+: s ++ after ↔ tag b <+: s := by
  refine ⟨fun htag => ?_, fun htag => htag.trans (List.prefix_append s after)⟩
  obtain ⟨inner, hinner, -⟩ := exists_inner b
  obtain ⟨rest, hrest⟩ := htag
  rcases List.append_eq_append_iff.mp hrest with ⟨mid, hs, -⟩ | ⟨mid, htag, hafter⟩
  · exact ⟨mid, hs.symm⟩
  · rcases mid.eq_nil_or_concat' with rfl | ⟨front, c, rfl⟩
    · exact ⟨[], by simpa using htag⟩
    · rw [hinner, ← List.cons_append, ← List.append_assoc] at htag
      obtain ⟨-, hc⟩ := List.append_inj' htag rfl
      refine absurd ?_ hclose
      rw [hafter, ← hc]
      simp

theorem colours_append_right {after : List Char} (hopen : '<' ∉ after) (hclose : '>' ∉ after)
    (s : List Char) : colours (s ++ after) = colours s := by
  induction s with
  | nil => simpa using colours_append_of_not_mem hopen []
  | cons c s ih =>
      have hgreen := tag_prefix_append hclose true (c :: s)
      have hred := tag_prefix_append hclose false (c :: s)
      rw [List.cons_append] at hgreen hred ⊢
      simp only [colours, hgreen, hred, ih]

/-- **Neither trimming nor quotation marks change the colours of a text.** -/
theorem colours_quoted_of_trims {cs mid : List Char} (h : Text.Trims cs mid) :
    colours ('"' :: (mid ++ ['"'])) = colours cs := by
  obtain ⟨-, -, before, after, rfl, hbefore, hafter⟩ := h
  have hblank : ∀ {s : List Char} {c : Char}, (∀ c ∈ s, Text.White c) → ¬Text.White c → c ∉ s :=
    fun hs hc hmem => hc (hs _ hmem)
  have hquoted : colours (['"'] ++ (mid ++ ['"'])) = colours mid := by
    rw [colours_append_of_not_mem (by decide), colours_append_right (by decide) (by decide)]
  rw [List.append_assoc, colours_append_of_not_mem (hblank hbefore (by decide)),
    colours_append_right (hblank hafter (by decide)) (hblank hafter (by decide))]
  exact hquoted

/-! ### The colours of a rendering -/

end Rendering

/-- How operators read is no markup: no host's answer has a bracket in it. -/
def Host.PlainWords {σ : Type} (host : Host σ) : Prop :=
  ∀ p ∈ [Phrase.and, .or, .not], ∀ (text : String) (s t : σ),
    host.phrase component p.name [] s = .ok text t → '<' ∉ text.toList

namespace Rendering

section

variable {σ : Type} {host : Host σ} {user : UserId}

/-- An operator or a parenthesis is shown without a bracket, and has no colour. -/
theorem not_mem_chars_of_mark (hwords : host.PlainWords) {s t : σ} {m : Token} {x : Segment}
    (hm : m.atom? = none) (hx : segment host user m s = .ok x t) :
    '<' ∉ x.chars ∧ x.green? = none := by
  cases m with
  | atom id => exact absurd hm (by simp [Token.atom?])
  | and =>
      obtain ⟨text, hp, rfl⟩ := map_eq_ok_iff.mp hx
      have hplain := hwords .and (by decide) text s t hp
      exact ⟨by simpa [Segment.chars] using hplain, rfl⟩
  | or =>
      obtain ⟨text, hp, rfl⟩ := map_eq_ok_iff.mp hx
      have hplain := hwords .or (by decide) text s t hp
      exact ⟨by simpa [Segment.chars] using hplain, rfl⟩
  | not =>
      obtain ⟨text, hp, rfl⟩ := map_eq_ok_iff.mp hx
      have hplain := hwords .not (by decide) text s t hp
      exact ⟨by simpa [Segment.chars] using hplain, rfl⟩
  | opening =>
      injection hx with hx
      subst hx
      exact ⟨by decide, rfl⟩
  | closing =>
      injection hx with hx
      subst hx
      exact ⟨by decide, rfl⟩

/-- **What is read off the text are the colours that were found.** -/
theorem colours_of_finds (hwords : host.PlainWords) {ts : List Token} {xs : List Segment}
    {s s' : σ} (h : Finds host user s ts xs s') :
    colours (xs.flatMap Segment.chars) = xs.filterMap Segment.green? := by
  induction h with
  | nil => rfl
  | @atom _ _ _ _ id b name ts xs _ _ _ ih =>
      have hname : '<' ∉ Text.Markup.escape name.toList :=
        Text.Markup.not_mem_escape (by decide) name.toList
      have hchars : (Segment.atom b name).chars =
          tag b ++ (Text.Markup.escape name.toList ++ "</span>".toList) := rfl
      rw [List.flatMap_cons, hchars, List.append_assoc, List.append_assoc, colours_tag,
        colours_append_of_not_mem hname, colours_spanEnd, ih]
      rfl
  | @mark _ _ _ m x ts xs hm hx _ ih =>
      obtain ⟨hplain, hcolour⟩ := not_mem_chars_of_mark hwords hm hx
      rw [List.flatMap_cons, colours_append_of_not_mem hplain, ih,
        List.filterMap_cons_none hcolour]

theorem colours_markup (hwords : host.PlainWords) {ts : List Token} {xs : List Segment}
    {s s' : σ} (h : Finds host user s ts xs s') :
    colours (markup xs).toList = xs.filterMap Segment.green? := by
  rw [toList_markup, colours_quoted_of_trims (Text.trims_trim _), colours_of_finds hwords h]

end

end Rendering

end Prerequisite
