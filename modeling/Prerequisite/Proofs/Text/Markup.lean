/-
Escaped text is read back.

What a reader of markup makes of an entity is the character it stands for, and everything else it
takes as it is (`unescape`).  It goes through the text once, so an entity that was escaped itself
comes back as the entity and not as its character.

Two texts that are escaped alike are therefore the same text.  And no bracket of markup is left in
an escaped text, so what stands behind it in a longer text is found again (`eq_of_escape_append`).

Nor is an ampersand left that does not begin an entity.  There are no escaped texts but those, so a
text in which neither is found is an escaped one, and of what it reads as (`escape_unescape`).
-/
import Mathlib.Data.List.Infix
import Prerequisite.Text.Markup

namespace Prerequisite.Text.Markup

/-- **Puts characters in the place of their entities,** from left to right and in one pass. -/
def unescape : List Char → List Char
  | '&' :: 'a' :: 'm' :: 'p' :: ';' :: s => '&' :: unescape s
  | '&' :: 'l' :: 't' :: ';' :: s => '<' :: unescape s
  | '&' :: 'g' :: 't' :: ';' :: s => '>' :: unescape s
  | '&' :: 'q' :: 'u' :: 'o' :: 't' :: ';' :: s => '"' :: unescape s
  | '&' :: '#' :: '0' :: '3' :: '9' :: ';' :: s => '\'' :: unescape s
  | c :: s => c :: unescape s
  | [] => []

/-- The characters that are written as entities. -/
def special : List Char := ['&', '<', '>', '"', '\'']

/-- A character is written as an entity or as itself. -/
theorem escapeChar_of_not_special {c : Char} (h : c ∉ special) : escapeChar c = [c] := by
  unfold escapeChar
  split
  all_goals first | rfl | exact absurd (by decide) h

theorem unescape_cons {c : Char} (h : c ≠ '&') (s : List Char) :
    unescape (c :: s) = c :: unescape s := by
  rw [unescape.eq_def]
  split
  all_goals first | rfl | simp_all

theorem unescape_escapeChar (c : Char) (s : List Char) :
    unescape (escapeChar c ++ s) = c :: unescape s := by
  by_cases hc : c ∈ special
  · simp only [special, List.mem_cons, List.not_mem_nil, or_false] at hc
    rcases hc with rfl | rfl | rfl | rfl | rfl <;> rfl
  · rw [escapeChar_of_not_special hc]
    exact unescape_cons (fun hamp => hc (by rw [hamp]; decide)) s

/-- **Unescaping undoes escaping.** -/
theorem unescape_escape (s : List Char) : unescape (escape s) = s := by
  induction s with
  | nil => rfl
  | cons c s ih =>
      show unescape (escapeChar c ++ escape s) = c :: s
      rw [unescape_escapeChar, ih]

theorem escape_inj {s t : List Char} (h : escape s = escape t) : s = t := by
  rw [← unescape_escape s, h, unescape_escape]

/-- No text of an entity has a bracket or a quotation mark in it. -/
theorem not_mem_escapeChar {b : Char} (hb : b ∈ special.tail) (c : Char) : b ∉ escapeChar c := by
  by_cases hc : c ∈ special
  · simp only [special, List.tail_cons, List.mem_cons, List.not_mem_nil, or_false] at hb hc
    rcases hb with rfl | rfl | rfl | rfl <;> rcases hc with rfl | rfl | rfl | rfl | rfl <;> decide
  · rw [escapeChar_of_not_special hc, List.mem_singleton]
    rintro rfl
    exact hc (List.mem_of_mem_tail hb)

theorem not_mem_escape {b : Char} (hb : b ∈ special.tail) (s : List Char) : b ∉ escape s := by
  intro h
  obtain ⟨c, -, hc⟩ := List.mem_flatMap.mp h
  exact not_mem_escapeChar hb c hc

/-! ### What comes behind an escaped text -/

/-- What stands before the first of some character, and what stands behind it, are settled. -/
theorem eq_of_append_cons {b : Char} {s t r u : List Char} (hs : b ∉ s) (ht : b ∉ t)
    (h : s ++ b :: r = t ++ b :: u) : s = t ∧ r = u := by
  rcases List.append_eq_append_iff.mp h with ⟨c, hc, hrest⟩ | ⟨c, hc, hrest⟩
  · cases c with
    | nil => exact ⟨by simpa using hc.symm, (List.cons.inj hrest).2⟩
    | cons d c =>
        obtain ⟨rfl, -⟩ := List.cons.inj hrest
        exact absurd (by simp [hc]) ht
  · cases c with
    | nil => exact ⟨by simpa using hc, (List.cons.inj hrest).2.symm⟩
    | cons d c =>
        obtain ⟨rfl, -⟩ := List.cons.inj hrest
        exact absurd (by simp [hc]) hs

/-- **Where an escaped text ends at a bracket,** it is settled, and so is what comes behind. -/
theorem eq_of_escape_append {s t r u : List Char}
    (h : escape s ++ '<' :: r = escape t ++ '<' :: u) : s = t ∧ r = u := by
  obtain ⟨hst, hru⟩ :=
    eq_of_append_cons (not_mem_escape (by decide) s) (not_mem_escape (by decide) t) h
  exact ⟨escape_inj hst, hru⟩

/-! ### Which texts are escaped -/

/-- The entities that a reader knows. -/
def entities : List String := ["&amp;", "&lt;", "&gt;", "&quot;", "&#039;"]

/-- **A text that markup shows as text:** nothing in it can be taken for anything else. -/
structure Neutral (t : List Char) : Prop where
  /-- There is no bracket and no quotation mark in it. -/
  plain : ∀ b ∈ ['<', '>', '"', '\''], b ∉ t
  /-- Every ampersand in it begins an entity. -/
  entity : ∀ after, '&' :: after <:+ t → ∃ e ∈ entities, e.toList <+: '&' :: after

theorem neutral_nil : Neutral [] :=
  ⟨fun _ _ => List.not_mem_nil, fun _ h => absurd (List.suffix_nil.mp h) (List.cons_ne_nil _ _)⟩

theorem Neutral.of_suffix {s t : List Char} (h : Neutral t) (hs : s <:+ t) : Neutral s :=
  ⟨fun b hb hmem => h.plain b hb (hs.mem hmem),
    fun after hafter => h.entity after (hafter.trans hs)⟩

theorem neutral_cons {c : Char} {t : List Char} : Neutral (c :: t) ↔
    c ∉ ['<', '>', '"', '\''] ∧ (c = '&' → ∃ e ∈ entities, e.toList <+: c :: t) ∧ Neutral t := by
  constructor
  · intro h
    refine ⟨fun hc => h.plain c hc List.mem_cons_self, ?_, h.of_suffix (List.suffix_cons c t)⟩
    rintro rfl
    exact h.entity t List.suffix_rfl
  · rintro ⟨hc, hamp, ht⟩
    refine ⟨fun b hb hmem => ?_, fun after hafter => ?_⟩
    · rcases List.mem_cons.mp hmem with rfl | hmem
      · exact hc hb
      · exact ht.plain b hb hmem
    · rcases List.suffix_cons_iff.mp hafter with heq | hafter
      · obtain ⟨rfl, rfl⟩ := List.cons.inj heq
        exact hamp rfl
      · exact ht.entity after hafter

theorem neutral_escapeChar_append (c : Char) {t : List Char} (h : Neutral t) :
    Neutral (escapeChar c ++ t) := by
  by_cases hc : c ∈ special
  · simp only [special, List.mem_cons, List.not_mem_nil, or_false] at hc
    rcases hc with rfl | rfl | rfl | rfl | rfl <;>
      simp [escapeChar, neutral_cons, entities, h]
  · rw [escapeChar_of_not_special hc, List.singleton_append]
    refine neutral_cons.mpr ⟨fun hmem => hc (List.mem_of_mem_tail hmem), ?_, h⟩
    rintro rfl
    exact absurd (by decide) hc

theorem neutral_escape (s : List Char) : Neutral (escape s) := by
  induction s with
  | nil => exact neutral_nil
  | cons c s ih => exact neutral_escapeChar_append c ih

theorem escape_cons_of_neutral {c : Char} {t s : List Char} (h : Neutral (escapeChar c ++ t))
    (ih : Neutral t → escape s = t) : escape (c :: s) = escapeChar c ++ t := by
  show escapeChar c ++ escape s = escapeChar c ++ t
  rw [ih (h.of_suffix (List.suffix_append _ t))]

/-- **A neutral text is the escaped form of what it reads as.** -/
theorem escape_unescape {t : List Char} (h : Neutral t) : escape (unescape t) = t := by
  fun_induction unescape t with
  | case1 s ih | case2 s ih | case3 s ih | case4 s ih | case5 s ih =>
      exact escape_cons_of_neutral h ih
  | case6 c s hamp hlt hgt hquot hapos ih =>
      obtain ⟨hplain, hentity, -⟩ := neutral_cons.mp h
      -- An ampersand here would begin an entity, and those are the cases before this one.
      have hc : c ∉ special := by
        intro hc
        rcases List.mem_cons.mp hc with rfl | hc
        · obtain ⟨e, he, r, hr⟩ := hentity rfl
          simp only [entities, List.mem_cons, List.not_mem_nil, or_false] at he
          rcases he with rfl | rfl | rfl | rfl | rfl
          · exact hamp r rfl (List.cons.inj hr).2.symm
          · exact hlt r rfl (List.cons.inj hr).2.symm
          · exact hgt r rfl (List.cons.inj hr).2.symm
          · exact hquot r rfl (List.cons.inj hr).2.symm
          · exact hapos r rfl (List.cons.inj hr).2.symm
        · exact hplain hc
      have hself := escapeChar_of_not_special hc
      rw [escape_cons_of_neutral (by rwa [hself]) ih, hself]
      rfl
  | case7 => rfl

/-- The text that an escaped text shows. -/
def unescaped (t : String) : String := String.ofList (unescape t.toList)

theorem escaped_eq_iff {s t : String} : escaped s = t ↔ Neutral t.toList ∧ unescaped t = s := by
  constructor
  · rintro rfl
    rw [unescaped, toList_escaped, unescape_escape, String.ofList_toList]
    exact ⟨neutral_escape s.toList, rfl⟩
  · rintro ⟨hneutral, rfl⟩
    apply String.toList_inj.mp
    rw [toList_escaped, unescaped, String.toList_ofList, escape_unescape hneutral]

/--
**Escaping loses nothing and leaves no markup.**

A text is the escaped form of another just if no bracket, no quotation mark and no ampersand but
those of entities is in it, and one pass that puts characters in the place of entities gives the
other text back.  It does not matter whether that looks like an entity itself.  So no two texts are
escaped alike; and what is escaped in parts is escaped as a whole.
-/
theorem escaping_neutral_and_lossless :
    (∀ s t : String, escaped s = t ↔ Neutral t.toList ∧ unescaped t = s) ∧
    Function.Injective escaped ∧
    ∀ s t : String, escaped (s ++ t) = escaped s ++ escaped t := by
  refine ⟨fun s t => escaped_eq_iff, fun s t h => ?_, fun s t => ?_⟩
  · obtain ⟨-, hs⟩ := escaped_eq_iff.mp h
    obtain ⟨-, ht⟩ := escaped_eq_iff.mp (Eq.refl (escaped t))
    exact hs.symm.trans ht
  · apply String.toList_inj.mp
    rw [toList_escaped, String.toList_append, escape_append, String.toList_append, toList_escaped,
      toList_escaped]

-- What looks like an entity is shown as it looks.
example : escaped "&lt;" = "&amp;lt;" ∧ unescaped "&amp;lt;" = "&lt;" := by decide

end Prerequisite.Text.Markup
