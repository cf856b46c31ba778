/-
Phrases and who serves them.

Every phrase is found under its name, so each catalog serves it, and that of the English texts in
English.  A word has no places.  A sentence has one place, and it is the last thing in it, so the
sentence with its place filled is a fixed text and then what was filled in
(`exists_before_condition`).
-/
import Prerequisite.Catalog
import Prerequisite.Host
import Prerequisite.Proofs.Formula.Asking
import Prerequisite.Proofs.Text.Replace

namespace Prerequisite

theorem Phrase.ofName?_name (p : Phrase) : Phrase.ofName? p.name = some p := by
  cases p with
  | and | or | not => decide
  | required scope negated => cases scope <;> cases negated <;> decide

/-- A catalog serves every phrase, in its own words or in English. -/
theorem Catalog.lookup_phrase (catalog : Catalog) (p : Phrase) (args : Arguments) :
    catalog.lookup component p.name args =
      .ok (Template.substitute (catalog.ofPhrase p) args) := by
  unfold lookup template?
  rw [if_pos rfl, Phrase.ofName?_name]
  rfl

theorem Catalog.lookup_english (p : Phrase) (args : Arguments) :
    english.lookup component p.name args = .ok (Template.substitute p.english args) :=
  lookup_phrase english p args

/-- A template is served as it is when nothing fills its places. -/
theorem Template.substitute_nil (template : String) : substitute template [] = template := by
  simp [substitute]

/-- **A sentence is a fixed text and then what was filled in.** -/
theorem Phrase.exists_before_condition (scope : Scope) (negated : Bool) :
    ∃ before : List Char, ∀ shown : String,
      (Template.substitute (required scope negated).english [("condition", shown)]).toList =
        before ++ shown.toList := by
  obtain ⟨before, hplace, hbefore⟩ : ∃ before, (required scope negated).english.toList =
      before ++ Template.place "condition" ∧ '\x7b' ∉ before := by
    refine ⟨(required scope negated).english.toList.takeWhile (· ≠ '\x7b'), ?_⟩
    cases scope <;> cases negated <;> decide
  refine ⟨before, fun shown => ?_⟩
  unfold Template.substitute Template.fill
  rw [String.toList_ofList, List.foldl_cons, List.foldl_nil, hplace,
    Text.replace_append_of_not_mem hbefore]
  show before ++ Text.replace '\x7b' _ shown.toList
    ('\x7b' :: "condition".toList ++ ['\x7d']) = before ++ shown.toList
  rw [← List.append_nil ('\x7b' :: "condition".toList ++ ['\x7d'])]
  exact congrArg (before ++ ·) ((Text.replace_found []).trans (by simp))

/-- **A host whose phrases come from a catalog,** whatever else it does. -/
def Host.Serves {σ : Type} (host : Host σ) (catalog : Catalog) : Prop :=
  ∀ owner name args s, ∃ t,
    host.phrase owner name args s = answering (catalog.lookup owner name args) t

/-- What such a host says is the text of the phrase in the catalog. -/
theorem Host.Serves.eq_of_phrase {σ : Type} {host : Host σ} {catalog : Catalog}
    (h : host.Serves catalog) {p : Phrase} {args : Arguments} {text : String} {s s' : σ}
    (hp : host.phrase component p.name args s = .ok text s') :
    text = Template.substitute (catalog.ofPhrase p) args := by
  obtain ⟨t, ht⟩ := h component p.name args s
  obtain ⟨hanswer, -⟩ := answering_eq_ok.mp (ht.symm.trans hp)
  rw [Catalog.lookup_phrase] at hanswer
  exact (Except.ok.inj hanswer).symm

/-- **A host that answers in English,** whatever else it does. -/
def Host.English {σ : Type} (host : Host σ) : Prop :=
  ∀ owner name args s, ∃ t,
    host.phrase owner name args s = answering (Catalog.english.lookup owner name args) t

/-- What an English host says is the English text of the phrase. -/
theorem Host.English.eq_of_phrase {σ : Type} {host : Host σ} (h : host.English) {p : Phrase}
    {args : Arguments} {text : String} {s s' : σ}
    (hp : host.phrase component p.name args s = .ok text s') :
    text = Template.substitute p.english args := by
  have hserves : host.Serves Catalog.english := h
  exact hserves.eq_of_phrase hp

end Prerequisite
