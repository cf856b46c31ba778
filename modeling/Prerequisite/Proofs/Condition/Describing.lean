/-
What describing a condition can fail with.

A description asks about every section of the condition, how each operator reads, and last for the
sentence around it all.  Where the phrases come from a catalog, they are always there, whatever
texts were put in the place of the English ones.  That the text has tokens was settled when the
condition was made.  So a description fails only with what the host fails with when it is asked
about a section, and the first failure in the order of the text is the one
(`description_fails_only_by_host`).

Nothing is assumed about the host beyond its phrases.  Where its answers are functions, what comes
of a description can be said without going through it, and its journal shows that nothing was asked
behind a failure.
-/
import Prerequisite.Proofs.Rendering.Questions
import Prerequisite.Proofs.Template

namespace Prerequisite

/-! ### Phrases from a catalog -/

section

variable {σ : Type} {host : Host σ} {catalog : Catalog} {user : UserId} {s t : σ}

/-- A host whose phrases come from a catalog never fails to say how one reads. -/
theorem Host.Serves.answered (h : host.Serves catalog) {p : Phrase} {places : List String}
    {failure : Option ServiceError}
    (hq : host.Answered s (.phrase component p.name places) failure t) : failure = none := by
  generalize hcall : Call.phrase component p.name places = q at hq
  cases hq with
  | completion | sectionName | newId => exact absurd hcall (by simp)
  | @phrase _ owner name args x hx =>
      injection hcall with howner hname hplaces
      subst howner hname
      obtain ⟨u, hu⟩ := h component p.name args s
      obtain ⟨rfl, -⟩ := answering_inj (hx.symm.trans hu)
      rw [Catalog.lookup_phrase]
      rfl

theorem Token.questions_cases {m : Token} {q : Call} (h : q ∈ m.questions user) :
    (∃ id, m.atom? = some id ∧ (q = .completion id user ∨ q = .sectionName id)) ∨
      ∃ p : Phrase, q = .phrase component p.name [] := by
  cases m with
  | atom id =>
      simp only [questions, List.mem_cons, List.not_mem_nil, or_false] at h
      exact .inl ⟨id, rfl, h⟩
  | and | or | not => exact .inr ⟨_, List.mem_singleton.mp h⟩
  | opening | closing => exact absurd h List.not_mem_nil

end

namespace Condition

/-! ### The questions of a description -/

/-- **The questions of a description:** those about the tokens, from left to right, and last the
one for the sentence. -/
def questions (c : Condition) (user : UserId) (negate : Bool) : List Call :=
  c.tree.tokens.flatMap (Token.questions user) ++
    [.phrase component (Phrase.required c.scope negate).name ["condition"]]

/-- The text of a condition has tokens, and they are those of its formula. -/
theorem exists_lexemes (c : Condition) :
    ∃ ls, lexemes c.limits c.formula = .ok ls ∧ ls.map Lexeme.token = c.tree.tokens := by
  obtain ⟨hsize, ls, hls, -⟩ := Formula.parse_eq_ok_iff.mp c.reads
  refine ⟨ls, Scan.lexemes_eq_ok_iff.mpr ⟨hsize, hls⟩, ?_⟩
  obtain ⟨-, ps, hps, rfl⟩ := hls
  rw [Formula.tokens_of_parse c.reads hps]

/-- **The sentence of a description:** its name, and how it reads in English. -/
inductive Sentence : Scope → Bool → String → String → Prop
  | sections : Sentence .courseSection false "description_previous_sections_required"
      "The following sections must be completed: \x7bcondition\x7d"
  | noSections : Sentence .courseSection true "description_previous_sections_required_not"
      "The following sections must not be completed: \x7bcondition\x7d"
  | rooms : Sentence .room false "description_previous_rooms_required"
      "The following rooms must be completed: \x7bcondition\x7d"
  | noRooms : Sentence .room true "description_previous_rooms_required_not"
      "The following rooms must not be completed: \x7bcondition\x7d"

theorem sentence_required (scope : Scope) (negate : Bool) : Sentence scope negate
    (Phrase.required scope negate).name (Phrase.required scope negate).english := by
  cases scope <;> cases negate <;> constructor

/-- **What a description comes to.** -/
inductive Describes {σ : Type} (host : Host σ) (catalog : Catalog) (user : UserId) (negate : Bool)
    (c : Condition) (s : σ) : EStateM.Result ConditionError σ String → Prop
  /-- Every question is answered, and what is told is the sentence that was set in the catalog, or
  else the English one, with the condition as it is shown in each of its places. -/
  | told {name english shown text : String} {parts : List (List Char)} {t u : σ}
      (hsentence : Sentence c.scope negate name english)
      (hasked : host.Asked s (c.questions user negate) none u)
      (hshown : render host user c.limits c.formula s = .ok shown t)
      (hparts : Text.Splits (Template.place "condition")
        ((catalog.overrides.get? name).getD english).toList parts)
      (htext : text.toList = shown.toList.intercalate parts) :
      Describes host catalog user negate c s (.ok text u)
  /-- The first question that fails is about a section, and the description fails with that. -/
  | failed {q : Call} {e : ServiceError} {id : SectionId} {t : σ}
      (hasked : host.Asked s (c.questions user negate) (some (q, e)) t)
      (hid : id ∈ c.tree.atoms) (hq : q = .completion id user ∨ q = .sectionName id) :
      Describes host catalog user negate c s (.error (.service e) t)

section

variable {σ : Type} {host : Host σ} {catalog : Catalog} {user : UserId} {s t : σ}

/-- A question of a description is about a section or about a phrase. -/
theorem questions_cases {c : Condition} {negate : Bool} {q : Call}
    (h : q ∈ c.questions user negate) :
    (∃ id ∈ c.tree.atoms, q = .completion id user ∨ q = .sectionName id) ∨
      ∃ (p : Phrase) (places : List String), q = .phrase component p.name places := by
  rcases List.mem_append.mp h with h | h
  · obtain ⟨m, hm, hq⟩ := List.mem_flatMap.mp h
    rcases Token.questions_cases hq with ⟨id, hid, hq⟩ | ⟨p, hq⟩
    · refine .inl ⟨id, ?_, hq⟩
      rw [← Formula.filterMap_atom?_tokens]
      exact List.mem_filterMap.mpr ⟨m, hm, hid⟩
    · exact .inr ⟨p, [], hq⟩
  · exact .inr ⟨_, _, List.mem_singleton.mp h⟩

/-- One that fails is about a section. -/
theorem atom_of_question (hserves : host.Serves catalog) {c : Condition} {negate : Bool} {q : Call}
    {e : ServiceError} (hq : q ∈ c.questions user negate) (h : host.Answered s q (some e) t) :
    ∃ id ∈ c.tree.atoms, q = .completion id user ∨ q = .sectionName id := by
  rcases questions_cases hq with hatom | ⟨p, places, rfl⟩
  · exact hatom
  · exact absurd (hserves.answered h) (Option.some_ne_none e)

theorem render_of_segmentsOnto_ok {limits : Limits} {text : String} {ls : List Lexeme}
    {done : Array Segment} (hls : lexemes limits text = .ok ls)
    (h : Rendering.segmentsOnto host user #[] ls s = .ok done t) :
    render host user limits text s = .ok (Rendering.markup done.toList) t := by
  refine map_eq_ok_iff.mpr ⟨done.toList, ?_, rfl⟩
  simp only [segments, hls, h]

theorem render_of_segmentsOnto_error {limits : Limits} {text : String} {ls : List Lexeme}
    {e : ServiceError} (hls : lexemes limits text = .ok ls)
    (h : Rendering.segmentsOnto host user #[] ls s = .error e t) :
    render host user limits text s = .error (.service e) t := by
  refine map_eq_error_iff.mpr ?_
  simp only [segments, hls, h]

/-- **A description comes to one of the two.** -/
theorem describe_describes (hserves : host.Serves catalog) (c : Condition) (user : UserId)
    (negate full : Bool) (s : σ) :
    Describes host catalog user negate c s (c.describe host user negate full s) := by
  obtain ⟨ls, hls, htokens⟩ := c.exists_lexemes
  have hfollows := Rendering.segmentsOnto_follows host user #[] ls s
  rw [htokens] at hfollows
  cases hrun : Rendering.segmentsOnto host user #[] ls s with
  | error e t =>
      rw [hrun] at hfollows
      obtain ⟨q, hq⟩ := hfollows
      have hasked : host.Asked s (c.questions user negate) (some (q, e)) t :=
        hq.append_of_failed _
      obtain ⟨hmem, u, hanswered⟩ := hasked.failure_mem
      obtain ⟨id, hid, habout⟩ := atom_of_question hserves hmem hanswered
      rw [describe, render_of_segmentsOnto_error hls hrun]
      exact .failed hasked hid habout
  | ok done t =>
      rw [hrun] at hfollows
      have hrender := render_of_segmentsOnto_ok hls hrun
      obtain ⟨parts, hparts⟩ := Text.exists_splits '\x7b' ("condition".toList ++ ['\x7d'])
        (catalog.ofPhrase (.required c.scope negate)).toList
      have hlast := host.phrase_follows component (Phrase.required c.scope negate).name
        [("condition", Rendering.markup done.toList)] t
      obtain ⟨u, hu⟩ := hserves component (Phrase.required c.scope negate).name
        [("condition", Rendering.markup done.toList)] t
      rw [Catalog.lookup_phrase] at hu
      rw [hu] at hlast
      rw [describe, hrender]
      simp only [hu]
      exact .told (sentence_required c.scope negate) (Host.Asked.append hfollows hlast) hrender
        hparts (Template.toList_substitute hparts _)

end

end Condition

/-! ### Hosts that are functions -/

/-- The journal after some questions. -/
def Journal.asked (j : Journal) (qs : List Call) : Journal := qs.foldl Journal.call j

/-- What a question fails with, where that is a function.  Phrases are left out, for they come from
a catalog. -/
def Answers.failure? (a : Answers) : Call → Option ServiceError
  | .completion id user => failureOf? (Condition.counted (a.completed id user))
  | .sectionName id => failureOf? (a.sectionName id)
  | .newId restore kind old => failureOf? (a.newId restore kind old)
  | .phrase _ _ _ => none

namespace Condition

variable {a : Answers} {catalog : Catalog} {user : UserId} {j j' : Journal}

theorem mem_questions {c : Condition} {id : SectionId} (hid : id ∈ c.tree.atoms) (user : UserId)
    (negate : Bool) : .completion id user ∈ c.questions user negate ∧
      .sectionName id ∈ c.questions user negate := by
  rw [← Formula.filterMap_atom?_tokens] at hid
  obtain ⟨m, hm, hatom⟩ := List.mem_filterMap.mp hid
  obtain rfl : m = .atom id := by
    cases m with
    | atom id' => exact congrArg Token.atom (Option.some.inj hatom)
    | and | or | not | opening | closing => exact absurd hatom (by simp [Token.atom?])
  have hquestions : ∀ q ∈ Token.questions user (.atom id), q ∈ c.questions user negate :=
    fun q hq => List.mem_append_left _ (List.mem_flatMap.mpr ⟨_, hm, hq⟩)
  exact ⟨hquestions _ (by simp [Token.questions]), hquestions _ (by simp [Token.questions])⟩

/-- The answer to a question is noted, and what it fails with is a function of the question. -/
theorem failure_of_answered (hserves : a.host.Serves catalog) {q : Call} {c : Condition}
    {negate : Bool} {failure : Option ServiceError} (hq : q ∈ c.questions user negate)
    (h : a.host.Answered j q failure j') : failure = a.failure? q ∧ j' = j.call q := by
  have hphrase : ∀ owner name places, q = .phrase owner name places → failure = none := by
    rintro owner name places rfl
    rcases questions_cases hq with ⟨id, -, hid⟩ | ⟨p, places, hp⟩
    · exact absurd hid (by simp)
    · rw [hp] at h
      exact hserves.answered h
  cases h with
  | completion h | sectionName h | newId h =>
      obtain ⟨rfl, rfl⟩ := answering_inj (h.symm.trans (Answers.reply_eq _ _ j))
      exact ⟨rfl, rfl⟩
  | phrase h =>
      obtain ⟨-, hj⟩ := answering_inj (h.symm.trans (Answers.reply_eq _ _ j))
      exact ⟨hphrase _ _ _ rfl, hj⟩

/-- **Questions to such a host are gone through as far as the first failure,** and the journal has
those questions. -/
theorem journal_of_asked {qs : List Call} {failure : Option (Call × ServiceError)}
    (hanswered : ∀ q ∈ qs, ∀ j f j', a.host.Answered j q f j' → f = a.failure? q ∧ j' = j.call q)
    (h : a.host.Asked j qs failure j') :
    match failure with
    | none => (∀ q ∈ qs, a.failure? q = none) ∧ j' = j.asked qs
    | some (q, e) => ∃ before after, qs = before ++ q :: after ∧
        (∀ p ∈ before, a.failure? p = none) ∧ a.failure? q = some e ∧
        j' = j.asked (before ++ [q]) := by
  induction h with
  | nil => exact ⟨fun q hq => absurd hq List.not_mem_nil, rfl⟩
  | @further _ _ _ q qs failure h _ ih =>
      obtain ⟨hnone, rfl⟩ := hanswered q List.mem_cons_self _ _ _ h
      have hrest := ih fun p hp => hanswered p (List.mem_cons_of_mem q hp)
      cases failure with
      | none =>
          obtain ⟨hall, rfl⟩ := hrest
          exact ⟨List.forall_mem_cons.mpr ⟨hnone.symm, hall⟩, rfl⟩
      | some p =>
          obtain ⟨before, after, rfl, hbefore, hp, rfl⟩ := hrest
          exact ⟨q :: before, after, rfl, List.forall_mem_cons.mpr ⟨hnone.symm, hbefore⟩, hp, rfl⟩
  | @failed _ _ q qs e h =>
      obtain ⟨he, rfl⟩ := hanswered q List.mem_cons_self _ _ _ h
      exact ⟨[], qs, rfl, fun p hp => absurd hp List.not_mem_nil, he.symm, rfl⟩

theorem failureOf?_eq_none_iff {α : Type} {x : Except ServiceError α} :
    failureOf? x = none ↔ ∃ v, x = .ok v := by
  cases x with
  | ok v => simp [failureOf?]
  | error e => simp [failureOf?]

/-- An answer about completion is no failure if it says something, or that the user is not
enrolled. -/
theorem failureOf?_counted_eq_none_iff {x : Except ServiceError Bool} :
    failureOf? (counted x) = none ↔ (∃ b, x = .ok b) ∨ ∃ u, x = .error (.notEnrolled u) := by
  cases x with
  | ok b => simp [counted, failureOf?]
  | error e => cases e <;> simp [counted, failureOf?]

section

variable (hserves : a.host.Serves catalog) {c : Condition} {negate full : Bool}

include hserves

theorem journal_of_describe_error {x : ConditionError}
    (h : c.describe a.host user negate full j = .error x j') :
    ∃ before q after e, c.questions user negate = before ++ q :: after ∧
      (∀ p ∈ before, a.failure? p = none) ∧ a.failure? q = some e ∧ x = .service e ∧
      j' = j.asked (before ++ [q]) := by
  have hdescribes := describe_describes hserves c user negate full j
  rw [h] at hdescribes
  cases hdescribes with
  | @failed q e id _ hasked _ _ =>
      obtain ⟨before, after, hqs, hbefore, hq, hj⟩ :=
        journal_of_asked (fun q hq _ _ _ => failure_of_answered hserves hq) hasked
      exact ⟨before, q, after, e, hqs, hbefore, hq, rfl, hj⟩

/-- A description is told just if nothing that is asked about a section fails. -/
theorem describe_eq_ok_iff :
    (∃ text j', c.describe a.host user negate full j = .ok text j') ↔
      ∀ id ∈ c.tree.atoms, a.failure? (.completion id user) = none ∧
        a.failure? (.sectionName id) = none := by
  have hdescribes := describe_describes hserves c user negate full j
  constructor
  · rintro ⟨text, j', h⟩ id hid
    rw [h] at hdescribes
    cases hdescribes with
    | told _ hasked =>
        obtain ⟨hall, -⟩ :=
          journal_of_asked (fun q hq _ _ _ => failure_of_answered hserves hq) hasked
        obtain ⟨hcompletion, hname⟩ := mem_questions hid user negate
        exact ⟨hall _ hcompletion, hall _ hname⟩
  · intro hall
    generalize c.describe a.host user negate full j = result at hdescribes
    cases hdescribes with
    | @told _ _ _ text _ _ u => exact ⟨text, u, rfl⟩
    | @failed q e id u hasked hid hq =>
        obtain ⟨_, _, -, -, hfails, -⟩ :=
          journal_of_asked (fun q hq _ _ _ => failure_of_answered hserves hq) hasked
        obtain ⟨hcompletion, hname⟩ := hall id hid
        rcases hq with rfl | rfl
        · exact absurd (hfails.symm.trans hcompletion) (Option.some_ne_none e)
        · exact absurd (hfails.symm.trans hname) (Option.some_ne_none e)

end

/--
**A description fails only with what the host fails with about a section.**

Its questions are about the tokens of the text, in order.  Whatever else the host does, as long as
its phrases come from a catalog: either every question is answered and the sentence of the catalog
is told, with the condition as it is shown in each of its places; or the first question that fails
is about a section, nothing is asked behind it, and its failure is what the caller is told.

Where the answers are functions, the first is the case just if about every section the completion is
known, or the user is not enrolled, and the name is known.
-/
theorem description_fails_only_by_host (c : Condition) (user : UserId) (catalog : Catalog)
    (negate full : Bool) :
    (∃ ls, lexemes c.limits c.formula = .ok ls ∧ ls.map Lexeme.token = c.tree.tokens ∧
      c.tree.tokens.filterMap Token.atom? = c.tree.atoms) ∧
    (∀ {σ : Type} (host : Host σ), host.Serves catalog → ∀ s,
      Describes host catalog user negate c s (c.describe host user negate full s)) ∧
    ∀ a : Answers, a.phrase = catalog.lookup → ∀ j,
      ((∃ text j', c.describe a.host user negate full j = .ok text j') ↔
        ∀ id ∈ c.tree.atoms, ((∃ b, a.completed id user = .ok b) ∨
          ∃ u, a.completed id user = .error (.notEnrolled u)) ∧
          ∃ name, a.sectionName id = .ok name) ∧
      ∀ x j', c.describe a.host user negate full j = .error x j' →
        ∃ before q after e, c.questions user negate = before ++ q :: after ∧
          (∀ p ∈ before, a.failure? p = none) ∧ a.failure? q = some e ∧
          x = .service e ∧ j' = j.asked (before ++ [q]) := by
  refine ⟨?_, fun host hserves s => describe_describes hserves c user negate full s, ?_⟩
  · obtain ⟨ls, hls, htokens⟩ := c.exists_lexemes
    exact ⟨ls, hls, htokens, c.tree.filterMap_atom?_tokens⟩
  intro a hphrase j
  have hserves : a.host.Serves catalog := by
    intro owner name args j
    rw [← hphrase]
    exact ⟨_, Answers.reply_eq _ (a.phrase owner name args) j⟩
  refine ⟨?_, fun x j' h => journal_of_describe_error hserves h⟩
  rw [describe_eq_ok_iff hserves]
  refine forall₂_congr fun id _ => and_congr ?_ ?_
  · exact failureOf?_counted_eq_none_iff
  · exact failureOf?_eq_none_iff

/-- A catalog with a sentence and a word of its own. -/
def ownWords : Catalog :=
  ⟨(Table.empty.insert "description_previous_rooms_required" "Do \x7bcondition\x7d!").insert
    "condition_operator_pretty_or" "or else"⟩

/-- A host with that catalog, where a user is not enrolled for the second section and only some
sections have names. -/
def naming (named : List SectionId) : Answers where
  completed id user := if id = ⟨2⟩ then .error (.notEnrolled user) else .ok true
  sectionName id := if id ∈ named then .ok "Intro" else .error (.storage "no name")
  phrase := ownWords.lookup
  newId _ _ _ := .ok none
  dependency := .missing
  time := 0

/-- A description of `1v!2` is told in the words of the catalog.  If the second section has no name,
it fails with that, behind all there is to ask about the first one, and asks nothing more. -/
theorem description_fails_only_by_host_of_unnamed_section :
    ∃ c : Condition, c.formula = "1v!2" ∧
      (∃ (text shown : String) (parts : List (List Char)) (j j' : Journal),
        c.describe (naming [⟨1⟩, ⟨2⟩]).host ⟨5⟩ false false .empty = .ok text j' ∧
        render (naming [⟨1⟩, ⟨2⟩]).host ⟨5⟩ c.limits c.formula .empty = .ok shown j ∧
        Text.Splits (Template.place "condition") "Do \x7bcondition\x7d!".toList parts ∧
        text.toList = shown.toList.intercalate parts) ∧
      ∃ j, c.describe (naming [⟨1⟩]).host ⟨5⟩ false false .empty =
          .error (.service (.storage "no name")) j ∧
        j.calls = #[.completion ⟨1⟩ ⟨5⟩, .sectionName ⟨1⟩,
          .phrase component "condition_operator_pretty_or" [],
          .phrase component "condition_operator_pretty_not" [],
          .completion ⟨2⟩ ⟨5⟩, .sectionName ⟨2⟩] ∧
        ∃ before q after, c.questions ⟨5⟩ false = before ++ q :: after ∧
          (∀ p ∈ before, (naming [⟨1⟩]).failure? p = none) ∧
          (naming [⟨1⟩]).failure? q = some (.storage "no name") ∧
          j = Journal.empty.asked (before ++ [q]) := by
  have hread : Formula.parse ⟨9, 2⟩ "1v!2" = .ok (.disj [.atom ⟨1⟩, .neg (.atom ⟨2⟩)]) := by cbv
  have hls : lexemes ⟨9, 2⟩ "1v!2" = .ok [⟨.atom ⟨1⟩, ['1'], 0⟩, ⟨.or, ['v'], 1⟩,
      ⟨.not, ['!'], 2⟩, ⟨.atom ⟨2⟩, ['2'], 3⟩] := by cbv
  let c : Condition := ⟨.room, "1v!2", _, ⟨9, 2⟩, hread⟩
  obtain ⟨-, hdescribes, hanswers⟩ := description_fails_only_by_host c ⟨5⟩ ownWords false false
  refine ⟨c, rfl, ?told, ?failed⟩
  case told =>
    have hserves : (naming [⟨1⟩, ⟨2⟩]).host.Serves ownWords := fun owner name args j =>
      ⟨_, Answers.reply_eq _ (ownWords.lookup owner name args) j⟩
    have hanswered : ∀ id ∈ c.tree.atoms,
        ((∃ b, (naming [⟨1⟩, ⟨2⟩]).completed id ⟨5⟩ = .ok b) ∨
          ∃ u, (naming [⟨1⟩, ⟨2⟩]).completed id ⟨5⟩ = .error (.notEnrolled u)) ∧
        ∃ name, (naming [⟨1⟩, ⟨2⟩]).sectionName id = .ok name := by
      intro id hid
      rcases List.mem_pair.mp hid with rfl | rfl
      · exact ⟨.inl ⟨true, rfl⟩, "Intro", rfl⟩
      · exact ⟨.inr ⟨⟨5⟩, rfl⟩, "Intro", rfl⟩
    obtain ⟨text, j, htold⟩ := (hanswers (naming [⟨1⟩, ⟨2⟩]) rfl .empty).1.mpr hanswered
    have hdescribed := hdescribes _ hserves .empty
    rw [htold] at hdescribed
    cases hdescribed with
    | told hsentence _ hshown hparts htext =>
        cases hsentence
        exact ⟨text, _, _, _, j, htold, hshown, hparts, htext⟩
  case failed =>
    have hfailed : c.describe (naming [⟨1⟩]).host ⟨5⟩ false false .empty =
        .error (.service (.storage "no name")) ⟨#[.completion ⟨1⟩ ⟨5⟩, .sectionName ⟨1⟩,
          .phrase component "condition_operator_pretty_or" [],
          .phrase component "condition_operator_pretty_not" [],
          .completion ⟨2⟩ ⟨5⟩, .sectionName ⟨2⟩], #[]⟩ := by
      rw [describe, render_of_segmentsOnto_error hls rfl]
      rfl
    obtain ⟨before, q, after, e, hquestions, hbefore, hfails, he, hj⟩ :=
      (hanswers (naming [⟨1⟩]) rfl .empty).2 _ _ hfailed
    obtain rfl : e = .storage "no name" := by injection he with he; exact he.symm
    exact ⟨_, hfailed, rfl, before, q, after, hquestions, hbefore, hfails, hj⟩

end Condition
end Prerequisite
