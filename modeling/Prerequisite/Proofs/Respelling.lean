/-
Remapping touches ids only.

A text with atoms is what stands in front of the first atom, the first atom, what stands between it
and the second, and so on (`weave`).  What stands between them is the text between the end of one
lexeme and the beginning of the next (`Gaps`).  A remapping keeps these parts and writes the new ids
where the old ones stood, each in the shortest way.

So the text changes exactly if an id is written in another way than its new one.  An id that stays
what it is can be written in another way too, with zeros in front.
-/
import Prerequisite.Proofs.Formula.Tokenizing
import Prerequisite.Proofs.Remap

namespace Prerequisite

namespace Remap

open Scan

/-- The lexemes that are ids. -/
def atoms (ls : List Lexeme) : List Lexeme := ls.filter fun l => l.token.atom?.isSome

/-- The ids, in the order of the text. -/
def ids (ls : List Lexeme) : List SectionId := ls.filterMap fun l => l.token.atom?

/-- Parts of a text with something else between each and the next. -/
def weave : List (List Char) → List (List Char) → List Char
  | [], _ => []
  | gap :: _, [] => gap
  | gap :: gaps, x :: xs => gap ++ x ++ weave gaps xs

/-- **The parts of a text that stand between lexemes,** from an offset on.  There is no digit in
them. -/
inductive Gaps (text : String) : Nat → List Lexeme → List (List Char) → Prop
  | last {p : Nat} {gap : List Char}
      (h : Text.slice? text p (Text.bytes text).length = some (String.ofList gap))
      (plain : ∀ c ∈ gap, c.isDigit = false) : Gaps text p [] [gap]
  | before {p : Nat} {l : Lexeme} {ls : List Lexeme} {gap : List Char} {gaps : List (List Char)}
      (h : Text.slice? text p l.position = some (String.ofList gap))
      (plain : ∀ c ∈ gap, c.isDigit = false) (hrest : Gaps text l.stop ls gaps) :
      Gaps text p (l :: ls) (gap :: gaps)

/-- **A text has new ids, and all else is what it was.** -/
def Spliced (text : String) (ls : List Lexeme) (news : List SectionId) (out : String) : Prop :=
  ∃ gaps, Gaps text 0 (atoms ls) gaps ∧
    text.toList = weave gaps ((atoms ls).map Lexeme.source) ∧
    out.toList = weave gaps (news.map SectionId.digits)

/-! ### The parts that are kept -/

@[simp] theorem atoms_nil : atoms [] = [] := rfl

theorem atoms_mark {c : Char} {t : Token} (h : Token.ofChar? c = some t) (p : Nat)
    (ls : List Lexeme) : atoms (⟨t, [c], p⟩ :: ls) = atoms ls := by
  rw [atoms, List.filter_cons_of_neg (by rw [atom?_of_ofChar? h]; decide)]
  rfl

@[simp] theorem atoms_run (id : SectionId) (ds : List Char) (p : Nat) (ls : List Lexeme) :
    atoms (⟨.atom id, ds, p⟩ :: ls) = ⟨.atom id, ds, p⟩ :: atoms ls := rfl

/-- **A text that is cut consists of its ids and what stands between them,** and so does the text
with new ids. -/
theorem gaps_of_cuts {text : String} {p : Nat} {rest : List Char} {ps : List Piece}
    (h : Cuts p rest ps) :
    ∀ front gap : List Char, text.toList = front ++ gap ++ rest →
      Text.byteSize (front ++ gap) = p → (∀ c ∈ gap, c.isDigit = false) →
      ∃ gaps, Gaps text (Text.byteSize front) (atoms (ps.filterMap Piece.lexeme?)) gaps ∧
        gap ++ rest =
          weave gaps ((atoms (ps.filterMap Piece.lexeme?)).map Lexeme.source) ∧
        ∀ news : List SectionId, news.length = (ps.filterMap Piece.id?).length →
          gap ++ reword news rest = weave gaps (news.map SectionId.digits) := by
  -- A character that is no digit goes to the part that was begun.
  have hgrow : ∀ {gap : List Char} {c : Char}, (∀ x ∈ gap, x.isDigit = false) →
      ¬c.isDigit = true → ∀ x ∈ gap ++ [c], x.isDigit = false := by
    intro gap c hplain hc x hx
    rcases List.mem_append.mp hx with hx | hx
    · exact hplain x hx
    · rw [List.mem_singleton.mp hx]
      simpa using hc
  induction h with
  | nil =>
      intro front gap htext hp hplain
      have hslice := Text.slice?_of_append htext
      rw [← Text.byteSize_append, ← List.append_nil (front ++ gap), ← htext,
        ← Text.length_bytes] at hslice
      refine ⟨[gap], .last hslice hplain, List.append_nil gap, fun news hlen => ?_⟩
      obtain rfl : news = [] := List.length_eq_zero_iff.mp hlen
      rw [reword, List.append_nil]
      rfl
  | @blank p c rest ps hc h ih =>
      intro front gap htext hp hplain
      have hdigit : ¬c.isDigit = true := fun hd => not_mem_blanks_of_isDigit hd hc
      obtain ⟨gaps, hgaps, hold, hnew⟩ := ih front (gap ++ [c]) (by simp [htext])
        (by rw [← List.append_assoc, Text.byteSize_append, hp, byteSize_singleton])
        (hgrow hplain hdigit)
      rw [lexemes_blank]
      refine ⟨gaps, hgaps, by rw [← hold, List.append_assoc]; rfl, fun news hlen => ?_⟩
      rw [reword_other hdigit, ← hnew news hlen, List.append_assoc]
      rfl
  | @mark p c t rest ps hc h ih =>
      intro front gap htext hp hplain
      have hdigit := not_isDigit_of_ofChar? hc
      obtain ⟨gaps, hgaps, hold, hnew⟩ := ih front (gap ++ [c]) (by simp [htext])
        (by rw [← List.append_assoc, Text.byteSize_append, hp, byteSize_singleton])
        (hgrow hplain hdigit)
      rw [lexemes_lexeme, atoms_mark hc, ids_mark hc]
      refine ⟨gaps, hgaps, by rw [← hold, List.append_assoc]; rfl, fun news hlen => ?_⟩
      rw [reword_other hdigit, ← hnew news hlen, List.append_assoc]
      rfl
  | @run p ds rest id ps hne hd hrest hval h ih =>
      intro front gap htext hp hplain
      have hslice := Text.slice?_of_append htext
      rw [← Text.byteSize_append, hp] at hslice
      have hstop : Text.byteSize (front ++ gap ++ ds) = p + Text.byteSize ds := by
        rw [Text.byteSize_append, hp]
      obtain ⟨gaps, hgaps, hold, hnew⟩ := ih (front ++ gap ++ ds) [] (by simp [htext])
        (by rw [List.append_nil, hstop]) (by simp)
      rw [hstop] at hgaps
      rw [lexemes_lexeme, atoms_run, ids_run]
      refine ⟨gap :: gaps, .before hslice hplain hgaps, ?_, fun news hlen => ?_⟩
      · rw [List.map_cons, weave, ← hold, List.nil_append, List.append_assoc]
      · obtain ⟨new, news, rfl⟩ := List.exists_cons_of_length_eq_add_one hlen
        rw [reword_run hne hd hrest, List.map_cons, weave, ← hnew news (Nat.succ.inj hlen),
          List.nil_append, List.append_assoc]

/-- **A text stays what it is exactly if its ids are written like the new ones.** -/
theorem reword_eq_iff {p : Nat} {text : List Char} {ps : List Piece} (h : Cuts p text ps) :
    ∀ news : List SectionId, news.length = (ps.filterMap Piece.id?).length →
      (reword news text = text ↔
        (atoms (ps.filterMap Piece.lexeme?)).map Lexeme.source = news.map SectionId.digits) := by
  induction h with
  | nil =>
      intro news hlen
      obtain rfl : news = [] := List.length_eq_zero_iff.mp hlen
      rw [reword]
      simp
  | @blank p c rest ps hc h ih =>
      intro news hlen
      rw [reword_other fun hd => not_mem_blanks_of_isDigit hd hc, List.cons_eq_cons,
        and_iff_right rfl, ih news hlen, lexemes_blank]
  | @mark p c t rest ps hc h ih =>
      intro news hlen
      rw [ids_mark hc] at hlen
      rw [reword_other (not_isDigit_of_ofChar? hc), List.cons_eq_cons, and_iff_right rfl,
        ih news hlen, lexemes_lexeme, atoms_mark hc]
  | @run p ds rest id ps hne hd hrest hval h ih =>
      intro news hlen
      rw [ids_run] at hlen
      obtain ⟨new, news, rfl⟩ := List.exists_cons_of_length_eq_add_one hlen
      rw [reword_run hne hd hrest, lexemes_lexeme, atoms_run, List.map_cons, List.map_cons,
        List.cons_eq_cons, ← ih news (Nat.succ.inj hlen)]
      constructor
      · intro heq
        have hds := takeWhile_run hd hrest
        rw [← heq, takeWhile_run (fun c hc => SectionId.isDigit_of_mem_digits hc)
          (hrest.reword news)] at hds
        subst hds
        exact ⟨rfl, List.append_cancel_left heq⟩
      · rintro ⟨rfl, heq⟩
        rw [heq]

/-! ### The text where ids are renamed -/

/-- **What has become of a text whose ids were renamed.** -/
structure Renamed (new : SectionId → SectionId) (text : String) (ls : List Lexeme)
    (out : Remapped) : Prop where
  /-- It has the renamed tokens under all limits that admit it. -/
  tokens : ∀ limits : Limits, Text.byteSize out.formula.toList ≤ limits.maxBytes →
    ∃ ls', lexemes limits out.formula = .ok ls' ∧
      ls'.map Lexeme.token = (ls.map Lexeme.token).map (Token.rename new)
  /-- Under limits that admit both it is read if the text is, as the renamed formula. -/
  read : ∀ limits : Limits, Text.byteSize text.toList ≤ limits.maxBytes →
    Text.byteSize out.formula.toList ≤ limits.maxBytes → ∀ g,
      Formula.parse limits out.formula = .ok g ↔
        ∃ f, Formula.parse limits text = .ok f ∧ g = f.rename new
  /-- It is another text exactly if some id was written in another way than the new one is. -/
  changed : out.changed = true ↔
    ∃ l ∈ ls, ∃ id, l.token = .atom id ∧ l.source ≠ (new id).digits
  /-- If all ids stay what they are, it is another text exactly if some id was written with a zero
  too many in front. -/
  zeros : (∀ id ∈ ids ls, new id = id) →
    (out.changed = true ↔
      ∃ l ∈ ls, ∃ id, l.token = .atom id ∧ ∃ d ds, l.source = '0' :: d :: ds)

theorem ids_lexemes (ps : List Piece) :
    ids (ps.filterMap Piece.lexeme?) = ps.filterMap Piece.id? := by
  rw [ids, List.filterMap_filterMap]
  rfl

theorem sources_eq_iff (new : SectionId → SectionId) (ls : List Lexeme) :
    (atoms ls).map Lexeme.source = ((ids ls).map new).map SectionId.digits ↔
      ∀ l ∈ ls, ∀ id, l.token = .atom id → l.source = (new id).digits := by
  induction ls with
  | nil => simp [ids]
  | cons l ls ih =>
      obtain ⟨token, source, position⟩ := l
      rw [List.forall_mem_cons, ← ih]
      cases token with
      | atom id =>
          have hids : ids (⟨.atom id, source, position⟩ :: ls) = id :: ids ls := rfl
          simp [hids]
      | and | or | not | opening | closing => simp [atoms, ids, Token.atom?]

/-- An id is not written in the shortest way if a zero stands in front of another digit. -/
theorem source_ne_digits_iff {cs : List Char} {id : SectionId} (h : Denotes cs (.atom id)) :
    cs ≠ id.digits ↔ ∃ d ds, cs = '0' :: d :: ds := by
  cases h with
  | atom hne hd hval =>
      rw [SectionId.digits, ← hval, Decimal.toDigits_run hne hd, Decimal.dropZeros_ne_iff]

section

variable {new : SectionId → SectionId} {text : String} {ps : List Piece} {out : Remapped}

theorem tokens_of_renamed (hps : Cuts 0 text.toList ps) (hne : ps.filterMap Piece.lexeme? ≠ [])
    (hout : out.formula.toList = ps.flatMap (Piece.renamed new)) {limits : Limits}
    (hsize : Text.byteSize out.formula.toList ≤ limits.maxBytes) :
    ∃ ls, lexemes limits out.formula = .ok ls ∧ ls.map Lexeme.token =
      ((ps.filterMap Piece.lexeme?).map Lexeme.token).map (Token.rename new) := by
  obtain ⟨qs, hqs, htokens⟩ := cuts_rename new hps 0
  rw [← hout] at hqs
  have hne' : qs.filterMap Piece.lexeme? ≠ [] := by
    intro hnil
    rw [hnil] at htokens
    exact hne (List.map_eq_nil_iff.mp (List.map_eq_nil_iff.mp htokens.symm))
  exact ⟨_, lexemes_eq_ok_iff.mpr ⟨hsize, hne', qs, hqs, rfl⟩, htokens⟩

/-- **A text with renamed ids is read if and only if the text is.** -/
theorem read_of_renamed (hps : Cuts 0 text.toList ps) (hne : ps.filterMap Piece.lexeme? ≠ [])
    (hout : out.formula.toList = ps.flatMap (Piece.renamed new)) {limits : Limits}
    (hold : Text.byteSize text.toList ≤ limits.maxBytes)
    (hnew : Text.byteSize out.formula.toList ≤ limits.maxBytes) (g : Formula) :
    Formula.parse limits out.formula = .ok g ↔
      ∃ f, Formula.parse limits text = .ok f ∧ g = f.rename new := by
  constructor
  · intro hg
    have hls := lexemes_eq_ok_iff.mpr ⟨hold, hne, ps, hps, rfl⟩
    obtain ⟨ls', hls', htokens⟩ := tokens_of_renamed hps hne hout hnew
    have hkinds : ls'.map (·.token.kind) = (ps.filterMap Piece.lexeme?).map (·.token.kind) := by
      have key := congrArg (List.map Token.kind) htokens
      simpa only [List.map_map, Function.comp_def, Token.kind_rename] using key
    obtain ⟨f, hf⟩ := Formula.exists_parse_of_kinds hls' hls hkinds hg
    exact ⟨f, hf, Formula.rename_of_parse_renamed hps hout hf hg⟩
  · rintro ⟨f, hf, rfl⟩
    have hdeep := ((Formula.parse_eq_ok_iff_normal hps).mp hf).2.1
    exact Formula.parse_renamed hps hout hf hnew hdeep

/-- **Renaming the ids of a text touches the ids and nothing else.** -/
theorem renamed_of_cuts (hps : Cuts 0 text.toList ps) (hne : ps.filterMap Piece.lexeme? ≠ [])
    (hout : out = ⟨newText ((ps.filterMap Piece.id?).map new) text,
      newText ((ps.filterMap Piece.id?).map new) text != text⟩) :
    Renamed new text (ps.filterMap Piece.lexeme?) out := by
  have hformula : out.formula.toList = ps.flatMap (Piece.renamed new) := by
    rw [hout, toList_newText, reword_map new hps]
  have hchanged : out.changed = true ↔ ∃ l ∈ ps.filterMap Piece.lexeme?, ∃ id,
      l.token = .atom id ∧ l.source ≠ (new id).digits := by
    have hkept := reword_eq_iff hps ((ps.filterMap Piece.id?).map new) (by simp)
    rw [← toList_newText, String.toList_inj, ← ids_lexemes, sources_eq_iff] at hkept
    rw [hout, bne_iff_ne, Ne, ← ids_lexemes, hkept]
    push Not
    rfl
  refine ⟨fun _ => tokens_of_renamed hps hne hformula,
    fun _ => read_of_renamed hps hne hformula, hchanged, fun hid => ?_⟩
  rw [hchanged]
  refine exists_congr fun l => and_congr_right fun hl => exists_congr fun id =>
    and_congr_right fun htoken => ?_
  obtain ⟨_, _, -, hstands⟩ := (Spans.of_cuts hps).stands l hl
  have hdenotes : Denotes l.source (.atom id) := htoken ▸ hstands.denotes
  rw [hid id (List.mem_filterMap.mpr ⟨l, hl, by rw [htoken]; rfl⟩), source_ne_digits_iff hdenotes]

end

/-! ### All outcomes -/

/-- **What a remapping of a text does,** from one state of a host to another.  It asks about the ids
of the text one after another and about nothing else. -/
inductive Course {σ : Type} (newId : NewIds σ) (limits : Limits) (text : String) (s : σ) :
    EStateM.Result ConditionError σ Remapped → Prop
  /-- A text without lexemes is an error, and nobody is asked. -/
  | unreadable {e : FormulaError} (h : lexemes limits text = .error e) :
      Course newId limits text s (.error (.invalidFormula e) s)
  /-- It stops at the first id that gets no new one. -/
  | refused {ls : List Lexeme} {before after news : List SectionId} {id : SectionId}
      {e : ConditionError} {t t' : σ} (h : lexemes limits text = .ok ls)
      (hids : ids ls = before ++ id :: after) (hg : Gives newId s before news t)
      (hno : Refuses newId id t e t') : Course newId limits text s (.error e t')
  /-- New ids stand where the old ones stood. -/
  | given {ls : List Lexeme} {news : List SectionId} {out : Remapped} {t : σ}
      (h : lexemes limits text = .ok ls) (hg : Gives newId s (ids ls) news t)
      (spliced : Spliced text ls news out.formula)
      (renamed : ∀ new : SectionId → SectionId, news = (ids ls).map new →
        Renamed new text ls out) : Course newId limits text s (.ok out t)

/-- **Every remapping goes like that,** whatever the text, the limits and the host. -/
theorem course_of_remap {σ : Type} (host : Host σ) (r : RestoreId) (limits : Limits)
    (text : String) (s : σ) :
    Course (host.newId r .courseSection) limits text s
      (remap (host.newId r .courseSection) limits text s) := by
  cases hpieces : Scan.pieces limits text.toList with
  | error e =>
      rw [remap_of_pieces_error hpieces]
      exact .unreadable (by rw [lexemes, hpieces]; rfl)
  | ok ps =>
      obtain ⟨-, hps, hne⟩ := pieces_eq_ok_iff.mp hpieces
      have hls := lexemes_of_pieces hpieces
      rcases gives_or_refuses (host.newId r .courseSection) (ps.filterMap Piece.id?) s with
        ⟨news, t, hg⟩ | ⟨before, id, after, news, t, e, t', hids, hg, hno⟩
      · rw [remap_of_gives hpieces hg]
        rw [← ids_lexemes] at hg
        obtain ⟨gaps, hgaps, hold, hnew⟩ := gaps_of_cuts hps [] [] rfl rfl (by simp)
        refine .given hls hg ⟨gaps, hgaps, hold, ?_⟩ ?_
        · rw [toList_newText]
          exact hnew news (by rw [hg.length, ids_lexemes])
        · rintro new rfl
          exact renamed_of_cuts hps hne (by rw [ids_lexemes])
      · rw [remap_of_refuses hpieces hids hg hno]
        exact .refused hls ((ids_lexemes ps).trans hids) hg hno

end Remap

end Prerequisite
