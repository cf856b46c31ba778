/-
New ids, from whatever host.

A host is asked about the ids of a text one after another, over its own state, and may answer the
same question differently the second time.  `Gives` says that it has given an id each time, and
which ones.  If it has not, there is a first id for which it did not (`gives_or_refuses`).

The new text is said here without pieces: `reword` goes through the characters and puts a numeral in
the place of every run of digits.  A remapping writes exactly that (`remap_of_gives`).  The new text
is cut where the old one was, so it has tokens of the same kinds, and is read as long as it is small
enough.
-/
import Prerequisite.Proofs.Formula.Kinds
import Prerequisite.Remap

namespace Prerequisite

/-- The id that a piece stands for, if it does. -/
def Piece.id? (p : Piece) : Option SectionId := p.lexeme?.bind fun l => l.token.atom?

namespace Remap

/-! ### Asking for ids one after another -/

section

variable {σ : Type} {newId : NewIds σ}

/-- **Asked about ids in order, a host gives new ones,** which takes it from one state to another.
-/
inductive Gives (newId : NewIds σ) : σ → List SectionId → List SectionId → σ → Prop
  | nil {s : σ} : Gives newId s [] [] s
  | cons {s s' t : σ} {id new : SectionId} {ids news : List SectionId}
      (h : newId id s = .ok (some new) s') (hrest : Gives newId s' ids news t) :
      Gives newId s (id :: ids) (new :: news) t

/-- Asked about one id, a host gives no new one, which is an error of the remapping. -/
inductive Refuses (newId : NewIds σ) (id : SectionId) (s : σ) : ConditionError → σ → Prop
  | unknown {t : σ} (h : newId id s = .ok none t) : Refuses newId id s (.unknownSection id) t
  | failed {e : ServiceError} {t : σ} (h : newId id s = .error e t) :
      Refuses newId id s (.service e) t

theorem Gives.length {s t : σ} {ids news : List SectionId} (h : Gives newId s ids news t) :
    news.length = ids.length := by
  induction h with
  | nil => rfl
  | cons _ _ ih => rw [List.length_cons, List.length_cons, ih]

/-- **A host gives new ids for all, or there is a first one for which it does not.** -/
theorem gives_or_refuses (newId : NewIds σ) (ids : List SectionId) :
    ∀ s, (∃ news t, Gives newId s ids news t) ∨
      ∃ before id after news t e t', ids = before ++ id :: after ∧
        Gives newId s before news t ∧ Refuses newId id t e t' := by
  induction ids with
  | nil => intro s; exact .inl ⟨[], s, .nil⟩
  | cons id ids ih =>
      intro s
      cases hid : newId id s with
      | error e s' => exact .inr ⟨[], id, ids, [], s, _, s', rfl, .nil, .failed hid⟩
      | ok answer s' =>
          cases answer with
          | none => exact .inr ⟨[], id, ids, [], s, _, s', rfl, .nil, .unknown hid⟩
          | some new =>
              rcases ih s' with ⟨news, t, h⟩ | ⟨before, id', after, news, t, e, t', rfl, h, hno⟩
              · exact .inl ⟨new :: news, t, .cons hid h⟩
              · exact .inr ⟨id :: before, id', after, new :: news, t, e, t', rfl, .cons hid h, hno⟩

end

end Remap

/-! ### The new text -/

namespace Scan

/-- **A text with other numerals in the places of its runs of digits,** one after another. -/
def reword (ids : List SectionId) (text : List Char) : List Char :=
  match ids, text with
  | [], text => text
  | _ :: _, [] => []
  | id :: ids, c :: rest =>
      if c.isDigit then id.digits ++ reword ids (rest.dropWhile Char.isDigit)
      else c :: reword (id :: ids) rest
termination_by text.length
decreasing_by
  · have := Text.length_dropWhile_le Char.isDigit rest
    simp only [List.length_cons]
    omega
  · simp

theorem reword_other {c : Char} (hc : ¬c.isDigit = true) (ids : List SectionId)
    (rest : List Char) : reword ids (c :: rest) = c :: reword ids rest := by
  cases ids with
  | nil => rw [reword, reword]
  | cons id ids => rw [reword, if_neg hc]

theorem reword_run {ds rest : List Char} (hne : ds ≠ []) (hd : ∀ c ∈ ds, c.isDigit = true)
    (hrest : NoDigit rest) (id : SectionId) (ids : List SectionId) :
    reword (id :: ids) (ds ++ rest) = id.digits ++ reword ids rest := by
  obtain ⟨c, ds, rfl⟩ := List.exists_cons_of_ne_nil hne
  have hds : ∀ x ∈ ds, x.isDigit = true := fun x hx => hd x (by simp [hx])
  rw [List.cons_append, reword, if_pos (hd c (by simp)), dropWhile_run hds hrest]

/-- What starts with no digit starts with none when it is reworded. -/
theorem NoDigit.reword {text : List Char} (h : NoDigit text) (ids : List SectionId) :
    NoDigit (reword ids text) := by
  cases text with
  | nil => cases ids <;> (rw [Scan.reword]; exact h)
  | cons c rest =>
      have hc : c.isDigit = false := h c (by simp)
      rw [reword_other (by simp [hc])]
      exact fun x hx => h x (by simpa using hx)

/-! ### What is written -/

@[simp] theorem ids_blank (c : Char) (ps : List Piece) :
    (Piece.blank c :: ps).filterMap Piece.id? = ps.filterMap Piece.id? := rfl

@[simp] theorem ids_run (id : SectionId) (ds : List Char) (p : Nat) (ps : List Piece) :
    (Piece.lexeme ⟨.atom id, ds, p⟩ :: ps).filterMap Piece.id? = id :: ps.filterMap Piece.id? := rfl

theorem atom?_of_ofChar? {c : Char} {t : Token} (h : Token.ofChar? c = some t) :
    t.atom? = none := by
  rcases ofChar?_cases h with ⟨-, rfl⟩ | ⟨-, rfl⟩ | ⟨-, rfl⟩ | ⟨-, rfl⟩ | ⟨-, rfl⟩ <;> rfl

theorem ids_mark {c : Char} {t : Token} (h : Token.ofChar? c = some t) (p : Nat)
    (ps : List Piece) :
    (Piece.lexeme ⟨t, [c], p⟩ :: ps).filterMap Piece.id? = ps.filterMap Piece.id? :=
  List.filterMap_cons_none (atom?_of_ofChar? h)

end Scan

namespace Remap

open Scan

variable {σ : Type} {newId : NewIds σ}

theorem piece_mark {c : Char} {t : Token} (h : Token.ofChar? c = some t) (p : Nat) (s : σ) :
    piece newId (.lexeme ⟨t, [c], p⟩) s = .ok [c] s := by
  rcases ofChar?_cases h with ⟨-, rfl⟩ | ⟨-, rfl⟩ | ⟨-, rfl⟩ | ⟨-, rfl⟩ | ⟨-, rfl⟩ <;> rfl

theorem piece_run {id new : SectionId} {s s' : σ} (h : newId id s = .ok (some new) s')
    (ds : List Char) (p : Nat) :
    piece newId (.lexeme ⟨.atom id, ds, p⟩) s = .ok new.digits s' := by
  simp only [piece, h]

theorem piece_run_of_refuses {id : SectionId} {s s' : σ} {e : ConditionError}
    (h : Refuses newId id s e s') (ds : List Char) (p : Nat) :
    piece newId (.lexeme ⟨.atom id, ds, p⟩) s = .error e s' := by
  cases h with
  | unknown h => simp only [piece, h]
  | failed h => simp only [piece, h]

theorem piecesOnto_cons {x : Piece} {cs : List Char} {s s' : σ}
    (h : piece newId x s = .ok cs s') (out : String) (ps : List Piece) :
    piecesOnto newId out (x :: ps) s = piecesOnto newId (Text.pushAll out cs) ps s' := by
  rw [piecesOnto, h]

/-- **Where all ids are given, the reworded text is written.** -/
theorem piecesOnto_of_gives {p : Nat} {text : List Char} {ps : List Piece} (h : Cuts p text ps) :
    ∀ {s t : σ} {news : List SectionId}, Gives newId s (ps.filterMap Piece.id?) news t →
      ∀ out, piecesOnto newId out ps s = .ok (Text.pushAll out (reword news text)) t := by
  induction h with
  | nil =>
      intro s t news hg out
      cases hg
      rw [piecesOnto, reword]
      rfl
  | @blank p c rest ps hc h ih =>
      intro s t news hg out
      rw [piecesOnto_cons rfl, ih hg, reword_other]
      · rfl
      · exact fun hd => not_mem_blanks_of_isDigit hd hc
  | @mark p c k rest ps hc h ih =>
      intro s t news hg out
      rw [ids_mark hc] at hg
      rw [piecesOnto_cons (piece_mark hc p s), ih hg, reword_other (not_isDigit_of_ofChar? hc)]
      rfl
  | @run p ds rest id ps hne hd hrest hval h ih =>
      intro s t news hg out
      rw [ids_run] at hg
      cases hg with
      | @cons _ s' _ _ new _ news hnew hg =>
          rw [piecesOnto_cons (piece_run hnew ds p), ih hg, reword_run hne hd hrest]
          exact congrArg (EStateM.Result.ok · t) (List.foldl_append).symm

/-- **Where an id is refused, nothing is written,** and the error says which. -/
theorem piecesOnto_of_refuses {p : Nat} {text : List Char} {ps : List Piece} (h : Cuts p text ps) :
    ∀ {s t t' : σ} {before after news : List SectionId} {id : SectionId} {e : ConditionError},
      ps.filterMap Piece.id? = before ++ id :: after → Gives newId s before news t →
      Refuses newId id t e t' → ∀ out, piecesOnto newId out ps s = .error e t' := by
  induction h with
  | nil => intro s t t' before after news id e hids; exact absurd hids (by simp)
  | @blank p c rest ps hc h ih =>
      intro s t t' before after news id e hids hg hno out
      rw [piecesOnto_cons rfl]
      exact ih hids hg hno _
  | @mark p c k rest ps hc h ih =>
      intro s t t' before after news id e hids hg hno out
      rw [ids_mark hc] at hids
      rw [piecesOnto_cons (piece_mark hc p s)]
      exact ih hids hg hno _
  | @run p ds rest first ps hne hd hrest hval h ih =>
      intro s t t' before after news id e hids hg hno out
      rw [ids_run] at hids
      cases hg with
      | nil =>
          obtain ⟨rfl, -⟩ := List.cons.inj hids
          rw [piecesOnto, piece_run_of_refuses hno]
      | @cons _ s' _ _ new before news hnew hg =>
          obtain ⟨rfl, hrest⟩ := List.cons.inj hids
          rw [piecesOnto_cons (piece_run hnew ds p)]
          exact ih hrest hg hno _

end Remap

namespace Scan

/-! ### How the new text is read -/

/-- **A reworded text is cut where the text was cut,** into the same kinds of tokens. -/
theorem cuts_reword {p : Nat} {text : List Char} {ps : List Piece} (h : Cuts p text ps) :
    ∀ {ids : List SectionId}, ids.length = (ps.filterMap Piece.id?).length → ∀ q,
      ∃ qs, Cuts q (reword ids text) qs ∧ qs.filterMap Piece.id? = ids ∧
        (qs.filterMap Piece.lexeme?).map (·.token.kind) =
          (ps.filterMap Piece.lexeme?).map (·.token.kind) := by
  induction h with
  | nil =>
      intro ids hlen q
      obtain rfl : ids = [] := List.length_eq_zero_iff.mp hlen
      rw [reword]
      exact ⟨[], .nil, rfl, rfl⟩
  | @blank p c rest ps hc h ih =>
      intro ids hlen q
      obtain ⟨qs, hqs, hids, hkinds⟩ := ih hlen (q + c.utf8Size)
      rw [reword_other fun hd => not_mem_blanks_of_isDigit hd hc]
      exact ⟨.blank c :: qs, .blank hc hqs, hids, hkinds⟩
  | @mark p c t rest ps hc h ih =>
      intro ids hlen q
      rw [ids_mark hc] at hlen
      obtain ⟨qs, hqs, hids, hkinds⟩ := ih hlen (q + c.utf8Size)
      rw [reword_other (not_isDigit_of_ofChar? hc)]
      refine ⟨.lexeme ⟨t, [c], q⟩ :: qs, .mark hc hqs, ?_, ?_⟩
      · rw [ids_mark hc, hids]
      · rw [lexemes_lexeme, lexemes_lexeme, List.map_cons, List.map_cons, hkinds]
  | @run p ds rest id ps hne hd hrest hval h ih =>
      intro ids hlen q
      rw [ids_run] at hlen
      obtain ⟨new, ids, rfl⟩ := List.exists_cons_of_length_eq_add_one hlen
      obtain ⟨qs, hqs, hids, hkinds⟩ := ih (Nat.succ.inj hlen) (q + Text.byteSize new.digits)
      obtain ⟨hne', hd', hval'⟩ := SectionId.ofDigits_eq_ok_iff.mp new.ofDigits_digits
      rw [reword_run hne hd hrest]
      -- The new run ends where the old one did, because what follows still starts with no digit.
      refine ⟨.lexeme ⟨.atom new, new.digits, q⟩ :: qs,
        .run hne' hd' (hrest.reword ids) hval' hqs, ?_, ?_⟩
      · rw [ids_run, hids]
      · rw [lexemes_lexeme, lexemes_lexeme, List.map_cons, List.map_cons, hkinds]
        rfl

end Scan

namespace Remap

/-- The text with new ids in the places of the old ones, in their order. -/
def newText (news : List SectionId) (text : String) : String :=
  String.ofList (Scan.reword news text.toList)

@[simp] theorem toList_newText (news : List SectionId) (text : String) :
    (newText news text).toList = Scan.reword news text.toList := String.toList_ofList

end Remap

namespace Formula

/-- A text that is read is cut into pieces, and its ids are the sections of the formula. -/
theorem pieces_of_parse {limits : Limits} {text : String} {f : Formula}
    (h : parse limits text = .ok f) :
    ∃ ps, Scan.pieces limits text.toList = .ok ps ∧ Scan.Cuts 0 text.toList ps ∧
      ps.filterMap Piece.id? = f.atoms := by
  obtain ⟨hsize, ls, ⟨hne, ps, hps, rfl⟩, -⟩ := parse_eq_ok_iff.mp h
  refine ⟨ps, Scan.pieces_eq_ok_iff.mpr ⟨hsize, hps, hne⟩, hps, ?_⟩
  rw [← filterMap_atom?_tokens, tokens_of_parse h hps, List.filterMap_map, List.filterMap_filterMap]
  rfl

theorem parse_of_tooLarge {limits : Limits} {text : String}
    (h : limits.maxBytes < Text.byteSize text.toList) :
    parse limits text = .error (.tooLarge limits.maxBytes (Text.byteSize text.toList)) := by
  have hpieces : Scan.pieces limits text.toList =
      .error (.tooLarge limits.maxBytes (Text.byteSize text.toList)) := by
    rw [Scan.pieces, if_pos h]
  rw [parse, lexemes, hpieces]
  rfl

/-- **A text with new ids is read whenever it is small enough,** and has the new sections. -/
theorem parse_newText {limits : Limits} {text : String} {f : Formula} {news : List SectionId}
    (h : parse limits text = .ok f) (hlen : news.length = f.atoms.length)
    (hsize : Text.byteSize (Remap.newText news text).toList ≤ limits.maxBytes) :
    ∃ g, parse limits (Remap.newText news text) = .ok g ∧ g.atoms = news := by
  obtain ⟨ps, hpieces, hps, hatoms⟩ := pieces_of_parse h
  rw [← hatoms] at hlen
  obtain ⟨qs, hqs, hids, hkinds⟩ := Scan.cuts_reword hps hlen 0
  rw [← Remap.toList_newText] at hqs
  have hne : qs.filterMap Piece.lexeme? ≠ [] := by
    intro hnil
    rw [hnil] at hkinds
    exact (Scan.pieces_eq_ok_iff.mp hpieces).2.2 (List.map_eq_nil_iff.mp hkinds.symm)
  have hold := Scan.lexemes_of_pieces hpieces
  have hnew : lexemes limits (Remap.newText news text) = .ok (qs.filterMap Piece.lexeme?) :=
    Scan.lexemes_eq_ok_iff.mpr ⟨hsize, hne, qs, hqs, rfl⟩
  obtain ⟨g, hg⟩ := exists_parse_of_kinds hold hnew hkinds.symm h
  obtain ⟨qs', -, hqs', hatoms'⟩ := pieces_of_parse hg
  exact ⟨g, hg, by rw [← hatoms', hqs'.unique hqs, hids]⟩

end Formula

/-! ### What a remapping does -/

section

variable {σ : Type} {newId : Remap.NewIds σ} {limits : Limits} {text : String} {ps : List Piece}

/-- A remapping of a text that is not cut asks nobody. -/
theorem remap_of_pieces_error {e : FormulaError} (h : Scan.pieces limits text.toList = .error e)
    (s : σ) : remap newId limits text s = .error (.invalidFormula e) s := by
  unfold remap
  simp only [h]

/-- **A remapping succeeds where all ids are given,** and writes the new text. -/
theorem remap_of_gives (h : Scan.pieces limits text.toList = .ok ps) {news : List SectionId}
    {s t : σ} (hg : Remap.Gives newId s (ps.filterMap Piece.id?) news t) :
    remap newId limits text s =
      .ok ⟨Remap.newText news text, Remap.newText news text != text⟩ t := by
  have hcut := (Scan.pieces_eq_ok_iff.mp h).2.1
  have hwritten : Text.pushAll "" (Scan.reword news text.toList) = Remap.newText news text := by
    rw [← String.toList_inj, Text.toList_pushAll, Remap.toList_newText]
    rfl
  unfold remap
  simp only [h, Remap.piecesOnto_of_gives hcut hg, hwritten]

/-- **A remapping fails where an id is refused,** as it is for the first such id. -/
theorem remap_of_refuses (h : Scan.pieces limits text.toList = .ok ps)
    {before after news : List SectionId} {id : SectionId} {e : ConditionError} {s t t' : σ}
    (hids : ps.filterMap Piece.id? = before ++ id :: after)
    (hg : Remap.Gives newId s before news t) (hno : Remap.Refuses newId id t e t') :
    remap newId limits text s = .error e t' := by
  have hcut := (Scan.pieces_eq_ok_iff.mp h).2.1
  unfold remap
  simp only [h, Remap.piecesOnto_of_refuses hcut hids hg hno]

/-- A remapping that succeeds has cut the text and was given all ids. -/
theorem remap_ok {s t : σ} {new : Remapped} (h : remap newId limits text s = .ok new t) :
    ∃ ps news, Scan.pieces limits text.toList = .ok ps ∧
      Remap.Gives newId s (ps.filterMap Piece.id?) news t ∧
      new = ⟨Remap.newText news text, Remap.newText news text != text⟩ := by
  cases hps : Scan.pieces limits text.toList with
  | error e => exact absurd ((remap_of_pieces_error hps s).symm.trans h) (by simp)
  | ok ps =>
      rcases Remap.gives_or_refuses newId (ps.filterMap Piece.id?) s with
        ⟨news, t', hg⟩ | ⟨before, id, after, news, u, e, u', hids, hg, hno⟩
      · have heq := (remap_of_gives hps hg).symm.trans h
        injection heq with hnew ht
        exact ⟨ps, news, rfl, ht ▸ hg, hnew.symm⟩
      · exact absurd ((remap_of_refuses hps hids hg hno).symm.trans h) (by simp)

end

end Prerequisite
