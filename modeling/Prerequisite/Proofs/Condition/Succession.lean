/-
Restores one after another.

A course can be restored twice, and then its texts are remapped twice.  The second remapping goes
through what the first has written, where ids are longer or shorter than before and can be the same
as old ones.  Still it finds the new ids, all of them and in their places, and nothing else that
could be one (`reword_reword`).  So two restores come to the same as one that gives each section the
second new id of its first new id.

Whether a translation is asked once or twice about a section makes no difference if its answers are
a function (`Follows`), and only that is assumed of the hosts.

If the second translation takes back what the first has done, all ids are what they were.  The text
is not quite, for ids are written in the shortest way now (`unpadded`), and that is never longer
than the text was.  So a restore can always be undone.
-/
import Prerequisite.Proofs.Condition.Restore

namespace Prerequisite

namespace Scan

/-! ### Rewording twice -/

/-- **What was reworded is reworded as the text would be,** for the ids stand in the same places. -/
theorem reword_reword {p : Nat} {text : List Char} {ps : List Piece} (h : Cuts p text ps) :
    ∀ {ids ids' : List SectionId}, ids.length = (ps.filterMap Piece.id?).length →
      ids'.length = ids.length → reword ids' (reword ids text) = reword ids' text := by
  induction h with
  | nil =>
      intro ids ids' hlen hlen'
      obtain rfl : ids = [] := List.length_eq_zero_iff.mp hlen
      rw [reword]
  | @blank p c rest ps hc h ih =>
      intro ids ids' hlen hlen'
      have hdigit : ¬c.isDigit = true := fun hd => not_mem_blanks_of_isDigit hd hc
      rw [reword_other hdigit, reword_other hdigit, reword_other hdigit, ih hlen hlen']
  | @mark p c t rest ps hc h ih =>
      intro ids ids' hlen hlen'
      rw [ids_mark hc] at hlen
      have hdigit := not_isDigit_of_ofChar? hc
      rw [reword_other hdigit, reword_other hdigit, reword_other hdigit, ih hlen hlen']
  | @run p ds rest id ps hne hd hrest hval h ih =>
      intro ids ids' hlen hlen'
      rw [ids_run] at hlen
      obtain ⟨new, ids, rfl⟩ := List.exists_cons_of_length_eq_add_one hlen
      obtain ⟨new', ids', rfl⟩ := List.exists_cons_of_length_eq_add_one hlen'
      -- The first new numeral is a run of digits again, and ends where the old one did.
      rw [reword_run hne hd hrest, reword_run new.digits_ne_nil
        (fun c hc => SectionId.isDigit_of_mem_digits hc) (hrest.reword ids),
        reword_run hne hd hrest, ih (Nat.succ.inj hlen) (Nat.succ.inj hlen')]

/-! ### The text with its own ids -/

/-- **A text without the zeros in front of its runs of digits,** and otherwise as it is. -/
def unpadded (text : List Char) : List Char :=
  match text with
  | [] => []
  | c :: rest =>
      if c.isDigit then
        Decimal.dropZeros (c :: rest.takeWhile Char.isDigit) ++
          unpadded (rest.dropWhile Char.isDigit)
      else c :: unpadded rest
termination_by text.length
decreasing_by
  · have := Text.length_dropWhile_le Char.isDigit rest
    simp only [List.length_cons]
    omega
  · simp

theorem unpadded_other {c : Char} (hc : ¬c.isDigit = true) (rest : List Char) :
    unpadded (c :: rest) = c :: unpadded rest := by
  rw [unpadded, if_neg hc]

/-- Rewording a text with its own ids drops the zeros in front of them and changes nothing else. -/
theorem reword_ids {p : Nat} {text : List Char} {ps : List Piece} (h : Cuts p text ps) :
    reword (ps.filterMap Piece.id?) text = unpadded text := by
  induction h with
  | nil => rw [unpadded, List.filterMap_nil, reword]
  | @blank p c rest ps hc h ih =>
      have hdigit : ¬c.isDigit = true := fun hd => not_mem_blanks_of_isDigit hd hc
      rw [ids_blank, reword_other hdigit, unpadded_other hdigit, ih]
  | @mark p c t rest ps hc h ih =>
      have hdigit := not_isDigit_of_ofChar? hc
      rw [ids_mark hc, reword_other hdigit, unpadded_other hdigit, ih]
  | @run p ds rest id ps hne hd hrest hval h ih =>
      have hdigits : id.digits = Decimal.dropZeros ds := by
        rw [SectionId.digits, ← hval, Decimal.toDigits_run hne hd]
      rw [ids_run, reword_run hne hd hrest, ih, hdigits]
      obtain ⟨c, ds, rfl⟩ := List.exists_cons_of_ne_nil hne
      have hds : ∀ x ∈ ds, x.isDigit = true := fun x hx => hd x (by simp [hx])
      rw [List.cons_append, unpadded, if_pos (hd c (by simp)), takeWhile_run hds hrest,
        dropWhile_run hds hrest]

theorem byteSize_reword_ids_le {p : Nat} {text : List Char} {ps : List Piece}
    (h : Cuts p text ps) :
    Text.byteSize (reword (ps.filterMap Piece.id?) text) ≤ Text.byteSize text := by
  induction h with
  | nil => rw [List.filterMap_nil, reword]
  | @blank p c rest ps hc h ih =>
      rw [ids_blank, reword_other fun hd => not_mem_blanks_of_isDigit hd hc, Text.byteSize_cons,
        Text.byteSize_cons]
      omega
  | @mark p c t rest ps hc h ih =>
      rw [ids_mark hc, reword_other (not_isDigit_of_ofChar? hc), Text.byteSize_cons,
        Text.byteSize_cons]
      omega
  | @run p ds rest id ps hne hd hrest hval h ih =>
      rw [ids_run, reword_run hne hd hrest, Text.byteSize_append, Text.byteSize_append]
      exact Nat.add_le_add (byteSize_digits_le hne hd hval) ih

end Scan

/-! ### Translations -/

/-- **Which ids sections got in a restore.**  There is none for a section that was no part of it,
and none can be told if the host fails. -/
abbrev Translation := SectionId → Except ServiceError (Option SectionId)

namespace Translation

/-- A section gets the id that its first new id got. -/
def andThen (f g : Translation) : Translation := fun id =>
  match f id with
  | .ok (some new) => g new
  | x => x

/-- The second translation gives each new id of the first its old one back.  So no two sections got
the same new id. -/
def Undoes (g f : Translation) : Prop := ∀ id new, f id = .ok (some new) → g new = .ok (some id)

/-- A translation gives new ids for these, one for each. -/
def Maps (f : Translation) : List SectionId → List SectionId → Prop :=
  List.Forall₂ fun id new => f id = .ok (some new)

theorem Maps.andThen {f g : Translation} {ids news : List SectionId} (hf : f.Maps ids news) :
    ∀ {news' : List SectionId}, g.Maps news news' → (f.andThen g).Maps ids news' := by
  induction hf with
  | nil => intro news' hg; cases hg; exact .nil
  | @cons id new ids news hid _ ih =>
      intro news' hg
      cases hg with
      | @cons _ new' _ news' hnew hrest =>
          refine .cons ?_ (ih hrest)
          rw [Translation.andThen, hid]
          exact hnew

theorem Maps.undo {f g : Translation} {ids news : List SectionId} (hf : f.Maps ids news)
    (h : g.Undoes f) : g.Maps news ids := by
  induction hf with
  | nil => exact .nil
  | cons hid _ ih => exact .cons (h _ _ hid) ih

end Translation

namespace Remap

/-- **A host translates ids as a function says,** in every state. -/
def Follows {σ : Type} (newId : NewIds σ) (f : Translation) : Prop :=
  ∀ id s, ∃ t, newId id s = answering (f id) t

section

variable {σ : Type} {newId : NewIds σ} {f : Translation} {ids news : List SectionId}

theorem Gives.maps {s t : σ} (h : Gives newId s ids news t) (hf : Follows newId f) :
    f.Maps ids news := by
  induction h with
  | nil => exact .nil
  | @cons s s' t id new ids news hid _ ih =>
      obtain ⟨u, hu⟩ := hf id s
      exact .cons (answering_eq_ok.mp (hu.symm.trans hid)).1 ih

theorem Follows.gives (hf : Follows newId f) (h : f.Maps ids news) :
    ∀ s, ∃ t, Gives newId s ids news t := by
  induction h with
  | nil => intro s; exact ⟨s, .nil⟩
  | @cons id new ids news hid _ ih =>
      intro s
      obtain ⟨u, hu⟩ := hf id s
      obtain ⟨t, ht⟩ := ih u
      rw [hid] at hu
      exact ⟨t, .cons hu ht⟩

end

/-! ### Remapping twice -/

section

variable {text : String} {ps : List Piece} {ids ids' : List SectionId}

theorem newText_newText (h : Scan.Cuts 0 text.toList ps)
    (hlen : ids.length = (ps.filterMap Piece.id?).length) (hlen' : ids'.length = ids.length) :
    newText ids' (newText ids text) = newText ids' text := by
  rw [← String.toList_inj, toList_newText, toList_newText, toList_newText,
    Scan.reword_reword h hlen hlen']

/-- A text with new ids is cut into pieces whose ids those are. -/
theorem ids_of_pieces_newText {limits : Limits} {qs : List Piece}
    (h : Scan.Cuts 0 text.toList ps) (hlen : ids.length = (ps.filterMap Piece.id?).length)
    (hqs : Scan.pieces limits (newText ids text).toList = .ok qs) :
    qs.filterMap Piece.id? = ids := by
  obtain ⟨qs', hcut, hids, -⟩ := Scan.cuts_reword h hlen 0
  rw [← toList_newText] at hcut
  rw [(Scan.pieces_eq_ok_iff.mp hqs).2.1.unique hcut, hids]

/-- A text with new ids is cut into pieces under all limits that admit it. -/
theorem exists_pieces_newText {limits limits' : Limits}
    (hps : Scan.pieces limits text.toList = .ok ps)
    (hlen : ids.length = (ps.filterMap Piece.id?).length)
    (hsize : Text.byteSize (newText ids text).toList ≤ limits'.maxBytes) :
    ∃ qs, Scan.pieces limits' (newText ids text).toList = .ok qs := by
  obtain ⟨-, hcut, hne⟩ := Scan.pieces_eq_ok_iff.mp hps
  obtain ⟨qs, hqs, -, hkinds⟩ := Scan.cuts_reword hcut hlen 0
  rw [← toList_newText] at hqs
  refine ⟨qs, Scan.pieces_eq_ok_iff.mpr ⟨hsize, hqs, fun hnil => hne ?_⟩⟩
  rw [hnil] at hkinds
  exact List.map_eq_nil_iff.mp hkinds.symm

end

end Remap

section

variable {σ τ υ : Type} {f g : Translation} {limits : Limits} {text : String}

/-- **Two remappings come to the same as one with both translations.** -/
theorem remap_of_remap_remap {newId : Remap.NewIds σ} {newId' : Remap.NewIds τ}
    {newId'' : Remap.NewIds υ} (hf : Remap.Follows newId f) (hg : Remap.Follows newId' g)
    (hboth : Remap.Follows newId'' (f.andThen g)) {mid out : Remapped} {s s' : σ} {t t' : τ}
    (h : remap newId limits text s = .ok mid s')
    (h' : remap newId' limits mid.formula t = .ok out t') (u : υ) :
    ∃ u', remap newId'' limits text u = .ok ⟨out.formula, out.formula != text⟩ u' := by
  obtain ⟨ps, news, hps, hgives, rfl⟩ := remap_ok h
  obtain ⟨qs, news', hqs, hgives', rfl⟩ := remap_ok h'
  have hcut := (Scan.pieces_eq_ok_iff.mp hps).2.1
  rw [Remap.ids_of_pieces_newText hcut hgives.length hqs] at hgives'
  obtain ⟨u', hu⟩ := hboth.gives ((hgives.maps hf).andThen (hgives'.maps hg)) u
  rw [Remap.newText_newText hcut hgives.length hgives'.length]
  exact ⟨u', remap_of_gives hps hu⟩

/-- **A remapping that is undone leaves the text without the zeros in front of its ids.** -/
theorem remap_of_undoes {newId : Remap.NewIds σ} {newId' : Remap.NewIds τ}
    (hf : Remap.Follows newId f) (hg : Remap.Follows newId' g) (hundo : g.Undoes f)
    {mid : Remapped} {s s' : σ} (h : remap newId limits text s = .ok mid s')
    (hsize : Text.byteSize mid.formula.toList ≤ limits.maxBytes) (t : τ) :
    ∃ out t', remap newId' limits mid.formula t = .ok out t' ∧
      out.formula.toList = Scan.unpadded text.toList ∧
      Text.byteSize out.formula.toList ≤ Text.byteSize text.toList := by
  obtain ⟨ps, news, hps, hgives, rfl⟩ := remap_ok h
  have hcut := (Scan.pieces_eq_ok_iff.mp hps).2.1
  obtain ⟨qs, hqs⟩ := Remap.exists_pieces_newText hps hgives.length hsize
  obtain ⟨t', ht⟩ := hg.gives ((hgives.maps hf).undo hundo) t
  rw [← Remap.ids_of_pieces_newText hcut hgives.length hqs] at ht
  refine ⟨_, t', remap_of_gives hqs ht, ?_⟩
  rw [Remap.newText_newText hcut hgives.length hgives.length.symm, Remap.toList_newText]
  exact ⟨Scan.reword_ids hcut, Scan.byteSize_reword_ids_le hcut⟩

end

/-- A text without the zeros in front of its ids is read as the same formula. -/
theorem Formula.eq_of_parse_unpadded {limits limits' : Limits} {text text' : String}
    {f f' : Formula} (htext : text'.toList = Scan.unpadded text.toList)
    (h : parse limits text = .ok f) (h' : parse limits' text' = .ok f') : f' = f := by
  obtain ⟨ps, hps⟩ := cuts_of_parse h
  rw [← Scan.reword_ids hps, ← List.map_id (ps.filterMap Piece.id?),
    Scan.reword_map id hps] at htext
  rw [rename_of_parse_renamed hps htext h h', rename_id]

namespace Condition

/-! ### Restores -/

section

variable {σ τ υ : Type} {host : Host σ} {r : RestoreId} {c : Condition}

/-- A condition is settled by its text, its scope and its limits. -/
theorem eq_of_formula {c d : Condition} (hformula : c.formula = d.formula)
    (hscope : c.scope = d.scope) (hlimits : c.limits = d.limits) : c = d := by
  obtain ⟨scope, formula, tree, limits, reads⟩ := c
  obtain ⟨scope', formula', tree', limits', reads'⟩ := d
  obtain rfl : formula = formula' := hformula
  obtain rfl : scope = scope' := hscope
  obtain rfl : limits = limits' := hlimits
  obtain rfl : tree = tree' := Except.ok.inj (reads.symm.trans reads')
  rfl

/-- A restore succeeds where the remapping does and the new text is small enough. -/
theorem restore_of_remap_ok {new : Remapped} {s t : σ}
    (hmap : remap (host.newId r .courseSection) c.limits c.formula s = .ok new t)
    (hsize : Text.byteSize new.formula.toList ≤ c.limits.maxBytes) :
    ∃ res t', c.restore host r s = .ok res t' ∧ res.condition.formula = new.formula ∧
      res.changed = new.changed := by
  obtain ⟨ps, news, hps, hgives, rfl⟩ := remap_ok hmap
  by_cases hsame : Remap.newText news c.formula = c.formula
  · have h : c.restore host r s = .ok ⟨c, false⟩ t := by
      unfold restore
      simp only [hmap, hsame, bne_self_eq_false, Bool.false_eq_true, if_false]
    exact ⟨_, t, h, hsame.symm, by rw [hsame, bne_self_eq_false]⟩
  · obtain ⟨qs, hqs, -, hatoms⟩ := Formula.pieces_of_parse c.reads
    obtain rfl : qs = ps := Except.ok.inj (hqs.symm.trans hps)
    obtain ⟨f, hread, -⟩ := Formula.parse_newText c.reads (hatoms ▸ hgives.length) hsize
    obtain ⟨t', h⟩ := restore_of_remap hmap (bne_iff_ne.mpr hsame) hread
    exact ⟨_, t', h, rfl, (bne_iff_ne.mpr hsame).symm⟩

theorem byteSize_formula_le (c : Condition) :
    Text.byteSize c.formula.toList ≤ c.limits.maxBytes :=
  (Formula.parse_eq_ok_iff.mp c.reads).1

/--
**Restores compose.**

Let two hosts translate ids as functions say, and a third one as the two functions say one after the
other.  Where a text is remapped at the first host and what comes of it at the second, the third
makes the same of the text at once; that the text between them is small enough needs no saying, for
it was read.  Where a condition is restored at the first host and then at the second, the third
makes the same condition of it at once.

If the second translation undoes the first, what comes of a text is the text without the zeros in
front of its ids, and a condition that was restored can be restored back, to that text and to the
tree that it had.
-/
theorem restores_compose {f g : Translation} {first : Host σ} {second : Host τ} {both : Host υ}
    {r r' r'' : RestoreId} (hf : Remap.Follows (first.newId r .courseSection) f)
    (hg : Remap.Follows (second.newId r' .courseSection) g)
    (hboth : Remap.Follows (both.newId r'' .courseSection) (f.andThen g)) :
    (∀ limits text s mid s' t out t',
      remap (first.newId r .courseSection) limits text s = .ok mid s' →
      remap (second.newId r' .courseSection) limits mid.formula t = .ok out t' →
      ∀ u, ∃ u', remap (both.newId r'' .courseSection) limits text u =
        .ok ⟨out.formula, out.formula != text⟩ u') ∧
    (∀ (c : Condition) s res s' t res' t', c.restore first r s = .ok res s' →
      res.condition.restore second r' t = .ok res' t' →
      ∀ u, ∃ u', c.restore both r'' u =
        .ok ⟨res'.condition, res'.condition.formula != c.formula⟩ u') ∧
    (g.Undoes f →
      (∀ limits text s mid s',
        remap (first.newId r .courseSection) limits text s = .ok mid s' →
        Text.byteSize mid.formula.toList ≤ limits.maxBytes →
        ∀ t, ∃ out t', remap (second.newId r' .courseSection) limits mid.formula t = .ok out t' ∧
          out.formula.toList = Scan.unpadded text.toList) ∧
      ∀ (c : Condition) s res s', c.restore first r s = .ok res s' →
        ∀ t, ∃ res' t', res.condition.restore second r' t = .ok res' t' ∧
          res'.condition.formula.toList = Scan.unpadded c.formula.toList ∧
          res'.condition.tree = c.tree) := by
  refine ⟨?_, ?_, fun hundo => ⟨?_, ?_⟩⟩
  · intro limits text s mid s' t out t' h h' u
    exact remap_of_remap_remap hf hg hboth h h' u
  · intro c s res s' t res' t' h h' u
    obtain ⟨mid, v, hmap, hmid, hscope, hlimits⟩ := restore_ok h
    obtain ⟨out, w, hmap', hout, hscope', hlimits'⟩ := restore_ok h'
    rw [hmid, hlimits] at hmap'
    obtain ⟨u', hmap''⟩ := remap_of_remap_remap hf hg hboth hmap hmap' u
    have hsize : Text.byteSize out.formula.toList ≤ c.limits.maxBytes := by
      rw [← hout, ← hlimits, ← hlimits']
      exact res'.condition.byteSize_formula_le
    obtain ⟨res'', u'', hrestore, hformula, hchanged⟩ := restore_of_remap_ok hmap'' hsize
    obtain ⟨-, -, -, -, hscope'', hlimits''⟩ := restore_ok hrestore
    have hsame : res''.condition = res'.condition := by
      refine eq_of_formula (hformula.trans hout.symm) ?_ ?_
      · rw [hscope'', hscope', hscope]
      · rw [hlimits'', hlimits', hlimits]
    have hflag : res''.changed = (out.formula != c.formula) := hchanged
    refine ⟨u'', ?_⟩
    rw [hrestore, hout, ← hsame, ← hflag]
  · intro limits text s mid s' h hsize t
    obtain ⟨out, t', hmap, hout, -⟩ := remap_of_undoes hf hg hundo h hsize t
    exact ⟨out, t', hmap, hout⟩
  · intro c s res s' h t
    obtain ⟨mid, v, hmap, hmid, -, hlimits⟩ := restore_ok h
    have hsize := res.condition.byteSize_formula_le
    rw [hmid, hlimits] at hsize
    obtain ⟨out, t', hmap', hout, hle⟩ := remap_of_undoes hf hg hundo hmap hsize t
    rw [← hmid, ← hlimits] at hmap'
    have hfits : Text.byteSize out.formula.toList ≤ res.condition.limits.maxBytes := by
      rw [hlimits]
      exact hle.trans c.byteSize_formula_le
    obtain ⟨res', t'', hback, hformula, -⟩ := restore_of_remap_ok hmap' hfits
    rw [← hformula] at hout
    exact ⟨res', t'', hback, hout, Formula.eq_of_parse_unpadded hout c.reads res'.condition.reads⟩

end

/-- A host that translates ids as a function says, whatever the restore. -/
def renumbering (f : Translation) : Answers where
  completed _ _ := .ok false
  sectionName _ := .ok ""
  phrase _ _ _ := .ok ""
  newId _ _ := f
  dependency := .installed
  time := 0

/-- The first section moves to where the second was, and that moves on. -/
def movingUp : Translation := fun id =>
  .ok (if id = ⟨1⟩ then some ⟨2⟩ else if id = ⟨2⟩ then some ⟨10⟩ else none)

/-- The sections move back. -/
def movingDown : Translation := fun id =>
  .ok (if id = ⟨2⟩ then some ⟨1⟩ else if id = ⟨10⟩ then some ⟨2⟩ else none)

/-- The ids of `01^ 2` move up and back again, one by one or in one restore. -/
theorem restores_compose_of_moving_back :
    ∃ (c : Condition) (res res' : Restored) (j j' j'' : Journal), c.formula = "01^ 2" ∧
      c.restore (renumbering movingUp).host ⟨"copy"⟩ .empty = .ok res j ∧
      res.condition.formula = "2^ 10" ∧
      res.condition.restore (renumbering movingDown).host ⟨"back"⟩ .empty = .ok res' j' ∧
      res'.condition.formula = "1^ 2" ∧ res'.condition.tree = c.tree ∧
      c.restore (renumbering (movingUp.andThen movingDown)).host ⟨"both"⟩ .empty =
        .ok ⟨res'.condition, true⟩ j'' := by
  have hfollows : ∀ f r, Remap.Follows ((renumbering f).host.newId r .courseSection) f :=
    fun f r id j => ⟨_, Answers.reply_eq (.newId r .courseSection id) (f id) j⟩
  have hundo : movingDown.Undoes movingUp := by
    intro id new h
    unfold movingUp at h
    by_cases hone : id = ⟨1⟩
    · rw [if_pos hone] at h
      cases h
      rw [hone]
      rfl
    · rw [if_neg hone] at h
      by_cases htwo : id = ⟨2⟩
      · rw [if_pos htwo] at h
        cases h
        rw [htwo]
        rfl
      · rw [if_neg htwo] at h
        exact absurd h (by simp)
  obtain ⟨hcompose, hback⟩ := (restores_compose (hfollows movingUp ⟨"copy"⟩)
    (hfollows movingDown ⟨"back"⟩) (hfollows (movingUp.andThen movingDown) ⟨"both"⟩)).2
  have hread : Formula.parse ⟨9, 2⟩ "01^ 2" = .ok (.conj [.atom ⟨1⟩, .atom ⟨2⟩]) := by cbv
  obtain ⟨j, hmap⟩ : ∃ j, remap ((renumbering movingUp).host.newId ⟨"copy"⟩ .courseSection) ⟨9, 2⟩
      "01^ 2" .empty = .ok ⟨"2^ 10", true⟩ j := ⟨_, by cbv⟩
  have hfits : Text.byteSize "2^ 10".toList ≤ 9 := by decide
  obtain ⟨res, j, h, hformula, -⟩ := restore_of_remap_ok
    (c := ⟨.room, "01^ 2", _, ⟨9, 2⟩, hread⟩) hmap hfits
  obtain ⟨res', j', h', htext, htree⟩ := (hback hundo).2 _ _ _ _ h .empty
  obtain ⟨j'', h''⟩ := hcompose _ _ _ _ _ _ _ h h' .empty
  have hshort : res'.condition.formula = "1^ 2" := by
    rw [← String.toList_inj, htext]
    cbv
  rw [hshort] at h''
  exact ⟨_, res, res', j, j', j'', rfl, h, hformula, h', hshort, htree, h''⟩

end Condition

end Prerequisite
