/-
New ids in the places of the old.

Where the host gives an id always the same new one, a remapping renames: the ids of the new text
are the images of the old ones, and so are the tokens (`cuts_rename`).  The new text is therefore
read as the renamed formula, if it is small enough, and as nothing else.
-/
import Prerequisite.Proofs.Formula.Renaming
import Prerequisite.Proofs.Host
import Prerequisite.Proofs.Rewording

namespace Prerequisite

/-! ### The ids that a restore gives -/

namespace Answers

/-- The id that a section has after a restore: the new one, or the old one if there is none. -/
def restored (a : Answers) (r : RestoreId) (id : SectionId) : SectionId :=
  match a.newId r .courseSection id with
  | .ok (some new) => new
  | _ => id

/-- A section has got a new id in a restore. -/
def Translates (a : Answers) (r : RestoreId) (id : SectionId) : Prop :=
  ∃ new, a.newId r .courseSection id = .ok (some new)

theorem restored_of_newId {a : Answers} {r : RestoreId} {id new : SectionId}
    (h : a.newId r .courseSection id = .ok (some new)) : a.restored r id = new := by
  rw [restored, h]

end Answers

/-! ### What is written for a piece -/

/-- The characters that stand for a piece when its id gives way to another one. -/
def Piece.renamed (new : SectionId → SectionId) : Piece → List Char
  | .blank c => [c]
  | .lexeme l =>
      match l.token with
      | .atom id => (new id).digits
      | _ => l.source

namespace Remap

variable {a : Answers} {r : RestoreId}

/-- Ids that were all given are the ones that the sections have after the restore. -/
theorem Gives.restored {ids news : List SectionId} {j j' : Journal}
    (h : Gives (a.host.newId r .courseSection) j ids news j') :
    (∀ id ∈ ids, a.Translates r id) ∧ news = ids.map (a.restored r) := by
  induction h with
  | nil => exact ⟨by simp, rfl⟩
  | @cons j _ _ id new ids news hnew _ ih =>
      have hreply := Answers.reply_eq (.newId r .courseSection id) (a.newId r .courseSection id) j
      have hanswer := (answering_eq_ok.mp (hreply.symm.trans hnew)).1
      refine ⟨?_, ?_⟩
      · intro id' hid
        rcases List.mem_cons.mp hid with rfl | hid
        · exact ⟨new, hanswer⟩
        · exact ih.1 id' hid
      · rw [List.map_cons, Answers.restored_of_newId hanswer, ih.2]

theorem gives_of_translates {ids : List SectionId} (h : ∀ id ∈ ids, a.Translates r id) :
    ∀ j, ∃ j', Gives (a.host.newId r .courseSection) j ids (ids.map (a.restored r)) j' := by
  induction ids with
  | nil => intro j; exact ⟨j, .nil⟩
  | cons id ids ih =>
      intro j
      obtain ⟨new, hnew⟩ := h id (by simp)
      have hreply : a.host.newId r .courseSection id j =
          .ok (some new) (j.call (.newId r .courseSection id)) := by
        have heq := Answers.reply_eq (.newId r .courseSection id) (a.newId r .courseSection id) j
        exact heq.trans (answering_eq_ok.mpr ⟨hnew, rfl⟩)
      obtain ⟨j', hg⟩ := ih (fun x hx => h x (List.mem_cons_of_mem id hx))
        (j.call (.newId r .courseSection id))
      refine ⟨j', ?_⟩
      rw [List.map_cons, Answers.restored_of_newId hnew]
      exact .cons hreply hg

end Remap

/-! ### Where the new text is cut -/

namespace Token

@[simp] theorem kind_rename (new : SectionId → SectionId) (t : Token) :
    (t.rename new).kind = t.kind := by
  cases t <;> rfl

theorem eq_of_kind {t u : Token} (hkind : t.kind = u.kind) (hid : t.atom? = u.atom?) : t = u := by
  cases t with
  | atom id => cases u <;> simp_all [kind, atom?]
  | and | or | not | opening | closing => cases u <;> simp_all [kind]

theorem isSome_atom?_of_kind {t u : Token} (h : t.kind = u.kind) :
    t.atom?.isSome = u.atom?.isSome := by
  have hkept : ∀ v : Token, v.kind.atom?.isSome = v.atom?.isSome := by
    intro v
    cases v <;> rfl
  rw [← hkept t, h, hkept u]

/-- Tokens are settled by their kinds and their ids. -/
theorem eq_of_kinds {ts us : List Token} (hkinds : ts.map kind = us.map kind)
    (hids : ts.filterMap atom? = us.filterMap atom?) : ts = us := by
  induction ts generalizing us with
  | nil => exact (List.map_eq_nil_iff.mp hkinds.symm).symm
  | cons t ts ih =>
      obtain ⟨u, us, rfl, hkind, hrest⟩ := List.map_eq_cons_iff.mp hkinds.symm
      have hsome := isSome_atom?_of_kind hkind
      cases ht : t.atom? with
      | none =>
          have hu : u.atom? = none := by simpa [ht] using hsome
          rw [List.filterMap_cons_none ht, List.filterMap_cons_none hu] at hids
          rw [eq_of_kind hkind (hu.trans ht.symm), ih hrest.symm hids]
      | some id =>
          obtain ⟨id', hu⟩ : ∃ id', u.atom? = some id' :=
            Option.isSome_iff_exists.mp (by rw [hsome, ht]; rfl)
          rw [List.filterMap_cons_some ht, List.filterMap_cons_some hu] at hids
          obtain ⟨rfl, hids'⟩ := List.cons.inj hids
          rw [eq_of_kind hkind (hu.trans ht.symm), ih hrest.symm hids']

end Token

namespace Scan

section

variable (new : SectionId → SectionId)

theorem ids_eq (ps : List Piece) : ps.filterMap Piece.id? =
    ((ps.filterMap Piece.lexeme?).map Lexeme.token).filterMap Token.atom? := by
  rw [List.filterMap_map, List.filterMap_filterMap]
  rfl

/-- Rewording a text is writing its pieces anew. -/
theorem reword_map {p : Nat} {text : List Char} {ps : List Piece} (h : Cuts p text ps) :
    reword ((ps.filterMap Piece.id?).map new) text = ps.flatMap (Piece.renamed new) := by
  induction h with
  | nil => rw [List.filterMap_nil, List.map_nil, reword, List.flatMap_nil]
  | blank hc _ ih =>
      rw [ids_blank, reword_other fun hd => not_mem_blanks_of_isDigit hd hc, ih]
      rfl
  | @mark p c t rest ps hc _ ih =>
      have hkept : Piece.renamed new (.lexeme ⟨t, [c], p⟩) = [c] := by
        rcases ofChar?_cases hc with ⟨-, rfl⟩ | ⟨-, rfl⟩ | ⟨-, rfl⟩ | ⟨-, rfl⟩ | ⟨-, rfl⟩ <;> rfl
      rw [ids_mark hc, reword_other (not_isDigit_of_ofChar? hc), ih, List.flatMap_cons, hkept]
      rfl
  | run hne hd hrest _ _ ih =>
      rw [ids_run, List.map_cons, reword_run hne hd hrest, ih]
      rfl

/-- **A text with other ids is cut where it was cut before,** and has the renamed tokens. -/
theorem cuts_rename {p : Nat} {text : List Char} {ps : List Piece} (h : Cuts p text ps) (q : Nat) :
    ∃ qs, Cuts q (ps.flatMap (Piece.renamed new)) qs ∧
      (qs.filterMap Piece.lexeme?).map Lexeme.token =
        ((ps.filterMap Piece.lexeme?).map Lexeme.token).map (Token.rename new) := by
  have hlen : ((ps.filterMap Piece.id?).map new).length = (ps.filterMap Piece.id?).length :=
    List.length_map _
  obtain ⟨qs, hqs, hids, hkinds⟩ := cuts_reword h hlen q
  rw [reword_map new h] at hqs
  refine ⟨qs, hqs, Token.eq_of_kinds ?_ ?_⟩
  · have hkept : Token.kind ∘ Token.rename new = Token.kind := funext (Token.kind_rename new)
    rw [List.map_map, List.map_map, hkept, List.map_map]
    exact hkinds
  · have hrenamed : Token.atom? ∘ Token.rename new = fun t => t.atom?.map new := by
      funext t
      cases t <;> rfl
    rw [← ids_eq qs, hids, ids_eq ps, List.filterMap_map (f := Token.rename new), hrenamed,
      List.map_filterMap]

end

end Scan

namespace Formula

/-- **A text with other ids is read as the renamed formula,** under limits that admit it. -/
theorem parse_renamed {new : SectionId → SectionId} {limits limits' : Limits}
    {text text' : String} {f : Formula} {ps : List Piece} (hps : Scan.Cuts 0 text.toList ps)
    (htext : text'.toList = ps.flatMap (Piece.renamed new)) (h : parse limits text = .ok f)
    (hsize : Text.byteSize text'.toList ≤ limits'.maxBytes)
    (hdeep : f.nesting ≤ limits'.maxNesting) : parse limits' text' = .ok (f.rename new) := by
  obtain ⟨qs, hqs, htok⟩ := Scan.cuts_rename new hps 0
  rw [← htext] at hqs
  obtain ⟨-, -, hnormal, htok'⟩ := (parse_eq_ok_iff_normal hps).mp h
  refine (parse_eq_ok_iff_normal hqs).mpr ⟨hsize, ?_, hnormal.rename new, ?_⟩
  · rwa [nesting_rename]
  · rw [tokens_rename, htok', htok]

/-- It is read as nothing else. -/
theorem rename_of_parse_renamed {new : SectionId → SectionId} {limits limits' : Limits}
    {text text' : String} {f f' : Formula} {ps : List Piece} (hps : Scan.Cuts 0 text.toList ps)
    (htext : text'.toList = ps.flatMap (Piece.renamed new)) (h : parse limits text = .ok f)
    (h' : parse limits' text' = .ok f') : f' = f.rename new := by
  obtain ⟨qs, hqs, htok⟩ := Scan.cuts_rename new hps 0
  rw [← htext] at hqs
  refine (normal_of_parse h').eq_of_tokens ((normal_of_parse h).rename new) ?_
  rw [tokens_of_parse h' hqs, htok, ← tokens_of_parse h hps, tokens_rename]

end Formula

end Prerequisite
