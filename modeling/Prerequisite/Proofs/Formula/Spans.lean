/-
Where the lexemes of a text stand.

A lexeme carries a byte offset and its characters, so it claims a part of the text: the bytes from
its offset on.  `Spans` is what these parts have to be for no byte to be lost.  They stand one
behind the other, each is the slice between its offsets, no digit stands beside a run of digits, and
what is outside of all of them is blank.

All of it follows from the pieces a text falls into (`Cuts`), for any front that was gone over
before.
-/
import Mathlib.Tactic
import Prerequisite.Proofs.Formula.Faults
import Prerequisite.Proofs.Text.Bytes

namespace Prerequisite

namespace Scan

/-- **The token that characters denote.** -/
inductive Denotes : List Char → Token → Prop
  | opening : Denotes ['('] .opening
  | closing : Denotes [')'] .closing
  | and : Denotes ['^'] .and
  | or : Denotes ['v'] .or
  | not : Denotes ['!'] .not
  | atom {ds : List Char} {id : SectionId} (hne : ds ≠ []) (hd : ∀ c ∈ ds, c.isDigit = true)
      (hval : Nat.ofDigitChars 10 ds 0 = id.number.toNat) : Denotes ds (.atom id)

/-- A lexeme stands between two parts of a text, and an atom is a whole run of digits there. -/
structure Stands (before after : List Char) (l : Lexeme) : Prop where
  position : Text.byteSize before = l.position
  denotes : Denotes l.source l.token
  whole : ∀ id, l.token = .atom id → WholeRun before l.source after

/-- The bytes that are blanks. -/
def blankBytes : List UInt8 := [32, 9, 10, 13]

/-- Some lexeme stands for the byte at an offset, or the byte is a blank. -/
def Covered (ls : List Lexeme) (i : Nat) (b : UInt8) : Prop :=
  (∃ l ∈ ls, l.position ≤ i ∧ i < l.stop) ∨ b ∈ blankBytes

/-- **The lexemes of a text and the bytes they stand for.** -/
structure Spans (text : String) (ls : List Lexeme) : Prop where
  /-- They are in order, and none begins before the one in front of it ends. -/
  ordered : ls.Pairwise fun a b => a.stop ≤ b.position
  nonempty : ∀ l ∈ ls, l.position < l.stop
  /-- The characters of a lexeme are the part of the text between its offsets. -/
  slice : ∀ l ∈ ls, Text.slice? text l.position l.stop = some (String.ofList l.source)
  stands : ∀ l ∈ ls, ∃ before after,
    text.toList = before ++ l.source ++ after ∧ Stands before after l
  outside : ∀ i b, (Text.bytes text)[i]? = some b → Covered ls i b

/-! ### What a piece stands for -/

theorem denotes_of_ofChar? {c : Char} {t : Token} (h : Token.ofChar? c = some t) :
    Denotes [c] t := by
  rcases ofChar?_cases h with ⟨rfl, rfl⟩ | ⟨rfl, rfl⟩ | ⟨rfl, rfl⟩ | ⟨rfl, rfl⟩ | ⟨rfl, rfl⟩ <;>
    constructor

theorem Denotes.ne_nil {cs : List Char} {t : Token} (h : Denotes cs t) : cs ≠ [] := by
  cases h with
  | atom hne _ _ => exact hne
  | _ => simp

theorem byteSize_singleton (c : Char) : Text.byteSize [c] = c.utf8Size := by simp

theorem byteSize_pos {cs : List Char} (h : cs ≠ []) : 0 < Text.byteSize cs := by
  obtain ⟨c, cs, rfl⟩ := List.exists_cons_of_ne_nil h
  have := c.utf8Size_pos
  rw [Text.byteSize_cons]
  omega

theorem ofChar?_ne_atom {c : Char} {id : SectionId} :
    Token.ofChar? c ≠ some (.atom id) := by
  intro h
  rcases ofChar?_cases h with ⟨-, h⟩ | ⟨-, h⟩ | ⟨-, h⟩ | ⟨-, h⟩ | ⟨-, h⟩ <;> cases h

/-! ### From the pieces -/

theorem stands_of_cuts {p : Nat} {rest : List Char} {ps : List Piece} (h : Cuts p rest ps) :
    ∀ front : List Char, Text.byteSize front = p → Unsplit front rest →
      ∀ l ∈ ps.filterMap Piece.lexeme?, ∃ before after,
        front ++ rest = before ++ l.source ++ after ∧ Stands before after l := by
  induction h with
  | nil => intro front _ _ l hl; exact absurd hl (by simp)
  | @blank p c rest ps hc h ih =>
      intro front hp _ l hl
      have := ih (front ++ [c]) (by simp [hp])
        (unsplit_of_not_digit fun hd => not_mem_blanks_of_isDigit hd hc) l hl
      rwa [List.append_assoc] at this
  | @mark p c t rest ps hc h ih =>
      intro front hp _ l hl
      rw [lexemes_lexeme] at hl
      rcases List.mem_cons.mp hl with rfl | hl
      · exact ⟨front, rest, by simp, hp, denotes_of_ofChar? hc,
          fun id hid => absurd (hc.trans (congrArg some hid)) ofChar?_ne_atom⟩
      · have := ih (front ++ [c]) (by simp [hp])
          (unsplit_of_not_digit (not_isDigit_of_ofChar? hc)) l hl
        rwa [List.append_assoc] at this
  | @run p ds rest id ps hne hd hrest hval h ih =>
      intro front hp hunsplit l hl
      rw [lexemes_lexeme] at hl
      rcases List.mem_cons.mp hl with rfl | hl
      · exact ⟨front, rest, by simp, hp, .atom hne hd hval,
          fun _ _ => hunsplit.wholeRun hne hd hrest⟩
      · have := ih (front ++ ds) (by simp [hp]) (fun _ => hrest) l hl
        rwa [List.append_assoc] at this

theorem le_position_of_cuts {p : Nat} {rest : List Char} {ps : List Piece} (h : Cuts p rest ps) :
    ∀ l ∈ ps.filterMap Piece.lexeme?, p ≤ l.position := by
  induction h with
  | nil => intro l hl; exact absurd hl (by simp)
  | blank hc h ih => intro l hl; exact Nat.le_trans (Nat.le_add_right _ _) (ih l hl)
  | mark hc h ih =>
      intro l hl
      rw [lexemes_lexeme] at hl
      rcases List.mem_cons.mp hl with rfl | hl
      · exact Nat.le_refl _
      · exact Nat.le_trans (Nat.le_add_right _ _) (ih l hl)
  | run hne hd hrest hval h ih =>
      intro l hl
      rw [lexemes_lexeme] at hl
      rcases List.mem_cons.mp hl with rfl | hl
      · exact Nat.le_refl _
      · exact Nat.le_trans (Nat.le_add_right _ _) (ih l hl)

theorem ordered_of_cuts {p : Nat} {rest : List Char} {ps : List Piece} (h : Cuts p rest ps) :
    (ps.filterMap Piece.lexeme?).Pairwise fun a b => a.stop ≤ b.position := by
  induction h with
  | nil => exact .nil
  | blank hc h ih => exact ih
  | @mark p c t rest ps hc h ih =>
      refine .cons (fun l hl => ?_) ih
      have := le_position_of_cuts h l hl
      simpa [Lexeme.stop] using this
  | run hne hd hrest hval h ih =>
      exact .cons (fun l hl => le_position_of_cuts h l hl) ih

theorem Covered.cons {ls : List Lexeme} {i : Nat} {b : UInt8} (l : Lexeme) (h : Covered ls i b) :
    Covered (l :: ls) i b := by
  obtain ⟨l', hl', hi⟩ | hb := h
  · exact .inl ⟨l', .tail l hl', hi⟩
  · exact .inr hb

theorem mem_blankBytes_of_mem_blanks {c : Char} (hc : c ∈ blanks) {b : UInt8}
    (hb : b ∈ String.utf8EncodeChar c) : b ∈ blankBytes := by
  rw [Text.utf8EncodeChar_of_lt (Legal.lt (.inl hc)), List.mem_singleton] at hb
  subst hb
  rcases mem_blanks.mp hc with rfl | rfl | rfl | rfl <;> decide

/-- A byte of a text is one of what stands in front or one of the rest. -/
theorem covered_append {p : Nat} (cs : List Char) {rest : List Char} {ls : List Lexeme}
    (hhead : ∀ i b, i < Text.byteSize cs → b ∈ cs.flatMap String.utf8EncodeChar →
      Covered ls (p + i) b)
    (htail : ∀ i b, (rest.flatMap String.utf8EncodeChar)[i]? = some b →
      Covered ls (p + Text.byteSize cs + i) b) :
    ∀ i b, ((cs ++ rest).flatMap String.utf8EncodeChar)[i]? = some b → Covered ls (p + i) b := by
  intro i b hb
  rw [List.flatMap_append, List.getElem?_append, Text.length_encoded] at hb
  split at hb
  case isTrue hi => exact hhead i b hi (List.mem_of_getElem? hb)
  case isFalse hi =>
      have hcov := htail _ b hb
      rwa [Nat.add_assoc, Nat.add_sub_cancel' (Nat.le_of_not_lt hi)] at hcov

theorem covered_of_cuts {p : Nat} {rest : List Char} {ps : List Piece} (h : Cuts p rest ps) :
    ∀ i b, (rest.flatMap String.utf8EncodeChar)[i]? = some b →
      Covered (ps.filterMap Piece.lexeme?) (p + i) b := by
  have hlexeme : ∀ {l : Lexeme} {ls : List Lexeme} {p i : Nat} {b : UInt8}, l.position = p →
      i < Text.byteSize l.source → Covered (l :: ls) (p + i) b := by
    rintro l ls _ i b rfl hi
    exact .inl ⟨l, .head ls, Nat.le_add_right _ _, Nat.add_lt_add_left hi _⟩
  induction h with
  | nil => intro i b hb; exact absurd hb (by simp)
  | @blank p c rest ps hc h ih =>
      rw [← byteSize_singleton] at ih
      refine covered_append [c] (fun i b _ hb => .inr ?_) ih
      exact mem_blankBytes_of_mem_blanks hc (by simpa using hb)
  | @mark p c t rest ps hc h ih =>
      rw [← byteSize_singleton] at ih
      exact covered_append [c] (fun i b hi _ => hlexeme rfl hi)
        fun i b hb => (ih i b hb).cons _
  | run hne hd hrest hval h ih =>
      exact covered_append _ (fun i b hi _ => hlexeme rfl hi) fun i b hb => (ih i b hb).cons _

theorem Spans.of_cuts {text : String} {ps : List Piece} (h : Cuts 0 text.toList ps) :
    Spans text (ps.filterMap Piece.lexeme?) := by
  have hstands := stands_of_cuts h [] rfl (unsplit_nil _)
  refine ⟨ordered_of_cuts h, fun l hl => ?_, fun l hl => ?_, hstands, fun i b hb => ?_⟩
  · obtain ⟨before, after, -, hl⟩ := hstands l hl
    exact Nat.lt_add_of_pos_right (byteSize_pos hl.denotes.ne_nil)
  · obtain ⟨before, after, htext, hl⟩ := hstands l hl
    rw [Lexeme.stop, ← hl.position]
    exact Text.slice?_of_append htext
  · rw [Text.bytes_eq] at hb
    simpa using covered_of_cuts h i b hb

/-- Without a lexeme there are only blanks. -/
theorem no_lexeme_iff {p : Nat} {text : List Char} {ps : List Piece} (h : Cuts p text ps) :
    ps.filterMap Piece.lexeme? = [] ↔ ∀ c ∈ text, c ∈ blanks := by
  induction h with
  | nil => simp
  | blank hc h ih => rw [lexemes_blank, ih, List.forall_mem_cons, and_iff_right hc]
  | mark hc h ih => simp [not_mem_blanks_of_ofChar? hc]
  | @run p ds rest id ps hne hd hrest hval h ih =>
      obtain ⟨d, ds, rfl⟩ := List.exists_cons_of_ne_nil hne
      simp [not_mem_blanks_of_isDigit (hd d (by simp))]

end Scan

end Prerequisite
