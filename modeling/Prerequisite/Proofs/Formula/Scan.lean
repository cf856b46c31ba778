/-
What a scan finds, said without the scan.

`Cuts` says into which pieces a text falls: blanks, tokens of one character, and runs of digits that
go as far as they can.  It speaks of numbers and not of how they are read, and no bound on the size
of a text occurs in it.

The scan finds the pieces of a text whenever it has any (`pieces_eq_ok_iff`).  Which pieces they are
settles how the text is written in its shortest form, without blanks and without zeros in front of a
number: that is what its tokens are written as (`compact_of_cuts`), and it is never longer.
-/
import Prerequisite.Formula.Token
import Prerequisite.Proofs.Identifier

namespace Prerequisite

namespace Scan

/-- The characters that are blank. -/
def blanks : List Char := [' ', '\t', '\n', '\r']

theorem mem_blanks {c : Char} : c ∈ blanks ↔ c = ' ' ∨ c = '\t' ∨ c = '\n' ∨ c = '\r' := by
  simp [blanks]

theorem isBlank_iff {c : Char} : isBlank c = true ↔ c ∈ blanks := by
  simp [isBlank, mem_blanks, or_assoc]

/-- No digit stands at the front of a text. -/
def NoDigit (text : List Char) : Prop := ∀ c ∈ text.head?, c.isDigit = false

/-- **The pieces a text falls into,** from a byte offset on. -/
inductive Cuts : Nat → List Char → List Piece → Prop
  | nil {p : Nat} : Cuts p [] []
  | blank {p : Nat} {c : Char} {rest : List Char} {ps : List Piece}
      (hc : c ∈ blanks) (h : Cuts (p + c.utf8Size) rest ps) :
      Cuts p (c :: rest) (.blank c :: ps)
  /-- A token of one character. -/
  | mark {p : Nat} {c : Char} {t : Token} {rest : List Char} {ps : List Piece}
      (hc : Token.ofChar? c = some t) (h : Cuts (p + c.utf8Size) rest ps) :
      Cuts p (c :: rest) (.lexeme ⟨t, [c], p⟩ :: ps)
  /-- A whole run of digits, and the id whose number it stands for. -/
  | run {p : Nat} {ds rest : List Char} {id : SectionId} {ps : List Piece}
      (hne : ds ≠ []) (hd : ∀ c ∈ ds, c.isDigit = true) (hrest : NoDigit rest)
      (hval : Nat.ofDigitChars 10 ds 0 = id.number.toNat)
      (h : Cuts (p + Text.byteSize ds) rest ps) :
      Cuts p (ds ++ rest) (.lexeme ⟨.atom id, ds, p⟩ :: ps)

/-! ### The lexemes among pieces -/

@[simp] theorem lexemes_blank (c : Char) (ps : List Piece) :
    (Piece.blank c :: ps).filterMap Piece.lexeme? = ps.filterMap Piece.lexeme? := rfl

@[simp] theorem lexemes_lexeme (l : Lexeme) (ps : List Piece) :
    (Piece.lexeme l :: ps).filterMap Piece.lexeme? = l :: ps.filterMap Piece.lexeme? := rfl

theorem any_lexeme_iff {ps : List Piece} :
    ps.any (·.lexeme?.isSome) = true ↔ ps.filterMap Piece.lexeme? ≠ [] := by
  induction ps with
  | nil => simp
  | cons p ps ih => cases hp : p.lexeme? <;> simp [hp, ih]

/-! ### Runs of digits -/

theorem noDigit_dropWhile (text : List Char) : NoDigit (text.dropWhile Char.isDigit) := by
  intro c hc
  have h := List.head?_dropWhile_not Char.isDigit text
  rw [Option.mem_def.mp hc] at h
  exact h

theorem takeWhile_run {ds rest : List Char} (hd : ∀ c ∈ ds, c.isDigit = true)
    (hrest : NoDigit rest) : (ds ++ rest).takeWhile Char.isDigit = ds := by
  rw [List.takeWhile_append_of_pos hd]
  cases rest with
  | nil => simp
  | cons c rest => simp [hrest c (by simp)]

theorem dropWhile_run {ds rest : List Char} (hd : ∀ c ∈ ds, c.isDigit = true)
    (hrest : NoDigit rest) : (ds ++ rest).dropWhile Char.isDigit = rest := by
  rw [List.dropWhile_append_of_pos hd]
  cases rest with
  | nil => simp
  | cons c rest => simp [hrest c (by simp)]

/-- From a digit on as far as digits go there are digits. -/
theorem isDigit_of_mem_run {c x : Char} {rest : List Char} (hc : c.isDigit = true)
    (hx : x ∈ c :: rest.takeWhile Char.isDigit) : x.isDigit = true := by
  rcases List.mem_cons.mp hx with rfl | hx
  · exact hc
  · exact List.all_eq_true.mp List.all_takeWhile x hx

theorem not_mem_blanks_of_isDigit {c : Char} (hc : c.isDigit = true) : c ∉ blanks := by
  intro h
  rcases mem_blanks.mp h with rfl | rfl | rfl | rfl <;> exact absurd hc (by decide)

theorem ofChar?_cases {c : Char} {t : Token} (h : Token.ofChar? c = some t) :
    (c = '^' ∧ t = .and) ∨ (c = 'v' ∧ t = .or) ∨ (c = '!' ∧ t = .not) ∨
      (c = '(' ∧ t = .opening) ∨ (c = ')' ∧ t = .closing) := by
  unfold Token.ofChar? at h
  split at h <;> simp_all

theorem not_mem_blanks_of_ofChar? {c : Char} {t : Token} (h : Token.ofChar? c = some t) :
    c ∉ blanks := by
  rcases ofChar?_cases h with ⟨rfl, -⟩ | ⟨rfl, -⟩ | ⟨rfl, -⟩ | ⟨rfl, -⟩ | ⟨rfl, -⟩ <;> decide

theorem not_isDigit_of_ofChar? {c : Char} {t : Token} (h : Token.ofChar? c = some t) :
    ¬c.isDigit = true := by
  rcases ofChar?_cases h with ⟨rfl, -⟩ | ⟨rfl, -⟩ | ⟨rfl, -⟩ | ⟨rfl, -⟩ | ⟨rfl, -⟩ <;> decide

/-! ### The scan finds the pieces -/

theorem cuts_of_onto {done out : Array Piece} {p : Nat} {text : List Char}
    (h : onto done p text = .ok out) : ∃ ps, Cuts p text ps ∧ out.toList = done.toList ++ ps := by
  induction done, p, text using onto.induct with
  | case1 done p =>
      rw [onto, Except.ok.injEq] at h
      exact ⟨[], .nil, by simp [h]⟩
  | case2 done p c rest hblank ih =>
      rw [onto, if_pos hblank] at h
      obtain ⟨ps, hps, hout⟩ := ih h
      exact ⟨.blank c :: ps, .blank (isBlank_iff.mp hblank) hps, by simp [hout]⟩
  | case3 done p c rest hblank hdigit id hid ih =>
      rw [onto, if_neg hblank, if_pos hdigit, hid] at h
      obtain ⟨ps, hps, hout⟩ := ih h
      obtain ⟨hne, hd, hval⟩ := SectionId.ofDigits_eq_ok_iff.mp hid
      refine ⟨.lexeme ⟨.atom id, c :: rest.takeWhile Char.isDigit, p⟩ :: ps, ?_, by simp [hout]⟩
      have hcut := Cuts.run (p := p) hne hd (noDigit_dropWhile rest) hval hps
      rwa [List.cons_append, List.takeWhile_append_dropWhile] at hcut
  | case4 done p c rest hblank hdigit e he =>
      rw [onto, if_neg hblank, if_pos hdigit, he] at h
      exact absurd h (by simp)
  | case5 done p c rest hblank hdigit t ht ih =>
      rw [onto, if_neg hblank, if_neg hdigit, ht] at h
      obtain ⟨ps, hps, hout⟩ := ih h
      exact ⟨.lexeme ⟨t, [c], p⟩ :: ps, .mark ht hps, by simp [hout]⟩
  | case6 done p c rest hblank hdigit hnone =>
      rw [onto, if_neg hblank, if_neg hdigit, hnone] at h
      exact absurd h (by simp)

theorem onto_of_cuts {p : Nat} {text : List Char} {ps : List Piece} (h : Cuts p text ps) :
    ∀ done : Array Piece, onto done p text = .ok (done ++ ps.toArray) := by
  induction h with
  | nil => intro done; rw [onto]; simp
  | @blank p c rest ps hc h ih =>
      intro done
      rw [onto, if_pos (isBlank_iff.mpr hc), ih]
      simp
  | @mark p c t rest ps hc h ih =>
      intro done
      have hblank := mt isBlank_iff.mp (not_mem_blanks_of_ofChar? hc)
      rw [onto, if_neg hblank, if_neg (not_isDigit_of_ofChar? hc), hc]
      show onto _ _ rest = _
      rw [ih]
      simp
  | @run p ds rest id ps hne hd hrest hval h ih =>
      intro done
      have hid : SectionId.ofDigits ds = .ok id := SectionId.ofDigits_eq_ok_iff.mpr ⟨hne, hd, hval⟩
      obtain ⟨c, ds, rfl⟩ := List.exists_cons_of_ne_nil hne
      have hc : c.isDigit = true := hd c (by simp)
      have hds : ∀ x ∈ ds, x.isDigit = true := fun x hx => hd x (by simp [hx])
      have hblank := mt isBlank_iff.mp (not_mem_blanks_of_isDigit hc)
      rw [List.cons_append, onto, if_neg hblank, if_pos hc, takeWhile_run hds hrest,
        dropWhile_run hds hrest, hid]
      show onto _ _ rest = _
      rw [ih]
      simp

/-- **A scan finds the pieces of a text that is small enough and has a token.** -/
theorem pieces_eq_ok_iff {limits : Limits} {text : List Char} {ps : List Piece} :
    pieces limits text = .ok ps ↔
      Text.byteSize text ≤ limits.maxBytes ∧ Cuts 0 text ps ∧ ps.filterMap Piece.lexeme? ≠ [] := by
  unfold pieces
  by_cases hsize : limits.maxBytes < Text.byteSize text
  · rw [if_pos hsize]
    constructor
    · intro h
      exact absurd h (by simp)
    · rintro ⟨hle, -⟩
      omega
  · rw [if_neg hsize]
    constructor
    · intro h
      split at h
      · exact absurd h (by simp)
      · rename_i out hout
        obtain ⟨qs, hqs, htl⟩ := cuts_of_onto hout
        have htl' : out.toList = qs := by simpa using htl
        split at h
        · rename_i hsome
          obtain rfl : out.toList = ps := by simpa using h
          rw [← Array.any_toList, any_lexeme_iff] at hsome
          exact ⟨by omega, htl' ▸ hqs, hsome⟩
        · exact absurd h (by simp)
    · rintro ⟨-, hcut, hne⟩
      rw [onto_of_cuts hcut]
      have hsome := any_lexeme_iff.mpr hne
      simp [hsome]

/-! ### The tokens of a text -/

/-- A text is cut into pieces with these lexemes, of which there is at least one. -/
def Lexes (text : List Char) (ls : List Lexeme) : Prop :=
  ls ≠ [] ∧ ∃ ps, Cuts 0 text ps ∧ ps.filterMap Piece.lexeme? = ls

theorem lexemes_of_pieces {limits : Limits} {text : String} {ps : List Piece}
    (h : pieces limits text.toList = .ok ps) :
    lexemes limits text = .ok (ps.filterMap Piece.lexeme?) := by
  rw [lexemes, h]
  rfl

/-- **A text tokenizes under limits exactly when it is small enough and has tokens.** -/
theorem lexemes_eq_ok_iff {limits : Limits} {text : String} {ls : List Lexeme} :
    lexemes limits text = .ok ls ↔
      Text.byteSize text.toList ≤ limits.maxBytes ∧ Lexes text.toList ls := by
  constructor
  · intro h
    rw [lexemes] at h
    cases hps : pieces limits text.toList with
    | error e => rw [hps] at h; exact absurd h (by simp [Except.map])
    | ok ps =>
        obtain ⟨hsize, hcut, hne⟩ := pieces_eq_ok_iff.mp hps
        rw [hps] at h
        obtain rfl : ps.filterMap Piece.lexeme? = ls := by simpa [Except.map] using h
        exact ⟨hsize, hne, ps, hcut, rfl⟩
  · rintro ⟨hsize, hne, ps, hcut, rfl⟩
    exact lexemes_of_pieces (pieces_eq_ok_iff.mpr ⟨hsize, hcut, hne⟩)

/-- A text falls into pieces in one way. -/
theorem Cuts.unique {p : Nat} {text : List Char} {ps qs : List Piece} (h : Cuts p text ps)
    (h' : Cuts p text qs) : ps = qs := by
  have heq := (onto_of_cuts h #[]).symm.trans (onto_of_cuts h' #[])
  simpa using heq

/-! ### The shortest way to write a text -/

/-- **A text without its blanks,** and each run of digits as the decimal numeral of its value. -/
def compact (text : List Char) : List Char :=
  match text with
  | [] => []
  | c :: rest =>
      if c ∈ blanks then compact rest
      else if c.isDigit then
        Nat.toDigits 10 (Nat.ofDigitChars 10 (c :: rest.takeWhile Char.isDigit) 0) ++
          compact (rest.dropWhile Char.isDigit)
      else c :: compact rest
termination_by text.length
decreasing_by
  · simp
  · have := Text.length_dropWhile_le Char.isDigit rest
    simp only [List.length_cons]
    omega
  · simp

/-- A text without its blanks and without the zeros in front of its runs of digits. -/
def stripped (text : List Char) : List Char :=
  match text with
  | [] => []
  | c :: rest =>
      if c ∈ blanks then stripped rest
      else if c.isDigit then
        Decimal.dropZeros (c :: rest.takeWhile Char.isDigit) ++
          stripped (rest.dropWhile Char.isDigit)
      else c :: stripped rest
termination_by text.length
decreasing_by
  · simp
  · have := Text.length_dropWhile_le Char.isDigit rest
    simp only [List.length_cons]
    omega
  · simp

/-- Digits are characters of a numeral already, so nothing is computed in a shortest form. -/
theorem compact_eq_stripped (text : List Char) : compact text = stripped text := by
  fun_induction stripped text with
  | case1 => rw [compact]
  | case2 c rest hblank ih => rw [compact, if_pos hblank, ih]
  | case3 c rest hblank hdigit ih =>
      have hrun : ∀ x ∈ c :: rest.takeWhile Char.isDigit, x.isDigit = true :=
        fun _ hx => isDigit_of_mem_run hdigit hx
      rw [compact, if_neg hblank, if_pos hdigit, Decimal.toDigits_run (by simp) hrun, ih]
  | case4 c rest hblank hdigit ih => rw [compact, if_neg hblank, if_neg hdigit, ih]

theorem chars_of_ofChar? {c : Char} {t : Token} (h : Token.ofChar? c = some t) :
    t.chars = [c] := by
  rcases ofChar?_cases h with ⟨rfl, rfl⟩ | ⟨rfl, rfl⟩ | ⟨rfl, rfl⟩ | ⟨rfl, rfl⟩ | ⟨rfl, rfl⟩ <;> rfl

/-- **The tokens of a text are written as its shortest form.** -/
theorem compact_of_cuts {p : Nat} {text : List Char} {ps : List Piece} (h : Cuts p text ps) :
    compact text = ((ps.filterMap Piece.lexeme?).map Lexeme.token).flatMap Token.chars := by
  induction h with
  | nil => rw [compact]; rfl
  | blank hc _ ih => rw [compact, if_pos hc, ih, lexemes_blank]
  | mark hc _ ih =>
      rw [compact, if_neg (not_mem_blanks_of_ofChar? hc), if_neg (not_isDigit_of_ofChar? hc), ih,
        lexemes_lexeme, List.map_cons, List.flatMap_cons, chars_of_ofChar? hc]
      rfl
  | @run p ds rest id ps hne hd hrest hval _ ih =>
      obtain ⟨c, ds, rfl⟩ := List.exists_cons_of_ne_nil hne
      have hc : c.isDigit = true := hd c (by simp)
      have hds : ∀ x ∈ ds, x.isDigit = true := fun x hx => hd x (by simp [hx])
      rw [List.cons_append, compact, if_neg (not_mem_blanks_of_isDigit hc), if_pos hc,
        takeWhile_run hds hrest, dropWhile_run hds hrest, hval, ih]
      rfl

/-- No run of digits that stands for an id is shorter than its numeral. -/
theorem byteSize_digits_le {ds : List Char} {id : SectionId} (hne : ds ≠ [])
    (hd : ∀ c ∈ ds, c.isDigit = true) (hval : Nat.ofDigitChars 10 ds 0 = id.number.toNat) :
    Text.byteSize id.digits ≤ Text.byteSize ds := by
  rw [Text.byteSize_of_digits fun c hc => SectionId.isDigit_of_mem_digits hc,
    Text.byteSize_of_digits hd]
  exact SectionId.length_digits_le (SectionId.ofDigits_eq_ok_iff.mpr ⟨hne, hd, hval⟩)

/-- The shortest form is no longer than the text. -/
theorem byteSize_chars_le {p : Nat} {text : List Char} {ps : List Piece} (h : Cuts p text ps) :
    Text.byteSize (((ps.filterMap Piece.lexeme?).map Lexeme.token).flatMap Token.chars) ≤
      Text.byteSize text := by
  induction h with
  | nil => exact Nat.le_refl _
  | blank _ _ ih =>
      rw [lexemes_blank, Text.byteSize_cons]
      omega
  | mark hc _ ih =>
      rw [lexemes_lexeme, List.map_cons, List.flatMap_cons, chars_of_ofChar? hc,
        Text.byteSize_append, Text.byteSize_cons, Text.byteSize_cons, Text.byteSize_nil]
      omega
  | @run p ds rest id ps hne hd hrest hval _ ih =>
      rw [lexemes_lexeme, List.map_cons, List.flatMap_cons, Text.byteSize_append,
        Text.byteSize_append]
      exact Nat.add_le_add (byteSize_digits_le hne hd hval) ih

end Scan

end Prerequisite
