/-
Texts are cut into lexemes exactly.

Texts are scanned byte by byte in practice, with an offset that is moved on, and what a lexeme was
written with is cut out of the text between two offsets.  Such a cut can go wrong: an offset may lie
beyond the end or inside of a character.  `bytewise` is this scan, with every cut made by
`Text.slice?` and given up where there is no such part.

It is never given up.  Everything the scan passes over is one byte long, so the offset always lies
between two characters, and the first byte of a character tells whether it is a blank, a mark or a
digit (`alike_of_encoded`).  So `bytewise` finds what a scan over characters finds (`bytewise_eq`).
-/
import Mathlib.Tactic
import Prerequisite.Proofs.Formula.Spans

namespace Prerequisite

namespace Scan

/-! ### The scan over bytes -/

/-- The end of the digits from an offset on. -/
def runEnd (bytes : List UInt8) (offset : Nat) : Nat :=
  if h : offset < bytes.length then
    if (Char.ofUInt8 bytes[offset]).isDigit then runEnd bytes (offset + 1) else offset
  else offset
termination_by bytes.length - offset

theorem le_runEnd (bytes : List UInt8) (offset : Nat) : offset ≤ runEnd bytes offset := by
  fun_induction runEnd bytes offset with
  | case1 offset h hdigit ih => omega
  | case2 offset h hdigit => exact Nat.le_refl _
  | case3 offset h => exact Nat.le_refl _

theorem lt_runEnd {bytes : List UInt8} {offset : Nat} (h : offset < bytes.length)
    (hdigit : (Char.ofUInt8 bytes[offset]).isDigit = true) : offset < runEnd bytes offset := by
  rw [runEnd, dif_pos h, if_pos hdigit]
  exact le_runEnd bytes (offset + 1)

/-- **The lexemes of a text from an offset on,** after those already found; there is no outcome if
a part of the text does not exist. -/
def bytewiseOnto (text : String) (done : Array Lexeme) (offset : Nat) :
    Option (Except FormulaError (Array Lexeme)) :=
  if h : offset < (Text.bytes text).length then
    if isBlank (Char.ofUInt8 (Text.bytes text)[offset]) then bytewiseOnto text done (offset + 1)
    else if hdigit : (Char.ofUInt8 (Text.bytes text)[offset]).isDigit then
      match Text.slice? text offset (runEnd (Text.bytes text) offset) with
      | none => none
      | some run =>
          match SectionId.ofText run with
          | .ok id =>
              bytewiseOnto text (done.push ⟨.atom id, run.toList, offset⟩)
                (runEnd (Text.bytes text) offset)
          | .error _ => some (.error (.invalidAtom run offset))
    else
      match Token.ofChar? (Char.ofUInt8 (Text.bytes text)[offset]) with
      | some t =>
          match Text.slice? text offset (offset + 1) with
          | none => none
          | some mark => bytewiseOnto text (done.push ⟨t, mark.toList, offset⟩) (offset + 1)
      | none =>
          match Text.slice? text offset (Text.bytes text).length with
          | none => none
          | some rest =>
              some (.error (.unexpected .token
                (.source (String.ofList (rest.toList.take 1))) offset))
  else some (.ok done)
termination_by (Text.bytes text).length - offset
decreasing_by
  · omega
  · have := lt_runEnd h hdigit
    omega
  · omega

/-- **The lexemes of a text, found byte by byte.** -/
def bytewise (limits : Limits) (text : String) : Option (Except FormulaError (List Lexeme)) :=
  if limits.maxBytes < (Text.bytes text).length then
    some (.error (.tooLarge limits.maxBytes (Text.bytes text).length))
  else
    (bytewiseOnto text #[] 0).map fun outcome =>
      outcome.bind fun done => if done.isEmpty then .error .empty else .ok done.toList

/-! ### First bytes -/

/-- A byte tells as much about the ends of lexemes as a character does: it is the character, or
neither may stand in a formula. -/
def Alike (d c : Char) : Prop := d = c ∨ (¬Legal d ∧ ¬Legal c)

theorem alike_of_encoded {c : Char} {b : UInt8} {bs : List UInt8}
    (h : String.utf8EncodeChar c = b :: bs) : Alike (Char.ofUInt8 b) c := by
  by_cases hc : c.toNat < 128
  · rw [Text.utf8EncodeChar_of_lt hc] at h
    obtain ⟨rfl, -⟩ := List.cons.inj h
    exact .inl (Char.toNat_inj.mp (Text.toNat_ofNat_of_lt hc))
  · have hle := Nat.le_of_not_lt hc
    have hb : 128 ≤ (Char.ofUInt8 b).toNat :=
      Text.le_of_mem_utf8EncodeChar hle (h ▸ List.mem_cons_self)
    exact .inr ⟨fun hlegal => Nat.not_lt.mpr hb hlegal.lt, fun hlegal => hc hlegal.lt⟩

theorem Alike.isBlank_eq {d c : Char} (h : Alike d c) : isBlank d = isBlank c := by
  obtain rfl | ⟨hd, hc⟩ := h
  · rfl
  · have hno : ∀ {c : Char}, ¬Legal c → isBlank c = false := fun hc =>
      Bool.eq_false_iff.mpr fun hblank => hc (.inl (isBlank_iff.mp hblank))
    rw [hno hd, hno hc]

theorem Alike.isDigit_eq {d c : Char} (h : Alike d c) : d.isDigit = c.isDigit := by
  obtain rfl | ⟨hd, hc⟩ := h
  · rfl
  · have hno : ∀ {c : Char}, ¬Legal c → c.isDigit = false := fun hc =>
      Bool.eq_false_iff.mpr fun hdigit => hc (.inr (.inl hdigit))
    rw [hno hd, hno hc]

theorem Alike.ofChar?_eq {d c : Char} (h : Alike d c) : Token.ofChar? d = Token.ofChar? c := by
  obtain rfl | ⟨hd, hc⟩ := h
  · rfl
  · have hno : ∀ {c : Char}, ¬Legal c → Token.ofChar? c = none := fun hc =>
      ofChar?_eq_none_iff.mpr fun hmark => hc (.inr (.inr hmark))
    rw [hno hd, hno hc]

/-- Where a character begins, there is a byte like it. -/
theorem byte_at {text : String} {front rest : List Char} {c : Char}
    (h : text.toList = front ++ c :: rest) :
    ∃ hlt : Text.byteSize front < (Text.bytes text).length,
      Alike (Char.ofUInt8 (Text.bytes text)[Text.byteSize front]) c := by
  obtain ⟨b, bs, hc⟩ : ∃ b bs, String.utf8EncodeChar c = b :: bs :=
    List.exists_cons_of_ne_nil String.utf8EncodeChar_ne_nil
  have hbytes : Text.bytes text = front.flatMap String.utf8EncodeChar ++
      b :: (bs ++ rest.flatMap String.utf8EncodeChar) := by
    rw [Text.bytes_eq, h, List.flatMap_append, List.flatMap_cons, hc, List.cons_append]
  have hat : (Text.bytes text)[Text.byteSize front]? = some b := by
    rw [hbytes, ← Text.length_encoded, List.getElem?_append_right (Nat.le_refl _), Nat.sub_self]
    rfl
  obtain ⟨hlt, hget⟩ := List.getElem?_eq_some_iff.mp hat
  exact ⟨hlt, hget ▸ alike_of_encoded hc⟩

/-- There is no byte where the text ends. -/
theorem no_byte_at {text : String} {front : List Char} (h : text.toList = front ++ []) :
    ¬Text.byteSize front < (Text.bytes text).length := by
  rw [Text.length_bytes, h, List.append_nil]
  exact Nat.lt_irrefl _

/-! ### The outcome -/

theorem runEnd_eq {text : String} {rest : List Char} :
    ∀ front : List Char, text.toList = front ++ rest →
      runEnd (Text.bytes text) (Text.byteSize front) =
        Text.byteSize front + Text.byteSize (rest.takeWhile Char.isDigit) := by
  induction rest with
  | nil =>
      intro front h
      rw [runEnd, dif_neg (no_byte_at h)]
      rfl
  | cons c rest ih =>
      intro front h
      obtain ⟨hlt, halike⟩ := byte_at h
      rw [runEnd, dif_pos hlt, halike.isDigit_eq]
      by_cases hdigit : c.isDigit = true
      · have hrest := ih (front ++ [c]) (by simp [h])
        rw [Text.byteSize_append, byteSize_singleton, Text.utf8Size_of_isDigit hdigit] at hrest
        rw [if_pos hdigit, hrest, List.takeWhile_cons_of_pos hdigit, Text.byteSize_cons,
          Text.utf8Size_of_isDigit hdigit, Nat.add_assoc]
      · rw [if_neg hdigit, List.takeWhile_cons_of_neg hdigit]
        rfl

section
variable {text : String} {done : Array Lexeme} {front rest : List Char} {c : Char}

theorem bytewiseOnto_nil (h : text.toList = front ++ []) :
    bytewiseOnto text done (Text.byteSize front) = some (.ok done) := by
  rw [bytewiseOnto, dif_neg (no_byte_at h)]

theorem bytewiseOnto_blank (h : text.toList = front ++ c :: rest) (hblank : isBlank c = true) :
    bytewiseOnto text done (Text.byteSize front) =
      bytewiseOnto text done (Text.byteSize front + c.utf8Size) := by
  obtain ⟨hlt, halike⟩ := byte_at h
  rw [bytewiseOnto, dif_pos hlt, if_pos (halike.isBlank_eq.trans hblank),
    Text.utf8Size_of_lt (Legal.lt (.inl (isBlank_iff.mp hblank)))]

/-- A run of digits is cut out whole, and nothing else is looked at. -/
theorem bytewiseOnto_run (h : text.toList = front ++ c :: rest) (hblank : ¬isBlank c = true)
    (hdigit : c.isDigit = true) :
    bytewiseOnto text done (Text.byteSize front) =
      match SectionId.ofDigits (c :: rest.takeWhile Char.isDigit) with
      | .ok id =>
          bytewiseOnto text
            (done.push ⟨.atom id, c :: rest.takeWhile Char.isDigit, Text.byteSize front⟩)
            (Text.byteSize front + Text.byteSize (c :: rest.takeWhile Char.isDigit))
      | .error _ => some (.error (.invalidAtom
          (String.ofList (c :: rest.takeWhile Char.isDigit)) (Text.byteSize front))) := by
  obtain ⟨hlt, halike⟩ := byte_at h
  have hd : ∀ x ∈ c :: rest.takeWhile Char.isDigit, x.isDigit = true :=
    fun _ hx => isDigit_of_mem_run hdigit hx
  have hend := runEnd_eq front h
  rw [List.takeWhile_cons_of_pos hdigit] at hend
  have htext : text.toList =
      front ++ (c :: rest.takeWhile Char.isDigit) ++ rest.dropWhile Char.isDigit := by
    rw [h, List.append_assoc, List.cons_append, List.takeWhile_append_dropWhile]
  rw [bytewiseOnto, dif_pos hlt, if_neg (by rw [halike.isBlank_eq]; exact hblank),
    dif_pos (halike.isDigit_eq.trans hdigit), hend, Text.slice?_of_append htext]
  simp only [SectionId.ofText_ofList hd, String.toList_ofList]

theorem bytewiseOnto_mark (h : text.toList = front ++ c :: rest) (hblank : ¬isBlank c = true)
    (hdigit : ¬c.isDigit = true) {t : Token} (ht : Token.ofChar? c = some t) :
    bytewiseOnto text done (Text.byteSize front) =
      bytewiseOnto text (done.push ⟨t, [c], Text.byteSize front⟩)
        (Text.byteSize front + c.utf8Size) := by
  obtain ⟨hlt, halike⟩ := byte_at h
  have htext : text.toList = front ++ [c] ++ rest := by rw [h, List.append_assoc]; rfl
  have hslice := Text.slice?_of_append htext
  rw [byteSize_singleton, Text.utf8Size_of_lt (legal_of_ofChar? ht).lt] at hslice
  rw [bytewiseOnto, dif_pos hlt, if_neg (by rw [halike.isBlank_eq]; exact hblank),
    dif_neg (by rw [halike.isDigit_eq]; exact hdigit), halike.ofChar?_eq, ht, hslice,
    Text.utf8Size_of_lt (legal_of_ofChar? ht).lt]
  simp only [String.toList_ofList]

/-- Of a character that may not stand there all is reported and not its first byte. -/
theorem bytewiseOnto_unexpected (h : text.toList = front ++ c :: rest)
    (hblank : ¬isBlank c = true) (hdigit : ¬c.isDigit = true)
    (hnone : Token.ofChar? c = none) :
    bytewiseOnto text done (Text.byteSize front) =
      some (.error (.unexpected .token (.source (String.ofList [c])) (Text.byteSize front))) := by
  obtain ⟨hlt, halike⟩ := byte_at h
  have htext : text.toList = front ++ (c :: rest) ++ [] := by rw [h, List.append_nil]
  have hslice := Text.slice?_of_append htext
  rw [← Text.byteSize_append, ← h, ← Text.length_bytes] at hslice
  rw [bytewiseOnto, dif_pos hlt, if_neg (by rw [halike.isBlank_eq]; exact hblank),
    dif_neg (by rw [halike.isDigit_eq]; exact hdigit), halike.ofChar?_eq, hnone, hslice]
  simp only [String.toList_ofList, List.take_succ_cons, List.take_zero]

end

theorem found_blank (done : Array Piece) (c : Char) :
    (done.push (.blank c)).filterMap Piece.lexeme? = done.filterMap Piece.lexeme? :=
  Array.filterMap_push (by simp)

theorem found_lexeme (done : Array Piece) (l : Lexeme) :
    (done.push (.lexeme l)).filterMap Piece.lexeme? = (done.filterMap Piece.lexeme?).push l :=
  Array.filterMap_push (by simp)

/-- **No part of a text is asked for that does not exist,** and the scan over bytes goes as the scan
over characters does. -/
theorem bytewiseOnto_eq {text : String} (done : Array Piece) {p : Nat} {rest : List Char} :
    ∀ front : List Char, text.toList = front ++ rest → Text.byteSize front = p →
      bytewiseOnto text (done.filterMap Piece.lexeme?) p =
        some ((onto done p rest).map fun out => out.filterMap Piece.lexeme?) := by
  induction done, p, rest using onto.induct with
  | case1 done p =>
      rintro front h rfl
      rw [bytewiseOnto_nil h, onto]
      rfl
  | case2 done p c rest hblank ih =>
      rintro front h rfl
      have hrest := ih (front ++ [c]) (by simp [h]) (by simp)
      rw [found_blank] at hrest
      rw [bytewiseOnto_blank h hblank, hrest, onto, if_pos hblank]
  | case3 done p c rest hblank hdigit id hid ih =>
      rintro front h rfl
      have hrest := ih (front ++ c :: rest.takeWhile Char.isDigit)
        (by rw [h, List.append_assoc, List.cons_append, List.takeWhile_append_dropWhile]) (by simp)
      rw [found_lexeme] at hrest
      rw [bytewiseOnto_run h hblank hdigit, hid, onto, if_neg hblank, if_pos hdigit, hid]
      exact hrest
  | case4 done p c rest hblank hdigit e he =>
      rintro front h rfl
      rw [bytewiseOnto_run h hblank hdigit, he, onto, if_neg hblank, if_pos hdigit, he]
      rfl
  | case5 done p c rest hblank hdigit t ht ih =>
      rintro front h rfl
      have hrest := ih (front ++ [c]) (by simp [h]) (by simp)
      rw [found_lexeme] at hrest
      rw [bytewiseOnto_mark h hblank hdigit ht, hrest, onto, if_neg hblank, if_neg hdigit, ht]
  | case6 done p c rest hblank hdigit hnone =>
      rintro front h rfl
      rw [bytewiseOnto_unexpected h hblank hdigit hnone, onto, if_neg hblank, if_neg hdigit, hnone]
      rfl

theorem any_lexeme_eq (done : Array Piece) :
    done.any (·.lexeme?.isSome) = !(done.filterMap Piece.lexeme?).isEmpty := by
  rw [Bool.eq_iff_iff, ← Array.any_toList, any_lexeme_iff, ← Array.toList_filterMap,
    Bool.not_eq_true', Array.isEmpty_eq_false_iff, Ne, Ne, Array.toList_eq_nil_iff]

/-- **A scan over bytes finds the lexemes of a text** or the fault that a scan over characters
stops at. -/
theorem bytewise_eq (limits : Limits) (text : String) :
    bytewise limits text = some (lexemes limits text) := by
  have hscan : bytewiseOnto text #[] 0 =
      some ((onto #[] 0 text.toList).map fun out => out.filterMap Piece.lexeme?) :=
    bytewiseOnto_eq #[] [] rfl rfl
  rw [bytewise, lexemes, pieces, Text.length_bytes, hscan]
  by_cases hsize : limits.maxBytes < Text.byteSize text.toList
  · rw [if_pos hsize, if_pos hsize]
    rfl
  · rw [if_neg hsize, if_neg hsize]
    cases onto #[] 0 text.toList with
    | error e => rfl
    | ok done =>
        simp only [any_lexeme_eq, Option.map_some, Except.map, Except.bind]
        cases (done.filterMap Piece.lexeme?).isEmpty with
        | true => rfl
        | false => simp

-- A character that may not stand there is told whole, however many bytes it has.
example : bytewise ⟨9, 9⟩ "1 é" = some (.error (.unexpected .token (.source "é") 2)) := by cbv

/-! ### All outcomes -/

/-- **Why a text has no lexemes.**  Its size comes first, then the leftmost fault. -/
inductive Rejected (limits : Limits) (text : List Char) : FormulaError → Prop
  | tooLarge (hsize : limits.maxBytes < Text.byteSize text) :
      Rejected limits text (.tooLarge limits.maxBytes (Text.byteSize text))
  | fault {e : FormulaError} (hsize : Text.byteSize text ≤ limits.maxBytes)
      (h : FirstFault text e) : Rejected limits text e
  | empty (hsize : Text.byteSize text ≤ limits.maxBytes)
      (h : ∀ c ∈ text, c ∈ blanks) : Rejected limits text .empty

/-- **Why a text has lexemes.** -/
structure Accepted (limits : Limits) (text : List Char) : Prop where
  size : Text.byteSize text ≤ limits.maxBytes
  written : ∃ c ∈ text, c ∉ blanks
  legal : ∀ c ∈ text, Legal c
  /-- Every whole run of digits, with any number of zeros in front, has a value within the bound. -/
  ids : ∀ before ds after, text = before ++ ds ++ after → WholeRun before ds after →
    Nat.ofDigitChars 10 ds 0 ≤ maxId

theorem lexemes_outcome (limits : Limits) (text : String) :
    (∃ e, lexemes limits text = .error e ∧ Rejected limits text.toList e) ∨
      ∃ ls, lexemes limits text = .ok ls ∧ Accepted limits text.toList ∧ Spans text ls := by
  rw [lexemes, pieces]
  by_cases hsize : limits.maxBytes < Text.byteSize text.toList
  · rw [if_pos hsize]
    exact .inl ⟨_, rfl, .tooLarge hsize⟩
  · rw [if_neg hsize]
    have hsize := Nat.le_of_not_lt hsize
    have hreports : Reports text.toList (onto #[] 0 text.toList) :=
      onto_faults [] rfl (Reached.start text.toList)
    cases hout : onto #[] 0 text.toList with
    | error e =>
        rw [hout] at hreports
        exact .inl ⟨e, rfl, .fault hsize hreports⟩
    | ok out =>
        rw [hout] at hreports
        obtain ⟨hlegal, hids⟩ := faultless_iff.mp hreports
        obtain ⟨ps, hps, hlist⟩ := cuts_of_onto hout
        obtain rfl : out.toList = ps := by simpa using hlist
        have hany : out.toList.any (·.lexeme?.isSome) = true ↔ _ := any_lexeme_iff
        rw [Array.any_toList, Ne, no_lexeme_iff hps] at hany
        dsimp only
        by_cases hblank : ∀ c ∈ text.toList, c ∈ blanks
        · rw [if_neg (fun h => hany.mp h hblank)]
          exact .inl ⟨_, rfl, .empty hsize hblank⟩
        · rw [if_pos (hany.mpr hblank)]
          refine .inr ⟨_, rfl, ⟨hsize, ?_, hlegal, hids⟩, .of_cuts hps⟩
          by_contra hno
          exact hblank fun c hc => by_contra fun hb => hno ⟨c, hc, hb⟩

theorem Accepted.not_rejected {limits : Limits} {text : List Char} {e : FormulaError}
    (h : Accepted limits text) : ¬Rejected limits text e := by
  rintro (hsize | ⟨-, hfault⟩ | ⟨-, hblank⟩)
  · exact Nat.not_lt.mpr h.size hsize
  · exact hfault.not_faultless (faultless_iff.mpr ⟨h.legal, h.ids⟩)
  · obtain ⟨c, hc, hno⟩ := h.written
    exact hno (hblank c hc)

theorem Rejected.unique {limits : Limits} {text : List Char} {e e' : FormulaError}
    (h : Rejected limits text e) (h' : Rejected limits text e') : e = e' := by
  cases h with
  | tooLarge hsize =>
      cases h' with
      | tooLarge _ => rfl
      | fault hsize' _ => omega
      | empty hsize' _ => omega
  | fault hsize hfault =>
      cases h' with
      | tooLarge hsize' => omega
      | fault _ hfault' => exact hfault.unique hfault'
      | empty _ hblank => exact absurd (faultless_of_blank hblank) hfault.not_faultless
  | empty hsize hblank =>
      cases h' with
      | tooLarge hsize' => omega
      | fault _ hfault' => exact absurd (faultless_of_blank hblank) hfault'.not_faultless
      | empty _ _ => rfl

/-- **A text is cut into lexemes without a loss, or the leftmost fault is told.**  The first part
says which texts have lexemes, the second what these are, the third how all other texts are
rejected; the last is that going over bytes does the same and never cuts through a character. -/
theorem lexemes_exact (limits : Limits) (text : String) :
    ((∃ ls, lexemes limits text = .ok ls) ↔ Accepted limits text.toList) ∧
    (∀ ls, lexemes limits text = .ok ls → Spans text ls) ∧
    (∀ e, lexemes limits text = .error e ↔ Rejected limits text.toList e) ∧
    bytewise limits text = some (lexemes limits text) := by
  obtain ⟨e, heq, hrej⟩ | ⟨ls, heq, hacc, hspans⟩ := lexemes_outcome limits text
  · refine ⟨⟨?_, fun h => absurd hrej h.not_rejected⟩, ?_, fun e' => ⟨?_, ?_⟩, bytewise_eq _ _⟩
    · rintro ⟨ls, h⟩
      exact absurd (heq.symm.trans h) (by simp)
    · intro ls h
      exact absurd (heq.symm.trans h) (by simp)
    · intro h
      obtain rfl : e = e' := Except.error.inj (heq.symm.trans h)
      exact hrej
    · intro h
      rw [heq, hrej.unique h]
  · refine ⟨⟨fun _ => hacc, fun _ => ⟨ls, heq⟩⟩, ?_, fun e => ⟨?_, ?_⟩, bytewise_eq _ _⟩
    · intro ls' h
      obtain rfl : ls = ls' := Except.ok.inj (heq.symm.trans h)
      exact hspans
    · intro h
      exact absurd (heq.symm.trans h) (by simp)
    · intro h
      exact absurd h hacc.not_rejected

end Scan

end Prerequisite
