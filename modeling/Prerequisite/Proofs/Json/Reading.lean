/-
Written values are read back.

`Takes` says that a reader has taken a value from the front of a text and left the rest.  For each
reader there is one statement of that form about what the writer puts out, with anything behind it:
for a text in quotes one about what each character is written as, for a number one about each part
of a numeral.  Only a number has to know what comes next (`EndsNumber`), since it might go on.

The loops over items and over fields are turned by one round at a time (`items_step`,
`fields_step`), so that reading a list back is an induction on it.  In all, a plain value is read
back from its text (`ofText?_text`).
-/
import Prerequisite.Proofs.Identifier
import Prerequisite.Proofs.Formula.Scan
import Prerequisite.Proofs.Json.Writing

namespace Prerequisite.Json

open Prerequisite.Text Reader

/-- **A reader has taken a value** and left a rest. -/
def Takes {α : Type} {n : Nat} (reply : Option (Reading α n)) (value : α) (rest : List Char) :
    Prop := ∃ h, reply = some ⟨value, rest, h⟩

theorem Takes.map {α β : Type} {n : Nat} {reply : Option (Reading α n)} {a : α}
    {rest : List Char} (h : Takes reply a rest) (f : α → β) :
    Takes (reply.map (·.map f)) (f a) rest := by
  obtain ⟨hlt, rfl⟩ := h
  exact ⟨hlt, rfl⟩

theorem Takes.succ {α : Type} {n : Nat} {reply : Option (Reading α n)} {a : α}
    {rest : List Char} (h : Takes reply a rest) : Takes (reply.map (·.succ)) a rest := by
  obtain ⟨hlt, rfl⟩ := h
  exact ⟨Nat.lt_succ_of_lt hlt, rfl⟩

theorem Takes.of_some {α : Type} {n : Nat} {r : Reading α n} {a : α} {rest : List Char}
    (hvalue : r.value = a) (hrest : r.rest = rest) : Takes (some r) a rest := by
  subst hvalue hrest
  exact ⟨r.shorter, rfl⟩

/-! ### Texts -/

theorem takes_escape_letter {c l : Char} (h : unescape? l = some c) (cs : List Char) :
    Takes (Reader.escape (l :: cs)) (some c) cs := by
  have hl : l ≠ 'u' := by
    rintro rfl
    simp [unescape?] at h
  rw [Reader.escape, h]
  · exact ⟨_, rfl⟩
  · intro _ _ _ _ _ heq
    exact absurd heq hl

theorem takes_escape_code {c a b : Char} (h : hexUnit? '0' '0' a b = some c.toNat)
    (hc : c.toNat < 0x20) (cs : List Char) :
    Takes (Reader.escape ('u' :: '0' :: '0' :: a :: b :: cs)) (some c) cs := by
  have hhigh : isHighHalf c.toNat = false := by
    simp only [isHighHalf, Bool.and_eq_false_iff, decide_eq_false_iff_not]
    omega
  have hlow : isLowHalf c.toNat = false := by
    simp only [isLowHalf, Bool.and_eq_false_iff, decide_eq_false_iff_not]
    omega
  simp only [Reader.escape, h, hhigh, hlow]
  rw [if_neg Bool.false_ne_true, if_neg Bool.false_ne_true, Char.ofNat_toNat]
  exact ⟨_, rfl⟩

theorem stringTail_escape {n : Nat} {out : Option String} {cs rest : List Char} {x : Option Char}
    (he : Takes (Reader.escape cs) x rest) {h : ('\\' :: cs).length < n} (h' : rest.length < n) :
    stringTail n out ('\\' :: cs) h = stringTail n (pushTo out x) rest h' := by
  obtain ⟨hlt, he⟩ := he
  rw [stringTail, he]

theorem stringTail_itself {n : Nat} {out : Option String} {c : Char} {cs : List Char}
    (hquote : c ≠ '"') (hslash : c ≠ '\\') (hc : 0x20 ≤ c.toNat) {h : (c :: cs).length < n}
    (h' : cs.length < n) :
    stringTail n out (c :: cs) h = stringTail n (pushTo out (some c)) cs h' := by
  rw [stringTail]
  · rw [if_neg (by omega)]
  · exact hquote
  · exact hslash

theorem stringTail_written {n : Nat} {out : Option String} {c : Char} {w cs : List Char}
    (hw : Written c w) {h : (w ++ cs).length < n} (h' : cs.length < n) :
    stringTail n out (w ++ cs) h = stringTail n (pushTo out (some c)) cs h' := by
  cases hw with
  | letter hl _ => exact stringTail_escape (takes_escape_letter hl cs) h'
  | code hcode hc _ _ => exact stringTail_escape (takes_escape_code hcode hc cs) h'
  | itself hquote hslash hc => exact stringTail_itself hquote hslash hc h'

theorem takes_stringTail (s rest : List Char) : ∀ (n : Nat) (out : String)
    (h : (s.flatMap Json.escape ++ '"' :: rest).length < n),
    Takes (stringTail n (some out) (s.flatMap Json.escape ++ '"' :: rest) h)
      (some (pushAll out s)) rest := by
  induction s with
  | nil =>
      intro n out h
      simp only [List.flatMap_nil, List.nil_append]
      rw [stringTail]
      exact ⟨_, rfl⟩
  | cons c s ih =>
      intro n out h
      simp only [List.flatMap_cons, List.append_assoc] at h ⊢
      have hlt : (s.flatMap Json.escape ++ '"' :: rest).length < n := by
        rw [List.length_append] at h
        omega
      rw [stringTail_written (written_escape c) hlt]
      exact ih n (out.push c) hlt

theorem pushAll_empty (s : String) : pushAll "" s.toList = s := by
  rw [← String.toList_inj, toList_pushAll]
  rfl

theorem quoted_append (s : String) (rest : List Char) :
    quoted s ++ rest = '"' :: (s.toList.flatMap Json.escape ++ '"' :: rest) := by
  simp [quoted]

/-- **A text in quotes is read back.** -/
theorem takes_quoted (s : String) (rest : List Char) :
    Takes (value (quoted s ++ rest)) (.string s) rest := by
  have htail := takes_stringTail s.toList rest _ "" (length_lt_succ _)
  rw [pushAll_empty] at htail
  rw [quoted_append, value]
  exact htail.map _

/-! ### Numbers -/

/-- No number goes on where a text begins. -/
def EndsNumber (rest : List Char) : Prop :=
  ∀ c ∈ rest.head?, c.isDigit = false ∧ c ≠ '.' ∧ c ≠ 'e' ∧ c ≠ 'E'

theorem wholeDigits_eq {ds : List Char} : ∀ {v : Nat}, Nat.ofDigitChars 10 ds v < UInt64.size →
    wholeDigits v 0 ds = (Nat.ofDigitChars 10 ds v, 0) := by
  induction ds with
  | nil => intro v _; rfl
  | cons c ds ih =>
      intro v h
      rw [Decimal.ofDigitChars_cons_digitValue] at h ⊢
      have hgrow := Decimal.le_ofDigitChars ds (v * 10 + Decimal.digitValue c)
      rw [wholeDigits, if_pos ⟨rfl, by omega⟩]
      exact ih h

/-- The shortest numeral begins with a zero only if it is one. -/
theorem eq_nil_of_toDigits {m : Nat} {cs : List Char} (h : Nat.toDigits 10 m = '0' :: cs) :
    cs = [] := by
  cases cs with
  | nil => rfl
  | cons c cs =>
      have hrun := Decimal.toDigits_run (Nat.toDigits_ne_nil (b := 10) (n := m))
        fun d hd => Nat.isDigit_of_mem_toDigits (by omega) (by omega) hd
      rw [Nat.ofDigitChars_ten_toDigits] at hrun
      have hlen := congrArg List.length hrun
      rw [h, Decimal.dropZeros] at hlen
      have hle := Decimal.length_dropZeros_le (c :: cs)
      simp only [List.length_cons] at hlen hle
      omega

/-- A numeral has a first digit, and nothing but digits. -/
theorem toDigits_eq_cons (m : Nat) : ∃ c cs, Nat.toDigits 10 m = c :: cs ∧ c.isDigit = true ∧
    ∀ d ∈ cs, d.isDigit = true := by
  have hdigits : ∀ d ∈ Nat.toDigits 10 m, d.isDigit = true :=
    fun d hd => Nat.isDigit_of_mem_toDigits (by omega) (by omega) hd
  cases hm : Nat.toDigits 10 m with
  | nil => exact absurd hm Nat.toDigits_ne_nil
  | cons c cs =>
      rw [hm] at hdigits
      exact ⟨c, cs, rfl, hdigits c (by simp), fun d hd => hdigits d (List.mem_cons_of_mem c hd)⟩

theorem takes_wholePart (m : Nat) {rest : List Char} (hrest : Scan.NoDigit rest) :
    Takes (wholePart (Nat.toDigits 10 m ++ rest)) (Nat.toDigits 10 m) rest := by
  obtain ⟨c, cs, hm, hfirst, hcs⟩ := toDigits_eq_cons m
  rw [hm]
  by_cases hc : c = '0'
  · subst hc
    rw [eq_nil_of_toDigits hm]
    exact ⟨_, rfl⟩
  · rw [List.cons_append, wholePart, digits, if_pos hfirst]
    · exact .of_some (by rw [Scan.takeWhile_run hcs hrest]) (Scan.dropWhile_run hcs hrest)
    · intro ds heq
      exact hc (List.cons.inj heq).1

theorem takes_fractionPart {rest : List Char} (h : EndsNumber rest) :
    Takes (fractionPart rest) none rest := by
  unfold fractionPart
  split
  · exact absurd rfl (h '.' (by simp)).2.1
  · exact .of_some rfl rfl

theorem takes_exponentPart {rest : List Char} (h : EndsNumber rest) :
    Takes (exponentPart rest) none rest := by
  have hmark : ∀ {c : Char}, c ∈ rest.head? → ¬(c == 'e' || c == 'E') = true := by
    intro c hc
    obtain ⟨-, -, he, hE⟩ := h c hc
    simp [he, hE]
  unfold exponentPart
  split
  · rw [if_neg (hmark (by simp))]
    exact .of_some rfl rfl
  · rw [if_neg (hmark (by simp))]
    exact .of_some rfl rfl
  · rw [if_neg (hmark (by simp))]
    exact .of_some rfl rfl
  · exact .of_some rfl rfl

theorem takes_unsignedNumber (negative : Bool) (m : Nat) {rest : List Char}
    (h : EndsNumber rest) : Takes (unsignedNumber negative (Nat.toDigits 10 m ++ rest))
      (Numeral.value ⟨negative, Nat.toDigits 10 m, none, none⟩) rest := by
  obtain ⟨_, hwhole⟩ := takes_wholePart m fun c hc => (h c hc).1
  obtain ⟨_, hfraction⟩ := takes_fractionPart h
  obtain ⟨_, hexponent⟩ := takes_exponentPart h
  unfold unsignedNumber
  rw [hwhole]
  simp only [hfraction, hexponent]
  exact .of_some rfl rfl

/-- The numeral of a whole number of 64 bits denotes the number. -/
theorem value_numeral {n : Int} (hlow : -(UInt64.size / 2) ≤ n) (hhigh : n < UInt64.size) :
    Numeral.value ⟨decide (n < 0), Nat.toDigits 10 n.natAbs, none, none⟩ =
      .number (.whole n) := by
  have hsize : UInt64.size = 18446744073709551616 := rfl
  have hdigits : wholeDigits 0 0 (Nat.toDigits 10 n.natAbs) = (n.natAbs, 0) := by
    have hval := Nat.ofDigitChars_ten_toDigits (n := n.natAbs)
    rw [wholeDigits_eq (by rw [hval]; omega), hval]
  unfold Numeral.value
  simp only [hdigits]
  by_cases hn : n < 0
  · have habs : -(n.natAbs : Int) = n := by omega
    rw [if_neg (by simp), if_neg (by simp [hn]), if_pos (by omega), habs]
  · have habs : (n.natAbs : Int) = n := by omega
    rw [if_neg (by simp), if_pos (by simp [hn]), habs]

/-- What begins like a number is read as one. -/
theorem value_eq_number {c : Char} (hc : c = '-' ∨ c.isDigit = true) (cs : List Char) :
    value (c :: cs) = Reader.number (c :: cs) := by
  have hother : ∀ {d : Char} {ds : List Char}, c :: cs = d :: ds → d ≠ '-' →
      d.isDigit = false → False := by
    intro d ds heq hminus hdigit
    obtain ⟨rfl, -⟩ := List.cons.inj heq
    rcases hc with hc | hc
    · exact hminus hc
    · exact absurd hc (by simp [hdigit])
  rw [value]
  · exact fun _ heq => hother heq (by decide) (by decide)
  · exact fun _ heq => hother heq (by decide) (by decide)
  · exact fun _ heq => hother heq (by decide) (by decide)
  · exact fun _ heq => hother heq (by decide) (by decide)
  · exact fun _ heq => hother heq (by decide) (by decide)
  · exact fun _ heq => hother heq (by decide) (by decide)

theorem takes_whole {n : Int} (hlow : -(UInt64.size / 2) ≤ n) (hhigh : n < UInt64.size)
    {rest : List Char} (h : EndsNumber rest) :
    Takes (value ((Number.whole n).text.toList ++ rest)) (.number (.whole n)) rest := by
  have htake := takes_unsignedNumber (decide (n < 0)) n.natAbs h
  rw [value_numeral hlow hhigh] at htake
  by_cases hn : n < 0
  · have htext : (Number.whole n).text.toList = '-' :: Nat.toDigits 10 n.natAbs := by
      simp [Number.text, hn]
    rw [htext, List.cons_append, value_eq_number (.inl rfl), Reader.number]
    rw [decide_eq_true hn] at htake
    exact htake.succ
  · have htext : (Number.whole n).text.toList = Nat.toDigits 10 n.natAbs := by
      simp [Number.text, hn]
    rw [decide_eq_false hn] at htake
    obtain ⟨c, cs, hm, hc, -⟩ := toDigits_eq_cons n.natAbs
    rw [hm] at htake
    rw [htext, hm, List.cons_append, value_eq_number (.inr hc), Reader.number]
    · exact htake
    · intro ds heq
      obtain ⟨rfl, -⟩ := List.cons.inj heq
      exact absurd hc (by decide)

theorem exists_first_whole (n : Int) : ∃ c cs, (Number.whole n).text.toList = c :: cs ∧
    (c = '-' ∨ c.isDigit = true) := by
  unfold Number.text
  by_cases hn : n < 0
  · exact ⟨'-', Nat.toDigits 10 n.natAbs, by simp [hn], .inl rfl⟩
  · obtain ⟨c, cs, hm, hc, -⟩ := toDigits_eq_cons n.natAbs
    exact ⟨c, cs, by simp [hn, hm], .inr hc⟩

/-! ### Values -/

/-- A text with no blank in front of it. -/
theorem skipBlanks_cons {c : Char} (hc : Reader.isBlank c = false) (cs : List Char) :
    skipBlanks (c :: cs) = c :: cs :=
  List.dropWhile_cons_of_neg (by simp [hc])

/-- **A value is read back** from its characters, with something behind it that ends a number. -/
def ReadBack (v : Json) : Prop :=
  ∀ rest, EndsNumber rest → Takes (value (chars v ++ rest)) v rest

theorem endsNumber_cons {c : Char} (hc : c.isDigit = false) (hdot : c ≠ '.') (he : c ≠ 'e')
    (hE : c ≠ 'E') (cs : List Char) : EndsNumber (c :: cs) := by
  intro d hd
  obtain rfl : c = d := by simpa using hd
  exact ⟨hc, hdot, he, hE⟩

/-- What a plain value begins with is no blank and closes nothing. -/
theorem exists_first {v : Json} (h : Plain v) : ∃ c cs, chars v = c :: cs ∧
    Reader.isBlank c = false ∧ c ≠ ']' := by
  cases h with
  | null => exact ⟨_, _, rfl, by decide, by decide⟩
  | bool b => cases b <;> exact ⟨_, _, rfl, by decide, by decide⟩
  | @whole n _ _ =>
      obtain ⟨c, cs, hcs, hc⟩ := exists_first_whole n
      refine ⟨c, cs, hcs, ?_⟩
      rcases hc with rfl | hc
      · exact ⟨by decide, by decide⟩
      · constructor
        · simp only [Reader.isBlank, Bool.or_eq_false_iff, beq_eq_false_iff_ne, ne_eq]
          refine ⟨⟨⟨?_, ?_⟩, ?_⟩, ?_⟩ <;> rintro rfl <;> exact absurd hc (by decide)
        · rintro rfl
          exact absurd hc (by decide)
  | string s => exact ⟨_, _, rfl, by decide, by decide⟩
  | array _ => exact ⟨_, _, rfl, by decide, by decide⟩
  | object _ => exact ⟨_, _, rfl, by decide, by decide⟩

theorem skipBlanks_chars {v : Json} (h : Plain v) (rest : List Char) :
    skipBlanks (chars v ++ rest) = chars v ++ rest := by
  obtain ⟨c, cs, hcs, hc, -⟩ := exists_first h
  rw [hcs]
  exact skipBlanks_cons hc (cs ++ rest)

section

variable {n : Nat} {s t : List Char} {v : Json}

/-- One round of the loop over items: an item is taken, and then a comma or the end. -/
theorem items_step {done : Array Json} {h : s.length < n} (hv : Takes (value (skipBlanks s)) v t) :
    (∀ (r : List Char) (h' : r.length < n), skipBlanks t = ',' :: r →
      items n done s h = items n (done.push v) r h') ∧
    ∀ r : List Char, skipBlanks t = ']' :: r →
      Takes (items n done s h) (.array (done.toList ++ [v])) r := by
  obtain ⟨_, hv⟩ := hv
  rw [items]
  split
  · rename_i hnone
    exact absurd (hv.symm.trans hnone) (by simp)
  · rename_i item hsome
    obtain rfl := Option.some.inj (hv.symm.trans hsome)
    split
    · rename_i r' hr'
      refine ⟨fun r h' hr => ?_, fun r hr => absurd (hr.symm.trans hr') (by simp)⟩
      obtain ⟨-, rfl⟩ := List.cons.inj (hr.symm.trans hr')
      rfl
    · rename_i r' hr'
      refine ⟨fun r h' hr => absurd (hr.symm.trans hr') (by simp), fun r hr => ?_⟩
      obtain ⟨-, rfl⟩ := List.cons.inj (hr.symm.trans hr')
      exact .of_some (by simp) rfl
    · rename_i hcomma hclose
      exact ⟨fun r _ hr => absurd hr (hcomma r), fun r hr => absurd hr (hclose r)⟩

/-- One round of the loop over fields: a name, a colon and a value are taken, and then a comma or
the end. -/
theorem fields_step {done : Array (Option String × Json)} {h : s.length < n}
    {cs r u : List Char} {name : Option String} (hs : skipBlanks s = '"' :: cs)
    (hname : Takes (stringTail (cs.length + 1) (some "") cs (length_lt_succ cs)) name t)
    (ht : skipBlanks t = ':' :: r) (hv : Takes (value (skipBlanks r)) v u) :
    (∀ (w : List Char) (h' : w.length < n), skipBlanks u = ',' :: w →
      fields n done s h = fields n (done.push (name, v)) w h') ∧
    ∀ w : List Char, skipBlanks u = '\x7d' :: w →
      Takes (fields n done s h) (objectOf (done.push (name, v))) w := by
  obtain ⟨_, hname⟩ := hname
  obtain ⟨_, hv⟩ := hv
  rw [fields]
  split
  · rename_i cs' hs'
    obtain ⟨-, rfl⟩ := List.cons.inj (hs.symm.trans hs')
    simp only [hname]
    split
    · rename_i r' hr'
      obtain ⟨-, rfl⟩ := List.cons.inj (ht.symm.trans hr')
      simp only [hv]
      split
      · rename_i w' hw'
        refine ⟨fun w h' hw => ?_, fun w hw => absurd (hw.symm.trans hw') (by simp)⟩
        obtain ⟨-, rfl⟩ := List.cons.inj (hw.symm.trans hw')
        rfl
      · rename_i w' hw'
        refine ⟨fun w h' hw => absurd (hw.symm.trans hw') (by simp), fun w hw => ?_⟩
        obtain ⟨-, rfl⟩ := List.cons.inj (hw.symm.trans hw')
        exact .of_some rfl rfl
      · rename_i hcomma hclose
        exact ⟨fun w _ hw => absurd hw (hcomma w), fun w hw => absurd hw (hclose w)⟩
    · rename_i hno
      exact absurd ht (hno r)
  · rename_i hno
    exact absurd hs (hno cs)

end

theorem takes_items {vs : List Json} (rest : List Char) : ∀ {v : Json},
    (∀ w ∈ v :: vs, Plain w) → (∀ w ∈ v :: vs, ReadBack w) → ∀ (n : Nat) (done : Array Json)
    (h : (chars v ++ (charsItems [','] vs ++ ']' :: rest)).length < n),
    Takes (items n done (chars v ++ (charsItems [','] vs ++ ']' :: rest)) h)
      (.array (done.toList ++ v :: vs)) rest := by
  induction vs with
  | nil =>
      intro v hplain hread n done h
      have hend := endsNumber_cons (c := ']') (by decide) (by decide) (by decide) (by decide) rest
      have hv := hread v (by simp) _ hend
      rw [← skipBlanks_chars (hplain v (by simp))] at hv
      exact (items_step hv).2 rest (skipBlanks_cons (by decide) rest)
  | cons w ws ih =>
      intro v hplain hread n done h
      have hend := endsNumber_cons (c := ',') (by decide) (by decide) (by decide) (by decide)
        (chars w ++ (charsItems [','] ws ++ ']' :: rest))
      have hv := hread v (by simp) _ hend
      rw [← skipBlanks_chars (hplain v (by simp))] at hv
      have hmore : charsItems [','] (w :: ws) ++ ']' :: rest =
          ',' :: (chars w ++ (charsItems [','] ws ++ ']' :: rest)) := by
        simp [charsItems]
      have hlt : (chars w ++ (charsItems [','] ws ++ ']' :: rest)).length < n := by
        rw [hmore, List.length_append, List.length_cons] at h
        omega
      simp only [hmore]
      rw [(items_step hv).1 _ hlt (skipBlanks_cons (by decide) _)]
      have htake := ih (fun x hx => hplain x (by simp [hx])) (fun x hx => hread x (by simp [hx])) n
        (done.push v) hlt
      simpa using htake

/-- Fields as they are collected: no name has turned out to denote nothing. -/
def named (fs : List (String × Json)) : Array (Option String × Json) :=
  (fs.map fun f => (some f.1, f.2)).toArray

theorem objectOf_named (fs : List (String × Json)) : objectOf (named fs) = .object fs := by
  have hall : ∀ fs : List (String × Json), ((fs.map fun f => (some f.1, f.2)).mapM
      fun f : Option String × Json => f.1.map fun name => (name, f.2)) = some fs := by
    intro fs
    induction fs with
    | nil => rfl
    | cons f fs ih => simp [List.mapM_cons, ih]
  unfold objectOf named
  simp only [hall]

/-- A round of the loop over a field that was written. -/
theorem fields_written {f : String × Json} (hplain : Plain f.2) (hread : ReadBack f.2)
    {rest : List Char} (hend : EndsNumber rest) {n : Nat} {done : Array (Option String × Json)}
    {h : (quoted f.1 ++ ':' :: (chars f.2 ++ rest)).length < n} :
    (∀ (w : List Char) (h' : w.length < n), skipBlanks rest = ',' :: w →
      fields n done (quoted f.1 ++ ':' :: (chars f.2 ++ rest)) h =
        fields n (done.push (some f.1, f.2)) w h') ∧
    ∀ w : List Char, skipBlanks rest = '\x7d' :: w →
      Takes (fields n done (quoted f.1 ++ ':' :: (chars f.2 ++ rest)) h)
        (objectOf (done.push (some f.1, f.2))) w := by
  have hquote : skipBlanks (quoted f.1 ++ ':' :: (chars f.2 ++ rest)) =
      '"' :: (f.1.toList.flatMap Json.escape ++ '"' :: ':' :: (chars f.2 ++ rest)) := by
    rw [quoted_append]
    exact skipBlanks_cons (by decide) _
  have hname := takes_stringTail f.1.toList (':' :: (chars f.2 ++ rest)) _ "" (length_lt_succ _)
  rw [pushAll_empty] at hname
  have hvalue := hread rest hend
  rw [← skipBlanks_chars hplain] at hvalue
  exact fields_step hquote hname (skipBlanks_cons (by decide) _) hvalue

theorem takes_fields {fs : List (String × Json)} (rest : List Char) : ∀ {f : String × Json},
    (∀ g ∈ f :: fs, Plain g.2) → (∀ g ∈ f :: fs, ReadBack g.2) →
    ∀ (n : Nat) (done : Array (Option String × Json)) (h : (quoted f.1 ++ ':' :: (chars f.2 ++
      (charsFields [','] fs ++ '\x7d' :: rest))).length < n),
    Takes (fields n done (quoted f.1 ++ ':' :: (chars f.2 ++ (charsFields [','] fs ++
      '\x7d' :: rest))) h) (objectOf (done ++ named (f :: fs))) rest := by
  induction fs with
  | nil =>
      intro f hplain hread n done h
      have hend := endsNumber_cons (c := '\x7d') (by decide) (by decide) (by decide) (by decide)
        rest
      exact (fields_written (hplain f (by simp)) (hread f (by simp)) hend).2 rest
        (skipBlanks_cons (by decide) rest)
  | cons g gs ih =>
      intro f hplain hread n done h
      have hmore : charsFields [','] (g :: gs) ++ '\x7d' :: rest = ',' :: (quoted g.1 ++
          ':' :: (chars g.2 ++ (charsFields [','] gs ++ '\x7d' :: rest))) := by
        simp [charsFields]
      have hend := endsNumber_cons (c := ',') (by decide) (by decide) (by decide) (by decide)
        (quoted g.1 ++ ':' :: (chars g.2 ++ (charsFields [','] gs ++ '\x7d' :: rest)))
      have hlt : (quoted g.1 ++ ':' :: (chars g.2 ++ (charsFields [','] gs ++
          '\x7d' :: rest))).length < n := by
        rw [hmore, List.length_append, List.length_cons, List.length_append, List.length_cons] at h
        omega
      simp only [hmore]
      rw [(fields_written (hplain f (by simp)) (hread f (by simp)) hend).1 _ hlt
        (skipBlanks_cons (by decide) _)]
      have htake := ih (fun x hx => hplain x (by simp [hx])) (fun x hx => hread x (by simp [hx])) n
        (done.push (some f.1, f.2)) hlt
      simpa [named] using htake

theorem takes_array {items : List Json} (hplain : ∀ v ∈ items, Plain v)
    (hread : ∀ v ∈ items, ReadBack v) (rest : List Char) :
    Takes (value (chars (.array items) ++ rest)) (.array items) rest := by
  cases items with
  | nil =>
      have hskip : skipBlanks (']' :: rest) = ']' :: rest := skipBlanks_cons (by decide) rest
      show Takes (value ('[' :: ']' :: rest)) _ rest
      rw [value]
      split
      · rename_i r hr
        obtain ⟨-, rfl⟩ := List.cons.inj (hskip.symm.trans hr)
        exact .of_some rfl rfl
      · rename_i hno
        exact absurd hskip (hno rest)
  | cons v vs =>
      have hchars : chars (.array (v :: vs)) ++ rest =
          '[' :: (chars v ++ (charsItems [','] vs ++ ']' :: rest)) := by
        simp [chars, charsItems]
      rw [hchars, value]
      split
      · rename_i r hr
        obtain ⟨c, cs, hcs, -, hclose⟩ := exists_first (hplain v (by simp))
        rw [skipBlanks_chars (hplain v (by simp)), hcs] at hr
        exact absurd (List.cons.inj hr).1 hclose
      · exact takes_items rest hplain hread _ #[] (length_lt_succ _)

theorem takes_object {fs : List (String × Json)} (hplain : ∀ f ∈ fs, Plain f.2)
    (hread : ∀ f ∈ fs, ReadBack f.2) (rest : List Char) :
    Takes (value (chars (.object fs) ++ rest)) (.object fs) rest := by
  cases fs with
  | nil =>
      have hskip : skipBlanks ('\x7d' :: rest) = '\x7d' :: rest := skipBlanks_cons (by decide) rest
      show Takes (value ('\x7b' :: '\x7d' :: rest)) _ rest
      rw [value]
      split
      · rename_i r hr
        obtain ⟨-, rfl⟩ := List.cons.inj (hskip.symm.trans hr)
        exact .of_some rfl rfl
      · rename_i hno
        exact absurd hskip (hno rest)
  | cons f fs =>
      have hchars : chars (.object (f :: fs)) ++ rest =
          '\x7b' :: (quoted f.1 ++ ':' :: (chars f.2 ++ (charsFields [','] fs ++
            '\x7d' :: rest))) := by
        simp [chars, charsFields]
      rw [hchars, value]
      split
      · rename_i r hr
        rw [quoted_append, skipBlanks_cons (by decide)] at hr
        exact absurd (List.cons.inj hr).1 (by decide)
      · have htake := takes_fields rest hplain hread _ #[] (length_lt_succ _)
        rw [← objectOf_named]
        simpa using htake

/-- **A plain value is read back from its text,** whatever stands behind it. -/
theorem readBack_of_plain {v : Json} (h : Plain v) : ReadBack v := by
  induction h with
  | null =>
      intro rest _
      simp only [chars, List.cons_append, List.nil_append, value]
      exact .of_some rfl rfl
  | bool b =>
      intro rest _
      cases b
      all_goals
        simp only [chars, List.cons_append, List.nil_append, value]
        exact .of_some rfl rfl
  | whole hlow hhigh => intro rest hrest; exact takes_whole hlow hhigh hrest
  | string s => intro rest _; exact takes_quoted s rest
  | array hplain ih => intro rest _; exact takes_array hplain ih rest
  | object hplain ih => intro rest _; exact takes_object hplain ih rest

/-- **The text of a plain value is read as the value.** -/
theorem ofText?_text {v : Json} (h : Plain v) : ofText? v.text = some v := by
  have hend : EndsNumber [] := fun c hc => absurd hc (by simp)
  have hread := readBack_of_plain h [] hend
  rw [← skipBlanks_chars h [], List.append_nil] at hread
  obtain ⟨_, hread⟩ := hread
  unfold ofText? ofList?
  rw [toList_text, hread]
  exact if_pos rfl

end Prerequisite.Json
