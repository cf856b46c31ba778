/-
Ids are read back as they were written.

Two things are needed of the numerals.  Reading a run of digits gives the id whose number the run
stands for, and fails exactly when there is none; so every id is read back from its own digits.
And an id's own digits are never longer than a run it was read from, because a run can only have
zeros in front.

`readOnto` stops at the first prefix beyond its bound.  That this loses nothing is
`le_ofDigitChars`: more digits never make a value smaller.
-/
import Prerequisite.Identifier
import Prerequisite.Text.Size

namespace Prerequisite

namespace Decimal

/-! ### Reading within a bound -/

theorem le_ofDigitChars (cs : List Char) (v : Nat) : v ≤ Nat.ofDigitChars 10 cs v := by
  rw [Nat.ofDigitChars_eq_ofDigitChars_zero]
  have hpow : 1 * v ≤ 10 ^ cs.length * v := Nat.mul_le_mul_right v (Nat.pow_pos (by omega))
  omega

theorem ofDigitChars_cons_digitValue (c : Char) (cs : List Char) (v : Nat) :
    Nat.ofDigitChars 10 (c :: cs) v = Nat.ofDigitChars 10 cs (v * 10 + digitValue c) := by
  rw [Nat.ofDigitChars_cons, Nat.mul_comm]
  rfl

/-- Digits are read onto a value exactly when what they stand for is within the bound. -/
theorem readOnto_eq_ok_iff {bound n : Nat} (cs : List Char) :
    ∀ {v : Nat}, v ≤ bound → (readOnto bound v cs = .ok n ↔
      (∀ c ∈ cs, c.isDigit = true) ∧ Nat.ofDigitChars 10 cs v = n ∧ n ≤ bound) := by
  induction cs with
  | nil =>
      intro v hv
      simp only [readOnto, Except.ok.injEq, Nat.ofDigitChars_nil]
      constructor
      · rintro rfl
        exact ⟨by simp, rfl, hv⟩
      · rintro ⟨-, h, -⟩
        exact h
  | cons c cs ih =>
      intro v hv
      rw [readOnto, ofDigitChars_cons_digitValue]
      by_cases hc : c.isDigit = true
      · rw [if_pos hc]
        by_cases hle : v * 10 + digitValue c ≤ bound
        · rw [if_pos hle, ih hle]
          simp [hc]
        · rw [if_neg hle]
          have hgrow := le_ofDigitChars cs (v * 10 + digitValue c)
          constructor
          · intro h
            exact absurd h (by simp)
          · rintro ⟨-, h, hn⟩
            omega
      · rw [if_neg hc]
        simp [hc]

theorem read_eq_ok_iff {bound n : Nat} {cs : List Char} :
    read bound cs = .ok n ↔
      cs ≠ [] ∧ (∀ c ∈ cs, c.isDigit = true) ∧ Nat.ofDigitChars 10 cs 0 = n ∧ n ≤ bound := by
  cases cs with
  | nil => simp [read]
  | cons c cs =>
      rw [read, readOnto_eq_ok_iff _ (Nat.zero_le bound)]
      · simp
      · intro h
        exact absurd h (by simp)

/-! ### The length of a numeral -/

theorem digitValue_lt {c : Char} (hc : c.isDigit = true) : digitValue c < 10 := by
  have h : c.toNat ≤ 57 := (Char.isDigit_iff_toNat.mp hc).2
  have h0 : '0'.toNat = 48 := rfl
  rw [digitValue, h0]
  omega

theorem toDigits_digitValue {c : Char} (hc : c.isDigit = true) :
    Nat.toDigits 10 (digitValue c) = [c] := by
  rw [Nat.toDigits_of_lt_base (digitValue_lt hc)]
  obtain ⟨hlow, hhigh⟩ := Char.isDigit_iff_toNat.mp hc
  have hchar : (digitValue c).digitChar.toNat = c.toNat := by
    have h0 : '0'.toNat = 48 := rfl
    have hall : ∀ d < 10, (Nat.digitChar d).toNat = d + 48 := by decide
    rw [hall _ (digitValue_lt hc), digitValue, h0]
    omega
  rw [Char.toNat_inj.mp hchar]

/-- A run of digits without the zeros in front of it; of zeros alone the last one is kept. -/
def dropZeros : List Char → List Char
  | '0' :: d :: ds => dropZeros (d :: ds)
  | ds => ds

theorem length_dropZeros_le (ds : List Char) : (dropZeros ds).length ≤ ds.length := by
  fun_induction dropZeros ds with
  | case1 d ds ih => exact Nat.le_succ_of_le ih
  | case2 ds _ => exact Nat.le_refl _

theorem dropZeros_ne_iff {ds : List Char} :
    ds ≠ dropZeros ds ↔ ∃ d rest, ds = '0' :: d :: rest := by
  fun_cases dropZeros ds with
  | case1 d ds =>
      refine iff_of_true (fun heq => ?_) ⟨d, ds, rfl⟩
      have hle := length_dropZeros_le (d :: ds)
      rw [← heq, List.length_cons] at hle
      omega
  | case2 ds hzero =>
      refine iff_of_false (fun h => h rfl) ?_
      rintro ⟨d, rest, rfl⟩
      exact hzero d rest rfl

/-- Digits behind a number that is not zero are the digits behind its numeral. -/
theorem toDigits_append_run {ds : List Char} (hd : ∀ c ∈ ds, c.isDigit = true) :
    ∀ {v : Nat}, 0 < v → Nat.toDigits 10 (Nat.ofDigitChars 10 ds v) = Nat.toDigits 10 v ++ ds := by
  induction ds with
  | nil => intro v _; rw [Nat.ofDigitChars_nil, List.append_nil]
  | cons c ds ih =>
      intro v hv
      have hc : c.isDigit = true := hd c (by simp)
      have hsnoc := Nat.toDigits_append_toDigits (b := 10) (by omega) hv (digitValue_lt hc)
      rw [toDigits_digitValue hc] at hsnoc
      rw [ofDigitChars_cons_digitValue, Nat.mul_comm,
        ih (fun x hx => hd x (by simp [hx])) (by omega), ← hsnoc]
      simp

/-- **The numeral of what a run of digits stands for** is the run without the zeros in front. -/
theorem toDigits_run {ds : List Char} (hne : ds ≠ []) (hd : ∀ c ∈ ds, c.isDigit = true) :
    Nat.toDigits 10 (Nat.ofDigitChars 10 ds 0) = dropZeros ds := by
  fun_induction dropZeros ds with
  | case1 d ds ih =>
      rw [← ih (by simp) fun x hx => hd x (List.mem_cons_of_mem _ hx)]
      rfl
  | case2 ds hzero =>
      obtain ⟨c, ds, rfl⟩ := List.exists_cons_of_ne_nil hne
      have hc : c.isDigit = true := hd c (by simp)
      have hds : ∀ x ∈ ds, x.isDigit = true := fun x hx => hd x (by simp [hx])
      rw [ofDigitChars_cons_digitValue, Nat.zero_mul, Nat.zero_add]
      by_cases hpos : 0 < digitValue c
      · rw [toDigits_append_run hds hpos, toDigits_digitValue hc]
        rfl
      · have hnum := toDigits_digitValue hc
        have hval : digitValue c = 0 := by omega
        rw [hval, Nat.toDigits_zero] at hnum
        obtain rfl : '0' = c := List.head_eq_of_cons_eq hnum
        cases ds with
        | nil => rfl
        | cons d ds => exact absurd rfl (hzero d ds)

/-- A run of digits is at least as long as the shortest numeral for what it stands for. -/
theorem length_toDigits_le {cs : List Char} (hne : cs ≠ []) (hd : ∀ c ∈ cs, c.isDigit = true) :
    (Nat.toDigits 10 (Nat.ofDigitChars 10 cs 0)).length ≤ cs.length := by
  rw [toDigits_run hne hd]
  exact length_dropZeros_le cs

end Decimal

/-! ### The digits of an id -/

namespace SectionId

theorem digits_ne_nil (id : SectionId) : id.digits ≠ [] := Nat.toDigits_ne_nil

theorem isDigit_of_mem_digits {id : SectionId} {c : Char} (h : c ∈ id.digits) :
    c.isDigit = true :=
  Nat.isDigit_of_mem_toDigits (by omega) (by omega) h

theorem number_le (id : SectionId) : id.number.toNat ≤ maxId := by
  have h := id.number.toNat_lt_size
  rw [maxId]
  omega

/-- **A run of digits is read as the id whose number it stands for.** -/
theorem ofDigits_eq_ok_iff {cs : List Char} {id : SectionId} :
    ofDigits cs = .ok id ↔ cs ≠ [] ∧ (∀ c ∈ cs, c.isDigit = true) ∧
      Nat.ofDigitChars 10 cs 0 = id.number.toNat := by
  constructor
  · intro h
    rw [ofDigits] at h
    cases hread : Decimal.read maxId cs with
    | error e => rw [hread] at h; exact absurd h (by simp [Except.map])
    | ok n =>
        obtain ⟨hne, hd, hval, hle⟩ := Decimal.read_eq_ok_iff.mp hread
        rw [hread] at h
        have hid : (⟨UInt64.ofNat n⟩ : SectionId) = id := by simpa [Except.map] using h
        refine ⟨hne, hd, ?_⟩
        rw [hval, ← hid]
        have hsize : n < UInt64.size := by
          rw [maxId] at hle
          have hpos : 0 < UInt64.size := by decide
          omega
        exact (UInt64.toNat_ofNat_of_lt hsize).symm
  · rintro ⟨hne, hd, hval⟩
    have hread := Decimal.read_eq_ok_iff.mpr ⟨hne, hd, hval, id.number_le⟩
    rw [ofDigits, hread]
    show Except.ok (⟨UInt64.ofNat id.number.toNat⟩ : SectionId) = .ok id
    rw [UInt64.ofNat_toNat]

/-- A run of digits that is read as no id stands for a number that is too large. -/
theorem lt_of_ofDigits_eq_error {cs : List Char} {e : Decimal.Fault} (h : ofDigits cs = .error e)
    (hne : cs ≠ []) (hd : ∀ c ∈ cs, c.isDigit = true) : maxId < Nat.ofDigitChars 10 cs 0 := by
  refine Nat.lt_of_not_le fun hle => ?_
  rw [ofDigits, Decimal.read_eq_ok_iff.mpr ⟨hne, hd, rfl, hle⟩] at h
  exact absurd h (by simp [Except.map])

theorem ofDigits_digits (id : SectionId) : ofDigits id.digits = .ok id :=
  ofDigits_eq_ok_iff.mpr
    ⟨id.digits_ne_nil, fun _ h => isDigit_of_mem_digits h, Nat.ofDigitChars_ten_toDigits⟩

/-- Digits alone are read as they are where a sign could stand in front of them. -/
theorem ofText_ofList {cs : List Char} (hd : ∀ c ∈ cs, c.isDigit = true) :
    ofText (String.ofList cs) = ofDigits cs := by
  have hsigned : Decimal.readSigned maxId cs = Decimal.read maxId cs := by
    unfold Decimal.readSigned
    split
    · exact absurd (hd '+' (by simp)) (by decide)
    · rfl
  rw [ofText, String.toList_ofList, hsigned, ofDigits]

theorem length_digits_le {cs : List Char} {id : SectionId} (h : ofDigits cs = .ok id) :
    id.digits.length ≤ cs.length := by
  obtain ⟨hne, hd, hval⟩ := ofDigits_eq_ok_iff.mp h
  rw [digits, ← hval]
  exact Decimal.length_toDigits_le hne hd

end SectionId

/-! ### Digits in bytes -/

namespace Text

theorem utf8Size_of_isDigit {c : Char} (hc : c.isDigit = true) : c.utf8Size = 1 := by
  have h : c.toNat ≤ 57 := (Char.isDigit_iff_toNat.mp hc).2
  have hle : c.val ≤ 0x7f := by
    rw [UInt32.le_iff_toNat_le]
    exact Nat.le_trans h (by decide)
  exact Char.utf8Size_eq_one_iff.mpr hle

theorem byteSize_of_digits {cs : List Char} (hd : ∀ c ∈ cs, c.isDigit = true) :
    byteSize cs = cs.length := by
  induction cs with
  | nil => rfl
  | cons c cs ih =>
      rw [byteSize_cons, utf8Size_of_isDigit (hd c (by simp)), ih fun x hx => hd x (by simp [hx]),
        List.length_cons]
      omega

end Text

end Prerequisite
