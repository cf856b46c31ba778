/-
What a reading keeps account of.

A run carries three things that no procedure looks after by itself: the index into the lexemes, the
count of what is open, and the procedures that wait.  They belong together.  The count is what it
was at the beginning and one more for each procedure in waiting that has counted (`counted`), so it
is back where it was as soon as nothing waits, be the answer a formula or an error.  It goes up only
behind a lexeme and so never by more than the lexemes read (`spent`), which is why it fits wherever
the size of the text fits.  And of two procedures, one called by the other, the inner one begins
behind the outer one, or at the same lexeme on a tighter level (`inside`).

What a step can do is said once (`Move`).  What it keeps (`Account.move`) is then kept along a run.
-/
import Mathlib.Tactic
import Prerequisite.Proofs.Formula.Steps

namespace Prerequisite

namespace Parser

variable {frame : Frame} {ls : List Lexeme}

/-! ### Where the count changes -/

namespace Run

/-- The next step adds one to the count. -/
def Raises (ls : List Lexeme) (r : Run) : Prop :=
  (r.control = .call .factor ∧ ∃ l ∈ (r.rest ls).head?, l.token = .not) ∨
    (r.control = .call .operand ∧ ∃ l ∈ (r.rest ls).head?, l.token = .opening)

/-- The next step takes one from the count. -/
def Lowers (r : Run) : Prop :=
  ∃ o p around, r.control = .answer o ∧ r.pending = p :: around ∧ p.waiting.counts = true

theorem Raises.lt_length {r : Run} (h : r.Raises ls) : r.index < ls.length := by
  have hhead : ∃ l, l ∈ (ls.drop r.index).head? := by
    rcases h with ⟨-, l, hl, -⟩ | ⟨-, l, hl, -⟩
    · exact ⟨l, hl⟩
    · exact ⟨l, hl⟩
  obtain ⟨l, hl⟩ := hhead
  by_cases hlt : r.index < ls.length
  · exact hlt
  · rw [List.drop_eq_nil_of_le (Nat.le_of_not_lt hlt)] at hl
    cases hl

end Run

/-! ### What a step does -/

/-- **The moves of a run,** by what is called and what comes back. -/
inductive Move (frame : Frame) (ls : List Lexeme) : Run → Run → Prop
  /-- A procedure calls one on a tighter level where it stands. -/
  | call {i n : Nat} {level inner : Level} {w : Waiting} {around : List Pending}
      (hlevel : w.level = level) (htight : inner.rank < level.rank) (hplain : w.counts = false) :
      Move frame ls ⟨i, n, .call level, around⟩ ⟨i, n, .call inner, ⟨i, w⟩ :: around⟩
  /-- A procedure calls one behind a lexeme and counts it. -/
  | enter {i n : Nat} {level inner : Level} {w : Waiting} {around : List Pending}
      (hlevel : w.level = level) (hcounts : w.counts = true)
      (hraises : Run.Raises ls ⟨i, n, .call level, around⟩) (hn : n < frame.maxNesting) :
      Move frame ls ⟨i, n, .call level, around⟩ ⟨i + 1, n + 1, .call inner, ⟨i, w⟩ :: around⟩
  /-- A procedure answers without a call. -/
  | answer {i j n : Nat} {level : Level} {o : Except FormulaError Formula} {around : List Pending}
      (hj : j = i ∨ j = i + 1 ∧ i < ls.length) :
      Move frame ls ⟨i, n, .call level, around⟩ ⟨j, n, .answer o, around⟩
  /-- A procedure goes on behind another lexeme. -/
  | further {i n b : Nat} {inner : Level} {o : Except FormulaError Formula} {w w' : Waiting}
      {around : List Pending} (hlevel : w'.level = w.level) (hplain : w.counts = false)
      (hplain' : w'.counts = false) (hi : i < ls.length) :
      Move frame ls ⟨i, n, .answer o, ⟨b, w⟩ :: around⟩
        ⟨i + 1, n, .call inner, ⟨b, w'⟩ :: around⟩
  /-- A procedure answers and takes back what it has counted. -/
  | back {i j n b : Nat} {o o' : Except FormulaError Formula} {w : Waiting}
      {around : List Pending} (hj : j = i ∨ j = i + 1 ∧ i < ls.length) :
      Move frame ls ⟨i, n, .answer o, ⟨b, w⟩ :: around⟩
        ⟨j, if w.counts then n - 1 else n, .answer o', around⟩

section

variable {i n b : Nat} {around : List Pending}

theorem move_enter {l : Lexeme} {level inner : Level} {w : Waiting} (hlevel : w.level = level)
    (hcounts : w.counts = true) (hraises : Run.Raises ls ⟨i, n, .call level, around⟩) :
    Move frame ls ⟨i, n, .call level, around⟩
      (Run.enter frame ⟨i, n, .call level, around⟩ l w inner) := by
  by_cases hn : n < frame.maxNesting
  · rw [enter_of_lt hn]
    exact .enter hlevel hcounts hraises hn
  · rw [enter_of_not_lt hn]
    exact .answer (.inr ⟨rfl, hraises.lt_length⟩)

theorem move_start (level : Level) :
    Move frame ls ⟨i, n, .call level, around⟩
      (Run.start frame ls ⟨i, n, .call level, around⟩ level) := by
  cases level with
  | formula => exact .call rfl (by decide) rfl
  | conjunction => exact .call rfl (by decide) rfl
  | factor =>
      cases hdrop : ls.drop i with
      | nil =>
          rw [start_factor_bare (by rw [hdrop]; exact notNext_nil _)]
          exact .call rfl (by decide) rfl
      | cons l rest =>
          by_cases hl : l.token = .not
          · rw [start_factor_not hdrop hl]
            exact move_enter rfl rfl (.inl ⟨rfl, l, by simp [Run.rest, hdrop], hl⟩)
          · rw [start_factor_bare (by rw [hdrop]; exact notNext_cons hl)]
            exact .call rfl (by decide) rfl
  | operand =>
      cases hdrop : ls.drop i with
      | nil =>
          rw [start_operand_nil hdrop]
          exact .answer (.inl rfl)
      | cons l rest =>
          have hi : i < ls.length := (drop_succ_of_drop hdrop).1
          rw [start_operand hdrop]
          cases hl : l.token with
          | atom id => exact .answer (.inr ⟨rfl, hi⟩)
          | opening => exact move_enter rfl rfl (.inr ⟨rfl, l, by simp [Run.rest, hdrop], hl⟩)
          | and | or | not | closing => exact .answer (.inl rfl)

theorem move_resume (o : Except FormulaError Formula) (w : Waiting) :
    Move frame ls ⟨i, n, .answer o, ⟨b, w⟩ :: around⟩
      (Run.resume ls ⟨i, n, .answer o, around⟩ o ⟨b, w⟩) := by
  cases w with
  | bare => exact .back (.inl rfl)
  | negation => exact .back (.inl rfl)
  | chain op done =>
      cases o with
      | error e => exact .back (.inl rfl)
      | ok f =>
          cases hdrop : ls.drop i with
          | nil =>
              rw [resume_chain_stop (by rw [hdrop]; exact notNext_nil _)]
              exact .back (.inl rfl)
          | cons l rest =>
              by_cases hl : l.token = op.token
              · rw [resume_chain_more hdrop hl]
                exact .further rfl rfl rfl (drop_succ_of_drop hdrop).1
              · rw [resume_chain_stop (by rw [hdrop]; exact notNext_cons hl)]
                exact .back (.inl rfl)
  | group position =>
      cases o with
      | error e => exact .back (.inl rfl)
      | ok f =>
          cases hdrop : ls.drop i with
          | nil =>
              rw [resume_group_nil hdrop]
              exact .back (.inl rfl)
          | cons l rest =>
              rw [resume_group hdrop]
              by_cases hl : l.token = .closing
              · rw [if_pos hl]
                exact .back (.inr ⟨rfl, (drop_succ_of_drop hdrop).1⟩)
              · rw [if_neg hl]
                exact .back (.inl rfl)

end

/-- Every step is a move. -/
theorem move_of_step {r r' : Run} (h : r.step frame ls = some r') : Move frame ls r r' := by
  obtain ⟨i, n, control, pending⟩ := r
  cases control with
  | call level =>
      obtain rfl : Run.start frame ls ⟨i, n, .call level, pending⟩ level = r' := Option.some.inj h
      exact move_start level
  | answer o =>
      cases pending with
      | nil => cases h
      | cons p around =>
          obtain rfl : Run.resume ls ⟨i, n, .answer o, around⟩ o p = r' := Option.some.inj h
          exact move_resume o p.waiting

/-! ### What a run keeps -/

/-- A procedure that has begun and has not answered yet. -/
structure Activation where
  /-- Its level. -/
  level : Level
  /-- The index it began at. -/
  start : Nat

/-- **One procedure may be called by another:** it begins behind it, or at the same lexeme on a
tighter level. -/
def Activation.Inside (a b : Activation) : Prop :=
  b.start < a.start ∨ (b.start = a.start ∧ a.level.rank < b.level.rank)

/-- What a procedure that waits has begun as. -/
def Pending.activation (p : Pending) : Activation := ⟨p.waiting.level, p.start⟩

namespace Run

/-- The procedures that have begun, each of them called by the next one. -/
def calls (r : Run) : List Activation :=
  match r.control with
  | .call level => ⟨level, r.index⟩ :: r.pending.map Pending.activation
  | .answer _ => r.pending.map Pending.activation

/-- How many of the procedures that wait have counted one level up. -/
def counted (r : Run) : Nat := r.pending.countP (·.waiting.counts)

end Run

/-- **What a run keeps** that began at an index `i` with the count `n`, when nothing waited. -/
structure Account (frame : Frame) (ls : List Lexeme) (i n : Nat) (r : Run) : Prop where
  /-- It does not go back in front of its beginning. -/
  behind : i ≤ r.index
  /-- It does not go past the last lexeme. -/
  within : r.index ≤ ls.length
  /-- The count is what it was, and one more for each procedure in waiting that has counted. -/
  counted : r.nesting = n + r.counted
  /-- The count is within the limit. -/
  limited : r.nesting ≤ frame.maxNesting
  /-- The count has not grown by more than the lexemes read. -/
  spent : r.nesting + i ≤ n + r.index
  /-- Each procedure may be called by the one that called it. -/
  inside : r.calls.IsChain Activation.Inside
  /-- No procedure has begun behind the next lexeme. -/
  begun : ∀ a ∈ r.calls, a.start ≤ r.index

section

variable {j m b : Nat} {level : Level} {o : Except FormulaError Formula} {p : Pending}
  {control : Control} {around : List Pending}

@[simp] theorem calls_call :
    (⟨j, m, .call level, around⟩ : Run).calls = ⟨level, j⟩ :: around.map Pending.activation := rfl

@[simp] theorem calls_answer :
    (⟨j, m, .answer o, around⟩ : Run).calls = around.map Pending.activation := rfl

theorem counted_cons :
    (⟨j, m, control, p :: around⟩ : Run).counted =
      (⟨j, m, control, around⟩ : Run).counted + if p.waiting.counts then 1 else 0 :=
  List.countP_cons

end

section

variable {i n : Nat} {r r' : Run}

namespace Move

/-- The index never goes down. -/
theorem index_le (h : Move frame ls r r') : r.index ≤ r'.index := by
  cases h with
  | call => exact Nat.le_refl _
  | enter | further => exact Nat.le_succ _
  | answer hj | back hj =>
      rcases hj with rfl | ⟨rfl, -⟩
      · exact Nat.le_refl _
      · exact Nat.le_succ _

theorem within (h : Move frame ls r r') (hr : r.index ≤ ls.length) : r'.index ≤ ls.length := by
  cases h with
  | call => exact hr
  | enter _ _ hraises => exact hraises.lt_length
  | further _ _ _ hi => exact hi
  | answer hj | back hj =>
      rcases hj with rfl | ⟨rfl, hi⟩
      · exact hr
      · exact hi

theorem counted (h : Move frame ls r r') (hr : r.nesting = n + r.counted) :
    r'.nesting = n + r'.counted := by
  cases h with
  | call hlevel htight hplain =>
      rw [counted_cons, if_neg (by simp [hplain])]
      exact hr
  | enter hlevel hcounts =>
      rw [counted_cons, if_pos hcounts, ← Nat.add_assoc]
      exact congrArg (· + 1) hr
  | answer => exact hr
  | further hlevel hplain hplain' =>
      rw [counted_cons, if_neg (by simp [hplain])] at hr
      rw [counted_cons, if_neg (by simp [hplain'])]
      exact hr
  | @back j k m b o o' w around hj =>
      rw [counted_cons] at hr
      by_cases hw : w.counts = true
      · simp only [if_pos hw] at hr ⊢
        rw [hr]
        rfl
      · simp only [if_neg hw] at hr ⊢
        exact hr

theorem limited (h : Move frame ls r r') (hr : r.nesting ≤ frame.maxNesting) :
    r'.nesting ≤ frame.maxNesting := by
  cases h with
  | call | answer | further => exact hr
  | enter _ _ _ hn => exact hn
  | @back j k m b o o' w around hj =>
      show (if w.counts then m - 1 else m) ≤ frame.maxNesting
      split
      · exact Nat.le_trans (Nat.sub_le m 1) hr
      · exact hr

/-- The count changes nowhere else. -/
theorem nesting_eq (h : Move frame ls r r') :
    r'.nesting = r.nesting ∨ r.Raises ls ∨ r.Lowers := by
  cases h with
  | call | answer | further => exact .inl rfl
  | enter _ _ hraises => exact .inr (.inl hraises)
  | @back j k m b o o' w around hj =>
      by_cases hw : w.counts = true
      · exact .inr (.inr ⟨o, ⟨b, w⟩, around, rfl, rfl, hw⟩)
      · exact .inl (if_neg hw)

/-- What is added to the count is paid for in lexemes. -/
theorem spent (h : Move frame ls r r') : r'.nesting + r.index ≤ r.nesting + r'.index := by
  have hindex := h.index_le
  cases h with
  | call | answer | further => exact Nat.add_le_add_left hindex _
  | enter => simp only; omega
  | @back j k m b o o' w around hj =>
      show (if w.counts then m - 1 else m) + j ≤ m + k
      simp only at hindex
      split <;> omega

/-- The calls that have begun behind a move did so before it, or they begin where it stops. -/
theorem mem_calls (h : Move frame ls r r') {a : Activation} (ha : a ∈ r'.calls) :
    a ∈ r.calls ∨ a.start = r'.index := by
  cases h with
  | call hlevel | enter hlevel =>
      subst hlevel
      rcases List.mem_cons.mp ha with rfl | ha
      · exact .inr rfl
      · exact .inl ha
  | further hlevel =>
      rcases List.mem_cons.mp ha with rfl | ha
      · exact .inr rfl
      · rw [List.map_cons, Pending.activation, hlevel] at ha
        exact .inl ha
  | answer | back => exact .inl (List.mem_cons_of_mem _ ha)

theorem begun (h : Move frame ls r r') (hr : ∀ a ∈ r.calls, a.start ≤ r.index) :
    ∀ a ∈ r'.calls, a.start ≤ r'.index := by
  intro a ha
  rcases h.mem_calls ha with ha | ha
  · exact Nat.le_trans (hr a ha) h.index_le
  · exact Nat.le_of_eq ha

/-- A procedure that goes on calls behind the lexeme it has read, and it began in front of that. -/
theorem inside (h : Move frame ls r r') (hr : r.calls.IsChain Activation.Inside)
    (hbegun : ∀ a ∈ r.calls, a.start ≤ r.index) : r'.calls.IsChain Activation.Inside := by
  cases h with
  | call hlevel htight =>
      subst hlevel
      exact .cons_cons (.inr ⟨rfl, htight⟩) hr
  | enter hlevel =>
      subst hlevel
      exact .cons_cons (.inl (Nat.lt_succ_self _)) hr
  | @further j m b inner o w w' around hlevel =>
      have hb : b ≤ j := hbegun ⟨w.level, b⟩ (List.mem_cons_self ..)
      rw [calls_answer, List.map_cons, Pending.activation, ← hlevel] at hr
      exact .cons_cons (.inl (Nat.lt_succ_of_le hb)) hr
  | answer | back => exact hr.tail

end Move

/-- **A move keeps the account.** -/
theorem Account.move (ha : Account frame ls i n r) (h : Move frame ls r r') :
    Account frame ls i n r' where
  behind := Nat.le_trans ha.behind h.index_le
  within := h.within ha.within
  counted := h.counted ha.counted
  limited := h.limited ha.limited
  spent := by
    have hbefore := ha.spent
    have hmove := h.spent
    omega
  inside := h.inside ha.inside ha.begun
  begun := h.begun ha.begun

theorem account_call (level : Level) (hi : i ≤ ls.length) (hn : n ≤ frame.maxNesting) :
    Account frame ls i n ⟨i, n, .call level, []⟩ where
  behind := Nat.le_refl i
  within := hi
  counted := rfl
  limited := hn
  spent := Nat.le_refl _
  inside := .singleton _
  begun := by simp

/-- **A run keeps the account.** -/
theorem Account.reaches (ha : Account frame ls i n r) (h : Reaches frame ls r r') :
    Account frame ls i n r' := by
  induction h with
  | refl => exact ha
  | tail _ hstep ih => exact ih.move (move_of_step hstep)

/-! ### How the count is used -/

/-- Where something counted comes back, the count is not zero. -/
theorem Account.pos_of_lowers (ha : Account frame ls i n r) (h : r.Lowers) : 0 < r.nesting := by
  obtain ⟨o, p, around, -, hpending, hp⟩ := h
  have hcount : 0 < r.counted := by
    rw [Run.counted, hpending]
    exact List.countP_pos_iff.mpr ⟨p, List.mem_cons_self .., hp⟩
  have := ha.counted
  omega

/-- Where one is added, there is a lexeme left that pays for it. -/
theorem Account.raised_le (ha : Account frame ls i n r) (h : r.Raises ls) :
    r.nesting + 1 + i ≤ n + ls.length := by
  have hspent := ha.spent
  have hlt := h.lt_length
  omega

/-- A text has no more lexemes than bytes. -/
theorem length_lexemes_le {limits : Limits} {text : String} (h : lexemes limits text = .ok ls) :
    ls.length ≤ Text.byteSize text.toList := by
  obtain ⟨-, -, ps, hcuts, rfl⟩ := Scan.lexemes_eq_ok_iff.mp h
  have hchars := Scan.length_le_byteSize_chars
    ((ps.filterMap Piece.lexeme?).map Lexeme.token)
  rw [List.length_map] at hchars
  exact Nat.le_trans hchars (Scan.byteSize_chars_le hcuts)

/-! ### What a call comes to -/

/-- **A call comes back.**  From a call on a level the run comes to the answer of the procedure, at
an index that is not in front of it, with the count it was called with and with the same procedures
waiting.  A formula takes a lexeme at least. -/
def Run.Returns (frame : Frame) (ls : List Lexeme) (r : Run) (level : Level) : Prop :=
  ∃ outcome j, read frame ⟨r.rest ls, r.nesting⟩ level = (outcome, ⟨ls.drop j, r.nesting⟩) ∧
    r.index ≤ j ∧ j ≤ ls.length ∧ (∀ f, outcome = .ok f → r.index < j) ∧
    Reaches frame ls r ⟨j, r.nesting, .answer outcome, r.pending⟩

/-- What is read as a formula takes a lexeme at least. -/
theorem length_lt_of_reply {k : Nat} {reply : Reply k} {f : Formula} (h : reply.outcome.1 = .ok f) :
    reply.outcome.2.rest.length < k := by
  cases reply with
  | done g next shorter => exact shorter
  | failed e stop => cases h

theorem length_lt_of_read {c : Cursor} {level : Level} {f : Formula}
    (h : (read frame c level).1 = .ok f) :
    (read frame c level).2.rest.length < c.rest.length := by
  cases level with
  | formula | conjunction | factor => exact length_lt_of_reply h
  | operand =>
      unfold read at h ⊢
      obtain ⟨rest, m⟩ := c
      cases rest with
      | nil => exact length_lt_of_reply h
      | cons l rest =>
          by_cases hl : l.token = .not
          · simp only [if_pos hl] at h
            cases h
          · simp only [if_neg hl] at h ⊢
            exact length_lt_of_reply h

/-- An index into the lexemes is known by what is left there. -/
theorem eq_of_drop_eq {j k : Nat} (hj : j ≤ ls.length) (hk : k ≤ ls.length)
    (h : ls.drop j = ls.drop k) : j = k := by
  have hlength := congrArg List.length h
  rw [List.length_drop, List.length_drop] at hlength
  omega

/-- **Every call comes back.**  What waits for it has no part in where the answer is found, so the
count can be taken from a run for which nothing waits. -/
theorem returns_of_call {k m : Nat} (hk : k ≤ ls.length) (hm : m ≤ frame.maxNesting)
    (level : Level) (around : List Pending) :
    (⟨k, m, .call level, around⟩ : Run).Returns frame ls level := by
  cases hout : read frame ⟨ls.drop k, m⟩ level with
  | mk outcome c =>
      obtain ⟨rest, m'⟩ := c
      obtain ⟨j, hj, hrest, halone⟩ := read_comes frame hk m [] level
      obtain ⟨j', hj', hrest', hreach⟩ := read_comes frame hk m around level
      rw [hout] at hrest halone hrest' hreach
      obtain rfl : rest = ls.drop j := hrest
      obtain rfl : j = j' := eq_of_drop_eq hj hj' hrest'
      have ha := (account_call level hk hm).reaches halone
      obtain rfl : m' = m := ha.counted
      refine ⟨outcome, j, hout, ha.behind, hj, fun f hf => ?_, hreach⟩
      have hless := length_lt_of_read (c := ⟨ls.drop k, m'⟩) (f := f) (by rw [hout]; exact hf)
      rw [hout, List.length_drop, List.length_drop] at hless
      show k < j
      omega

/-- A run has only one way to go on, so one that comes to a stop does not go on for ever. -/
theorem acc_of_reaches (h : Reaches frame ls r r') (hstop : r'.step frame ls = none) :
    Acc (fun r₂ r₁ => Run.step frame ls r₁ = some r₂) r := by
  induction h using Relation.ReflTransGen.head_induction_on with
  | refl =>
      refine ⟨_, fun r₂ hstep => ?_⟩
      rw [hstop] at hstep
      cases hstep
  | head hstep _ ih =>
      refine ⟨_, fun r₂ hstep' => ?_⟩
      rw [hstep] at hstep'
      obtain rfl := Option.some.inj hstep'
      exact ih

end

/-- **The procedures of the parser keep account.**  Let one of them be called at an index into the
lexemes, with a count within the limit.

It ends: no run goes on for ever.  At every place that the run comes to, the index is between its
beginning and the end of the lexemes, the count is within the limit and each procedure was called
behind a lexeme or from a looser level (`Account`).  The index never goes down.  Every call on the
way, the first one included, comes back with the count that it was called with, whether it fails or
not, and behind a lexeme at least if it does not (`Returns`).

The count changes only where one is added or taken back.  It is not zero where one is taken back.
Where one is added there is a lexeme to pay for it, so the sum is at most the bytes of the text,
provided that no more was counted at the beginning than there are lexemes in front. -/
theorem procedures_keep_account (frame : Frame) (ls : List Lexeme) (level : Level) {i n : Nat}
    (hi : i ≤ ls.length) (hn : n ≤ frame.maxNesting) :
    Acc (fun r₂ r₁ => Run.step frame ls r₁ = some r₂) ⟨i, n, .call level, []⟩ ∧
    ∀ r, Reaches frame ls ⟨i, n, .call level, []⟩ r →
      Account frame ls i n r ∧
      (∀ r', r.step frame ls = some r' →
        r.index ≤ r'.index ∧ (r'.nesting = r.nesting ∨ r.Raises ls ∨ r.Lowers)) ∧
      (∀ inner, r.control = .call inner → r.Returns frame ls inner) ∧
      (r.Lowers → 0 < r.nesting) ∧
      (r.Raises ls → r.nesting + 1 + i ≤ n + ls.length ∧
        ∀ limits text, lexemes limits text = .ok ls → n ≤ i →
          r.nesting + 1 ≤ Text.byteSize text.toList) := by
  constructor
  · obtain ⟨outcome, j, -, -, -, -, hreach⟩ := returns_of_call hi hn level []
    exact acc_of_reaches hreach rfl
  · intro r hr
    have ha := (account_call level hi hn).reaches hr
    refine ⟨ha, fun r' hstep => ?_, ?_, ha.pos_of_lowers,
      fun hraises => ⟨ha.raised_le hraises, ?_⟩⟩
    · exact ⟨(move_of_step hstep).index_le, (move_of_step hstep).nesting_eq⟩
    · obtain ⟨k, m, control, around⟩ := r
      rintro inner rfl
      exact returns_of_call ha.within ha.limited inner around
    · intro limits text htext hle
      have hsum := ha.raised_le hraises
      have hsize := length_lexemes_le htext
      omega

/-- In `!(!2v` the reading of the parenthesis begins inside one negation.  At the second `!` three
are counted, which is the limit here, and behind the section the second negation is taken back. -/
theorem procedures_keep_account_in_a_group :
    ∃ (ls : List Lexeme) (inward outward : Run),
      (lexemes ⟨16, 3⟩ "!(!2v" = .ok ls ∧ 1 ≤ ls.length ∧ 1 ≤ 3) ∧
      (Reaches ⟨3, 5⟩ ls ⟨1, 1, .call .operand, []⟩ inward ∧ inward.Raises ls) ∧
      (inward.nesting = 2 ∧ inward.nesting + 1 ≤ Text.byteSize "!(!2v".toList) ∧
      (Reaches ⟨3, 5⟩ ls ⟨1, 1, .call .operand, []⟩ outward ∧ outward.Lowers) ∧
      (outward.nesting = 3 ∧ 0 < outward.nesting) ∧
      Run.Returns ⟨3, 5⟩ ls ⟨1, 1, .call .operand, []⟩ .operand := by
  let ls : List Lexeme := [⟨.not, ['!'], 0⟩, ⟨.opening, ['('], 1⟩, ⟨.not, ['!'], 2⟩,
    ⟨.atom ⟨2⟩, ['2'], 3⟩, ⟨.or, ['v'], 4⟩]
  let around : List Pending := [⟨2, .chain .and []⟩, ⟨2, .chain .or []⟩, ⟨1, .group 1⟩]
  let inward : Run := ⟨2, 2, .call .factor, around⟩
  let outward : Run := ⟨4, 3, .answer (.ok (.atom ⟨2⟩)), ⟨2, .negation⟩ :: around⟩
  have htext : lexemes ⟨16, 3⟩ "!(!2v" = .ok ls := by cbv
  have hin : Reaches ⟨3, 5⟩ ls ⟨1, 1, .call .operand, []⟩ inward :=
    .head rfl (.head rfl (.head rfl .refl))
  have hout : Reaches ⟨3, 5⟩ ls inward outward :=
    .head rfl (.head rfl (.head rfl (.head rfl .refl)))
  have hraises : inward.Raises ls := .inl ⟨rfl, ⟨.not, ['!'], 2⟩, rfl, rfl⟩
  have hlowers : outward.Lowers := ⟨.ok (.atom ⟨2⟩), ⟨2, .negation⟩, around, rfl, rfl, rfl⟩
  have h := (procedures_keep_account ⟨3, 5⟩ ls .operand (by decide : 1 ≤ ls.length)
    (by decide : 1 ≤ 3)).2
  exact ⟨ls, inward, outward, ⟨htext, by decide, by decide⟩, ⟨hin, hraises⟩,
    ⟨rfl, ((h inward hin).2.2.2.2 hraises).2 ⟨16, 3⟩ "!(!2v" htext (by decide)⟩,
    ⟨hin.trans hout, hlowers⟩, ⟨rfl, (h outward (hin.trans hout)).2.2.2.1 hlowers⟩,
    (h _ .refl).2.2.1 .operand rfl⟩

end Parser

end Prerequisite
