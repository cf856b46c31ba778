/-
Reading step by step.

The procedures of the parser call one another, and each of them stops somewhere in the lexemes.  How
deep a reading is and what it has counted in between cannot be said of that.  Here it is taken
apart: a `Run` has an index into the lexemes, the count of what is open around it, and the
procedures that wait for others, each with the index it began at.  A step either begins a procedure
or gives an answer to the one that waits for it.

The count goes up by one behind a `!` and behind an opening parenthesis, and it goes down where
such an answer comes back, be it a formula or an error.  It is a number and stops at zero.

A run goes the same way as the procedures do (`read_comes`): from the call of one, whatever waits
for it, the run comes to the same answer at the same place, and nothing else waits then.
-/
import Mathlib.Logic.Relation
import Prerequisite.Proofs.Formula.Reading
import Prerequisite.Proofs.Formula.Tree
import Prerequisite.Proofs.Formula.Writing

namespace Prerequisite

namespace Parser

/-! ### Runs -/

/-- The procedures of the parser. -/
inductive Level where
  /-- A formula: conjunctions with `v` between them. -/
  | formula
  /-- A conjunction: factors with `^` between them. -/
  | conjunction
  /-- A factor: an operand with negations in front of it. -/
  | factor
  /-- An operand: a section or a formula in parentheses. -/
  | operand

/-- How loosely a level binds. -/
def Level.rank : Level → Nat
  | .formula => 3
  | .conjunction => 2
  | .factor => 1
  | .operand => 0

end Parser

namespace Operator

/-- The level of its chains. -/
def level : Operator → Parser.Level
  | .and => .conjunction
  | .or => .formula

/-- The level of its operands. -/
def part : Operator → Parser.Level
  | .and => .factor
  | .or => .conjunction

end Operator

namespace Parser

/-- What a procedure waits for. -/
inductive Waiting where
  /-- The next operand of a chain; those before it are done, the last of them first. -/
  | chain (op : Operator) (done : List Formula)
  /-- What a `!` negates. -/
  | negation
  /-- A factor without a `!`. -/
  | bare
  /-- What the parenthesis at a byte offset holds. -/
  | group (position : Nat)

namespace Waiting

/-- The level of the procedure that waits. -/
def level : Waiting → Level
  | .chain op _ => op.level
  | .negation | .bare => .factor
  | .group _ => .operand

/-- Whether it has counted one level up. -/
def counts : Waiting → Bool
  | .chain _ _ | .bare => false
  | .negation | .group _ => true

end Waiting

/-- A procedure that waits for another one. -/
structure Pending where
  /-- The index it began at. -/
  start : Nat
  /-- What it waits for. -/
  waiting : Waiting

/-- What comes next in a run. -/
inductive Control where
  /-- A procedure begins. -/
  | call (level : Level)
  /-- A procedure gives its answer. -/
  | answer (outcome : Except FormulaError Formula)

/-- A reading somewhere in between. -/
structure Run where
  /-- The index of the next lexeme. -/
  index : Nat
  /-- The number of parentheses and negations counted. -/
  nesting : Nat
  /-- What comes next. -/
  control : Control
  /-- The procedures that wait, the one that was called last first. -/
  pending : List Pending

namespace Run

section

variable (frame : Frame) (ls : List Lexeme)

/-- The lexemes that are not read yet. -/
def rest (r : Run) : List Lexeme := ls.drop r.index

/-- The run behind the next lexeme. -/
def advance (r : Run) : Run := { r with index := r.index + 1 }

/-- The run one level further out. -/
def leave (r : Run) : Run := { r with nesting := r.nesting - 1 }

/-- The run with an answer. -/
def answer (r : Run) (outcome : Except FormulaError Formula) : Run :=
  { r with control := .answer outcome }

/-- Calls a procedure where the run stands. -/
def call (r : Run) (waiting : Waiting) (level : Level) : Run :=
  { r with control := .call level, pending := ⟨r.index, waiting⟩ :: r.pending }

/-- Calls a procedure behind a lexeme and counts one level up, if the limit allows it. -/
def enter (r : Run) (l : Lexeme) (waiting : Waiting) (level : Level) : Run :=
  if r.nesting < frame.maxNesting then
    ⟨r.index + 1, r.nesting + 1, .call level, ⟨r.index, waiting⟩ :: r.pending⟩
  else
    r.advance.answer (.error (.tooDeep frame.maxNesting (r.nesting + 1) l.position))

/-- What a procedure does first. -/
def start (r : Run) : Level → Run
  | .formula => r.call (.chain .or []) .conjunction
  | .conjunction => r.call (.chain .and []) .factor
  | .factor =>
      match r.rest ls with
      | [] => r.call .bare .operand
      | l :: _ =>
          if l.token = .not then r.enter frame l .negation .factor else r.call .bare .operand
  | .operand =>
      match r.rest ls with
      | [] => r.answer (.error (missingOperand frame []))
      | l :: rest =>
          match l.token with
          | .atom id => r.advance.answer (.ok (.atom id))
          | .opening => r.enter frame l (.group l.position) .formula
          | _ => r.answer (.error (missingOperand frame (l :: rest)))

/-- What a procedure does with the answer that it waited for. -/
def resume (r : Run) (outcome : Except FormulaError Formula) (p : Pending) : Run :=
  match p.waiting, outcome with
  | .chain _ _, .error e => r.answer (.error e)
  | .chain op done, .ok f =>
      match r.rest ls with
      | [] => r.answer (.ok (chain op.node (f :: done).reverse))
      | l :: _ =>
          if l.token = op.token then
            ⟨r.index + 1, r.nesting, .call op.part, ⟨p.start, .chain op (f :: done)⟩ :: r.pending⟩
          else r.answer (.ok (chain op.node (f :: done).reverse))
  | .bare, outcome => r.answer outcome
  | .negation, outcome => r.leave.answer (outcome.map .neg)
  | .group _, .error e => r.leave.answer (.error e)
  | .group position, .ok f =>
      match r.rest ls with
      | [] => r.leave.answer (.error (missingClosing position []))
      | l :: rest =>
          if l.token = .closing then r.advance.leave.answer (.ok (.group f))
          else r.leave.answer (.error (missingClosing position (l :: rest)))

/-- **One step of a run,** unless nobody waits for its answer. -/
def step (r : Run) : Option Run :=
  match r.control, r.pending with
  | .call level, _ => some (r.start frame ls level)
  | .answer _, [] => none
  | .answer outcome, p :: around => some ({ r with pending := around }.resume ls outcome p)

end

end Run

/-- One run comes from another in any number of steps. -/
def Reaches (frame : Frame) (ls : List Lexeme) : Run → Run → Prop :=
  Relation.ReflTransGen fun r r' => r.step frame ls = some r'

/-! ### The procedures and their runs -/

/-- What a procedure answers, and where it stops. -/
def Reply.outcome {n : Nat} : Reply n → Except FormulaError Formula × Cursor
  | .done f next _ => (.ok f, next)
  | .failed e stop => (.error e, stop)

/-- **What is read on a level.**  An operand is a factor, but no negation begins one. -/
def read (frame : Frame) (c : Cursor) : Level → Except FormulaError Formula × Cursor
  | .formula => (formula frame c).outcome
  | .conjunction => (conjunction frame c).outcome
  | .factor => (factor frame c).outcome
  | .operand =>
      match c.rest with
      | [] => (factor frame c).outcome
      | l :: _ =>
          if l.token = .not then (.error (missingOperand frame c.rest), c)
          else (factor frame c).outcome

/-- **A run comes to an answer** at a cursor, with the same procedures waiting as before. -/
def Comes (frame : Frame) (ls : List Lexeme) (r : Run) (around : List Pending)
    (out : Except FormulaError Formula × Cursor) : Prop :=
  ∃ j, j ≤ ls.length ∧ out.2.rest = ls.drop j ∧
    Reaches frame ls r ⟨j, out.2.nesting, .answer out.1, around⟩

section

variable {frame : Frame} {ls rest : List Lexeme} {l : Lexeme} {i n b : Nat}
  {around : List Pending} {out out' : Except FormulaError Formula × Cursor}

theorem Comes.of_step {r r' : Run} (hstep : r.step frame ls = some r')
    (h : Comes frame ls r' around out) : Comes frame ls r around out := by
  obtain ⟨j, hj, hrest, hreach⟩ := h
  exact ⟨j, hj, hrest, .head hstep hreach⟩

theorem comes_of_answer (o : Except FormulaError Formula) {c : Cursor} (hi : i ≤ ls.length)
    (hrest : c.rest = ls.drop i) :
    Comes frame ls ⟨i, c.nesting, .answer o, around⟩ around (o, c) :=
  ⟨i, hi, hrest, .refl⟩

/-- An answer goes to the procedure that was called before. -/
theorem Comes.after {r : Run} {p : Pending} (h : Comes frame ls r (p :: around) out)
    (hnext : ∀ j, j ≤ ls.length → out.2.rest = ls.drop j →
      Comes frame ls (Run.resume ls ⟨j, out.2.nesting, .answer out.1, around⟩ out.1 p) around
        out') :
    Comes frame ls r around out' := by
  obtain ⟨j, hj, hrest, hreach⟩ := h
  obtain ⟨k, hk, hrest', hreach'⟩ := hnext j hj hrest
  exact ⟨k, hk, hrest', hreach.trans (.head rfl hreach')⟩

/-- Where there is a lexeme, those behind it are at the next index. -/
theorem drop_succ_of_drop (h : ls.drop i = l :: rest) :
    i < ls.length ∧ ls.drop (i + 1) = rest := by
  rcases Nat.lt_or_ge i ls.length with hlt | hge
  · rw [List.drop_eq_getElem_cons hlt] at h
    exact ⟨hlt, (List.cons.inj h).2⟩
  · rw [List.drop_eq_nil_of_le hge] at h
    exact absurd h (List.cons_ne_nil l rest).symm

/-! ### Steps one by one -/

theorem resume_chain_stop {op : Operator} {done : List Formula} {f : Formula} {o : Control}
    (h : NotNext op.token (ls.drop i)) :
    Run.resume ls ⟨i, n, o, around⟩ (.ok f) ⟨b, .chain op done⟩ =
      ⟨i, n, .answer (.ok (chain op.node (f :: done).reverse)), around⟩ := by
  unfold Run.resume Run.rest
  cases hdrop : ls.drop i with
  | nil => rfl
  | cons l rest =>
      rw [hdrop] at h
      exact if_neg (h l (by simp))

theorem resume_chain_more {op : Operator} {done : List Formula} {f : Formula} {o : Control}
    (hdrop : ls.drop i = l :: rest) (hl : l.token = op.token) :
    Run.resume ls ⟨i, n, o, around⟩ (.ok f) ⟨b, .chain op done⟩ =
      ⟨i + 1, n, .call op.part, ⟨b, .chain op (f :: done)⟩ :: around⟩ := by
  unfold Run.resume Run.rest
  simp only [hdrop, if_pos hl]

theorem start_factor_not (hdrop : ls.drop i = l :: rest) (hl : l.token = .not) :
    Run.start frame ls ⟨i, n, .call .factor, around⟩ .factor =
      Run.enter frame ⟨i, n, .call .factor, around⟩ l .negation .factor := by
  unfold Run.start Run.rest
  simp only [hdrop, if_pos hl]

theorem start_factor_bare (h : NotNext .not (ls.drop i)) :
    Run.start frame ls ⟨i, n, .call .factor, around⟩ .factor =
      ⟨i, n, .call .operand, ⟨i, .bare⟩ :: around⟩ := by
  unfold Run.start Run.rest
  cases hdrop : ls.drop i with
  | nil => rfl
  | cons l rest =>
      rw [hdrop] at h
      exact if_neg (h l (by simp))

theorem start_operand_nil (hdrop : ls.drop i = []) :
    Run.start frame ls ⟨i, n, .call .operand, around⟩ .operand =
      ⟨i, n, .answer (.error (missingOperand frame [])), around⟩ := by
  unfold Run.start Run.rest
  simp only [hdrop]
  rfl

theorem start_operand (hdrop : ls.drop i = l :: rest) :
    Run.start frame ls ⟨i, n, .call .operand, around⟩ .operand =
      match l.token with
      | .atom id => ⟨i + 1, n, .answer (.ok (.atom id)), around⟩
      | .opening =>
          Run.enter frame ⟨i, n, .call .operand, around⟩ l (.group l.position) .formula
      | _ => ⟨i, n, .answer (.error (missingOperand frame (l :: rest))), around⟩ := by
  unfold Run.start Run.rest
  simp only [hdrop]
  cases l.token <;> rfl

theorem enter_of_lt {o : Control} {w : Waiting} {level : Level} (h : n < frame.maxNesting) :
    Run.enter frame ⟨i, n, o, around⟩ l w level =
      ⟨i + 1, n + 1, .call level, ⟨i, w⟩ :: around⟩ :=
  if_pos h

theorem enter_of_not_lt {o : Control} {w : Waiting} {level : Level} (h : ¬n < frame.maxNesting) :
    Run.enter frame ⟨i, n, o, around⟩ l w level =
      ⟨i + 1, n, .answer (.error (.tooDeep frame.maxNesting (n + 1) l.position)), around⟩ :=
  if_neg h

theorem resume_group_nil {f : Formula} {o : Control} {p : Nat} (hdrop : ls.drop i = []) :
    Run.resume ls ⟨i, n, o, around⟩ (.ok f) ⟨b, .group p⟩ =
      ⟨i, n - 1, .answer (.error (missingClosing p [])), around⟩ := by
  unfold Run.resume Run.rest
  simp only [hdrop]
  rfl

theorem resume_group {f : Formula} {o : Control} {p : Nat} (hdrop : ls.drop i = l :: rest) :
    Run.resume ls ⟨i, n, o, around⟩ (.ok f) ⟨b, .group p⟩ =
      if l.token = .closing then ⟨i + 1, n - 1, .answer (.ok (.group f)), around⟩
      else ⟨i, n - 1, .answer (.error (missingClosing p (l :: rest))), around⟩ := by
  unfold Run.resume Run.rest
  simp only [hdrop]
  rfl

end

/-! ### The same answer -/

-- The induction is the one by which the parser ends: the lexemes left, and then the level.

mutual

theorem formula_comes (frame : Frame) {ls : List Lexeme} {i : Nat} (hi : i ≤ ls.length) (n : Nat)
    (around : List Pending) {rest : List Lexeme} (hdrop : ls.drop i = rest) :
    Comes frame ls ⟨i, n, .call .formula, around⟩ around (formula frame ⟨rest, n⟩).outcome := by
  have hfirst := conjunction_comes frame hi n (⟨i, .chain .or []⟩ :: around) hdrop
  rw [formula]
  refine .of_step rfl ?_
  cases hc : conjunction frame ⟨rest, n⟩ with
  | failed e stop =>
      rw [hc] at hfirst
      exact hfirst.after fun j hj hstop => comes_of_answer _ hj hstop
  | done f next less =>
      rw [hc] at hfirst
      obtain ⟨rest', n'⟩ := next
      have hshort : rest'.length < rest.length := less
      exact hfirst.after fun j hj hdrop' => disjuncts_comes frame hj rest' hdrop'.symm less
termination_by (rest.length, 5)

theorem disjuncts_comes (frame : Frame) {ls : List Lexeme} {m j b n : Nat} {done : List Formula}
    {around : List Pending} {f : Formula} (hj : j ≤ ls.length) :
    ∀ (rest : List Lexeme) (_hdrop : ls.drop j = rest) (hm : rest.length < m),
      Comes frame ls
        (Run.resume ls ⟨j, n, .answer (.ok f), around⟩ (.ok f) ⟨b, .chain .or done⟩) around
        (disjuncts frame m (f :: done) ⟨rest, n⟩ hm).outcome
  | [], hdrop, hm => by
      rw [resume_chain_stop (by rw [hdrop]; exact notNext_nil _), disjuncts_stop (notNext_nil _)]
      exact comes_of_answer _ hj hdrop.symm
  | l :: rest, hdrop, hm => by
      by_cases hor : l.token = .or
      · obtain ⟨hlt, hdrop'⟩ := drop_succ_of_drop hdrop
        have hnext := conjunction_comes frame hlt n (⟨b, .chain .or (f :: done)⟩ :: around)
          hdrop'
        have hop : l.token = Operator.or.token := hor
        rw [resume_chain_more hdrop hop]
        cases hc : conjunction frame ⟨rest, n⟩ with
        | failed e stop =>
            rw [hc] at hnext
            rw [disjuncts]
            simp only [if_pos hor, hc]
            exact hnext.after fun k hk hstop => comes_of_answer _ hk hstop
        | done g next less =>
            rw [hc] at hnext
            rw [disjuncts_more hor hc]
            obtain ⟨rest', n'⟩ := next
            have hshort : rest'.length < rest.length := less
            exact hnext.after fun k hk hdrop'' => disjuncts_comes frame hk rest' hdrop''.symm _
      · have hstop : NotNext .or (l :: rest) := notNext_cons hor
        rw [resume_chain_stop (by rw [hdrop]; exact hstop), disjuncts_stop hstop]
        exact comes_of_answer _ hj hdrop.symm
termination_by rest => (rest.length, 4)
decreasing_by
  all_goals
    apply Prod.Lex.left
    simp only [List.length_cons]
    omega

theorem conjunction_comes (frame : Frame) {ls : List Lexeme} {i : Nat} (hi : i ≤ ls.length)
    (n : Nat) (around : List Pending) {rest : List Lexeme} (hdrop : ls.drop i = rest) :
    Comes frame ls ⟨i, n, .call .conjunction, around⟩ around
      (conjunction frame ⟨rest, n⟩).outcome := by
  have hfirst := factor_comes frame hi n (⟨i, .chain .and []⟩ :: around) rest hdrop
  rw [conjunction]
  refine .of_step rfl ?_
  cases hc : factor frame ⟨rest, n⟩ with
  | failed e stop =>
      rw [hc] at hfirst
      exact hfirst.after fun j hj hstop => comes_of_answer _ hj hstop
  | done f next less =>
      rw [hc] at hfirst
      obtain ⟨rest', n'⟩ := next
      have hshort : rest'.length < rest.length := less
      exact hfirst.after fun j hj hdrop' => conjuncts_comes frame hj rest' hdrop'.symm less
termination_by (rest.length, 3)

theorem conjuncts_comes (frame : Frame) {ls : List Lexeme} {m j b n : Nat} {done : List Formula}
    {around : List Pending} {f : Formula} (hj : j ≤ ls.length) :
    ∀ (rest : List Lexeme) (_hdrop : ls.drop j = rest) (hm : rest.length < m),
      Comes frame ls
        (Run.resume ls ⟨j, n, .answer (.ok f), around⟩ (.ok f) ⟨b, .chain .and done⟩) around
        (conjuncts frame m (f :: done) ⟨rest, n⟩ hm).outcome
  | [], hdrop, hm => by
      rw [resume_chain_stop (by rw [hdrop]; exact notNext_nil _), conjuncts_stop (notNext_nil _)]
      exact comes_of_answer _ hj hdrop.symm
  | l :: rest, hdrop, hm => by
      by_cases hand : l.token = .and
      · obtain ⟨hlt, hdrop'⟩ := drop_succ_of_drop hdrop
        have hnext := factor_comes frame hlt n (⟨b, .chain .and (f :: done)⟩ :: around)
          rest hdrop'
        have hop : l.token = Operator.and.token := hand
        rw [resume_chain_more hdrop hop]
        cases hc : factor frame ⟨rest, n⟩ with
        | failed e stop =>
            rw [hc] at hnext
            rw [conjuncts]
            simp only [if_pos hand, hc]
            exact hnext.after fun k hk hstop => comes_of_answer _ hk hstop
        | done g next less =>
            rw [hc] at hnext
            rw [conjuncts_more hand hc]
            obtain ⟨rest', n'⟩ := next
            have hshort : rest'.length < rest.length := less
            exact hnext.after fun k hk hdrop'' => conjuncts_comes frame hk rest' hdrop''.symm _
      · have hstop : NotNext .and (l :: rest) := notNext_cons hand
        rw [resume_chain_stop (by rw [hdrop]; exact hstop), conjuncts_stop hstop]
        exact comes_of_answer _ hj hdrop.symm
termination_by rest => (rest.length, 2)
decreasing_by
  all_goals
    apply Prod.Lex.left
    simp only [List.length_cons]
    omega

theorem factor_comes (frame : Frame) {ls : List Lexeme} {i : Nat} (hi : i ≤ ls.length) (n : Nat)
    (around : List Pending) : ∀ (rest : List Lexeme) (_hdrop : ls.drop i = rest),
      Comes frame ls ⟨i, n, .call .factor, around⟩ around (factor frame ⟨rest, n⟩).outcome
  | [], hdrop => by
      have hbare : NotNext .not (ls.drop i) := by
        rw [hdrop]
        exact notNext_nil _
      refine .of_step (congrArg some (start_factor_bare hbare)) ?_
      exact (operand_comes frame hi n (⟨i, .bare⟩ :: around) [] hdrop (notNext_nil _)).after
        fun j hj hstop => comes_of_answer _ hj hstop
  | l :: rest, hdrop => by
      by_cases hl : l.token = .not
      · obtain ⟨hlt, hdrop'⟩ := drop_succ_of_drop hdrop
        refine .of_step (congrArg some (start_factor_not hdrop hl)) ?_
        rw [factor]
        simp only [hl]
        by_cases hdeep : n < frame.maxNesting
        · have hinner := factor_comes frame hlt (n + 1) (⟨i, .negation⟩ :: around) rest hdrop'
          rw [enter_of_lt hdeep]
          simp only [if_pos hdeep]
          cases hc : factor frame ⟨rest, n + 1⟩ with
          | failed e stop =>
              rw [hc] at hinner
              exact hinner.after fun j hj hstop => comes_of_answer (c := stop.leave) _ hj hstop
          | done f next less =>
              rw [hc] at hinner
              exact hinner.after fun j hj hnext => comes_of_answer (c := next.leave) _ hj hnext
        · rw [enter_of_not_lt hdeep]
          simp only [if_neg hdeep]
          exact comes_of_answer _ hlt hdrop'.symm
      · have hbare : NotNext .not (ls.drop i) := by
          rw [hdrop]
          exact notNext_cons hl
        refine .of_step (congrArg some (start_factor_bare hbare)) ?_
        exact (operand_comes frame hi n (⟨i, .bare⟩ :: around) (l :: rest) hdrop
          (notNext_cons hl)).after fun j hj hstop => comes_of_answer _ hj hstop
termination_by rest => (rest.length, 1)

theorem operand_comes (frame : Frame) {ls : List Lexeme} {i : Nat} (hi : i ≤ ls.length) (n : Nat)
    (around : List Pending) : ∀ (rest : List Lexeme) (_hdrop : ls.drop i = rest),
      NotNext .not rest →
      Comes frame ls ⟨i, n, .call .operand, around⟩ around (factor frame ⟨rest, n⟩).outcome
  | [], hdrop, _ => by
      refine .of_step (congrArg some (start_operand_nil hdrop)) ?_
      rw [factor]
      exact comes_of_answer _ hi hdrop.symm
  | l :: rest, hdrop, hnot => by
      obtain ⟨hlt, hdrop'⟩ := drop_succ_of_drop hdrop
      refine .of_step (congrArg some (start_operand hdrop)) ?_
      rw [factor]
      cases hl : l.token with
      | not => exact absurd hl (hnot l (by simp))
      | and | or | closing =>
          simp only [hl]
          exact comes_of_answer _ hi hdrop.symm
      | atom id =>
          simp only [hl]
          exact comes_of_answer _ hlt hdrop'.symm
      | opening =>
          simp only [hl]
          by_cases hdeep : n < frame.maxNesting
          · have hinner := formula_comes frame hlt (n + 1) (⟨i, .group l.position⟩ :: around) hdrop'
            rw [enter_of_lt hdeep]
            simp only [if_pos hdeep]
            cases hc : formula frame ⟨rest, n + 1⟩ with
            | failed e stop =>
                rw [hc] at hinner
                exact hinner.after fun j hj hstop => comes_of_answer (c := stop.leave) _ hj hstop
            | done f next less =>
                rw [hc] at hinner
                obtain ⟨after, m⟩ := next
                refine hinner.after fun j hj hnext => ?_
                simp only [Reply.outcome] at hnext ⊢
                cases after with
                | nil =>
                    rw [resume_group_nil hnext.symm]
                    exact comes_of_answer _ hj hnext
                | cons r after =>
                    obtain ⟨hlt', hdrop''⟩ := drop_succ_of_drop hnext.symm
                    rw [resume_group hnext.symm]
                    by_cases hr : r.token = .closing
                    · simp only [if_pos hr]
                      exact comes_of_answer _ hlt' hdrop''.symm
                    · simp only [if_neg hr]
                      exact comes_of_answer _ hj hnext
          · rw [enter_of_not_lt hdeep]
            simp only [if_neg hdeep]
            exact comes_of_answer _ hlt hdrop'.symm
termination_by rest => (rest.length, 0)

end

/-- **A run goes the way of the procedures.**  From the call of one, whatever waits for it, the run
comes to what the procedure answers, where the procedure stops. -/
theorem read_comes (frame : Frame) {ls : List Lexeme} {i : Nat} (hi : i ≤ ls.length) (n : Nat)
    (around : List Pending) (level : Level) :
    Comes frame ls ⟨i, n, .call level, around⟩ around (read frame ⟨ls.drop i, n⟩ level) := by
  cases level with
  | formula => exact formula_comes frame hi n around rfl
  | conjunction => exact conjunction_comes frame hi n around rfl
  | factor => exact factor_comes frame hi n around _ rfl
  | operand =>
      cases hdrop : ls.drop i with
      | nil => exact operand_comes frame hi n around [] hdrop (notNext_nil _)
      | cons l rest =>
          unfold read
          by_cases hl : l.token = .not
          · simp only [if_pos hl]
            refine .of_step (congrArg some (start_operand hdrop)) ?_
            simp only [hl]
            exact comes_of_answer _ hi hdrop.symm
          · simp only [if_neg hl]
            exact operand_comes frame hi n around _ hdrop (notNext_cons hl)

end Parser

end Prerequisite
