/-
Reading is deriving.

A reading that succeeds uses up tokens it has a derivation for, none of them nested too deeply
(`formula_sound`), and tokens that have such a derivation are read as its formula, whatever follows
that cannot continue it (`Expression.reads`).  Both go through the procedures of the parser one by
one: the first by the measure that lets them end, the second by the derivation.

A chain is read as far as it goes, so the second needs to know what comes next.  After a conjunction
that is no `^`, after a formula neither `^` nor `v`; after a factor it may be anything.
-/
import Prerequisite.Proofs.Formula.Grammar
import Prerequisite.Proofs.Formula.Scan

namespace Prerequisite

namespace Parser

open Grammar

/-! ### What a procedure did when it succeeded -/

section

variable {frame : Frame} {c next : Cursor} {f : Formula}

theorem formula_done {shorter : next.rest.length < c.rest.length}
    (h : formula frame c = .done f next shorter) :
    ∃ (g : Formula) (mid : Cursor) (less : mid.rest.length < c.rest.length),
      conjunction frame c = .done g mid less ∧
      disjuncts frame c.rest.length [g] mid less = .done f next shorter := by
  rw [formula] at h
  cases hc : conjunction frame c with
  | failed e stop => rw [hc] at h; exact absurd h (by simp)
  | done g mid less => exact ⟨g, mid, less, rfl, by rwa [hc] at h⟩

theorem disjuncts_done {m : Nat} {done : List Formula} {hm : c.rest.length < m}
    {shorter : next.rest.length < m} (h : disjuncts frame m done c hm = .done f next shorter) :
    (f = chain .disj done.reverse ∧ next = c) ∨
      ∃ (l : Lexeme) (rest : List Lexeme) (g : Formula) (mid : Cursor)
        (less : mid.rest.length < rest.length) (hmid : mid.rest.length < m),
        c.rest = l :: rest ∧ l.token = .or ∧
        conjunction frame ⟨rest, c.nesting⟩ = .done g mid less ∧
        disjuncts frame m (g :: done) mid hmid = .done f next shorter := by
  obtain ⟨rest, n⟩ := c
  rw [disjuncts] at h
  cases rest with
  | nil => exact .inl (by simpa [eq_comm] using h)
  | cons l rest =>
      by_cases hop : l.token = .or
      · simp only [if_pos hop] at h
        cases hc : conjunction frame ⟨rest, n⟩ with
        | failed e stop => rw [hc] at h; exact absurd h (by simp)
        | done g mid less =>
            rw [hc] at h
            exact .inr ⟨l, rest, g, mid, less, _, rfl, hop, hc, h⟩
      · simp only [if_neg hop] at h
        exact .inl (by simpa [eq_comm] using h)

theorem conjunction_done {shorter : next.rest.length < c.rest.length}
    (h : conjunction frame c = .done f next shorter) :
    ∃ (g : Formula) (mid : Cursor) (less : mid.rest.length < c.rest.length),
      factor frame c = .done g mid less ∧
      conjuncts frame c.rest.length [g] mid less = .done f next shorter := by
  rw [conjunction] at h
  cases hc : factor frame c with
  | failed e stop => rw [hc] at h; exact absurd h (by simp)
  | done g mid less => exact ⟨g, mid, less, rfl, by rwa [hc] at h⟩

theorem conjuncts_done {m : Nat} {done : List Formula} {hm : c.rest.length < m}
    {shorter : next.rest.length < m} (h : conjuncts frame m done c hm = .done f next shorter) :
    (f = chain .conj done.reverse ∧ next = c) ∨
      ∃ (l : Lexeme) (rest : List Lexeme) (g : Formula) (mid : Cursor)
        (less : mid.rest.length < rest.length) (hmid : mid.rest.length < m),
        c.rest = l :: rest ∧ l.token = .and ∧
        factor frame ⟨rest, c.nesting⟩ = .done g mid less ∧
        conjuncts frame m (g :: done) mid hmid = .done f next shorter := by
  obtain ⟨rest, n⟩ := c
  rw [conjuncts] at h
  cases rest with
  | nil => exact .inl (by simpa [eq_comm] using h)
  | cons l rest =>
      by_cases hop : l.token = .and
      · simp only [if_pos hop] at h
        cases hc : factor frame ⟨rest, n⟩ with
        | failed e stop => rw [hc] at h; exact absurd h (by simp)
        | done g mid less =>
            rw [hc] at h
            exact .inr ⟨l, rest, g, mid, less, _, rfl, hop, hc, h⟩
      · simp only [if_neg hop] at h
        exact .inl (by simpa [eq_comm] using h)

/-- A factor is a section, or a negation or a group that is not nested too deeply. -/
theorem factor_done {shorter : next.rest.length < c.rest.length}
    (h : factor frame c = .done f next shorter) :
    ∃ l rest, c.rest = l :: rest ∧
      ((∃ id, l.token = .atom id ∧ f = .atom id ∧ next = ⟨rest, c.nesting⟩) ∨
      (l.token = .not ∧ c.nesting < frame.maxNesting ∧
        ∃ g mid less, factor frame ⟨rest, c.nesting + 1⟩ = .done g mid less ∧
          f = .neg g ∧ next = mid.leave) ∨
      (l.token = .opening ∧ c.nesting < frame.maxNesting ∧
        ∃ g r after m less,
          formula frame ⟨rest, c.nesting + 1⟩ = .done g ⟨r :: after, m⟩ less ∧
          r.token = .closing ∧ f = .group g ∧ next = Cursor.leave ⟨after, m⟩)) := by
  obtain ⟨rest, n⟩ := c
  rw [factor] at h
  cases rest with
  | nil => exact absurd h (by simp)
  | cons l rest =>
      refine ⟨l, rest, rfl, ?_⟩
      cases hl : l.token with
      | and | or | closing => simp only [hl] at h; exact absurd h (by simp)
      | atom id =>
          simp only [hl] at h
          exact .inl ⟨id, rfl, by simpa [eq_comm] using h⟩
      | not =>
          by_cases hdeep : n < frame.maxNesting
          · simp only [hl, if_pos hdeep] at h
            cases hc : factor frame ⟨rest, n + 1⟩ with
            | failed e stop => rw [hc] at h; exact absurd h (by simp)
            | done g mid less =>
                rw [hc] at h
                exact .inr (.inl ⟨rfl, hdeep, g, mid, less, rfl, by simpa [eq_comm] using h⟩)
          · simp only [hl, if_neg hdeep] at h
            exact absurd h (by simp)
      | opening =>
          by_cases hdeep : n < frame.maxNesting
          · simp only [hl, if_pos hdeep] at h
            cases hc : formula frame ⟨rest, n + 1⟩ with
            | failed e stop => rw [hc] at h; exact absurd h (by simp)
            | done g mid less =>
                rw [hc] at h
                obtain ⟨after, m⟩ := mid
                cases after with
                | nil => exact absurd h (by simp)
                | cons r after =>
                    by_cases hr : r.token = .closing
                    · simp only [if_pos hr] at h
                      exact .inr (.inr ⟨rfl, hdeep, g, r, after, m, less, rfl, hr,
                        by simpa [eq_comm] using h⟩)
                    · simp only [if_neg hr] at h
                      exact absurd h (by simp)
          · simp only [hl, if_neg hdeep] at h
            exact absurd h (by simp)

end

/-! ### What is read has a derivation -/

/-- Between two places on one level lie these tokens, none of them nested too deeply. -/
structure Uses (max : Nat) (c next : Cursor) (ts : List Placed) : Prop where
  level : next.nesting = c.nesting
  tokens : ∃ ls, c.rest = ls ++ next.rest ∧ ls.map Lexeme.token = ts.map Placed.token
  within : Within max ts

theorem Uses.refl (max : Nat) (c : Cursor) : Uses max c c [] :=
  ⟨rfl, ⟨[], rfl, rfl⟩, within_nil max⟩

theorem Uses.trans {max : Nat} {c d e : Cursor} {ts us : List Placed} (h : Uses max c d ts)
    (h' : Uses max d e us) : Uses max c e (ts ++ us) := by
  obtain ⟨ls, hls, hmap⟩ := h.tokens
  obtain ⟨ms, hms, hmap'⟩ := h'.tokens
  refine ⟨h'.level.trans h.level, ⟨ls ++ ms, ?_, ?_⟩, within_append.mpr ⟨h.within, h'.within⟩⟩
  · rw [hls, hms, List.append_assoc]
  · rw [List.map_append, List.map_append, hmap, hmap']

/-- One lexeme is used up before what is used after it. -/
theorem Uses.cons {max : Nat} {c next : Cursor} {l : Lexeme} {rest : List Lexeme}
    {ts : List Placed} {k : Nat} (hrest : c.rest = l :: rest)
    (hdeep : l.token.opens = true → k < max)
    (h : Uses max ⟨rest, c.nesting⟩ next ts) : Uses max c next (⟨l.token, k⟩ :: ts) := by
  obtain ⟨ls, hls, hmap⟩ := h.tokens
  refine ⟨h.level, ⟨l :: ls, ?_, ?_⟩, within_cons.mpr ⟨hdeep, h.within⟩⟩
  · rw [hrest, List.cons_append, ← hls]
  · rw [List.map_cons, List.map_cons, hmap]

/-- What is used one level further in is used on the way out as well. -/
theorem Uses.leave {max n : Nat} {rest : List Lexeme} {next : Cursor} {ts : List Placed}
    (h : Uses max ⟨rest, n + 1⟩ next ts) : Uses max ⟨rest, n⟩ next.leave ts := by
  refine ⟨?_, h.tokens, h.within⟩
  have hlevel : next.nesting = n + 1 := h.level
  show next.nesting - 1 = n
  omega

mutual

theorem formula_sound {frame : Frame} {c next : Cursor} {f : Formula}
    {shorter : next.rest.length < c.rest.length} (h : formula frame c = .done f next shorter) :
    ∃ ts, Expression c.nesting ts f ∧ Uses frame.maxNesting c next ts := by
  obtain ⟨g, mid, less, hfirst, hmore⟩ := formula_done h
  obtain ⟨ts, hts, huse⟩ := conjunction_sound hfirst
  obtain ⟨us, fs, rfl, hus, huse'⟩ := disjuncts_sound hmore
  rw [huse.level] at hus
  exact ⟨ts ++ us, .of_chain hts hus, huse.trans huse'⟩
termination_by (c.rest.length, 4)

theorem disjuncts_sound {frame : Frame} {m : Nat} {done : List Formula} {c next : Cursor}
    {f : Formula} {hm : c.rest.length < m} {shorter : next.rest.length < m}
    (h : disjuncts frame m done c hm = .done f next shorter) :
    ∃ ts fs, f = chain .disj (done.reverse ++ fs) ∧ Disjuncts c.nesting ts fs ∧
      Uses frame.maxNesting c next ts := by
  rcases disjuncts_done h with ⟨rfl, rfl⟩ | ⟨l, rest, g, mid, less, hmid, hrest, hop, hfirst, hmore⟩
  · exact ⟨[], [], by simp, .nil, .refl _ _⟩
  · obtain ⟨ts, hts, huse⟩ := conjunction_sound hfirst
    obtain ⟨us, fs, rfl, hus, huse'⟩ := disjuncts_sound hmore
    rw [huse.level] at hus
    refine ⟨⟨.or, c.nesting⟩ :: (ts ++ us), g :: fs, by simp, .cons hts hus, ?_⟩
    rw [← hop]
    exact (huse.trans huse').cons hrest (by simp [hop, Token.opens])
termination_by (c.rest.length, 3)
decreasing_by
  all_goals
    apply Prod.Lex.left
    simp only [hrest, List.length_cons]
    omega

theorem conjunction_sound {frame : Frame} {c next : Cursor} {f : Formula}
    {shorter : next.rest.length < c.rest.length} (h : conjunction frame c = .done f next shorter) :
    ∃ ts, Conjunction c.nesting ts f ∧ Uses frame.maxNesting c next ts := by
  obtain ⟨g, mid, less, hfirst, hmore⟩ := conjunction_done h
  obtain ⟨ts, hts, huse⟩ := factor_sound hfirst
  obtain ⟨us, fs, rfl, hus, huse'⟩ := conjuncts_sound hmore
  rw [huse.level] at hus
  exact ⟨ts ++ us, .of_chain hts hus, huse.trans huse'⟩
termination_by (c.rest.length, 2)

theorem conjuncts_sound {frame : Frame} {m : Nat} {done : List Formula} {c next : Cursor}
    {f : Formula} {hm : c.rest.length < m} {shorter : next.rest.length < m}
    (h : conjuncts frame m done c hm = .done f next shorter) :
    ∃ ts fs, f = chain .conj (done.reverse ++ fs) ∧ Conjuncts c.nesting ts fs ∧
      Uses frame.maxNesting c next ts := by
  rcases conjuncts_done h with ⟨rfl, rfl⟩ | ⟨l, rest, g, mid, less, hmid, hrest, hop, hfirst, hmore⟩
  · exact ⟨[], [], by simp, .nil, .refl _ _⟩
  · obtain ⟨ts, hts, huse⟩ := factor_sound hfirst
    obtain ⟨us, fs, rfl, hus, huse'⟩ := conjuncts_sound hmore
    rw [huse.level] at hus
    refine ⟨⟨.and, c.nesting⟩ :: (ts ++ us), g :: fs, by simp, .cons hts hus, ?_⟩
    rw [← hop]
    exact (huse.trans huse').cons hrest (by simp [hop, Token.opens])
termination_by (c.rest.length, 1)
decreasing_by
  all_goals
    apply Prod.Lex.left
    simp only [hrest, List.length_cons]
    omega

theorem factor_sound {frame : Frame} {c next : Cursor} {f : Formula}
    {shorter : next.rest.length < c.rest.length} (h : factor frame c = .done f next shorter) :
    ∃ ts, Factor c.nesting ts f ∧ Uses frame.maxNesting c next ts := by
  obtain ⟨l, rest, hrest, ⟨id, hl, rfl, rfl⟩ | ⟨hl, hdeep, g, mid, less, hg, rfl, rfl⟩ |
    ⟨hl, hdeep, g, r, after, m, less, hg, hr, rfl, rfl⟩⟩ := factor_done h
  · refine ⟨[⟨.atom id, c.nesting⟩], .atom, ?_⟩
    rw [← hl]
    exact (Uses.refl _ ⟨rest, c.nesting⟩).cons hrest (by simp [hl, Token.opens])
  · obtain ⟨ts, hts, huse⟩ := factor_sound hg
    refine ⟨⟨.not, c.nesting⟩ :: ts, .neg hts, ?_⟩
    rw [← hl]
    exact huse.leave.cons hrest fun _ => hdeep
  · obtain ⟨ts, hts, huse⟩ := formula_sound hg
    refine ⟨⟨.opening, c.nesting⟩ :: (ts ++ [⟨.closing, c.nesting⟩]), .group hts, ?_⟩
    have hclose : Uses frame.maxNesting ⟨r :: after, m⟩ ⟨after, m⟩ [⟨r.token, c.nesting⟩] :=
      (Uses.refl _ ⟨after, m⟩).cons rfl (by simp [hr, Token.opens])
    rw [← hl, ← hr]
    exact (huse.trans hclose).leave.cons hrest fun _ => hdeep
termination_by (c.rest.length, 0)
decreasing_by
  all_goals
    apply Prod.Lex.left
    simp only [hrest, List.length_cons]
    omega

end

/-! ### What has a derivation is read -/

/-- The lexemes do not begin with this token. -/
def NotNext (t : Token) (ls : List Lexeme) : Prop := ∀ l ∈ ls.head?, l.token ≠ t

theorem notNext_nil (t : Token) : NotNext t [] := fun l hl => absurd hl (by simp)

theorem notNext_cons {t : Token} {l : Lexeme} {ls : List Lexeme} (h : l.token ≠ t) :
    NotNext t (l :: ls) := by
  intro x hx
  obtain rfl : l = x := by simpa using hx
  exact h

section

variable {frame : Frame} {n : Nat} {l : Lexeme} {rest : List Lexeme}

theorem disjuncts_stop {m : Nat} {done : List Formula} {hm : rest.length < m}
    (hend : NotNext .or rest) :
    disjuncts frame m done ⟨rest, n⟩ hm = .done (chain .disj done.reverse) ⟨rest, n⟩ hm := by
  rw [disjuncts]
  cases rest with
  | nil => rfl
  | cons l rest => simp only [if_neg (hend l (by simp))]

theorem disjuncts_more {m : Nat} {done : List Formula} {hm : (l :: rest).length < m} {g : Formula}
    {mid : Cursor} {less : mid.rest.length < rest.length} (hl : l.token = .or)
    (h : conjunction frame ⟨rest, n⟩ = .done g mid less) :
    disjuncts frame m done ⟨l :: rest, n⟩ hm =
      disjuncts frame m (g :: done) mid (Nat.lt_trans (Nat.lt_succ_of_lt less) hm) := by
  rw [disjuncts]
  simp only [if_pos hl, h]

theorem conjuncts_stop {m : Nat} {done : List Formula} {hm : rest.length < m}
    (hend : NotNext .and rest) :
    conjuncts frame m done ⟨rest, n⟩ hm = .done (chain .conj done.reverse) ⟨rest, n⟩ hm := by
  rw [conjuncts]
  cases rest with
  | nil => rfl
  | cons l rest => simp only [if_neg (hend l (by simp))]

theorem conjuncts_more {m : Nat} {done : List Formula} {hm : (l :: rest).length < m} {g : Formula}
    {mid : Cursor} {less : mid.rest.length < rest.length} (hl : l.token = .and)
    (h : factor frame ⟨rest, n⟩ = .done g mid less) :
    conjuncts frame m done ⟨l :: rest, n⟩ hm =
      conjuncts frame m (g :: done) mid (Nat.lt_trans (Nat.lt_succ_of_lt less) hm) := by
  rw [conjuncts]
  simp only [if_pos hl, h]

theorem factor_atom {id : SectionId} (hl : l.token = .atom id) :
    factor frame ⟨l :: rest, n⟩ = .done (.atom id) ⟨rest, n⟩ (Nat.lt_succ_self _) := by
  rw [factor]
  simp only [hl]

theorem factor_not {g : Formula} {mid : Cursor} {less : mid.rest.length < rest.length}
    (hl : l.token = .not) (hdeep : n < frame.maxNesting)
    (h : factor frame ⟨rest, n + 1⟩ = .done g mid less) :
    factor frame ⟨l :: rest, n⟩ = .done (.neg g) mid.leave (Nat.lt_succ_of_lt less) := by
  rw [factor]
  simp only [hl, if_pos hdeep, h]

theorem factor_group {g : Formula} {r : Lexeme} {after : List Lexeme}
    {less : (r :: after).length < rest.length} (hl : l.token = .opening) (hr : r.token = .closing)
    (hdeep : n < frame.maxNesting)
    (h : formula frame ⟨rest, n + 1⟩ = .done g ⟨r :: after, n + 1⟩ less) :
    ∃ shorter, factor frame ⟨l :: rest, n⟩ = .done (.group g) ⟨after, n⟩ shorter := by
  have hshort : after.length < (l :: rest).length := by
    simp only [List.length_cons] at less ⊢
    omega
  refine ⟨hshort, ?_⟩
  rw [factor]
  simp only [hl, if_pos hdeep, h, if_pos hr]
  rfl

end

theorem notNext_of_disjuncts {n : Nat} {us : List Placed} {fs : List Formula}
    {ms rest : List Lexeme} (h : Disjuncts n us fs)
    (hms : ms.map Lexeme.token = us.map Placed.token) (hand : NotNext .and rest) :
    NotNext .and (ms ++ rest) := by
  cases h with
  | nil =>
      obtain rfl : ms = [] := by simpa using hms
      exact hand
  | cons h hs =>
      obtain ⟨l, ms, rfl, hl, -⟩ := List.map_eq_cons_iff.mp hms
      intro x hx
      obtain rfl : l = x := by simpa using hx
      rw [hl]
      exact Token.noConfusion

end Parser

namespace Grammar

open Prerequisite.Parser

mutual

theorem Expression.reads {n : Nat} {ts : List Placed} {f : Formula} : Expression n ts f →
    ∀ (frame : Frame) (ls rest : List Lexeme), Within frame.maxNesting ts →
      ls.map Lexeme.token = ts.map Placed.token → NotNext .or rest → NotNext .and rest →
      ∃ shorter, formula frame ⟨ls ++ rest, n⟩ = .done f ⟨rest, n⟩ shorter
  | .single h => by
      intro frame ls rest hw hls hor hand
      obtain ⟨less, hread⟩ := h.reads frame ls rest hw hls hand
      rw [formula, hread]
      exact ⟨_, disjuncts_stop hor⟩
  | .chain h hs => by
      intro frame ls rest hw hls hor hand
      rw [List.map_append] at hls
      obtain ⟨as, bs, rfl, has, hbs⟩ := List.map_eq_append_iff.mp hls
      obtain ⟨hwt, hwu⟩ := within_append.mp hw
      obtain ⟨less, hread⟩ :=
        h.reads frame as (bs ++ rest) hwt has (notNext_of_disjuncts hs hbs hand)
      rw [List.append_assoc, formula, hread]
      exact hs.reads frame bs rest _ _ _ hwu hbs hor hand

theorem Disjuncts.reads {n : Nat} {ts : List Placed} {fs : List Formula} : Disjuncts n ts fs →
    ∀ (frame : Frame) (ls rest : List Lexeme) (m : Nat) (done : List Formula)
      (hm : (ls ++ rest).length < m), Within frame.maxNesting ts →
      ls.map Lexeme.token = ts.map Placed.token → NotNext .or rest → NotNext .and rest →
      ∃ shorter, disjuncts frame m done ⟨ls ++ rest, n⟩ hm =
        .done (chain .disj (done.reverse ++ fs)) ⟨rest, n⟩ shorter
  | .nil => by
      intro frame ls rest m done hm _ hls hor _
      obtain rfl : ls = [] := by simpa using hls
      rw [List.append_nil]
      exact ⟨hm, disjuncts_stop hor⟩
  | @Disjuncts.cons n ts us f fs h hs => by
      intro frame ls rest m done hm hw hls hor hand
      -- Whether `v` follows or the chain ends, no `^` comes after the operand.
      obtain ⟨l, ls, rfl, hl, hmap⟩ := List.map_eq_cons_iff.mp hls
      rw [List.map_append] at hmap
      obtain ⟨as, bs, rfl, has, hbs⟩ := List.map_eq_append_iff.mp hmap
      obtain ⟨hwt, hwu⟩ := within_append.mp (within_cons.mp hw).2
      obtain ⟨less, hread⟩ :=
        h.reads frame as (bs ++ rest) hwt has (notNext_of_disjuncts hs hbs hand)
      have hlist : l :: (as ++ bs) ++ rest = l :: (as ++ (bs ++ rest)) := by simp
      have hrev : done.reverse ++ f :: fs = (f :: done).reverse ++ fs := by simp
      revert hm
      rw [hlist, hrev]
      intro hm
      rw [disjuncts_more hl hread]
      exact hs.reads frame bs rest m (f :: done) _ hwu hbs hor hand

theorem Conjunction.reads {n : Nat} {ts : List Placed} {f : Formula} : Conjunction n ts f →
    ∀ (frame : Frame) (ls rest : List Lexeme), Within frame.maxNesting ts →
      ls.map Lexeme.token = ts.map Placed.token → NotNext .and rest →
      ∃ shorter, conjunction frame ⟨ls ++ rest, n⟩ = .done f ⟨rest, n⟩ shorter
  | .single h => by
      intro frame ls rest hw hls hand
      obtain ⟨less, hread⟩ := h.reads frame ls rest hw hls
      rw [conjunction, hread]
      exact ⟨_, conjuncts_stop hand⟩
  | .chain h hs => by
      intro frame ls rest hw hls hand
      rw [List.map_append] at hls
      obtain ⟨as, bs, rfl, has, hbs⟩ := List.map_eq_append_iff.mp hls
      obtain ⟨hwt, hwu⟩ := within_append.mp hw
      obtain ⟨less, hread⟩ := h.reads frame as (bs ++ rest) hwt has
      rw [List.append_assoc, conjunction, hread]
      exact hs.reads frame bs rest _ _ _ hwu hbs hand

theorem Conjuncts.reads {n : Nat} {ts : List Placed} {fs : List Formula} : Conjuncts n ts fs →
    ∀ (frame : Frame) (ls rest : List Lexeme) (m : Nat) (done : List Formula)
      (hm : (ls ++ rest).length < m), Within frame.maxNesting ts →
      ls.map Lexeme.token = ts.map Placed.token → NotNext .and rest →
      ∃ shorter, conjuncts frame m done ⟨ls ++ rest, n⟩ hm =
        .done (chain .conj (done.reverse ++ fs)) ⟨rest, n⟩ shorter
  | .nil => by
      intro frame ls rest m done hm _ hls hand
      obtain rfl : ls = [] := by simpa using hls
      rw [List.append_nil]
      exact ⟨hm, conjuncts_stop hand⟩
  | @Conjuncts.cons n ts us f fs h hs => by
      intro frame ls rest m done hm hw hls hand
      obtain ⟨l, ls, rfl, hl, hmap⟩ := List.map_eq_cons_iff.mp hls
      rw [List.map_append] at hmap
      obtain ⟨as, bs, rfl, has, hbs⟩ := List.map_eq_append_iff.mp hmap
      obtain ⟨hwt, hwu⟩ := within_append.mp (within_cons.mp hw).2
      obtain ⟨less, hread⟩ := h.reads frame as (bs ++ rest) hwt has
      have hlist : l :: (as ++ bs) ++ rest = l :: (as ++ (bs ++ rest)) := by simp
      have hrev : done.reverse ++ f :: fs = (f :: done).reverse ++ fs := by simp
      revert hm
      rw [hlist, hrev]
      intro hm
      rw [conjuncts_more hl hread]
      exact hs.reads frame bs rest m (f :: done) _ hwu hbs hand

theorem Factor.reads {n : Nat} {ts : List Placed} {f : Formula} : Factor n ts f →
    ∀ (frame : Frame) (ls rest : List Lexeme), Within frame.maxNesting ts →
      ls.map Lexeme.token = ts.map Placed.token →
      ∃ shorter, factor frame ⟨ls ++ rest, n⟩ = .done f ⟨rest, n⟩ shorter
  | .neg h => by
      intro frame ls rest hw hls
      obtain ⟨l, ls, rfl, hl, hmap⟩ := List.map_eq_cons_iff.mp hls
      obtain ⟨hdeep, hw⟩ := within_cons.mp hw
      obtain ⟨less, hread⟩ := h.reads frame ls rest hw hmap
      exact ⟨_, factor_not hl (hdeep rfl) hread⟩
  | .atom => by
      intro frame ls rest _ hls
      obtain ⟨l, ls, rfl, hl, hmap⟩ := List.map_eq_cons_iff.mp hls
      obtain rfl : ls = [] := by simpa using hmap
      exact ⟨_, factor_atom hl⟩
  | .group h => by
      intro frame ls rest hw hls
      obtain ⟨l, ls, rfl, hl, hmap⟩ := List.map_eq_cons_iff.mp hls
      rw [List.map_append] at hmap
      obtain ⟨as, bs, rfl, has, hbs⟩ := List.map_eq_append_iff.mp hmap
      obtain ⟨r, bs, rfl, hr, hnil⟩ := List.map_eq_cons_iff.mp hbs
      obtain rfl : bs = [] := by simpa using hnil
      obtain ⟨hdeep, hw⟩ := within_cons.mp hw
      have hclose : ∀ t, t ≠ Token.closing → NotNext t (r :: rest) := by
        intro t ht
        apply notNext_cons
        rw [hr]
        exact Ne.symm ht
      obtain ⟨less, hread⟩ := h.reads frame as (r :: rest) (within_append.mp hw).1 has
        (hclose .or Token.noConfusion) (hclose .and Token.noConfusion)
      have hlist : l :: (as ++ [r]) ++ rest = l :: (as ++ r :: rest) := by simp
      rw [hlist]
      exact factor_group hl hr (hdeep rfl) hread

end

/-! ### Whole texts

A derivation is for a whole text when the reading that it gives leaves nothing.  Only then do the
places of its tokens matter, and only for the limit on nesting: which formula the tokens are read as
is settled without them.
-/

theorem exists_within (ts : List Placed) : ∃ max, Within max ts := by
  induction ts with
  | nil => exact ⟨0, within_nil 0⟩
  | cons p ts ih =>
      obtain ⟨max, hmax⟩ := ih
      refine ⟨max + p.around + 1, within_cons.mpr ⟨fun _ => by omega, fun q hq hopen => ?_⟩⟩
      have := hmax q hq hopen
      omega

/-- **The grammar is unambiguous:** tokens are no more than one formula. -/
theorem Expression.unique {n : Nat} {ts us : List Placed} {f g : Formula} (h : Expression n ts f)
    (h' : Expression n us g) (heq : ts.map Placed.token = us.map Placed.token) : f = g := by
  obtain ⟨max, hmax⟩ := exists_within (ts ++ us)
  obtain ⟨hts, hus⟩ := within_append.mp hmax
  have hls : (ts.map fun p => (⟨p.token, [], 0⟩ : Lexeme)).map Lexeme.token
      = ts.map Placed.token := by simp
  obtain ⟨_, hf⟩ := h.reads ⟨max, 0⟩ _ [] hts hls (notNext_nil _) (notNext_nil _)
  obtain ⟨_, hg⟩ := h'.reads ⟨max, 0⟩ _ [] hus (hls.trans heq) (notNext_nil _) (notNext_nil _)
  rw [hf] at hg
  injection hg

end Grammar

theorem Parser.whole_eq_ok_iff {frame : Parser.Frame} {ls : List Lexeme} {f : Formula} :
    Parser.whole frame ls = .ok f ↔ ∃ ts, Grammar.Expression 0 ts f ∧
      ts.map Placed.token = ls.map Lexeme.token ∧ Within frame.maxNesting ts := by
  rw [Parser.whole]
  constructor
  · intro h
    cases hread : Parser.formula frame ⟨ls, 0⟩ with
    | failed e stop => rw [hread] at h; exact absurd h (by simp)
    | done g next shorter =>
        obtain ⟨ts, hts, huse⟩ := Parser.formula_sound hread
        obtain ⟨ms, hms, hmap⟩ := huse.tokens
        obtain ⟨rest, n⟩ := next
        rw [hread] at h
        cases rest with
        | cons l rest => exact absurd h (by simp)
        | nil =>
            obtain rfl : g = f := by simpa using h
            obtain rfl : ls = ms := by simpa using hms
            exact ⟨ts, hts, hmap.symm, huse.within⟩
  · rintro ⟨ts, hts, hmap, hw⟩
    have hread := hts.reads frame ls [] hw hmap.symm (Parser.notNext_nil _) (Parser.notNext_nil _)
    rw [List.append_nil] at hread
    obtain ⟨_, hread⟩ := hread
    rw [hread]

namespace Formula

/-- A text is read as a formula exactly when its tokens derive it within the limits. -/
theorem parse_eq_ok_iff {limits : Limits} {text : String} {f : Formula} :
    parse limits text = .ok f ↔ Text.byteSize text.toList ≤ limits.maxBytes ∧
      ∃ ls, Scan.Lexes text.toList ls ∧ ∃ ts, Grammar.Expression 0 ts f ∧
        ts.map Placed.token = ls.map Lexeme.token ∧ Within limits.maxNesting ts := by
  rw [parse]
  constructor
  · intro h
    cases hls : lexemes limits text with
    | error e => rw [hls] at h; exact absurd h (by simp)
    | ok ls =>
        rw [hls] at h
        obtain ⟨hsize, hlex⟩ := Scan.lexemes_eq_ok_iff.mp hls
        exact ⟨hsize, ls, hlex, Parser.whole_eq_ok_iff.mp h⟩
  · rintro ⟨hsize, ls, hlex, hder⟩
    rw [Scan.lexemes_eq_ok_iff.mpr ⟨hsize, hlex⟩]
    exact Parser.whole_eq_ok_iff.mpr hder

/--
**The parser accepts what the grammar derives, and nothing else.**

A text is read as a formula under some limits if and only if it is small enough, falls into lexemes
whose tokens, all of them, derive the formula, and begins no negation and no group inside of as many
others as the limits allow.  There is no other formula that the tokens derive.
-/
theorem parse_agrees_with_grammar (limits : Limits) (text : String) (f : Formula) :
    parse limits text = .ok f ↔
      Text.byteSize text.toList ≤ limits.maxBytes ∧
      ∃ ls, Scan.Lexes text.toList ls ∧
        ∃ ts, Grammar.Expression 0 ts f ∧ ts.map Placed.token = ls.map Lexeme.token ∧
          (∀ p ∈ ts, p.token = .not ∨ p.token = .opening → p.around < limits.maxNesting) ∧
          ∀ us g, Grammar.Expression 0 us g →
            us.map Placed.token = ls.map Lexeme.token → g = f := by
  have hwithin : ∀ ts : List Placed, Within limits.maxNesting ts ↔
      ∀ p ∈ ts, p.token = .not ∨ p.token = .opening → p.around < limits.maxNesting := by
    intro ts
    have hopens : ∀ t : Token, t.opens = true ↔ t = .not ∨ t = .opening := by
      intro t
      cases t <;> simp [Token.opens]
    simp only [Within, hopens]
  rw [parse_eq_ok_iff]
  constructor
  · rintro ⟨hsize, ls, hlex, ts, hts, hmap, hw⟩
    refine ⟨hsize, ls, hlex, ts, hts, hmap, (hwithin ts).mp hw, ?_⟩
    intro us g hus hmap'
    exact hus.unique hts (hmap'.trans hmap.symm)
  · rintro ⟨hsize, ls, hlex, ts, hts, hmap, hw, -⟩
    exact ⟨hsize, ls, hlex, ts, hts, hmap, (hwithin ts).mpr hw⟩

end Formula

end Prerequisite
