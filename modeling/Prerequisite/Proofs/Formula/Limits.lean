/-
One text under several limits.

What a text is read as does not depend on the limits, only whether they let it through.  Larger
limits keep every answer but the two that speak of a limit.  A text that is read under some limits
is read under others as the same formula, or it is too large for them, or it is nested too deeply;
and it is nested too deeply exactly when the formula is.

Where it is too deep is a question about its derivation, which knows what is around each token.  A
derivation is gone through beside the walk (`Goes`): what the walk has open when it comes to a token
is what the derivation has around it, so the walk stops at the first token that opens something
inside of too much, and at no other.
-/
import Prerequisite.Proofs.Rewording

namespace Prerequisite

namespace Walk

open Prerequisite.Parser Opening

/-! ### Larger limits -/

section

variable {max max' : Nat} {w : Walk} {l : Lexeme} {ls : List Lexeme}

theorem enter_of_le (hle : max ≤ max') {o : Opening} {opened : List Opening}
    (h : ∀ n p, enter max l o opened ≠ .error (.tooDeep max n p)) :
    enter max' l o opened = enter max l o opened := by
  unfold enter at h ⊢
  by_cases hdeep : opened.length < max
  · rw [if_pos hdeep, if_pos (by omega)]
  · rw [if_neg hdeep] at h
    exact absurd rfl (h (max + 1) l.position)

/-- A step that is not too deep is the same under a larger limit. -/
theorem step_of_le (hle : max ≤ max') (h : ∀ n p, w.step max l ≠ .error (.tooDeep max n p)) :
    w.step max' l = w.step max l := by
  obtain ⟨wanted, opened⟩ := w
  unfold step at h ⊢
  cases wanted with
  | operator => cases l.token <;> rfl
  | operand =>
      cases hl : l.token with
      | atom id | and | or | closing => rfl
      | opening | not =>
          rw [hl] at h
          exact enter_of_le hle h

/-- So is what a walk says, unless it comes to something that is too deep. -/
theorem verdict_of_le (hle : max ≤ max') (size : Nat) :
    ∀ w : Walk, (∀ n p, w.verdict ⟨max, size⟩ ls ≠ .error (.tooDeep max n p)) →
      w.verdict ⟨max', size⟩ ls = w.verdict ⟨max, size⟩ ls := by
  induction ls with
  | nil => intro w _; rfl
  | cons l ls ih =>
      intro w h
      cases hstep : w.step max l with
      | error e =>
          have hstop : w.verdict ⟨max, size⟩ (l :: ls) = .error e := verdict_of_step_error hstep
          have hother : ∀ n p, e ≠ .tooDeep max n p := fun n p he => h n p (by rw [hstop, he])
          have hsame := step_of_le hle (w := w) (l := l) (by simpa [hstep] using hother)
          rw [hstop, verdict_of_step_error (hsame.trans hstep)]
      | ok w' =>
          have hgo : w.verdict ⟨max, size⟩ (l :: ls) = w'.verdict ⟨max, size⟩ ls :=
            verdict_of_step hstep
          have hsame := step_of_le hle (w := w) (l := l) (by simp [hstep])
          rw [hgo] at h ⊢
          rw [verdict_of_step (hsame.trans hstep), ih w' h]

end

/-! ### The first token that is too deep -/

/-- **The first token that opens something inside of `max` others or more.** -/
def firstDeep (max : Nat) (ts : List Placed) (ls : List Lexeme) : Option Lexeme :=
  ((ts.zip ls).find? fun x => x.1.token.opens && decide (max ≤ x.1.around)).map Prod.snd

theorem firstDeep_cons (max : Nat) (p : Placed) (ts : List Placed) (l : Lexeme)
    (ls : List Lexeme) : firstDeep max (p :: ts) (l :: ls) =
      if p.token.opens = true ∧ max ≤ p.around then some l else firstDeep max ts ls := by
  unfold firstDeep
  rw [List.zip_cons_cons, List.find?_cons]
  by_cases hdeep : p.token.opens = true ∧ max ≤ p.around
  · simp [hdeep]
  · rw [if_neg hdeep]
    have hno : (p.token.opens && decide (max ≤ p.around)) = false := by
      simpa using hdeep
    simp only [hno]

theorem firstDeep_append {max : Nat} {ts us : List Placed} {ls ms : List Lexeme}
    (h : ls.map Lexeme.token = ts.map Placed.token) :
    firstDeep max (ts ++ us) (ls ++ ms) = (firstDeep max ts ls).or (firstDeep max us ms) := by
  have hlen : ts.length = ls.length := by
    have hlen := congrArg List.length h
    rw [List.length_map, List.length_map] at hlen
    exact hlen.symm
  unfold firstDeep
  rw [List.zip_append hlen, List.find?_append, Option.map_or]

/-- What is said where a token may be too deep, and otherwise. -/
def unlessDeep (max : Nat) (x : Except FormulaError Unit) : Option Lexeme → Except FormulaError Unit
  | some l => .error (.tooDeep max (max + 1) l.position)
  | none => x

/-- **A walk goes over tokens** from one place to another, unless one of them is too deep, where it
stops. -/
def Goes (frame : Frame) (w w' : Walk) (ts : List Placed) : Prop :=
  ∀ ls rest, ls.map Lexeme.token = ts.map Placed.token →
    w.verdict frame (ls ++ rest) =
      unlessDeep frame.maxNesting (w'.verdict frame rest) (firstDeep frame.maxNesting ts ls)

section

variable {frame : Frame} {w w' w'' : Walk} {ts us : List Placed}

theorem Goes.nil : Goes frame w w [] := by
  intro ls rest hls
  obtain rfl : ls = [] := List.map_eq_nil_iff.mp hls
  rfl

theorem Goes.append (h : Goes frame w w' ts) (h' : Goes frame w' w'' us) :
    Goes frame w w'' (ts ++ us) := by
  intro ls rest hls
  rw [List.map_append] at hls
  obtain ⟨as, bs, rfl, has, hbs⟩ := List.map_eq_append_iff.mp hls
  rw [List.append_assoc, h as _ has, h' bs rest hbs, firstDeep_append has]
  cases firstDeep frame.maxNesting ts as <;> rfl

/-- A token that opens nothing is never too deep. -/
theorem Goes.cons {t : Token} {n : Nat} (hopens : t.opens = false)
    (hstep : ∀ l : Lexeme, l.token = t → w.step frame.maxNesting l = .ok w')
    (h : Goes frame w' w'' ts) : Goes frame w w'' (⟨t, n⟩ :: ts) := by
  intro ls rest hls
  obtain ⟨l, ls, rfl, hl, hmap⟩ := List.map_eq_cons_iff.mp hls
  rw [List.cons_append, verdict_of_step (hstep l hl), h ls rest hmap, firstDeep_cons,
    if_neg (by simp [hopens])]

/-- A token that opens something is too deep when there is as much around it as the limit allows. -/
theorem Goes.enter {t : Token} {n : Nat} {opened : List Opening} {o : Lexeme → Opening}
    (hopens : t.opens = true) (hlen : opened.length = n) (hmax : n ≤ frame.maxNesting)
    (hstep : ∀ l : Lexeme, l.token = t → step frame.maxNesting ⟨.operand, opened⟩ l =
      Walk.enter frame.maxNesting l (o l) opened)
    (h : ∀ l, n < frame.maxNesting → Goes frame ⟨.operand, o l :: opened⟩ w' ts) :
    Goes frame ⟨.operand, opened⟩ w' (⟨t, n⟩ :: ts) := by
  intro ls rest hls
  obtain ⟨l, ls, rfl, hl, hmap⟩ := List.map_eq_cons_iff.mp hls
  rw [List.cons_append, verdict_enter l _ (o l) hlen hmax (hstep l hl), firstDeep_cons]
  by_cases hdeep : n < frame.maxNesting
  · rw [if_pos hdeep, if_neg (by simp [hopens, hdeep]), h l hdeep ls rest hmap]
  · have hfull : n = frame.maxNesting := by omega
    rw [if_neg hdeep, if_pos ⟨hopens, by simp [hfull]⟩, hfull]
    rfl

end

end Walk

namespace Grammar

open Prerequisite.Parser Opening Walk

mutual

theorem Expression.goes {frame : Frame} {n : Nat} {opened : List Opening} {ts : List Placed}
    {f : Formula} (hlen : opened.length = n) (hmax : n ≤ frame.maxNesting)
    (hsettled : settle opened = opened) :
    Expression n ts f → Goes frame ⟨.operand, opened⟩ ⟨.operator, opened⟩ ts
  | .single h => h.goes hlen hmax hsettled
  | .chain h hs => (h.goes hlen hmax hsettled).append (hs.goes hlen hmax hsettled)

theorem Disjuncts.goes {frame : Frame} {n : Nat} {opened : List Opening} {ts : List Placed}
    {fs : List Formula} (hlen : opened.length = n) (hmax : n ≤ frame.maxNesting)
    (hsettled : settle opened = opened) :
    Disjuncts n ts fs → Goes frame ⟨.operator, opened⟩ ⟨.operator, opened⟩ ts
  | .nil => .nil
  | .cons h hs => .cons rfl (fun l hl => by rw [step, hl])
      ((h.goes hlen hmax hsettled).append (hs.goes hlen hmax hsettled))

theorem Conjunction.goes {frame : Frame} {n : Nat} {opened : List Opening} {ts : List Placed}
    {f : Formula} (hlen : opened.length = n) (hmax : n ≤ frame.maxNesting)
    (hsettled : settle opened = opened) :
    Conjunction n ts f → Goes frame ⟨.operand, opened⟩ ⟨.operator, opened⟩ ts
  | .single h => by
      have hfactor : Goes frame _ _ _ := h.goes hlen hmax
      rwa [complete, hsettled] at hfactor
  | .chain h hs => by
      have hfactor : Goes frame _ _ _ := h.goes hlen hmax
      rw [complete, hsettled] at hfactor
      exact hfactor.append (hs.goes hlen hmax hsettled)

theorem Conjuncts.goes {frame : Frame} {n : Nat} {opened : List Opening} {ts : List Placed}
    {fs : List Formula} (hlen : opened.length = n) (hmax : n ≤ frame.maxNesting)
    (hsettled : settle opened = opened) :
    Conjuncts n ts fs → Goes frame ⟨.operator, opened⟩ ⟨.operator, opened⟩ ts
  | .nil => .nil
  | .cons h hs => by
      have hfactor : Goes frame _ _ _ := h.goes hlen hmax
      rw [complete, hsettled] at hfactor
      exact .cons rfl (fun l hl => by rw [step, hl])
        (hfactor.append (hs.goes hlen hmax hsettled))

/-- What is open around a factor stays open but for its negations. -/
theorem Factor.goes {frame : Frame} {n : Nat} {opened : List Opening} {ts : List Placed}
    {f : Formula} (hlen : opened.length = n) (hmax : n ≤ frame.maxNesting) :
    Factor n ts f → Goes frame ⟨.operand, opened⟩ (complete opened) ts
  | .neg h => .enter (o := fun _ => .negation) rfl hlen hmax (fun l hl => by rw [step, hl])
      fun _ hdeep => h.goes (congrArg (· + 1) hlen) hdeep
  | .atom => .cons rfl (fun l hl => by rw [step, hl]) .nil
  | .group h => .enter (o := fun l => .group l.position) rfl hlen hmax
      (fun l hl => by rw [step, hl])
      fun _ hdeep => (h.goes (congrArg (· + 1) hlen) hdeep rfl).append
        (.cons rfl (fun r hr => by rw [step, hr]; rfl) .nil)

end

/-- A whole derivation is walked through unless a token is too deep. -/
theorem Expression.verdict {ts : List Placed} {f : Formula} (h : Expression 0 ts f) (frame : Frame)
    {ls : List Lexeme} (hls : ls.map Lexeme.token = ts.map Placed.token) :
    start.verdict frame ls =
      unlessDeep frame.maxNesting (.ok ()) (firstDeep frame.maxNesting ts ls) := by
  have hwalk : Goes frame ⟨.operand, []⟩ ⟨.operator, []⟩ ts := h.goes rfl (Nat.zero_le _) rfl
  have hgoes := hwalk ls [] hls
  rw [List.append_nil] at hgoes
  exact hgoes

end Grammar

namespace Formula

variable {limits limits' : Limits} {text : String} {f : Formula}

/-- Limits that admit a text and its formula read the one as the other. -/
theorem parse_of_admits (h : parse limits text = .ok f)
    (hsize : Text.byteSize text.toList ≤ limits'.maxBytes)
    (hdeep : f.nesting ≤ limits'.maxNesting) : parse limits' text = .ok f := by
  obtain ⟨ps, hps⟩ := cuts_of_parse h
  obtain ⟨-, -, hnormal, htok⟩ := (parse_eq_ok_iff_normal hps).mp h
  exact (parse_eq_ok_iff_normal hps).mpr ⟨hsize, hdeep, hnormal, htok⟩

/-- What was read is no larger and not nested more deeply than the limits allow. -/
theorem admits_of_parse (h : parse limits text = .ok f) :
    Text.byteSize text.toList ≤ limits.maxBytes ∧ f.nesting ≤ limits.maxNesting := by
  obtain ⟨ps, hps⟩ := cuts_of_parse h
  obtain ⟨hsize, hdeep, -, -⟩ := (parse_eq_ok_iff_normal hps).mp h
  exact ⟨hsize, hdeep⟩

/-- What is wrong with a text that tokenizes is what is wrong on the walk through its lexemes. -/
theorem parse_eq_error_iff {ls : List Lexeme} {e : FormulaError}
    (hls : lexemes limits text = .ok ls) : parse limits text = .error e ↔
      Walk.start.verdict ⟨limits.maxNesting, Text.byteSize text.toList⟩ ls = .error e := by
  rw [← parse_eq_verdict hls]
  cases parse limits text with
  | ok f => simp [Except.map]
  | error e' => simp [Except.map]

/-- **Larger limits keep every answer that no limit cut off.** -/
theorem parse_of_le (hbytes : limits.maxBytes ≤ limits'.maxBytes)
    (hnesting : limits.maxNesting ≤ limits'.maxNesting)
    (hlarge : ∀ max actual, parse limits text ≠ .error (.tooLarge max actual))
    (hdeep : ∀ max actual position, parse limits text ≠ .error (.tooDeep max actual position)) :
    parse limits' text = parse limits text := by
  have hsize : Text.byteSize text.toList ≤ limits.maxBytes := by
    by_contra hsize
    exact hlarge _ _ (parse_of_tooLarge (by omega))
  cases hread : parse limits text with
  | ok f =>
      exact parse_of_admits hread (by omega) (Nat.le_trans (admits_of_parse hread).2 hnesting)
  | error e =>
      have hlex : lexemes limits' text = lexemes limits text := by
        unfold lexemes Scan.pieces
        rw [if_neg (by omega), if_neg (by omega)]
      cases hls : lexemes limits text with
      | error e' =>
          rw [parse, hls] at hread
          rw [parse, hlex, hls]
          exact hread
      | ok ls =>
          have hwalk := (parse_eq_error_iff hls).mp hread
          refine (parse_eq_error_iff (hlex.trans hls)).mpr ?_
          rw [Walk.verdict_of_le hnesting, hwalk]
          intro n p htoo
          exact hdeep _ _ _ ((parse_eq_error_iff hls).mpr htoo)

/-- **A text whose formula is nested too deeply is refused at the first token that is.** -/
theorem parse_at_firstDeep (h : parse limits text = .ok f)
    (hsize : Text.byteSize text.toList ≤ limits'.maxBytes)
    (hdeep : limits'.maxNesting < f.nesting) :
    ∃ ls ts l, lexemes limits' text = .ok ls ∧ Grammar.Expression 0 ts f ∧
      ts.map Placed.token = ls.map Lexeme.token ∧
      Walk.firstDeep limits'.maxNesting ts ls = some l ∧ parse limits' text =
        .error (.tooDeep limits'.maxNesting (limits'.maxNesting + 1) l.position) := by
  obtain ⟨-, ls, hlex, ts, hts, hmap, -⟩ := parse_eq_ok_iff.mp h
  have hls : lexemes limits' text = .ok ls := Scan.lexemes_eq_ok_iff.mpr ⟨hsize, hlex⟩
  have hwalk := hts.verdict ⟨limits'.maxNesting, Text.byteSize text.toList⟩ hmap.symm
  cases hfirst : Walk.firstDeep limits'.maxNesting ts ls with
  | some l =>
      rw [hfirst] at hwalk
      exact ⟨ls, ts, l, hls, hts, hmap, hfirst, (parse_eq_error_iff hls).mpr hwalk⟩
  | none =>
      -- The walk cannot end well, for then the formula would not be too deep.
      rw [hfirst] at hwalk
      cases hread : parse limits' text with
      | error e =>
          have hstop := hwalk.symm.trans ((parse_eq_error_iff hls).mp hread)
          exact absurd hstop (by simp [Walk.unlessDeep])
      | ok g =>
          obtain ⟨ps, hps⟩ := cuts_of_parse h
          obtain rfl : g = f := (normal_of_parse hread).eq_of_tokens (normal_of_parse h)
            (by rw [tokens_of_parse hread hps, tokens_of_parse h hps])
          have := (admits_of_parse hread).2
          omega

theorem parse_of_tooDeep (h : parse limits text = .ok f)
    (hsize : Text.byteSize text.toList ≤ limits'.maxBytes)
    (hdeep : limits'.maxNesting < f.nesting) :
    ∃ position, parse limits' text =
      .error (.tooDeep limits'.maxNesting (limits'.maxNesting + 1) position) := by
  obtain ⟨-, -, l, -, -, -, -, hread⟩ := parse_at_firstDeep h hsize hdeep
  exact ⟨l.position, hread⟩

end Formula

end Prerequisite
