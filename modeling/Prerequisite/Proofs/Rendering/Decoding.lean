/-
Renderings cannot be confused.

Names come from outside and may hold anything, markup and the words of operators included.  What a
user is shown still tells which tokens were rendered, and for each section its colour and its name.

The markup of segments is a prefix code: it tells where the first segment ends and which one it is
(`Tells.eq_of_chars_append`).  That is so because a name is escaped, so the first bracket behind it
is that of the span, and because the five other pieces differ in their first or second character.
So the markup of a list of segments tells the list.

Trimming would spoil this if it took anything away.  It does not, because a text that is read begins
and ends with an operand (`starts_of_parse`, `ends_of_parse`), and a blank stands only at an end of
an operator.
-/
import Mathlib.Tactic
import Prerequisite.Proofs.Catalog
import Prerequisite.Proofs.Formula.Ends
import Prerequisite.Proofs.Formula.Kinds
import Prerequisite.Proofs.Rendering.Colours

namespace Prerequisite

/-! ### The segments of a text -/

namespace Segment

/-- **What a segment tells in English:** a section of some colour and name, or what it is. -/
inductive Tells : Token → Segment → Prop
  | atom {id : SectionId} {satisfied : Bool} {name : String} :
      Tells (.atom id) (.atom satisfied name)
  | and : Tells .and (.between "AND")
  | or : Tells .or (.between "OR")
  | not : Tells .not (.before "NOT")
  | opening : Tells .opening .opening
  | closing : Tells .closing .closing

namespace Tells

variable {t t' : Token} {x x' : Segment} {r r' : List Char}

/-- What a text begins with tells what kind of token its first segment shows. -/
theorem kind_eq_of_chars (h : Tells t x) (h' : Tells t' x') (heq : x.chars ++ r = x'.chars ++ r') :
    t.kind = t'.kind := by
  have hspan : ∀ satisfied, ∃ cs, (spanStart satisfied).toList = '<' :: cs := by
    intro satisfied
    cases satisfied <;> exact ⟨_, rfl⟩
  cases h with
  | @atom _ b =>
      obtain ⟨cs, hcs⟩ := hspan b
      cases h' with
      | atom => rfl
      | _ => simp [chars, hcs] at heq
  | and | or | not | opening | closing =>
      cases h' with
      | @atom _ b =>
          obtain ⟨cs, hcs⟩ := hspan b
          simp [chars, hcs] at heq
      | _ => first | rfl | simp [chars] at heq

theorem kind_eq (h : Tells t x) (h' : Tells t' x) : t.kind = t'.kind := by
  have heq : x.chars ++ [] = x.chars ++ [] := rfl
  exact h.kind_eq_of_chars h' heq

/-- **A text tells its first segment,** and what comes behind it. -/
theorem eq_of_chars_append (h : Tells t x) (h' : Tells t' x')
    (heq : x.chars ++ r = x'.chars ++ r') : x = x' ∧ r = r' := by
  have hkind := h.kind_eq_of_chars h' heq
  cases h with
  | @atom _ b name =>
      cases h' with
      | @atom _ b' name' =>
          have hb : b = b' := by
            cases b <;> cases b' <;> first | rfl | simp [chars, spanStart] at heq
          subst hb
          simp only [chars, List.append_assoc] at heq
          have hrest := List.append_cancel_left heq
          obtain ⟨hname, hr⟩ := Text.Markup.eq_of_escape_append hrest
          exact ⟨by rw [String.toList_inj.mp hname], List.append_cancel_left hr⟩
      | _ => exact absurd hkind (by simp [Token.kind])
  | and | or | not | opening | closing =>
      cases h' with
      | _ =>
          first
          | exact ⟨rfl, List.append_cancel_left heq⟩
          | exact absurd hkind (by simp [Token.kind])

theorem chars_ne_nil (h : Tells t x) : x.chars ≠ [] := by
  cases h with
  | @atom _ b => cases b <;> simp [chars, spanStart]
  | _ => simp [chars]

end Tells

/-- **The markup of segments tells the segments.** -/
theorem eq_of_flatMap_chars {ts ts' : List Token} {xs xs' : List Segment}
    (h : List.Forall₂ Tells ts xs) (h' : List.Forall₂ Tells ts' xs')
    (heq : xs.flatMap chars = xs'.flatMap chars) : xs = xs' := by
  induction h generalizing ts' xs' with
  | nil =>
      cases h' with
      | nil => rfl
      | cons hx _ => exact absurd heq.symm (by simp [hx.chars_ne_nil])
  | cons hx hxs ih =>
      cases h' with
      | nil => exact absurd heq (by simp [hx.chars_ne_nil])
      | cons hx' hxs' =>
          obtain ⟨rfl, hrest⟩ := hx.eq_of_chars_append hx' heq
          rw [ih hxs' hrest]

theorem map_kind_of_tells {ts ts' : List Token} {xs : List Segment}
    (h : List.Forall₂ Tells ts xs) (h' : List.Forall₂ Tells ts' xs) :
    ts.map Token.kind = ts'.map Token.kind := by
  induction h generalizing ts' with
  | nil => cases h'; rfl
  | cons hx _ ih =>
      cases h' with
      | cons hx' hxs' => rw [List.map_cons, List.map_cons, hx.kind_eq hx', ih hxs']

end Segment

/-! ### Trimming takes nothing away -/

namespace Segment

namespace Tells

variable {t : Token} {x : Segment}

theorem head_not_blank (h : Tells t x) (ht : t.starts = true) :
    ∃ c cs, x.chars = c :: cs ∧ Text.isBlank c = false := by
  cases h with
  | @atom _ b => cases b <;> exact ⟨_, _, rfl, by decide⟩
  | not | opening => exact ⟨_, _, rfl, by decide⟩
  | and | or | closing => exact absurd ht (by decide)

theorem last_not_blank (h : Tells t x) (ht : t.ends = true) :
    ∃ c cs, x.chars = cs ++ [c] ∧ Text.isBlank c = false := by
  cases h with
  | @atom _ b name =>
      refine ⟨'>', (spanStart b).toList ++ (Text.Markup.escape name.toList ++ "</span".toList), ?_,
        by decide⟩
      simp [chars, spanEnd]
  | closing => exact ⟨_, [], rfl, by decide⟩
  | and | or | not | opening => exact absurd ht (by decide)

end Tells

/-- The markup of segments that begin and end with operands has no blank at its ends. -/
theorem trim_flatMap_chars {ts : List Token} {xs : List Segment} (h : List.Forall₂ Tells ts xs)
    (hstart : ∀ t ∈ ts.head?, t.starts = true) (hend : ∀ t ∈ ts.getLast?, t.ends = true) :
    Text.trim (xs.flatMap chars) = xs.flatMap chars := by
  refine Text.trim_eq_self ?_ ?_
  · cases h with
    | nil => simp
    | @cons t x _ xs hx _ =>
        obtain ⟨c, cs, hcs, hc⟩ := hx.head_not_blank (hstart t (by simp))
        simpa [hcs] using hc
  · rcases ts.eq_nil_or_concat' with rfl | ⟨ts, t, rfl⟩
    · cases h
      simp
    · obtain ⟨ys, x, rfl, hx⟩ : ∃ ys x, xs = ys ++ [x] ∧ Tells t x := by
        have hrev := List.forall₂_reverse_iff.mpr h
        rw [List.reverse_concat] at hrev
        obtain ⟨x, zs, hx, -, hzs⟩ := List.forall₂_cons_left_iff.mp hrev
        exact ⟨zs.reverse, x, by rw [← List.reverse_reverse xs, hzs, List.reverse_cons], hx⟩
      obtain ⟨c, cs, hcs, hc⟩ := hx.last_not_blank (hend t (by simp))
      simpa [hcs] using hc

end Segment

section

variable {σ τ : Type} {host : Host σ} {host' : Host τ} {user user' : UserId}

namespace Rendering

/-! ### What is told in English -/

/-- What is found at an English host is told in English. -/
theorem Finds.tells (hhost : host.English) {s s' : σ} {ts : List Token} {xs : List Segment}
    (h : Finds host user s ts xs s') : List.Forall₂ Segment.Tells ts xs := by
  have hword : ∀ {p : Phrase} {text : String} {s t : σ}, word host p s = .ok text t →
      text = p.english := fun hp => (hhost.eq_of_phrase hp).trans (Template.substitute_nil _)
  induction h with
  | nil => exact .nil
  | atom _ _ _ ih => exact .cons .atom ih
  | @mark s t u m x ts xs hm hx _ ih =>
      refine .cons ?_ ih
      cases m with
      | atom id => exact absurd hm (by simp [Token.atom?])
      | and =>
          obtain ⟨text, hp, rfl⟩ := map_eq_ok_iff.mp hx
          rw [hword hp]
          exact .and
      | or =>
          obtain ⟨text, hp, rfl⟩ := map_eq_ok_iff.mp hx
          rw [hword hp]
          exact .or
      | not =>
          obtain ⟨text, hp, rfl⟩ := map_eq_ok_iff.mp hx
          rw [hword hp]
          exact .not
      | opening => injection hx with hx; subst hx; exact .opening
      | closing => injection hx with hx; subst hx; exact .closing

/-! ### Two renderings -/

/-- **Two runs found the same,** token by token: of each kind the other has found one of the same
kind, and each section with the same colour and the same name. -/
def Alike (host : Host σ) (host' : Host τ) (user user' : UserId) (ls ls' : List Lexeme)
    (s s' : σ) (t t' : τ) : Prop :=
  ls.map (·.token.kind) = ls'.map (·.token.kind) ∧
    ∃ xs, Finds host user s (ls.map Lexeme.token) xs s' ∧
      Finds host' user' t (ls'.map Lexeme.token) xs t'

/-- **Two formulas that show the same have been found the same,** if both are read. -/
theorem alike_of_render (hhost : host.English) (hhost' : host'.English)
    {accepted accepted' limits limits' : Limits} {text text' shown : String} {f f' : Formula}
    {s s' : σ} {t t' : τ} (hread : Formula.parse accepted text = .ok f)
    (hread' : Formula.parse accepted' text' = .ok f')
    (h : render host user limits text s = .ok shown s')
    (h' : render host' user' limits' text' t = .ok shown t') :
    ∃ ls ls', lexemes limits text = .ok ls ∧ lexemes limits' text' = .ok ls' ∧
      Alike host host' user user' ls ls' s s' t t' := by
  obtain ⟨ls, xs, hls, hfinds, rfl⟩ := finds_of_render h
  obtain ⟨ls', xs', hls', hfinds', hshown⟩ := finds_of_render h'
  have hends : ∀ {limits accepted : Limits} {text : String} {f : Formula} {ls : List Lexeme}
      {xs : List Segment}, Formula.parse accepted text = .ok f → lexemes limits text = .ok ls →
      List.Forall₂ Segment.Tells (ls.map Lexeme.token) xs →
      (markup xs).toList = '"' :: (xs.flatMap Segment.chars ++ ['"']) := by
    intro limits accepted text f ls xs hread hls htells
    rw [toList_markup, Segment.trim_flatMap_chars htells]
    · simpa using Formula.starts_of_parse hread hls
    · simpa using Formula.ends_of_parse hread hls
  have htells := hfinds.tells hhost
  have htells' := hfinds'.tells hhost'
  have hchars : xs.flatMap Segment.chars = xs'.flatMap Segment.chars := by
    have heq := congrArg String.toList hshown
    rw [hends hread hls htells, hends hread' hls' htells'] at heq
    exact List.append_cancel_right (List.cons.inj heq).2
  obtain rfl := Segment.eq_of_flatMap_chars htells htells' hchars
  have hkinds := Segment.map_kind_of_tells htells htells'
  rw [List.map_map, List.map_map] at hkinds
  exact ⟨ls, ls', hls, hls', hkinds, xs, hfinds, hfinds'⟩

/-- **What two users are shown cannot be confused,** whatever the sections are called.

Let two hosts answer in English, and let two texts that are read be rendered, for whichever users
and under whichever limits.  If the renderings succeed and are the same, they have as many tokens,
of the same kinds in the same order, and each section of the one has the colour and the name that
the section in its place has in the other.  The same goes for two descriptions of conditions with
the same scope, asked in the same way.
-/
theorem alike_of_same_text (hhost : host.English) (hhost' : host'.English) (user user' : UserId) :
    (∀ (accepted accepted' limits limits' : Limits) (text text' shown : String) (f f' : Formula)
      (s s' : σ) (t t' : τ), Formula.parse accepted text = .ok f →
      Formula.parse accepted' text' = .ok f' → render host user limits text s = .ok shown s' →
      render host' user' limits' text' t = .ok shown t' →
      ∃ ls ls', lexemes limits text = .ok ls ∧ lexemes limits' text' = .ok ls' ∧
        Alike host host' user user' ls ls' s s' t t') ∧
    ∀ (c c' : Condition) (negate full full' : Bool) (text : String) (s s' : σ) (t t' : τ),
      c.scope = c'.scope → c.describe host user negate full s = .ok text s' →
      c'.describe host' user' negate full' t = .ok text t' →
      ∃ ls ls' u u', lexemes c.limits c.formula = .ok ls ∧ lexemes c'.limits c'.formula = .ok ls' ∧
        Alike host host' user user' ls ls' s u t u' := by
  refine ⟨fun _ _ _ _ _ _ _ _ _ _ _ _ _ hread hread' h h' =>
    alike_of_render hhost hhost' hread hread' h h', ?_⟩
  intro c c' negate full full' text s s' t t' hscope h h'
  obtain ⟨shown, u, hshown, hsentence⟩ := Condition.render_of_describe h
  obtain ⟨shown', u', hshown', hsentence'⟩ := Condition.render_of_describe h'
  rw [← hscope] at hsentence'
  obtain ⟨before, hbefore⟩ := Phrase.exists_before_condition c.scope negate
  have hsame : shown = shown' := by
    have heq := (hhost.eq_of_phrase hsentence).symm.trans (hhost'.eq_of_phrase hsentence')
    have hchars := congrArg String.toList heq
    rw [hbefore, hbefore] at hchars
    exact String.toList_inj.mp (List.append_cancel_left hchars)
  subst hsame
  obtain ⟨ls, ls', hls, hls', halike⟩ :=
    alike_of_render hhost hhost' c.reads c'.reads hshown hshown'
  exact ⟨ls, ls', u, u', hls, hls', halike⟩

end Rendering

end

namespace Rendering

/-- A host in English where every section has a name that looks like markup, and a user has
completed those with an odd number. -/
def lookalikes : Answers where
  completed id _ := .ok (id.number % 2 == 1)
  sectionName _ := .ok "</span> OR <b>"
  phrase := Catalog.english.lookup
  newId _ _ _ := .ok none
  dependency := .installed
  time := 0

theorem lookalikes_english : lookalikes.host.English :=
  fun owner name args j => ⟨_, Answers.reply_eq _ (lookalikes.phrase owner name args) j⟩

/-- What is found for `01v!2` and for `3 v ! 04`. -/
def foundAlike : List Segment :=
  [.atom true "</span> OR <b>", .between "OR", .before "NOT", .atom false "</span> OR <b>"]

/-- Two texts with other ids, blanks and zeros show the same, and their tokens are of one kind. -/
theorem alike_of_same_text_of_lookalikes :
    ∃ (c c' : Condition) (ls ls' : List Lexeme) (text : String) (j j' k k' : Journal),
      c.formula = "01v!2" ∧ c'.formula = "3 v ! 04" ∧
      render lookalikes.host ⟨7⟩ c.limits c.formula .empty = .ok (markup foundAlike) j ∧
      render lookalikes.host ⟨8⟩ c'.limits c'.formula .empty = .ok (markup foundAlike) j' ∧
      Alike lookalikes.host lookalikes.host ⟨7⟩ ⟨8⟩ ls ls' .empty j .empty j' ∧
      c.describe lookalikes.host ⟨7⟩ false true .empty = .ok text k ∧
      c'.describe lookalikes.host ⟨8⟩ false false .empty = .ok text k' ∧
      ∃ u u', Alike lookalikes.host lookalikes.host ⟨7⟩ ⟨8⟩ ls ls' .empty u .empty u' := by
  have hread : Formula.parse ⟨9, 2⟩ "01v!2" = .ok (.disj [.atom ⟨1⟩, .neg (.atom ⟨2⟩)]) := by cbv
  have hread' : Formula.parse ⟨9, 2⟩ "3 v ! 04" =
      .ok (.disj [.atom ⟨3⟩, .neg (.atom ⟨4⟩)]) := by cbv
  have hls : lexemes ⟨9, 2⟩ "01v!2" = .ok [⟨.atom ⟨1⟩, ['0', '1'], 0⟩, ⟨.or, ['v'], 2⟩,
      ⟨.not, ['!'], 3⟩, ⟨.atom ⟨2⟩, ['2'], 4⟩] := by cbv
  have hls' : lexemes ⟨9, 2⟩ "3 v ! 04" = .ok [⟨.atom ⟨3⟩, ['3'], 0⟩, ⟨.or, ['v'], 2⟩,
      ⟨.not, ['!'], 4⟩, ⟨.atom ⟨4⟩, ['0', '4'], 6⟩] := by cbv
  obtain ⟨j, hfound⟩ : ∃ j, segments lookalikes.host ⟨7⟩ ⟨9, 2⟩ "01v!2" .empty =
      .ok foundAlike j := by
    unfold segments
    rw [hls]
    exact ⟨_, rfl⟩
  obtain ⟨j', hfound'⟩ : ∃ j, segments lookalikes.host ⟨8⟩ ⟨9, 2⟩ "3 v ! 04" .empty =
      .ok foundAlike j := by
    unfold segments
    rw [hls']
    exact ⟨_, rfl⟩
  have h : render lookalikes.host ⟨7⟩ ⟨9, 2⟩ "01v!2" .empty = .ok (markup foundAlike) j :=
    map_eq_ok_iff.mpr ⟨_, hfound, rfl⟩
  have h' : render lookalikes.host ⟨8⟩ ⟨9, 2⟩ "3 v ! 04" .empty = .ok (markup foundAlike) j' :=
    map_eq_ok_iff.mpr ⟨_, hfound', rfl⟩
  have hdescribe : ∀ (c : Condition) (user : UserId) (full : Bool) (j : Journal),
      c.scope = .courseSection →
      render lookalikes.host user c.limits c.formula .empty = .ok (markup foundAlike) j →
      ∃ k, c.describe lookalikes.host user false full .empty = .ok (Template.substitute
        (Phrase.required .courseSection false).english [("condition", markup foundAlike)]) k := by
    intro c user full j hscope hrender
    refine ⟨j.call (.phrase component (Phrase.required .courseSection false).name
      ["condition"]), ?_⟩
    unfold Condition.describe
    simp only [hrender, hscope]
    simp only [lookalikes, Answers.host, Catalog.lookup_english, Answers.reply, List.map_cons,
      List.map_nil]
  let c : Condition := ⟨.courseSection, "01v!2", _, ⟨9, 2⟩, hread⟩
  let c' : Condition := ⟨.courseSection, "3 v ! 04", _, ⟨9, 2⟩, hread'⟩
  obtain ⟨k, hk⟩ := hdescribe c ⟨7⟩ true j rfl h
  obtain ⟨k', hk'⟩ := hdescribe c' ⟨8⟩ false j' rfl h'
  have key := alike_of_same_text lookalikes_english lookalikes_english ⟨7⟩ ⟨8⟩
  obtain ⟨ls, ls', hls, hls', halike⟩ := key.1 _ _ _ _ _ _ _ _ _ _ _ _ _ hread hread' h h'
  obtain ⟨ms, ms', u, u', hms, hms', halike'⟩ := key.2 c c' _ _ _ _ _ _ _ _ rfl hk hk'
  obtain rfl : ls = ms := Except.ok.inj (hls.symm.trans hms)
  obtain rfl : ls' = ms' := Except.ok.inj (hls'.symm.trans hms')
  exact ⟨c, c', ls, ls', _, j, j', k, k', rfl, rfl, h, h', halike, hk, hk', u, u', halike'⟩

end Rendering

end Prerequisite
