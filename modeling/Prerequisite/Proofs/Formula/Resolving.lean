/-
What a resolver is asked.

A resolver is a function, and it keeps the list of what it was asked.  `Account` says of that list
everything that the rules of short cuts leave: it follows the text, a failure is at its end, and a
value that was come to is the value of the formula whatever the sections are that nobody asked
about.

Which operands were visited shows in the list as well, and only there.  So that an operand is not
visited is said by exchanging it: in whatever surroundings a chain stands, the operands behind one
that decides it can be any others, and both the answer and the list stay what they were.
-/
import Prerequisite.Proofs.Formula.Renaming
import Prerequisite.Proofs.Formula.Shortcut

namespace Prerequisite

namespace Formula

/-! ### Formulas inside of formulas -/

/-- What is around a place in a formula. -/
inductive Surroundings where
  /-- Nothing: the place is the whole formula. -/
  | here
  /-- A chain, with its operands before the place and after it. -/
  | chain (op : Operator) (before : List Formula) (around : Surroundings) (after : List Formula)
  | neg (around : Surroundings)
  | group (around : Surroundings)

/-- **The formula that has another one at a place.** -/
def Surroundings.fill (f : Formula) : Surroundings → Formula
  | .here => f
  | .chain op before around after => op.node (before ++ around.fill f :: after)
  | .neg around => .neg (around.fill f)
  | .group around => .group (around.fill f)

section

variable {ε σ : Type} {resolve : SectionId → UserId → EStateM ε σ Bool} {user : UserId}

theorem evalChain_append_congr (op : Operator) {fs gs : List Formula}
    (h : ∀ s, evalChain resolve user op fs s = evalChain resolve user op gs s)
    (before : List Formula) : ∀ s, evalChain resolve user op (before ++ fs) s =
      evalChain resolve user op (before ++ gs) s := by
  induction before with
  | nil => exact h
  | cons f before ih =>
      intro s
      rw [List.cons_append, List.cons_append, evalChain, evalChain]
      cases f.eval resolve user s with
      | error e s' => rfl
      | ok b s' => simp only [ih]

/-- Formulas that are evaluated alike are so in all surroundings. -/
theorem Surroundings.eval_fill {f g : Formula}
    (h : ∀ s, f.eval resolve user s = g.eval resolve user s) (around : Surroundings) :
    ∀ s, (around.fill f).eval resolve user s = (around.fill g).eval resolve user s := by
  induction around with
  | here => exact h
  | chain op before around after ih =>
      intro s
      rw [fill, fill, eval_node, eval_node]
      refine evalChain_append_congr op (fun s => ?_) before s
      rw [evalChain, evalChain, ih]
  | neg around ih =>
      intro s
      rw [fill, fill, eval, eval, ih]
  | group around ih =>
      intro s
      rw [fill, fill, eval, eval, ih]

end

/-! ### Resolvers -/

section

variable {ε : Type} {r : Resolver ε} {user : UserId}

/-- What a resolver notes while it is asked. -/
theorem notes_ask (r : Resolver ε) (user : UserId) :
    Notes r.ask user (fun id => r id user) Array.toList := by
  intro id s
  refine ⟨s.push (id, user), Array.toList_push, ?_⟩
  show r.ask id user s = answering (r id user) (s.push (id, user))
  unfold Resolver.ask
  cases r id user <;> rfl

/-- A resolver answers the same whatever it was asked before. -/
theorem eval_ask_alike (r : Resolver ε) (user : UserId) (f : Formula)
    (s t : Array (SectionId × UserId)) :
    Alike (fun _ _ => True) (f.eval r.ask user s) (f.eval r.ask user t) := by
  have hask : ∀ x ∈ f.atoms, ∀ s t : Array (SectionId × UserId), True →
      Alike (fun _ _ => True) (r.ask x user s) (r.ask x user t) := by
    intro x _ s t _
    unfold Resolver.ask
    cases r x user with
    | ok b => exact .ok trivial
    | error e => exact .error trivial
  have hstep := eval_rename id f hask s t trivial
  rwa [rename_id] at hstep

/-- Behind an operand that decides a chain there may be any others. -/
theorem evalChain_of_decisive {op : Operator} {f : Formula} {asked : Array (SectionId × UserId)}
    (h : r.evaluate user f = .ok op.decisive asked) (before after after' : List Formula)
    (s : Array (SectionId × UserId)) :
    evalChain r.ask user op (before ++ f :: after) s =
      evalChain r.ask user op (before ++ f :: after') s := by
  refine evalChain_append_congr op (fun s => ?_) before s
  have hsame := eval_ask_alike r user f #[] s
  rw [show f.eval r.ask user #[] = .ok op.decisive asked from h] at hsame
  rw [evalChain, evalChain]
  generalize f.eval r.ask user s = result at hsame
  cases hsame with
  | ok _ => simp only [if_pos]

end

/-- **What came of asking a resolver about these sections,** in this order. -/
structure Account {ε : Type} (r : Resolver ε) (user : UserId) (f : Formula) (ids : List SectionId)
    (x : Except ε Bool) : Prop where
  /-- Sections are asked about in the order they are written. -/
  sublist : ids.Sublist f.atoms
  /-- A failure is the last answer, and those before it were answers. -/
  failure : ∀ e, x = .error e → ∃ before last, ids = before ++ [last] ∧
    r last user = .error e ∧ ∀ id ∈ before, ∃ b, r id user = .ok b
  /-- Of a value all sections were answered. -/
  answered : ∀ b, x = .ok b → ∀ id ∈ ids, ∃ a, r id user = .ok a
  /-- It is the value of the formula whatever else is completed. -/
  value : ∀ b, x = .ok b → ∀ holds : SectionId → Bool,
    (∀ id ∈ ids, r id user = .ok (holds id)) → f.value holds = b
  /-- Nothing behind an operand that decides its chain was visited. -/
  decided : ∀ (around : Surroundings) (op : Operator) (before : List Formula) (g : Formula)
    (after : List Formula), f = around.fill (op.node (before ++ g :: after)) →
    (∃ asked, r.evaluate user g = .ok op.decisive asked) →
    ∀ after', r.evaluate user (around.fill (op.node (before ++ g :: after'))) =
      r.evaluate user f

/--
**Evaluation with short cuts is sound and exact.**

Whatever the tree, the resolver and the user, the resolver is asked about this user only, and about
sections in the order they are written.  A failure is the answer to the last question and ends the
evaluation.  A value is the one that the formula has under every assignment that agrees with the
answers; and the operands behind one that decides its chain are not visited.
-/
theorem evaluate_sound_and_exact {ε : Type} (r : Resolver ε) (user : UserId) (f : Formula) :
    ∃ ids x, r.evaluate user f = answering x (ids.map fun id => (id, user)).toArray ∧
      Account r user f ids x := by
  obtain ⟨os, x, t, hdec, hasks, heval⟩ := eval_decides r.ask user f #[]
  obtain ⟨hanswers, hasked⟩ := asks_of_notes (notes_ask r user) hasks
  have hconcluded := hdec.concluded
  refine ⟨(Occurrence.questions os).map Prod.fst, x, ?_, ?_, ?_, ?_, ?_, ?_⟩
  · have ht : t = (((Occurrence.questions os).map Prod.fst).map fun id => (id, user)).toArray := by
      rw [← hasked.trans (List.nil_append _), Array.toArray_toList]
    rw [← ht]
    exact heval
  · exact hdec.sections ▸ Occurrence.questions_sublist os
  · rintro e rfl
    obtain ⟨before, id, hlast, hbefore⟩ := hconcluded.exists_last
    rw [hlast] at hanswers
    refine ⟨before.map Prod.fst, id, by rw [hlast, List.map_append]; rfl, ?_, ?_⟩
    · exact (hanswers (id, .error e) (by simp)).symm
    · refine List.forall_mem_map.mpr fun q hq => ?_
      obtain ⟨b, hb⟩ := hbefore q hq
      exact ⟨b, by rw [← hb, hanswers q (by simp [hq])]⟩
  · rintro b rfl
    refine List.forall_mem_map.mpr fun q hq => ?_
    obtain ⟨a, ha⟩ := hconcluded.answered_of_ok q hq
    exact ⟨a, by rw [← ha, hanswers q hq]⟩
  · rintro b rfl holds hholds
    refine hdec.value_eq fun q hq => ?_
    rw [hanswers q hq, hholds q.1 (List.mem_map_of_mem hq)]
  · rintro around op before g after rfl ⟨asked, hg⟩ after'
    refine around.eval_fill (fun s => ?_) #[]
    rw [eval_node, eval_node]
    exact evalChain_of_decisive hg before after' after s

end Formula

end Prerequisite
