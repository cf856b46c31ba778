/-
Rearranged formulas.

The operands of a chain can be written in another order, twice, or as chains of their own; groups
and pairs of negations come and go; and a negation moves into a chain, which turns into one of the
other operator.  `Rearranges` is one such change, and formulas are `Rearranged` into each other by
any number of them, at any places and in both directions.

None of this changes what a formula says (`Rearranged.value_eq`).  It does change which sections are
asked about and in which order, so where some of them fail, one formula may be decided and the other
not.  But a decision is the value under every assignment that agrees with the answers, and one
assignment agrees with all answers of a resolver at once.  So there are never two decisions.
-/
import Mathlib.Logic.Relation
import Prerequisite.Proofs.Formula.Resolving

namespace Prerequisite

/-- The operator that a chain has when a negation has moved into it. -/
def Operator.dual : Operator → Operator
  | .and => .or
  | .or => .and

theorem Operator.decisive_dual (op : Operator) : op.dual.decisive = !op.decisive := by
  cases op <;> rfl

namespace Formula

/-! ### Rearranging -/

/-- **A formula as a whole is rearranged into another one.** -/
inductive Rearranges : Formula → Formula → Prop
  | permute (op : Operator) {fs gs : List Formula} (h : fs.Perm gs) :
      Rearranges (op.node fs) (op.node gs)
  | duplicate {op : Operator} {before after : List Formula} {f : Formula} :
      Rearranges (op.node (before ++ f :: after)) (op.node (before ++ f :: f :: after))
  /-- The operands of a chain take its place in a chain of the same operator. -/
  | flatten {op : Operator} {before fs after : List Formula} :
      Rearranges (op.node (before ++ op.node fs :: after)) (op.node (before ++ fs ++ after))
  | ungroup {f : Formula} : Rearranges (.group f) f
  | doubleNegation {f : Formula} : Rearranges (.neg (.neg f)) f
  | deMorgan (op : Operator) {fs : List Formula} :
      Rearranges (.neg (op.node fs)) (op.dual.node (fs.map .neg))

/-- A formula is rearranged somewhere inside. -/
inductive RearrangesInside : Formula → Formula → Prop
  | place (around : Surroundings) {f g : Formula} (h : Rearranges f g) :
      RearrangesInside (around.fill f) (around.fill g)

/-- **Two formulas are rearranged into each other,** step by step and in either direction. -/
def Rearranged : Formula → Formula → Prop := Relation.EqvGen RearrangesInside

/-- What a single change keeps at any place is kept by any number of them. -/
theorem Rearranged.keeps {f g : Formula} (h : Rearranged f g) {E : Formula → Formula → Prop}
    (hE : Equivalence E)
    (hstep : ∀ (around : Surroundings) f g, Rearranges f g → E (around.fill f) (around.fill g)) :
    E f g := by
  refine hE.eqvGen_iff.mp (h.mono ?_)
  rintro _ _ ⟨around, h⟩
  exact hstep around _ _ h

/-! ### Values -/

/-- Chains of the same operands have the same value. -/
theorem value_node_of_mem_iff (op : Operator) (holds : SectionId → Bool) {fs gs : List Formula}
    (h : ∀ f, f ∈ fs ↔ f ∈ gs) : (op.node fs).value holds = (op.node gs).value holds := by
  apply value_eq_of_decisive_iff op
  rw [value_node_eq_decisive_iff, value_node_eq_decisive_iff]
  simp only [h]

theorem Rearranges.value_eq {f g : Formula} (h : Rearranges f g) (holds : SectionId → Bool) :
    f.value holds = g.value holds := by
  cases h with
  | permute op h => exact value_node_of_mem_iff _ holds fun f => h.mem_iff
  | duplicate => exact value_node_of_mem_iff _ holds fun f => by simp
  | @flatten op before fs after =>
      apply value_eq_of_decisive_iff op
      rw [value_node_eq_decisive_iff, value_node_eq_decisive_iff]
      simp only [List.mem_append, List.mem_cons, or_and_right, exists_or, exists_eq_left,
        value_node_eq_decisive_iff, or_assoc]
  | ungroup => rw [value]
  | doubleNegation => rw [value, value, Bool.not_not]
  | deMorgan op =>
      apply value_eq_of_decisive_iff op.dual
      rw [value_node_eq_decisive_iff, Operator.decisive_dual, value, Bool.not_inj_iff,
        value_node_eq_decisive_iff]
      simp only [List.mem_map, exists_exists_and_eq_and, value, Bool.not_inj_iff]

theorem Surroundings.value_fill {f g : Formula} {holds : SectionId → Bool}
    (h : f.value holds = g.value holds) (around : Surroundings) :
    (around.fill f).value holds = (around.fill g).value holds := by
  induction around with
  | here => exact h
  | chain op before around after ih =>
      apply value_eq_of_decisive_iff op
      rw [fill, fill, value_node_eq_decisive_iff, value_node_eq_decisive_iff]
      simp only [List.mem_append, List.mem_cons, or_and_right, exists_or, exists_eq_left, ih]
  | neg around ih => rw [fill, fill, value, value, ih]
  | group around ih => rw [fill, fill, value, value, ih]

/-- **Rearranging does not change what a formula says.** -/
theorem Rearranged.value_eq {f g : Formula} (h : Rearranged f g) (holds : SectionId → Bool) :
    f.value holds = g.value holds := by
  have hsame : Equivalence fun f g : Formula => f.value holds = g.value holds :=
    ⟨fun _ => rfl, Eq.symm, Eq.trans⟩
  exact h.keeps hsame fun around _ _ h => around.value_fill (h.value_eq holds)

/-! ### Sections -/

theorem Rearranges.mem_atoms {f g : Formula} (h : Rearranges f g) (id : SectionId) :
    id ∈ f.atoms ↔ id ∈ g.atoms := by
  cases h with
  | permute op h => simp only [atoms_node, List.mem_flatMap, h.mem_iff]
  | duplicate => simp
  | flatten => simp
  | ungroup | doubleNegation => rfl
  | deMorgan => simp [List.mem_flatMap]

theorem Surroundings.mem_atoms_fill {f g : Formula} {id : SectionId}
    (h : id ∈ f.atoms ↔ id ∈ g.atoms) (around : Surroundings) :
    id ∈ (around.fill f).atoms ↔ id ∈ (around.fill g).atoms := by
  induction around with
  | here => exact h
  | chain op before around after ih => simp [fill, ih]
  | neg around ih | group around ih => exact ih

/-- Rearranged formulas have the same sections. -/
theorem Rearranged.mem_atoms {f g : Formula} (h : Rearranged f g) (id : SectionId) :
    id ∈ f.atoms ↔ id ∈ g.atoms := by
  have hsame : Equivalence fun f g : Formula => id ∈ f.atoms ↔ id ∈ g.atoms :=
    ⟨fun _ => .rfl, Iff.symm, Iff.trans⟩
  exact h.keeps hsame fun around _ _ h => around.mem_atoms_fill (h.mem_atoms id)

/-! ### Decisions -/

section

variable {ε : Type} {r : Resolver ε} {user : UserId}

/-- The assignment that agrees with all answers of a resolver; failures count as no. -/
def answered (r : Resolver ε) (user : UserId) (id : SectionId) : Bool :=
  match r id user with
  | .ok b => b
  | .error _ => false

theorem eq_ok_answered {id : SectionId} (h : ∃ b, r id user = .ok b) :
    r id user = .ok (answered r user id) := by
  obtain ⟨b, hb⟩ := h
  rw [answered, hb]

/-- **A decision is the value under the assignment that agrees with the resolver,** even if there
are sections for which it fails. -/
theorem value_of_evaluate {f : Formula} {b : Bool} {asked : Array (SectionId × UserId)}
    (h : r.evaluate user f = .ok b asked) : f.value (answered r user) = b := by
  obtain ⟨os, x, t, hdec, hasks, heval⟩ := eval_decides r.ask user f #[]
  obtain ⟨rfl, -⟩ := answering_eq_ok.mp (heval.symm.trans h)
  obtain ⟨hanswers, -⟩ := asks_of_notes (notes_ask r user) hasks
  refine hdec.value_eq fun q hq => ?_
  obtain ⟨a, ha⟩ := hdec.concluded.answered_of_ok q hq
  rw [hanswers q hq]
  exact eq_ok_answered ⟨a, by rw [← ha, hanswers q hq]⟩

theorem evaluate_of_answered {f : Formula} (h : ∀ id ∈ f.atoms, ∃ b, r id user = .ok b) :
    ∃ asked, r.evaluate user f = .ok (f.value (answered r user)) asked := by
  obtain ⟨_, asked, -, -, heval⟩ :=
    eval_of_holds (notes_ask r user) (fun id hid => eq_ok_answered (h id hid)) #[]
  exact ⟨asked, heval⟩

/-- **Two formulas are decided alike** by a resolver, which may fail for some sections. -/
structure DecidedAlike (r : Resolver ε) (user : UserId) (f g : Formula) : Prop where
  /-- There are never two different decisions. -/
  agree : ∀ {b b' : Bool} {asked asked' : Array (SectionId × UserId)},
    r.evaluate user f = .ok b asked → r.evaluate user g = .ok b' asked' → b = b'
  /-- Both are decided if the resolver answers for all of their sections. -/
  decided : (∀ id ∈ f.atoms ++ g.atoms, ∃ b, r id user = .ok b) →
    ∃ b asked asked', r.evaluate user f = .ok b asked ∧ r.evaluate user g = .ok b asked'

/-- Formulas with the same values are decided alike. -/
theorem decidedAlike_of_value_eq {f g : Formula}
    (h : ∀ holds : SectionId → Bool, f.value holds = g.value holds) :
    DecidedAlike r user f g := by
  refine ⟨?_, ?_⟩
  · intro b b' asked asked' hf hg
    rw [← value_of_evaluate hf, ← value_of_evaluate hg]
    exact h _
  · intro hanswers
    obtain ⟨hf, hg⟩ := List.forall_mem_append.mp hanswers
    obtain ⟨asked, heval⟩ := evaluate_of_answered hf
    obtain ⟨asked', heval'⟩ := evaluate_of_answered hg
    rw [← h] at heval'
    exact ⟨_, asked, asked', heval, heval'⟩

end

/--
**Rearranged formulas are never decided differently.**

They have the same sections and are decided alike, whatever the resolver and the user.  Where the
resolver fails for some sections, it can happen that only one of them is decided.
-/
theorem rearranged_decided_alike :
    (∀ f g : Formula, Rearranged f g → (∀ id, id ∈ f.atoms ↔ id ∈ g.atoms) ∧
      ∀ (ε : Type) (r : Resolver ε) (user : UserId), DecidedAlike r user f g) ∧
    ∃ (f g : Formula) (r : Resolver Unit) (user : UserId), Rearranged f g ∧
      ∃ b asked asked', r.evaluate user f = .ok b asked ∧ r.evaluate user g = .error () asked' := by
  refine ⟨?_, ?_⟩
  · intro f g h
    exact ⟨h.mem_atoms, fun ε r user => decidedAlike_of_value_eq h.value_eq⟩
  · -- The second section fails, and it is not asked about behind the first.
    refine ⟨.disj [.atom ⟨1⟩, .atom ⟨2⟩], .disj [.atom ⟨2⟩, .atom ⟨1⟩],
      fun id _ => if id = ⟨1⟩ then .ok true else .error (), ⟨0⟩, ?_, true, _, _, rfl, rfl⟩
    exact .rel _ _ (.place .here (.permute .or (.swap _ _ _)))

/-- The third section fails, and neither `!(1^(2v3))` nor `!2^!3v!1` comes to it. -/
theorem rearranged_decided_alike_of_failing_section :
    ∃ (f g : Formula) (r : Resolver Unit) (asked asked' : Array (SectionId × UserId)),
      f.print = "!(1^(2v3))" ∧ g.print = "!2^!3v!1" ∧ r ⟨3⟩ ⟨0⟩ = .error () ∧ Rearranged f g ∧
      DecidedAlike r ⟨0⟩ f g ∧
      r.evaluate ⟨0⟩ f = .ok true asked ∧ r.evaluate ⟨0⟩ g = .ok true asked' := by
  have hmoved : Rearranged (.neg (.conj [.atom ⟨1⟩, .group (.disj [.atom ⟨2⟩, .atom ⟨3⟩])]))
      (.disj [.neg (.atom ⟨1⟩), .neg (.group (.disj [.atom ⟨2⟩, .atom ⟨3⟩]))]) :=
    .rel _ _ (.place .here (.deMorgan .and))
  have hungrouped : Rearranged
      (.disj [.neg (.atom ⟨1⟩), .neg (.group (.disj [.atom ⟨2⟩, .atom ⟨3⟩]))])
      (.disj [.neg (.atom ⟨1⟩), .neg (.disj [.atom ⟨2⟩, .atom ⟨3⟩])]) :=
    .rel _ _ (.place (.chain .or [.neg (.atom ⟨1⟩)] (.neg .here) []) .ungroup)
  have hinner : Rearranged (.disj [.neg (.atom ⟨1⟩), .neg (.disj [.atom ⟨2⟩, .atom ⟨3⟩])])
      (.disj [.neg (.atom ⟨1⟩), .conj [.neg (.atom ⟨2⟩), .neg (.atom ⟨3⟩)]]) :=
    .rel _ _ (.place (.chain .or [.neg (.atom ⟨1⟩)] .here []) (.deMorgan .or))
  have hswapped : Rearranged (.disj [.neg (.atom ⟨1⟩), .conj [.neg (.atom ⟨2⟩), .neg (.atom ⟨3⟩)]])
      (.disj [.conj [.neg (.atom ⟨2⟩), .neg (.atom ⟨3⟩)], .neg (.atom ⟨1⟩)]) :=
    .rel _ _ (.place .here (.permute .or (.swap _ _ _)))
  have h := ((hmoved.trans _ _ _ hungrouped).trans _ _ _ hinner).trans _ _ _ hswapped
  let r : Resolver Unit := fun id _ =>
    if id = ⟨1⟩ then .ok false else if id = ⟨2⟩ then .ok true else .error ()
  exact ⟨_, _, r, _, _, by decide, by decide, rfl, h,
    (rearranged_decided_alike.1 _ _ h).2 Unit r ⟨0⟩, rfl, rfl⟩

end Formula

end Prerequisite
