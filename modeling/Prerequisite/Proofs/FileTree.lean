/-
Writing one file of a tree.

Putting a file somewhere changes what is there and nothing else (`get?_put`).  A path that led to
the place before leads to the file now (`follow_put`): all that it passes on the way are
directories, and a file can only be its end.  So once a file has been opened it is found again under
its path, whatever is written to it.
-/
import Prerequisite.FileTree

namespace Prerequisite.FileTree

variable {t : FileTree} {l : Location}

/-! ### What is where -/

theorem lookup_putEntry (l l' : Location) (e : Entry) (xs : List (Location × Entry)) :
    (putEntry l e xs).lookup l' = if l' = l then some e else xs.lookup l' := by
  induction xs with
  | nil => by_cases h : l' = l <;> simp [putEntry, h]
  | cons x xs ih =>
      obtain ⟨k, d⟩ := x
      by_cases h : l' = k
      · subst h
        by_cases hk : l' = l <;> simp [putEntry, hk]
      · have hskip : ∀ (d : Entry) ys, ((k, d) :: ys).lookup l' = ys.lookup l' := by
          intro d ys
          rw [List.lookup_cons, beq_eq_false_iff_ne.mpr h]
        by_cases hk : k = l
        · subst hk
          rw [putEntry, if_pos rfl, hskip, hskip, if_neg h]
        · rw [putEntry, if_neg hk, hskip, hskip, ih]

/-- **An entry that is put somewhere is there,** and everything else is as it was. -/
theorem get?_put (hl : l ≠ []) (e : Entry) (l' : Location) :
    (t.put l e).get? l' = if l' = l then some e else t.get? l' := by
  cases l' with
  | nil => rw [if_neg fun h => hl h.symm]; rfl
  | cons n l' => exact lookup_putEntry l (n :: l') e t.entries

/-! ### Following a path -/

/-- Where a place is. -/
def Place.location : Place → Location
  | .taken l _ | .free l => l

/-- What is at a place. -/
def Place.entry? : Place → Option Entry
  | .taken _ e => some e
  | .free _ => none

/-- A location and all on the way to it are directories. -/
def Passable (t : FileTree) (l : Location) : Prop :=
  ∀ l', l' <+: l → t.get? l' = some .directory

theorem passable_nil (t : FileTree) : t.Passable [] := by
  intro l' h
  rw [List.prefix_nil.mp h]
  rfl

theorem Passable.dropLast (h : t.Passable l) : t.Passable l.dropLast :=
  fun l' hl' => h l' (hl'.trans (List.dropLast_prefix l))

theorem Passable.concat (h : t.Passable l) {name : String}
    (hname : t.get? (l ++ [name]) = some .directory) : t.Passable (l ++ [name]) := by
  intro l' hl'
  rcases List.prefix_concat_iff.mp hl' with rfl | hl'
  · exact hname
  · exact h l' hl'

/-- **Where a part of a path leads from a directory.**  It leads to a directory, and does so in
every tree that has the directories of this one; or it leads to something else by its name. -/
theorem step_cases (hl : t.Passable l) {part : List Char} {p : Place}
    (h : t.step (.taken l .directory) part = some p) :
    (∃ l', p = .taken l' .directory ∧ t.Passable l' ∧ ∀ t' : FileTree,
      (∀ k, t.get? k = some .directory → t'.get? k = some .directory) →
      t'.step (.taken l .directory) part = some p) ∨
    t.get? p.location = p.entry? ∧ p.entry? ≠ some .directory ∧
      ∀ (t' : FileTree) (e : Entry), t'.get? p.location = some e →
        t'.step (.taken l .directory) part = some (.taken p.location e) := by
  unfold step at h ⊢
  by_cases hstay : part = [] ∨ part = ['.']
  · simp only [if_pos hstay] at h ⊢
    obtain rfl := Option.some.inj h
    exact .inl ⟨l, rfl, hl, fun _ _ => rfl⟩
  · simp only [if_neg hstay] at h ⊢
    by_cases hback : part = ['.', '.']
    · simp only [if_pos hback] at h ⊢
      cases l with
      | nil => exact absurd h (by simp)
      | cons n l =>
          obtain rfl := Option.some.inj h
          exact .inl ⟨_, rfl, hl.dropLast, fun _ _ => rfl⟩
    · simp only [if_neg hback] at h ⊢
      by_cases hlong : Path.maxPartBytes < Text.byteSize part
      · simp [if_pos hlong] at h
      · simp only [if_neg hlong] at h ⊢
        cases hget : t.get? (l ++ [String.ofList part]) with
        | none =>
            rw [hget] at h
            obtain rfl := Option.some.inj h
            refine .inr ⟨hget, by simp [Place.entry?], ?_⟩
            intro t' e he
            rw [Place.location] at he
            simp only [he, Place.location]
        | some e =>
            rw [hget] at h
            obtain rfl := Option.some.inj h
            cases e with
            | directory =>
                refine .inl ⟨_, rfl, hl.concat hget, ?_⟩
                intro t' ht'
                simp only [ht' _ hget]
            | file content =>
                refine .inr ⟨hget, by simp [Place.entry?], ?_⟩
                intro t' e he
                rw [Place.location] at he
                simp only [he, Place.location]

theorem step_of_not_directory {p : Place} (h : p.entry? ≠ some .directory) (part : List Char) :
    t.step p part = none := by
  cases p with
  | free l => rfl
  | taken l e =>
      cases e with
      | file content => rfl
      | directory => exact absurd rfl h

/-- What a path says is at its end is there. -/
theorem get?_of_foldlM {parts : List (List Char)} {p : Place} : ∀ {l : Location}, t.Passable l →
    parts.foldlM t.step (.taken l .directory) = some p → t.get? p.location = p.entry? := by
  induction parts with
  | nil =>
      intro l hl h
      obtain rfl := Option.some.inj h
      exact hl l (List.prefix_refl l)
  | cons part parts ih =>
      intro l hl h
      rw [List.foldlM_cons] at h
      obtain ⟨q, hq, hrest⟩ := Option.bind_eq_some_iff.mp h
      rcases step_cases hl hq with ⟨l', rfl, hl', -⟩ | ⟨hget, hend, -⟩
      · exact ih hl' hrest
      · cases parts with
        | nil =>
            obtain rfl := Option.some.inj hrest
            exact hget
        | cons part' parts =>
            rw [List.foldlM_cons, step_of_not_directory hend] at hrest
            exact absurd hrest (by simp)

/-- A path that leads to something else than a directory leads to what is put there. -/
theorem foldlM_put {parts : List (List Char)} {p : Place} (hp : p.entry? ≠ some .directory)
    (e : Entry) : ∀ {l : Location}, t.Passable l →
    parts.foldlM t.step (.taken l .directory) = some p →
    parts.foldlM (t.put p.location e).step (.taken l .directory) = some (.taken p.location e) := by
  induction parts with
  | nil =>
      intro l hl h
      obtain rfl := Option.some.inj h
      exact absurd rfl hp
  | cons part parts ih =>
      intro l hl h
      have hget := get?_of_foldlM hl h
      have hne : p.location ≠ [] := by
        intro hnil
        rw [hnil] at hget
        exact hp hget.symm
      rw [List.foldlM_cons] at h ⊢
      obtain ⟨q, hq, hrest⟩ := Option.bind_eq_some_iff.mp h
      rcases step_cases hl hq with ⟨l', rfl, hl', hsame⟩ | ⟨-, hend, hleads⟩
      · -- The directories on the way are where they were, for none of them is where the entry is.
        rw [hsame (t.put p.location e) ?_]
        · exact ih hl' hrest
        · intro k hk
          rw [get?_put hne, if_neg]
          · exact hk
          · rintro rfl
            exact hp (hget.symm.trans hk)
      · cases parts with
        | nil =>
            obtain rfl := Option.some.inj hrest
            rw [hleads (t.put q.location e) e (by rw [get?_put hne, if_pos rfl])]
            rfl
        | cons part' parts =>
            rw [List.foldlM_cons, step_of_not_directory hend] at hrest
            exact absurd hrest (by simp)

theorem get?_of_follow {path : String} {p : Place} (h : t.follow path = some p) :
    t.get? p.location = p.entry? := by
  unfold follow at h
  split at h
  · exact get?_of_foldlM (passable_nil t) h
  · exact absurd h (by simp)

/-- **A path leads to what is put where it leads,** if no directory was there. -/
theorem follow_put {path : String} {p : Place} (h : t.follow path = some p)
    (hp : p.entry? ≠ some .directory) (e : Entry) :
    (t.put p.location e).follow path = some (.taken p.location e) := by
  unfold follow at h ⊢
  split at h
  · rename_i hpath
    rw [if_pos hpath]
    exact foldlM_put hp e (passable_nil t) h
  · exact absurd h (by simp)

end Prerequisite.FileTree
