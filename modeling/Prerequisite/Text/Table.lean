/-
Tables of texts.

A table holds texts by name, each name once, and lists them with ascending names.  The order is part
of the type: whoever goes through a table meets the names in that order.
-/
namespace Prerequisite

/-- A list of entries in ascending order of their names. -/
abbrev Ascending (entries : List (String × String)) : Prop :=
  entries.Pairwise fun a b => a.1 < b.1

/-- Texts by name. -/
structure Table where
  /-- The names with their texts. -/
  entries : List (String × String)
  /-- The names ascend, so none occurs twice. -/
  ascending : Ascending entries := by exact .nil
  deriving DecidableEq

namespace Table

/-- The table without entries. -/
def empty : Table := ⟨[], .nil⟩

/-- The text under a name. -/
def get? (t : Table) (name : String) : Option String := t.entries.lookup name

/-- Puts an entry where its name belongs, in the place of one with the same name. -/
def insertEntry (name text : String) : List (String × String) → List (String × String)
  | [] => [(name, text)]
  | e :: es =>
      if name < e.1 then (name, text) :: e :: es
      else if name = e.1 then (name, text) :: es
      else e :: insertEntry name text es

theorem mem_insertEntry {name text : String} {entries : List (String × String)}
    {e : String × String} (h : e ∈ insertEntry name text entries) :
    e = (name, text) ∨ e ∈ entries := by
  induction entries with
  | nil => simpa [insertEntry] using h
  | cons d ds ih =>
    unfold insertEntry at h
    split at h
    · simpa using h
    · split at h
      · rcases List.mem_cons.1 h with h | h
        · exact Or.inl h
        · exact Or.inr (List.mem_cons_of_mem _ h)
      · rcases List.mem_cons.1 h with h | h
        · exact Or.inr (h ▸ List.mem_cons_self)
        · exact (ih h).imp id (List.mem_cons_of_mem _)

private theorem lt_of_not_lt_of_ne {a b : String} (h : ¬a < b) (hne : ¬a = b) : b < a := by
  rcases String.le_total a b with hle | hle
  · by_cases hlt : b < a
    · exact hlt
    · exact absurd (String.le_antisymm hle (String.not_lt.1 h)) hne
  · by_cases hlt : b < a
    · exact hlt
    · exact absurd (String.le_antisymm (String.not_lt.1 hlt) hle) hne

theorem ascending_insertEntry {name text : String} {entries : List (String × String)}
    (h : Ascending entries) : Ascending (insertEntry name text entries) := by
  induction entries with
  | nil => exact .cons (by simp) .nil
  | cons e es ih =>
    rw [Ascending, List.pairwise_cons] at h
    unfold insertEntry
    split
    · next hlt =>
      refine .cons (fun d hd => ?_) (.cons h.1 h.2)
      rcases List.mem_cons.1 hd with rfl | hd
      · exact hlt
      · exact String.lt_trans hlt (h.1 d hd)
    · next hge =>
      split
      · next heq => exact .cons (fun d hd => heq ▸ h.1 d hd) h.2
      · next hne =>
        refine .cons (fun d hd => ?_) (ih h.2)
        rcases mem_insertEntry hd with rfl | hd
        · exact lt_of_not_lt_of_ne hge hne
        · exact h.1 d hd

/-- **The table with one more entry,** which replaces an entry of the same name. -/
def insert (t : Table) (name text : String) : Table :=
  ⟨insertEntry name text t.entries, ascending_insertEntry t.ascending⟩

/-- The table of some entries; of several with one name the last counts. -/
def ofList (entries : List (String × String)) : Table :=
  entries.foldl (fun t e => t.insert e.1 e.2) empty

theorem lookup_cons (name : String) (e : String × String) (es : List (String × String)) :
    List.lookup name (e :: es) = if name = e.1 then some e.2 else List.lookup name es := by
  obtain ⟨key, text⟩ := e
  rw [List.lookup_cons]
  by_cases h : name = key
  · rw [beq_iff_eq.2 h, if_pos h]
  · rw [beq_false_of_ne h, if_neg h]

/-- **What was put in is found, and nothing else changes.** -/
theorem get?_insert (t : Table) (name text other : String) :
    (t.insert name text).get? other = if other = name then some text else t.get? other := by
  suffices h : ∀ entries : List (String × String),
      (insertEntry name text entries).lookup other =
        if other = name then some text else entries.lookup other from h t.entries
  intro entries
  induction entries with
  | nil => rw [insertEntry, lookup_cons]
  | cons e es ih =>
    unfold insertEntry
    split
    · rw [lookup_cons]
    · split
      · next heq =>
        rw [lookup_cons, lookup_cons, ← heq]
        split <;> simp_all
      · next hne =>
        rw [lookup_cons, lookup_cons, ih]
        by_cases ho : other = e.1
        · have : ¬other = name := fun h => hne (h ▸ ho)
          simp [ho, Ne.symm hne]
        · simp [ho]

end Table

end Prerequisite
