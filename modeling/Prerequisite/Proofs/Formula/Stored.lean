/-
Stored formulas are read back.

What a formula is stored as is a value that its text says exactly.  The reader of stored forms
accepts no other values: whatever it reads as a formula is the stored form of that formula, of which
there is only one (`ofJson?_eq_some_iff`).  So a text may be spelled in many ways, with blanks or
with escapes, and they all come to the same value.

The reader counts how many objects and arrays it is inside of.  That is the only thing for which it
refuses a stored form, and `Json.nesting` says the same of a value without reading it.
-/
import Prerequisite.Formula.Evaluation
import Prerequisite.Formula.Printer
import Prerequisite.Formula.Serial
import Prerequisite.Proofs.Formula.Tree
import Prerequisite.Proofs.Json.Reading

namespace Prerequisite

namespace Json

mutual

/-- **How deep objects and arrays are nested in a value,** the value itself counted. -/
def nesting : Json → Nat
  | .array items => 1 + nestingItems items
  | .object fields => 1 + nestingFields fields
  | .null | .bool _ | .number _ | .string _ | .void => 0

/-- The greatest nesting among items. -/
def nestingItems : List Json → Nat
  | [] => 0
  | v :: vs => max (nesting v) (nestingItems vs)

/-- The greatest nesting among the values of fields. -/
def nestingFields : List (String × Json) → Nat
  | [] => 0
  | (_, v) :: fs => max (nesting v) (nestingFields fs)

end

theorem nestingItems_le_iff {items : List Json} {k : Nat} :
    nestingItems items ≤ k ↔ ∀ v ∈ items, v.nesting ≤ k := by
  induction items with
  | nil => simp [nestingItems]
  | cons v vs ih => rw [nestingItems, Nat.max_le, ih, List.forall_mem_cons]

theorem nesting_single (name : String) (v : Json) :
    (Json.object [(name, v)]).nesting = v.nesting + 1 := by
  simp only [nesting, nestingFields]
  omega

theorem Plain.single {v : Json} (h : v.Plain) (name : String) :
    (Json.object [(name, v)]).Plain := by
  refine .object ?_
  intro f hf
  rw [List.mem_singleton.mp hf]
  exact h

/-- A number of 64 bits is read from no value but itself. -/
theorem word?_eq_some_iff {v : Json} {n : UInt64} : v.word? = some n ↔ v = .nat n.toNat := by
  constructor
  · intro h
    unfold word? at h
    split at h
    · rename_i m
      by_cases hm : 0 ≤ m ∧ m < UInt64.size
      · rw [if_pos hm] at h
        have hlt : m.toNat < UInt64.size := by omega
        rw [← Option.some.inj h, UInt64.toNat_ofNat_of_lt' hlt, nat, Int.toNat_of_nonneg hm.1]
      · rw [if_neg hm] at h
        exact absurd h (by simp)
    · exact absurd h (by simp)
  · intro h
    have hlt := n.toNat_lt_size
    have hrange : (0 : Int) ≤ n.toNat ∧ (n.toNat : Int) < UInt64.size := by omega
    rw [h, nat, word?, if_pos hrange, Int.toNat_natCast, UInt64.ofNat_toNat]

end Json

namespace Formula

/-! ### Stored forms -/

private theorem toJsonAll_eq (fs : List Formula) : ∀ done : Array Json,
    toJsonAll done fs = done.toList ++ fs.map toJson := by
  induction fs with
  | nil => intro done; simp [toJsonAll]
  | cons f fs ih => intro done; rw [toJsonAll, ih]; simp

/-- The name that chains of an operator are stored under. -/
def storedName : Operator → String
  | .and => "And"
  | .or => "Or"

theorem toJson_node (op : Operator) (fs : List Formula) :
    (op.node fs).toJson = .object [(storedName op, .array (fs.map toJson))] := by
  have hall := toJsonAll_eq fs #[]
  rw [List.nil_append] at hall
  cases op <;> simp only [Operator.node, toJson, hall, storedName]

/-- **The text of a stored form says it exactly.** -/
theorem plain_toJson (f : Formula) : f.toJson.Plain := by
  induction f using induct with
  | atom id =>
      have hlt := id.number.toNat_lt_size
      exact Json.Plain.single (.whole (by omega) (by omega)) "Atom"
  | node op fs ih =>
      rw [toJson_node]
      refine Json.Plain.single (.array ?_) (storedName op)
      intro v hv
      obtain ⟨f, hf, rfl⟩ := List.mem_map.mp hv
      exact ih f hf
  | neg f ih => exact ih.single "Not"
  | group f ih => exact ih.single "Group"

/-! ### What the reader accepts

The three readers call each other as values, their operands and lists of these do, and so do the
three statements that what they have read is a stored form.
-/

mutual

private theorem of_ofJson? : ∀ (v : Json) {room : Nat} {f : Formula}, ofJson? room v = some f →
    v = f.toJson ∧ v.nesting ≤ room
  | .object [(name, v)], 0, f, h => by simp [ofJson?] at h
  | .object [(name, v)], room + 1, f, h => by
      rw [Json.nesting_single]
      rw [ofJson?] at h
      by_cases hatom : name = "Atom"
      · rw [if_pos hatom] at h
        obtain ⟨n, hn, rfl⟩ := Option.map_eq_some_iff.mp h
        rw [hatom, Json.word?_eq_some_iff.mp hn]
        exact ⟨rfl, Nat.succ_le_succ (Nat.zero_le room)⟩
      rw [if_neg hatom] at h
      by_cases hnot : name = "Not"
      · rw [if_pos hnot] at h
        obtain ⟨g, hg, rfl⟩ := Option.map_eq_some_iff.mp h
        obtain ⟨hv, hnesting⟩ := of_ofJson? v hg
        exact ⟨by rw [hnot, toJson, hv], Nat.succ_le_succ hnesting⟩
      rw [if_neg hnot] at h
      by_cases hgroup : name = "Group"
      · rw [if_pos hgroup] at h
        obtain ⟨g, hg, rfl⟩ := Option.map_eq_some_iff.mp h
        obtain ⟨hv, hnesting⟩ := of_ofJson? v hg
        exact ⟨by rw [hgroup, toJson, hv], Nat.succ_le_succ hnesting⟩
      rw [if_neg hgroup] at h
      by_cases hand : name = "And"
      · rw [if_pos hand] at h
        obtain ⟨fs, hfs, rfl⟩ := Option.map_eq_some_iff.mp h
        obtain ⟨hv, hnesting⟩ := of_ofItems? v hfs
        rw [hand, hv]
        exact ⟨(toJson_node .and fs).symm, Nat.succ_le_succ (hv ▸ hnesting)⟩
      rw [if_neg hand] at h
      by_cases hor : name = "Or"
      · rw [if_pos hor] at h
        obtain ⟨fs, hfs, rfl⟩ := Option.map_eq_some_iff.mp h
        obtain ⟨hv, hnesting⟩ := of_ofItems? v hfs
        rw [hor, hv]
        exact ⟨(toJson_node .or fs).symm, Nat.succ_le_succ (hv ▸ hnesting)⟩
      rw [if_neg hor] at h
      exact absurd h (by simp)
  | .object [], _, _, h | .object (_ :: _ :: _), _, _, h | .array _, _, _, h | .null, _, _, h
  | .bool _, _, _, h | .number _, _, _, h | .string _, _, _, h | .void, _, _, h => by
      simp [ofJson?] at h

private theorem of_ofItems? : ∀ (v : Json) {room : Nat} {fs : List Formula},
    ofItems? room v = some fs → v = .array (fs.map toJson) ∧ v.nesting ≤ room
  | .array items, 0, _, h => by simp [ofItems?] at h
  | .array items, room + 1, fs, h => by
      rw [ofItems?] at h
      obtain ⟨hitems, hnesting⟩ := of_ofList? items h
      have hle := Json.nestingItems_le_iff.mpr hnesting
      rw [Json.nesting]
      exact ⟨congrArg Json.array hitems, by omega⟩
  | .object _, _, _, h | .null, _, _, h | .bool _, _, _, h | .number _, _, _, h
  | .string _, _, _, h | .void, _, _, h => by simp [ofItems?] at h

private theorem of_ofList? : ∀ (vs : List Json) {room : Nat} {done : Array Formula}
    {fs : List Formula}, ofList? room done vs = some fs →
      done.toList.map toJson ++ vs = fs.map toJson ∧ ∀ v ∈ vs, v.nesting ≤ room
  | [], room, done, fs, h => by
      rw [ofList?] at h
      rw [← Option.some.inj h]
      simp
  | v :: vs, room, done, fs, h => by
      rw [ofList?] at h
      cases hf : ofJson? room v with
      | none => rw [hf] at h; exact absurd h (by simp)
      | some f =>
          rw [hf] at h
          obtain ⟨hv, hnesting⟩ := of_ofJson? v hf
          obtain ⟨hvs, hrest⟩ := of_ofList? vs h
          rw [← hvs, hv]
          exact ⟨by simp, by simpa [← hv] using ⟨hnesting, hrest⟩⟩

end

/-! ### What is stored is read -/

private theorem ofList?_map {room : Nat} {fs : List Formula}
    (h : ∀ f ∈ fs, ofJson? room f.toJson = some f) : ∀ done : Array Formula,
    ofList? room done (fs.map toJson) = some (done.toList ++ fs) := by
  induction fs with
  | nil => intro done; simp [ofList?]
  | cons f fs ih =>
      intro done
      have hrest := ih (fun g hg => h g (by simp [hg])) (done.push f)
      rw [List.map_cons, ofList?, h f (by simp)]
      simpa using hrest

private theorem ofJson?_toJson (f : Formula) :
    ∀ {room : Nat}, f.toJson.nesting ≤ room → ofJson? room f.toJson = some f := by
  -- A stored form is an object, so there is a level of room for what is in it.
  have hroom : ∀ {k room : Nat}, k + 1 ≤ room → ∃ r, room = r + 1 ∧ k ≤ r :=
    fun {k room} h => ⟨room - 1, by omega, by omega⟩
  induction f using induct with
  | atom id =>
      intro room h
      rw [toJson, Json.nesting_single] at h
      obtain ⟨r, rfl, -⟩ := hroom h
      rw [toJson, ofJson?, if_pos rfl, Json.word?_eq_some_iff.mpr rfl]
      rfl
  | node op fs ih =>
      intro room h
      rw [toJson_node, Json.nesting_single, Json.nesting, Nat.add_comm 1] at h
      obtain ⟨r, rfl, hitems⟩ := hroom h
      obtain ⟨q, rfl, hfs⟩ := hroom hitems
      have hdeep := Json.nestingItems_le_iff.mp hfs
      have hread : ofItems? (q + 1) (.array (fs.map toJson)) = some fs := by
        rw [ofItems?, ofList?_map fun f hf => ih f hf (hdeep _ (List.mem_map_of_mem hf))]
        rfl
      rw [toJson_node]
      cases op <;> simp [storedName, ofJson?, hread, Operator.node]
  | neg f ih | group f ih =>
      intro room h
      rw [toJson, Json.nesting_single] at h
      obtain ⟨r, rfl, hr⟩ := hroom h
      simp [toJson, ofJson?, ih hr]

/-- **What is read as a formula is its stored form,** nested no deeper than there is room. -/
theorem ofJson?_eq_some_iff {room : Nat} {v : Json} {f : Formula} :
    ofJson? room v = some f ↔ v = f.toJson ∧ f.toJson.nesting ≤ room := by
  constructor
  · intro h
    obtain ⟨hv, hnesting⟩ := of_ofJson? v h
    exact ⟨hv, hv ▸ hnesting⟩
  · intro h
    rw [h.1]
    exact ofJson?_toJson f h.2

theorem toJson_inj {f g : Formula} (h : f.toJson = g.toJson) : f = g := by
  have hf : ofJson? g.toJson.nesting f.toJson = some g :=
    ofJson?_eq_some_iff.mpr ⟨h, Nat.le_refl _⟩
  have hg : ofJson? g.toJson.nesting f.toJson = some f :=
    ofJson?_eq_some_iff.mpr ⟨rfl, Nat.le_of_eq (congrArg Json.nesting h)⟩
  exact Option.some.inj (hg.symm.trans hf)

/-! ### Texts -/

/-- **A text is read as a formula** when it says the stored form, in whatever spelling, and that is
not nested too deep. -/
theorem ofStored?_eq_some_iff {s : String} {f : Formula} :
    ofStored? s = some f ↔ Json.ofText? s = some f.toJson ∧ f.toJson.nesting ≤ 127 := by
  rw [ofStored?, Option.bind_eq_some_iff]
  constructor
  · intro h
    obtain ⟨v, hv, hread⟩ := h
    obtain ⟨hsame, hnesting⟩ := ofJson?_eq_some_iff.mp hread
    exact ⟨hsame ▸ hv, hnesting⟩
  · intro h
    exact ⟨_, h.1, ofJson?_eq_some_iff.mpr ⟨rfl, h.2⟩⟩

theorem ofStored?_stored_eq_some_iff {f g : Formula} :
    ofStored? f.stored = some g ↔ g = f ∧ f.toJson.nesting ≤ 127 := by
  rw [ofStored?_eq_some_iff, stored, Json.ofText?_text f.plain_toJson]
  constructor
  · intro h
    obtain rfl := toJson_inj (Option.some.inj h.1)
    exact ⟨rfl, h.2⟩
  · intro h
    rw [h.1]
    exact ⟨rfl, h.2⟩

theorem stored_inj {f g : Formula} (h : f.stored = g.stored) : f = g := by
  have hf := Json.ofText?_text f.plain_toJson
  have htext : f.toJson.text = g.toJson.text := h
  rw [htext, Json.ofText?_text g.plain_toJson] at hf
  exact (toJson_inj (Option.some.inj hf)).symm

/--
**Storing a formula loses nothing.**

A formula whose stored form is nested at most 127 objects and arrays deep is read back from its
text, and one that is nested deeper is not read at all.  What is read back is the formula, so it is
written in the same way, is as deep, has the same sections in the same places, and is evaluated
alike whoever is asked.  No two formulas have one text.  And a formula that was read from a text,
however that was spelled, is read back from its own.
-/
theorem storing_loses_nothing (f : Formula) :
    (f.toJson.nesting ≤ 127 → ofStored? f.stored = some f) ∧
    (127 < f.toJson.nesting → ofStored? f.stored = none) ∧
    (∀ g, ofStored? f.stored = some g → g = f ∧ g.print = f.print ∧ g.depth = f.depth ∧
      g.atoms = f.atoms ∧ ∀ {ε σ : Type} (resolve : SectionId → UserId → EStateM ε σ Bool)
        (user : UserId) (s : σ), g.eval resolve user s = f.eval resolve user s) ∧
    (∀ g, g.stored = f.stored → g = f) ∧
    ∀ text, ofStored? text = some f → ofStored? f.stored = some f := by
  refine ⟨?_, ?_, ?_, ?_, ?_⟩
  · intro hnesting
    exact ofStored?_stored_eq_some_iff.mpr ⟨rfl, hnesting⟩
  · intro hdeep
    rw [Option.eq_none_iff_forall_ne_some]
    intro g hg
    exact absurd (ofStored?_stored_eq_some_iff.mp hg).2 (Nat.not_le_of_lt hdeep)
  · intro g hg
    obtain rfl := (ofStored?_stored_eq_some_iff.mp hg).1
    exact ⟨rfl, rfl, rfl, rfl, fun _ _ _ => rfl⟩
  · intro g hg
    exact stored_inj hg
  · intro text htext
    exact ofStored?_stored_eq_some_iff.mpr ⟨rfl, (ofStored?_eq_some_iff.mp htext).2⟩

example : (Formula.conj [.disj [], .neg (.group (.atom ⟨18446744073709551615⟩))]).stored =
    "\x7b\"And\":[\x7b\"Or\":[]\x7d,\x7b\"Not\":\x7b\"Group\":\x7b\"Atom\":18446744073709551615\x7d\x7d\x7d]\x7d" := by
  cbv

end Formula

end Prerequisite
