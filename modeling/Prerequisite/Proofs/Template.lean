/-
What filling the places of a template comes to.

One argument is put in wherever its place stands in the template, and what was put in is not looked
at again, even if it looks like the place.  So the argument of a sentence may be any text.

Several arguments go through the template one after the other, so one of them may be put into what
another brought, and a brace in a text may even make a place that was nowhere before.  This cannot
be where braces only stand around the names of places.  Such a template has parts, texts and places,
which do not run into one another, and it keeps them when the places of one name are filled with a
text that has no brace (`fill_written`).  Filling goes by parts then, and each place has the text
that its own name stands for, whenever that name comes (`foldl_fill`).
-/
import Prerequisite.Proofs.Catalog
import Prerequisite.Proofs.Text.Markup
import Prerequisite.Proofs.Text.Splitting

namespace Prerequisite

namespace Template

/-- Filling the only place of a template puts the text between the parts of the template. -/
theorem toList_substitute {template name : String} {parts : List (List Char)}
    (h : Text.Splits (place name) template.toList parts) (text : String) :
    (substitute template [(name, text)]).toList = text.toList.intercalate parts := by
  unfold substitute
  rw [String.toList_ofList, List.foldl_cons, List.foldl_nil]
  exact Text.replace_eq_intercalate h

/-! ### Templates whose braces stand around names -/

/-- There is no brace in a text. -/
def Braceless (s : List Char) : Prop := '\x7b' ∉ s ∧ '\x7d' ∉ s

instance (s : List Char) : Decidable (Braceless s) :=
  inferInstanceAs (Decidable ('\x7b' ∉ s ∧ '\x7d' ∉ s))

/-- Whether braces come in pairs that hold no other brace, from inside or outside of a pair on. -/
def paired (inside : Bool) : List Char → Bool
  | [] => !inside
  | c :: s =>
      if c = '\x7b' then !inside && paired true s
      else if c = '\x7d' then inside && paired false s
      else paired inside s

/-- **Braces only stand around the names of places,** and no place is inside of another. -/
def WellFormed (template : String) : Prop := paired false template.toList = true

/-- A part of a template. -/
inductive Part where
  /-- A text, which stays as it is. -/
  | text (s : String)
  /-- A place. -/
  | place (name : String)

namespace Part

/-- A text or a name without braces. -/
def Plain : Part → Prop
  | .text s => Braceless s.toList
  | .place name => Braceless name.toList

/-- How a part is written. -/
def written : Part → List Char
  | .text s => s.toList
  | .place name => Template.place name

/-- A part with a text in the places of one name. -/
def fill (name text : String) : Part → Part
  | .text s => .text s
  | .place n => if n = name then .text text else .place n

/-- **A part with every place filled for which there is an argument.** -/
def filled (args : Arguments) : Part → Part
  | .text s => .text s
  | .place n =>
      match args.lookup n with
      | some value => .text value
      | none => .place n

end Part

/-- How parts are written one behind the other. -/
def written (parts : List Part) : List Char := parts.flatMap Part.written

@[simp] theorem written_cons (p : Part) (parts : List Part) :
    written (p :: parts) = p.written ++ written parts := List.flatMap_cons

theorem Braceless.cons {c : Char} {s : List Char} (hopen : c ≠ '\x7b') (hclose : c ≠ '\x7d')
    (h : Braceless s) : Braceless (c :: s) := by
  refine ⟨fun hmem => ?_, fun hmem => ?_⟩
  · rcases List.mem_cons.mp hmem with heq | hmem
    · exact hopen heq.symm
    · exact h.1 hmem
  · rcases List.mem_cons.mp hmem with heq | hmem
    · exact hclose heq.symm
    · exact h.2 hmem

/-- What has its braces in pairs has parts; inside of a pair, a name and what comes behind it. -/
theorem exists_parts_of_paired (s : List Char) :
    (paired false s = true → ∃ parts, (∀ p ∈ parts, p.Plain) ∧ written parts = s) ∧
    (paired true s = true → ∃ name parts, Braceless name ∧ (∀ p ∈ parts, p.Plain) ∧
      name ++ '\x7d' :: written parts = s) := by
  induction s with
  | nil => exact ⟨fun _ => ⟨[], by simp, rfl⟩, fun h => absurd h (by decide)⟩
  | cons c s ih =>
      obtain ⟨ihout, ihin⟩ := ih
      by_cases hopen : c = '\x7b'
      · subst hopen
        refine ⟨fun h => ?_, fun h => absurd h (by simp [paired])⟩
        obtain ⟨name, parts, hname, hparts, rfl⟩ := ihin (by simpa [paired] using h)
        refine ⟨.place (String.ofList name) :: parts, List.forall_mem_cons.mpr ⟨?_, hparts⟩, ?_⟩
        · rwa [Part.Plain, String.toList_ofList]
        · simp [Part.written, place]
      · by_cases hclose : c = '\x7d'
        · subst hclose
          refine ⟨fun h => absurd h (by simp [paired]), fun h => ?_⟩
          obtain ⟨parts, hparts, rfl⟩ := ihout (by simpa [paired] using h)
          exact ⟨[], parts, by decide, hparts, rfl⟩
        · refine ⟨fun h => ?_, fun h => ?_⟩
          · obtain ⟨parts, hparts, rfl⟩ := ihout (by simpa [paired, hopen, hclose] using h)
            refine ⟨.text (String.ofList [c]) :: parts, List.forall_mem_cons.mpr ⟨?_, hparts⟩, ?_⟩
            · have hnil : Braceless [] := by decide
              rw [Part.Plain, String.toList_ofList]
              exact hnil.cons hopen hclose
            · simp [Part.written]
          · obtain ⟨name, parts, hname, hparts, rfl⟩ :=
              ihin (by simpa [paired, hopen, hclose] using h)
            exact ⟨c :: name, parts, hname.cons hopen hclose, hparts, rfl⟩

/-! ### Filling by parts -/

section

variable {name text : String}

theorem fill_text {s : String} (h : Braceless s.toList) (rest : List Char) :
    fill (s.toList ++ rest) name text = s.toList ++ fill rest name text :=
  Text.replace_append_of_not_mem h.1 rest

theorem fill_place_same (rest : List Char) :
    fill (place name ++ rest) name text = text.toList ++ fill rest name text := by
  unfold fill place
  rw [List.cons_append, List.cons_append]
  exact Text.replace_found rest

/-- A place ends at its first brace, so where one begins, no other does. -/
theorem fill_place_other {n : String} (hn : Braceless n.toList) (hname : Braceless name.toList)
    (hne : n ≠ name) (rest : List Char) :
    fill (place n ++ rest) name text = place n ++ fill rest name text := by
  have hkept : Text.after? ('\x7b' :: (name.toList ++ ['\x7d']))
      ('\x7b' :: (n.toList ++ ['\x7d'] ++ rest)) = none := by
    refine Text.after?_eq_none_iff.mpr ?_
    rintro ⟨r, hr⟩
    have htail : name.toList ++ '\x7d' :: r = n.toList ++ '\x7d' :: rest := by simpa using hr
    obtain ⟨heq, -⟩ := Text.Markup.eq_of_append_cons hname.2 hn.2 htail
    exact hne (String.toList_inj.mp heq.symm)
  have hinner : '\x7b' ∉ n.toList ++ ['\x7d'] := by simp [hn.1]
  unfold fill place
  rw [List.cons_append, List.cons_append, Text.replace_kept hkept,
    Text.replace_append_of_not_mem hinner]
  rfl

/-- **Filling the places of one name goes by parts.** -/
theorem fill_written {parts : List Part} (hname : Braceless name.toList)
    (h : ∀ p ∈ parts, p.Plain) :
    fill (written parts) name text = written (parts.map (Part.fill name text)) := by
  induction parts with
  | nil => exact Text.replace_nil
  | cons p parts ih =>
      obtain ⟨hp, hparts⟩ := List.forall_mem_cons.mp h
      rw [List.map_cons, written_cons, written_cons, ← ih hparts]
      cases p with
      | text s => exact fill_text hp _
      | place n =>
          by_cases hn : n = name
          · subst hn
            rw [Part.fill, if_pos rfl]
            exact fill_place_same _
          · rw [Part.fill, if_neg hn]
            exact fill_place_other hp hname hn _

/-- It leaves parts that are plain when what is put in has no brace. -/
theorem Part.Plain.fill {p : Part} (h : p.Plain) (htext : Braceless text.toList) :
    (p.fill name text).Plain := by
  cases p with
  | text s => exact h
  | place n =>
      by_cases hn : n = name
      · rw [Part.fill, if_pos hn]
        exact htext
      · rw [Part.fill, if_neg hn]
        exact h

end

/-- **Filling one place after the other comes to filling them all at once.** -/
theorem foldl_fill (args : Arguments) (p : Part) :
    args.foldl (fun p a => p.fill a.1 a.2) p = p.filled args := by
  induction args generalizing p with
  | nil => cases p <;> rfl
  | cons a args ih =>
      obtain ⟨name, value⟩ := a
      rw [List.foldl_cons, ih]
      cases p with
      | text s => rfl
      | place n =>
          by_cases hn : n = name
          · simp [Part.fill, Part.filled, hn]
          · have hbeq : (n == name) = false := by simpa using hn
            simp [Part.fill, Part.filled, hn, List.lookup_cons, hbeq]

theorem foldl_fill_written {args : Arguments}
    (hargs : ∀ a ∈ args, Braceless a.1.toList ∧ Braceless a.2.toList) :
    ∀ {parts : List Part}, (∀ p ∈ parts, p.Plain) →
      args.foldl (fun s a => fill s a.1 a.2) (written parts) =
        written (parts.map fun p => args.foldl (fun p a => p.fill a.1 a.2) p) := by
  induction args with
  | nil => intro parts _; simp
  | cons a args ih =>
      intro parts h
      obtain ⟨⟨hname, htext⟩, hargs⟩ := List.forall_mem_cons.mp hargs
      have hfilled : ∀ p ∈ parts.map (Part.fill a.1 a.2), p.Plain := by
        intro p hp
        obtain ⟨q, hq, rfl⟩ := List.mem_map.mp hp
        exact (h q hq).fill htext
      rw [List.foldl_cons, fill_written hname h, ih hargs hfilled, List.map_map]
      rfl

/-! ### The order of arguments -/

/-- Where each name has one text, their order says nothing. -/
theorem lookup_eq_of_perm {args args' : Arguments} (h : args'.Perm args)
    (hnodup : (args'.map Prod.fst).Nodup) (n : String) : args'.lookup n = args.lookup n := by
  induction h with
  | nil => rfl
  | cons a h ih =>
      rw [List.map_cons, List.nodup_cons] at hnodup
      obtain ⟨name, value⟩ := a
      rw [List.lookup_cons, List.lookup_cons, ih hnodup.2]
  | swap a b args =>
      obtain ⟨name, value⟩ := a
      obtain ⟨name', value'⟩ := b
      have hne : name' ≠ name := by
        simp only [List.map_cons, List.nodup_cons, List.mem_cons, not_or] at hnodup
        exact hnodup.1.1
      simp only [List.lookup_cons]
      by_cases hn : n = name
      · subst hn
        have hbeq : (n == name') = false := by simpa using hne.symm
        simp [hbeq]
      · have hbeq : (n == name) = false := by simpa using hn
        simp [hbeq]
  | trans h h' ih ih' =>
      rw [ih hnodup, ih' ((h.map Prod.fst).nodup_iff.mp hnodup)]

theorem filled_eq_of_perm {args args' : Arguments} (h : args'.Perm args)
    (hnodup : (args.map Prod.fst).Nodup) (p : Part) : p.filled args' = p.filled args := by
  cases p with
  | text s => rfl
  | place n =>
      have hnodup' : (args'.map Prod.fst).Nodup := (h.map Prod.fst).nodup_iff.mpr hnodup
      rw [Part.filled, Part.filled, lookup_eq_of_perm h hnodup']

/-- **Every place of a template has the text of its own argument.** -/
theorem toList_substitute_of_parts {template : String} {parts : List Part} {args : Arguments}
    (hparts : ∀ p ∈ parts, p.Plain) (htemplate : written parts = template.toList)
    (hargs : ∀ a ∈ args, Braceless a.1.toList ∧ Braceless a.2.toList) :
    (substitute template args).toList = written (parts.map (Part.filled args)) := by
  unfold substitute
  rw [String.toList_ofList, ← htemplate, foldl_fill_written hargs hparts]
  simp only [foldl_fill]

/--
**What the places of a template are filled with is put in as it is.**

One argument is put between the parts of a template that its place separates, whatever text it is,
and so it is put into the phrases of a catalog.

Where braces only stand around the names of places, and there are none in the arguments, which have
different names, all places are filled at once: each has the text of the argument with its name, and
stays as it is written if there is none.  The order of the arguments says nothing.
-/
theorem substitution_puts_in_verbatim :
    (∀ template name : String, ∃ parts, Text.Splits (place name) template.toList parts ∧
      ∀ text : String,
        (substitute template [(name, text)]).toList = text.toList.intercalate parts) ∧
    (∀ (catalog : Catalog) (p : Phrase) (name : String), ∃ parts,
      Text.Splits (place name) (catalog.ofPhrase p).toList parts ∧
      ∀ text : String, catalog.lookup component p.name [(name, text)] =
        .ok (String.ofList (text.toList.intercalate parts))) ∧
    ∀ template : String, WellFormed template → ∃ parts : List Part,
      (∀ p ∈ parts, p.Plain) ∧ written parts = template.toList ∧
      ∀ args : Arguments, (args.map Prod.fst).Nodup →
        (∀ a ∈ args, Braceless a.1.toList ∧ Braceless a.2.toList) →
        (substitute template args).toList = written (parts.map (Part.filled args)) ∧
        ∀ args' : Arguments, args'.Perm args →
          substitute template args' = substitute template args := by
  have hsplits : ∀ template name : String, ∃ parts,
      Text.Splits (place name) template.toList parts :=
    fun template name => Text.exists_splits '\x7b' (name.toList ++ ['\x7d']) template.toList
  refine ⟨fun template name => ?_, fun catalog p name => ?_, fun template htemplate => ?_⟩
  · obtain ⟨parts, hparts⟩ := hsplits template name
    exact ⟨parts, hparts, toList_substitute hparts⟩
  · obtain ⟨parts, hparts⟩ := hsplits (catalog.ofPhrase p) name
    refine ⟨parts, hparts, fun text => ?_⟩
    rw [Catalog.lookup_phrase, ← toList_substitute hparts, String.ofList_toList]
  · obtain ⟨parts, hparts, hwritten⟩ := (exists_parts_of_paired template.toList).1 htemplate
    refine ⟨parts, hparts, hwritten, fun args hnodup hargs => ?_⟩
    have hfilled := toList_substitute_of_parts hparts hwritten hargs
    refine ⟨hfilled, fun args' hperm => ?_⟩
    apply String.toList_inj.mp
    have hargs' : ∀ a ∈ args', Braceless a.1.toList ∧ Braceless a.2.toList :=
      fun a ha => hargs a (hperm.subset ha)
    rw [hfilled, toList_substitute_of_parts hparts hwritten hargs',
      List.map_congr_left fun p _ => filled_eq_of_perm hperm hnodup p]

/-- A place that stands twice, one that no argument names, and two orders of the arguments. -/
theorem substitution_puts_in_verbatim_in_either_order :
    WellFormed "\x7ba\x7d, \x7bb\x7d, \x7ba\x7d or \x7bc\x7d" ∧
    substitute "\x7ba\x7d, \x7bb\x7d, \x7ba\x7d or \x7bc\x7d" [("b", "2"), ("a", "1")] =
      substitute "\x7ba\x7d, \x7bb\x7d, \x7ba\x7d or \x7bc\x7d" [("a", "1"), ("b", "2")] := by
  obtain ⟨-, -, hformed⟩ := substitution_puts_in_verbatim
  have htemplate : WellFormed "\x7ba\x7d, \x7bb\x7d, \x7ba\x7d or \x7bc\x7d" := by
    unfold WellFormed
    decide
  obtain ⟨parts, -, -, hargs⟩ := hformed _ htemplate
  obtain ⟨-, hperm⟩ := hargs [("a", "1"), ("b", "2")] (by decide) (by decide)
  exact ⟨htemplate, hperm _ (.swap _ _ _)⟩

-- An argument with braces may bring the place of another one, and then their order does matter.
example : substitute "\x7ba\x7d" [("a", "\x7bb\x7d"), ("b", "2")] = "2" ∧
    substitute "\x7ba\x7d" [("b", "2"), ("a", "\x7bb\x7d")] = "\x7bb\x7d" := by cbv

end Template

end Prerequisite
