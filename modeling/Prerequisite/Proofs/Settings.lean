/-
What the checks of settings are good for.

`Allowed` says what settings have to be, with all bounds written out.  The checks accept just those,
and of others they report the first fault in a fixed order (`FirstFault`): the limits come first,
then the sink with its path, then the texts with ascending names.

A path counts without the blanks around it, and as a list of parts between slashes.  Neither the
order of the checks nor the bounds depend on what is used later: a path is looked at even where no
file is asked for.

What is read from a file or a text was checked, so nothing that is made of it later can fail because
of the settings (`checks_exact_and_sufficient`).
-/
import Mathlib
import Prerequisite.Audit.Sink
import Prerequisite.Proofs.Catalog
import Prerequisite.Proofs.Formula.Depth
import Prerequisite.Proofs.Text.Trimming
import Prerequisite.Settings.Loading

namespace Prerequisite

/-! ### Paths -/

namespace Path

/-- The parts of a path are what its slashes separate. -/
theorem parts_eq_splitOn (cs : List Char) : parts cs = cs.splitOn '/' := by
  rw [List.splitOn_eq_splitOnP]
  induction cs with
  | nil => rw [List.splitOnP_nil, parts]
  | cons c cs ih =>
      rw [parts, List.splitOnP_cons_eq_if_modifyHead, ih]
      by_cases hc : c = '/'
      · rw [if_pos hc, if_pos (beq_iff_eq.mpr hc)]
      · rw [if_neg hc, if_neg (by simpa using hc)]
        obtain ⟨p, ps, hps⟩ := List.exists_cons_of_ne_nil (List.splitOnP_ne_nil (· == '/') cs)
        rw [hps]
        rfl

/-- **A path is short enough,** and so is each of its parts. -/
structure Fits (path : List Char) : Prop where
  /-- The most bytes of the whole. -/
  whole : Text.byteSize path ≤ 4096
  /-- The most bytes of a part. -/
  part : ∀ part ∈ path.splitOn '/', Text.byteSize part ≤ 255

theorem fault?_eq_none_iff {path : List Char} : fault? path = none ↔ Fits path := by
  unfold fault?
  rw [parts_eq_splitOn]
  by_cases hwhole : maxBytes < Text.byteSize path
  · rw [if_pos hwhole]
    refine iff_of_false (by simp) fun hfits => ?_
    exact Nat.not_lt.mpr hfits.whole hwhole
  rw [if_neg hwhole]
  by_cases hpart : ((path.splitOn '/').any fun p => maxPartBytes < Text.byteSize p) = true
  · rw [if_pos hpart]
    refine iff_of_false (by simp) fun hfits => ?_
    obtain ⟨part, hmem, hlong⟩ := List.any_eq_true.mp hpart
    exact Nat.not_lt.mpr (hfits.part part hmem) (of_decide_eq_true hlong)
  · rw [if_neg hpart]
    refine iff_of_true rfl ⟨Nat.not_lt.mp hwhole, fun part hmem => Nat.not_lt.mp fun hlong => ?_⟩
    exact hpart (List.any_eq_true.mpr ⟨part, hmem, decide_eq_true hlong⟩)

end Path

/-! ### Names and tables -/

theorem Phrase.isNone_ofName?_iff {name : String} :
    (ofName? name).isNone ↔ ∀ p : Phrase, p.name ≠ name := by
  constructor
  · rintro h p rfl
    rw [ofName?_name] at h
    exact absurd h (by simp)
  · intro h
    refine Option.isNone_iff_eq_none.mpr (List.find?_eq_none.mpr fun p _ => ?_)
    simpa using h p

/-- What a table holds is found under its name. -/
theorem Table.get?_of_mem {t : Table} {e : String × String} (he : e ∈ t.entries) :
    t.get? e.1 = some e.2 := by
  suffices h : ∀ entries : List (String × String), Ascending entries → e ∈ entries →
      entries.lookup e.1 = some e.2 from h t.entries t.ascending he
  intro entries hascending he
  induction entries with
  | nil => exact absurd he List.not_mem_nil
  | cons d ds ih =>
      obtain ⟨hlt, hds⟩ := List.pairwise_cons.mp hascending
      rw [Table.lookup_cons]
      rcases List.mem_cons.mp he with rfl | he
      · rw [if_pos rfl]
      · have hne : e.1 ≠ d.1 := fun heq => String.lt_irrefl _ (heq ▸ hlt e he)
        rw [if_neg hne, ih hds he]

/-- **The first entry that something is found for** is the one with the least name. -/
theorem Table.findSome?_eq_some_iff {β : Type} {t : Table} {check : String × String → Option β}
    {b : β} : t.entries.findSome? check = some b ↔
      ∃ e ∈ t.entries, check e = some b ∧ ∀ d ∈ t.entries, d.1 < e.1 → check d = none := by
  constructor
  · intro h
    obtain ⟨before, e, after, hentries, hcheck, hbefore⟩ := List.findSome?_eq_some_iff.mp h
    refine ⟨e, by simp [hentries], hcheck, ?_⟩
    intro d hd hlt
    have hascending := t.ascending
    rw [hentries] at hd hascending
    rcases List.mem_append.mp hd with hd | hd
    · exact hbefore d hd
    · obtain ⟨-, hlater, -⟩ := List.pairwise_append.mp hascending
      rcases List.mem_cons.mp hd with rfl | hd
      · exact absurd hlt (String.lt_irrefl _)
      · have hgt := (List.pairwise_cons.mp hlater).1 d hd
        exact absurd (String.lt_trans hlt hgt) (String.lt_irrefl _)
  · rintro ⟨e, he, hcheck, hbefore⟩
    obtain ⟨before, after, hentries⟩ := List.append_of_mem he
    refine List.findSome?_eq_some_iff.mpr ⟨before, e, after, hentries, hcheck, ?_⟩
    intro d hd
    have hascending := t.ascending
    rw [hentries] at hascending
    obtain ⟨-, -, hlt⟩ := List.pairwise_append.mp hascending
    exact hbefore d (by simp [hentries, hd]) (hlt d hd e List.mem_cons_self)

namespace Settings

/-! ### What is allowed -/

/-- The size of formulas is within its bounds. -/
def SizeAllowed (s : Settings) : Prop := 1 ≤ s.limits.maxBytes ∧ s.limits.maxBytes ≤ 1048576

/-- The nesting of formulas is within its bounds. -/
def NestingAllowed (s : Settings) : Prop := 1 ≤ s.limits.maxNesting ∧ s.limits.maxNesting ≤ 256

instance (s : Settings) : Decidable s.SizeAllowed := inferInstanceAs (Decidable (_ ∧ _))

instance (s : Settings) : Decidable s.NestingAllowed := inferInstanceAs (Decidable (_ ∧ _))

/-- There is more to a path than blanks, and without those around it it is short enough. -/
def PathAllowed (path : String) : Prop :=
  ∃ mid, Text.Trims path.toList mid ∧ mid ≠ [] ∧ Path.Fits mid

/-- **A file needs a path,** and any path has to be a good one. -/
structure SinkAllowed (s : Settings) : Prop where
  /-- There is a path if events go to a file. -/
  required : s.sink = .file → ∃ path, s.path = some path
  /-- A path is a good one, wherever events go. -/
  path : ∀ path, s.path = some path → PathAllowed path

/-- There is a phrase with the name, and its text has few enough characters. -/
def TextAllowed (e : String × String) : Prop := (∃ p : Phrase, p.name = e.1) ∧ e.2.length ≤ 1024

/-- **What settings have to be.** -/
structure Allowed (s : Settings) : Prop where
  /-- The size of formulas is allowed. -/
  size : s.SizeAllowed
  /-- The nesting of formulas is allowed. -/
  nesting : s.NestingAllowed
  /-- The sink is allowed, with its path. -/
  sink : s.SinkAllowed
  /-- Every text is allowed. -/
  strings : ∀ e ∈ s.strings.entries, TextAllowed e

/-! ### What is wrong -/

/-- What is wrong with where events go. -/
inductive SinkFault (s : Settings) : SettingsFault → Prop
  /-- A file is asked for, and there is no path. -/
  | required (hsink : s.sink = .file) (hpath : s.path = none) : SinkFault s .pathRequired
  /-- The path is nothing but blanks. -/
  | empty {path : String} (hpath : s.path = some path) (htrims : Text.Trims path.toList []) :
      SinkFault s .pathEmpty
  /-- The path, or a part of it, is too long. -/
  | tooLong {path : String} {mid : List Char} (hpath : s.path = some path)
      (htrims : Text.Trims path.toList mid) (hne : mid ≠ []) (hlong : ¬Path.Fits mid) :
      SinkFault s .pathTooLong

/-- What is wrong with a text for a phrase. -/
inductive TextFault : String × String → SettingsFault → Prop
  /-- No phrase has the name. -/
  | unknown {name text : String} (h : ∀ p : Phrase, p.name ≠ name) :
      TextFault (name, text) (.unknownString name)
  /-- There are too many characters. -/
  | tooLong {p : Phrase} {text : String} (h : 1024 < text.length) :
      TextFault (p.name, text) (.longString p.name)

/-- **The first thing that is wrong with settings,** and that nothing before it is. -/
inductive FirstFault (s : Settings) : SettingsFault → Prop
  /-- The size of formulas. -/
  | size (h : ¬s.SizeAllowed) : FirstFault s .maxBytes
  /-- The nesting of formulas. -/
  | nesting (hsize : s.SizeAllowed) (h : ¬s.NestingAllowed) : FirstFault s .maxNesting
  /-- The sink, with its path. -/
  | sink {f : SettingsFault} (hsize : s.SizeAllowed) (hnesting : s.NestingAllowed)
      (h : SinkFault s f) : FirstFault s f
  /-- A text, where those with names before it are allowed. -/
  | text {f : SettingsFault} {e : String × String} (hsize : s.SizeAllowed)
      (hnesting : s.NestingAllowed) (hsink : s.SinkAllowed) (he : e ∈ s.strings.entries)
      (h : TextFault e f) (hbefore : ∀ d ∈ s.strings.entries, d.1 < e.1 → TextAllowed d) :
      FirstFault s f

/-! ### The checks one by one -/

section

variable {s : Settings} {f : SettingsFault}

theorem limitsFault?_eq (s : Settings) : limitsFault? s.limits =
    if s.SizeAllowed then if s.NestingAllowed then none else some .maxNesting
    else some .maxBytes := by
  unfold limitsFault? maxFormulaBytes maxFormulaNesting
  by_cases hsize : s.SizeAllowed
  · have hbytes : ¬(s.limits.maxBytes = 0 ∨ 1024 * 1024 < s.limits.maxBytes) := by
      unfold SizeAllowed at hsize
      omega
    rw [if_pos hsize, if_neg hbytes]
    by_cases hnesting : s.NestingAllowed
    · have hdeep : ¬(s.limits.maxNesting = 0 ∨ 256 < s.limits.maxNesting) := by
        unfold NestingAllowed at hnesting
        omega
      rw [if_pos hnesting, if_neg hdeep]
    · have hdeep : s.limits.maxNesting = 0 ∨ 256 < s.limits.maxNesting := by
        unfold NestingAllowed at hnesting
        omega
      rw [if_neg hnesting, if_pos hdeep]
  · have hbytes : s.limits.maxBytes = 0 ∨ 1024 * 1024 < s.limits.maxBytes := by
      unfold SizeAllowed at hsize
      omega
    rw [if_neg hsize, if_pos hbytes]

theorem pathFault?_eq_none_iff {path : String} : pathFault? path = none ↔ PathAllowed path := by
  unfold pathFault?
  constructor
  · intro h
    by_cases hempty : Text.trim path.toList = []
    · exact absurd h (by simp [hempty])
    · refine ⟨_, Text.trims_trim _, hempty, Path.fault?_eq_none_iff.mp ?_⟩
      simpa [hempty] using h
  · rintro ⟨mid, htrims, hne, hfits⟩
    obtain rfl := Text.trim_eq_iff.mpr htrims
    simp [hne, Path.fault?_eq_none_iff.mpr hfits]

theorem sinkFault?_eq_none_iff : sinkFault? s.sink s.path = none ↔ s.SinkAllowed := by
  cases hpath : s.path with
  | none =>
      rw [sinkFault?]
      constructor
      · intro h
        refine ⟨fun hfile => absurd h (by simp [hfile]), fun path h => ?_⟩
        exact absurd (hpath.symm.trans h) (by simp)
      · intro h
        rw [if_neg]
        intro hfile
        obtain ⟨path, h⟩ := h.required hfile
        exact absurd (hpath.symm.trans h) (by simp)
  | some path =>
      rw [sinkFault?, pathFault?_eq_none_iff]
      constructor
      · intro h
        refine ⟨fun _ => ⟨path, hpath⟩, fun path' hpath' => ?_⟩
        obtain rfl : path = path' := Option.some.inj (hpath.symm.trans hpath')
        exact h
      · intro h
        exact h.path path hpath

theorem sinkFault?_eq_some_iff : sinkFault? s.sink s.path = some f ↔ SinkFault s f := by
  constructor
  · intro h
    cases hpath : s.path with
    | none =>
        rw [hpath, sinkFault?] at h
        by_cases hfile : s.sink = .file
        · rw [if_pos hfile] at h
          obtain rfl := Option.some.inj h
          exact .required hfile hpath
        · rw [if_neg hfile] at h
          exact absurd h (by simp)
    | some path =>
        rw [hpath, sinkFault?, pathFault?] at h
        by_cases hempty : Text.trim path.toList = []
        · obtain rfl : .pathEmpty = f := by simpa [hempty] using h
          exact .empty hpath (Text.trim_eq_iff.mp hempty)
        · by_cases hlong : (Path.fault? (Text.trim path.toList)).isSome
          · obtain rfl : .pathTooLong = f := by simpa [hempty, hlong] using h
            refine .tooLong hpath (Text.trims_trim _) hempty fun hfits => ?_
            rw [Path.fault?_eq_none_iff.mpr hfits] at hlong
            exact absurd hlong (by simp)
          · exact absurd h (by simp [hempty, hlong])
  · intro h
    cases h with
    | required hsink hpath => rw [hpath, sinkFault?, if_pos hsink]
    | empty hpath htrims =>
        rw [hpath, sinkFault?, pathFault?]
        simp [Text.trim_eq_iff.mpr htrims]
    | tooLong hpath htrims hne hlong =>
        obtain rfl := Text.trim_eq_iff.mpr htrims
        have hsome : (Path.fault? (Text.trim _)).isSome :=
          Option.isSome_iff_ne_none.mpr (mt Path.fault?_eq_none_iff.mp hlong)
        rw [hpath, sinkFault?, pathFault?]
        simp [hne, hsome]

theorem stringFault?_eq_none_iff {e : String × String} :
    stringFault? e.1 e.2 = none ↔ TextAllowed e := by
  unfold stringFault? TextAllowed maxStringLength
  by_cases hname : (Phrase.ofName? e.1).isNone
  · rw [if_pos hname]
    refine iff_of_false (by simp) ?_
    rintro ⟨⟨p, hp⟩, -⟩
    exact Phrase.isNone_ofName?_iff.mp hname p hp
  · rw [if_neg hname]
    have hphrase : ∃ p : Phrase, p.name = e.1 := by
      simpa using mt Phrase.isNone_ofName?_iff.mpr hname
    simp [hphrase]

theorem stringFault?_eq_some_iff {e : String × String} :
    stringFault? e.1 e.2 = some f ↔ TextFault e f := by
  obtain ⟨name, text⟩ := e
  unfold stringFault? maxStringLength
  constructor
  · intro h
    by_cases hname : (Phrase.ofName? name).isNone
    · rw [if_pos hname] at h
      obtain rfl := Option.some.inj h
      exact .unknown (Phrase.isNone_ofName?_iff.mp hname)
    · rw [if_neg hname] at h
      obtain ⟨p, rfl⟩ : ∃ p : Phrase, p.name = name := by
        simpa using mt Phrase.isNone_ofName?_iff.mpr hname
      by_cases hlong : 1024 < text.length
      · rw [if_pos hlong] at h
        obtain rfl := Option.some.inj h
        exact .tooLong hlong
      · rw [if_neg hlong] at h
        exact absurd h (by simp)
  · intro h
    cases h with
    | unknown hname => rw [if_pos (Phrase.isNone_ofName?_iff.mpr hname)]
    | tooLong hlong => rw [Phrase.ofName?_name, if_neg (by simp), if_pos hlong]

/-! ### The checks as a whole -/

theorem fault?_eq_none_iff : s.fault? = none ↔ s.Allowed := by
  rw [fault?, Option.or_eq_none_iff, Option.or_eq_none_iff, limitsFault?_eq,
    sinkFault?_eq_none_iff, List.findSome?_eq_none_iff]
  simp only [stringFault?_eq_none_iff]
  constructor
  · rintro ⟨hlimits, hsink, hstrings⟩
    by_cases hsize : s.SizeAllowed
    · by_cases hnesting : s.NestingAllowed
      · exact ⟨hsize, hnesting, hsink, hstrings⟩
      · exact absurd hlimits (by simp [hsize, hnesting])
    · exact absurd hlimits (by simp [hsize])
  · intro h
    exact ⟨by rw [if_pos h.size, if_pos h.nesting], h.sink, h.strings⟩

/-- **What is reported is the first fault.** -/
theorem fault?_eq_some_iff : s.fault? = some f ↔ FirstFault s f := by
  rw [fault?, Option.or_eq_some_iff, Option.or_eq_some_iff, limitsFault?_eq,
    sinkFault?_eq_some_iff, sinkFault?_eq_none_iff, Table.findSome?_eq_some_iff]
  simp only [stringFault?_eq_some_iff, stringFault?_eq_none_iff]
  by_cases hsize : s.SizeAllowed
  · by_cases hnesting : s.NestingAllowed
    · rw [if_pos hsize, if_pos hnesting]
      constructor
      · rintro (h | ⟨-, h | ⟨hsink, e, he, h, hbefore⟩⟩)
        · exact absurd h (by simp)
        · exact .sink hsize hnesting h
        · exact .text hsize hnesting hsink he h hbefore
      · intro h
        cases h with
        | size h => exact absurd hsize h
        | nesting _ h => exact absurd hnesting h
        | sink _ _ h => exact .inr ⟨rfl, .inl h⟩
        | text _ _ hsink he h hbefore => exact .inr ⟨rfl, .inr ⟨hsink, _, he, h, hbefore⟩⟩
    · rw [if_pos hsize, if_neg hnesting]
      constructor
      · rintro (h | ⟨h, -⟩)
        · obtain rfl := Option.some.inj h
          exact .nesting hsize hnesting
        · exact absurd h (by simp)
      · intro h
        cases h with
        | size h => exact absurd hsize h
        | nesting => exact .inl rfl
        | sink _ h | text _ h => exact absurd h hnesting
  · rw [if_neg hsize]
    constructor
    · rintro (h | ⟨h, -⟩)
      · obtain rfl := Option.some.inj h
        exact .size hsize
      · exact absurd h (by simp)
    · intro h
      cases h with
      | size => exact .inl rfl
      | nesting h | sink h | text h => exact absurd h hsize

theorem checked_eq_ok_iff {t : Settings} : s.checked = .ok t ↔ t = s ∧ s.Allowed := by
  rw [checked, ← fault?_eq_none_iff]
  cases s.fault? with
  | none => simp [eq_comm]
  | some f => simp

theorem checked_eq_error_iff {x : SettingsError} :
    s.checked = .error x ↔ ∃ f, FirstFault s f ∧ x = .invalid f := by
  simp only [← fault?_eq_some_iff]
  rw [checked]
  cases s.fault? with
  | none => simp
  | some f => simp [eq_comm]

end

/-! ### What was read was checked -/

variable {s : Settings}

theorem allowed_of_ofToml {text : String} (h : ofToml text = .ok s) : s.Allowed := by
  unfold ofToml at h
  cases hread : (Toml.document? text).bind ofEntries? with
  | none =>
      rw [hread] at h
      exact absurd h (by simp)
  | some t =>
      rw [hread] at h
      obtain ⟨rfl, hallowed⟩ := checked_eq_ok_iff.mp h
      exact hallowed

theorem allowed_of_ofBytes {content : ByteArray} (h : ofBytes content = .ok s) : s.Allowed := by
  unfold ofBytes at h
  by_cases hlarge : maxFileBytes < content.size
  · rw [if_pos hlarge] at h
    exact absurd h (by simp)
  · rw [if_neg hlarge] at h
    cases htext : String.fromUTF8? content with
    | none =>
        rw [htext] at h
        exact absurd h (by simp)
    | some text =>
        rw [htext] at h
        exact allowed_of_ofToml h

/-- The bytes of a text are read as the text, if they are not too many. -/
theorem ofBytes_toUTF8 {text : String} (h : text.toUTF8.size ≤ maxFileBytes) :
    ofBytes text.toUTF8 = ofToml text := by
  have htext : String.fromUTF8? text.toUTF8 = some text := by
    unfold String.fromUTF8?
    rw [String.toUTF8_eq_toByteArray, dif_pos text.isValidUTF8]
    rfl
  rw [ofBytes, if_neg (Nat.not_lt.mpr h), htext]

theorem allowed_of_load {files : FileTree} {environment given : Option String}
    (h : load files environment given = .ok s) : s.Allowed := by
  unfold load at h
  cases hpath : sourcePath environment given with
  | error e => simp [hpath] at h
  | ok path =>
      cases hfault : sourceFault? path with
      | some f => simp [hpath, hfault] at h
      | none =>
          cases hcontent : files.read? path with
          | none => simp [hpath, hfault, hcontent] at h
          | some content =>
              simp only [hpath, hfault, hcontent] at h
              exact allowed_of_ofBytes h

/-! ### What is made of checked settings -/

/-- Where a path is there if it is needed, only the files can get in the way of a sink. -/
theorem openSink_of_allowed (h : s.SinkAllowed) (out : Outlets) :
    (∃ opened, s.openSink out = .ok opened) ∨ s.openSink out = .error .io := by
  unfold openSink
  cases hsink : s.sink with
  | stderr | discard => exact .inl ⟨_, rfl⟩
  | file =>
      obtain ⟨path, hpath⟩ := h.required hsink
      rw [hpath]
      cases hopen : out.files.openToAppend (Text.trimmed path) with
      | none => simp [hopen]
      | some opened => simp [hopen]

/-- The catalog of settings serves the text that was set for a phrase, or else the English one. -/
theorem lookup_catalog (s : Settings) (p : Phrase) (args : Arguments) :
    s.catalog.lookup component p.name args =
      .ok (Template.substitute ((s.strings.get? p.name).getD p.english) args) :=
  s.catalog.lookup_phrase p args

/-- A text that was set is served as it is. -/
theorem lookup_of_mem (h : s.Allowed) {e : String × String} (he : e ∈ s.strings.entries) :
    s.catalog.lookup component e.1 [] = .ok e.2 := by
  obtain ⟨⟨p, hp⟩, -⟩ := h.strings e he
  rw [← hp, lookup_catalog, hp, Table.get?_of_mem he, Option.getD_some, Template.substitute_nil]

theorem depth_le_of_allowed (h : s.NestingAllowed) {text : String} {f : Formula}
    (hread : Formula.parse s.limits text = .ok f) : f.depth ≤ 3 * 256 + 3 := by
  have hdepth := Formula.depth_le_of_parse hread
  have hnesting := h.2
  omega

/--
**The checks of settings are exact, and they suffice.**

Settings pass just if they are allowed, and otherwise the error is the first fault.

Settings that were read, from a text or from a file, are allowed.  So a sink they ask for is opened
unless the files get in the way, their catalog serves every phrase, in the text that was set if
there is one, and what is read under their limits is no deeper than a bound for all settings.
-/
theorem checks_exact_and_sufficient (s : Settings) :
    (∀ t, s.checked = .ok t ↔ t = s ∧ s.Allowed) ∧
    (∀ x, s.checked = .error x ↔ ∃ f, FirstFault s f ∧ x = .invalid f) ∧
    ((∃ text, ofToml text = .ok s) ∨
      (∃ files environment given, load files environment given = .ok s) →
      s.checked = .ok s ∧
      (∀ out, (∃ opened, s.openSink out = .ok opened) ∨ s.openSink out = .error .io) ∧
      (∀ p args, s.catalog.lookup component (Phrase.name p) args =
        .ok (Template.substitute ((s.strings.get? p.name).getD p.english) args)) ∧
      (∀ e ∈ s.strings.entries, s.catalog.lookup component e.1 [] = .ok e.2) ∧
      ∀ text f, Formula.parse s.limits text = .ok f → f.depth ≤ 3 * 256 + 3) := by
  refine ⟨fun t => checked_eq_ok_iff, fun x => checked_eq_error_iff, ?_⟩
  intro hread
  have hallowed : s.Allowed := by
    rcases hread with ⟨text, h⟩ | ⟨files, environment, given, h⟩
    · exact allowed_of_ofToml h
    · exact allowed_of_load h
  exact ⟨checked_eq_ok_iff.mpr ⟨rfl, hallowed⟩, openSink_of_allowed hallowed.sink,
    s.lookup_catalog, fun e => lookup_of_mem hallowed,
    fun text f => depth_le_of_allowed hallowed.nesting⟩

/-- A text with a limit, a file and a word of its own. -/
def loggingText : String :=
  "[formula]\nmax_nesting = 200\n[audit]\nsink = \"file\"\npath = \"  log \"\n" ++
    "[strings]\ncondition_operator_pretty_or = \"or else\""

/-- What that text sets. -/
def logging : Settings :=
  ⟨⟨65536, 200⟩, .file, some "  log ",
    Table.empty.insert "condition_operator_pretty_or" "or else"⟩

/-- Settings that are loaded from where the environment says pass.  Their file is made where the
path leads, blanks aside, and only a tree that has something else there gets in the way.  The word
that was set is served in its own form and another one in English.  With one more text, for a
phrase that there is none of, that is the first fault. -/
theorem checks_exact_and_sufficient_of_file_sink :
    load ⟨[(["conf"], .file loggingText.toUTF8)]⟩ (some "conf") none = .ok logging ∧
      logging.checked = .ok logging ∧
      (∀ out f, logging.openSink out ≠ .error (.invalid f)) ∧
      logging.openSink ⟨"", .empty⟩ = .ok (.file ["log"], ⟨"", ⟨[(["log"], .file .empty)]⟩⟩) ∧
      logging.openSink ⟨"", ⟨[(["log"], .directory)]⟩⟩ = .error .io ∧
      logging.catalog.lookup component "condition_operator_pretty_or" [] = .ok "or else" ∧
      logging.catalog.lookup component "condition_operator_pretty_and" [] = .ok "AND" ∧
      (∀ text f, Formula.parse logging.limits text = .ok f → f.depth ≤ 771) ∧
      { logging with strings := logging.strings.insert "x" "" }.checked =
        .error (.invalid (.unknownString "x")) := by
  have hread : ofToml loggingText = .ok logging := by
    have hdocument : Toml.document? loggingText = some
        [("formula", .table .header [("max_nesting", .integer ⟨false, 10, ['2', '0', '0']⟩)]),
          ("audit", .table .header [("sink", .string "file"), ("path", .string "  log ")]),
          ("strings", .table .header [("condition_operator_pretty_or", .string "or else")])] := by
      cbv
    rw [ofToml, hdocument]
    rfl
  have hload : load ⟨[(["conf"], .file loggingText.toUTF8)]⟩ (some "conf") none = .ok logging := by
    rw [← hread, ← ofBytes_toUTF8 (by decide)]
    rfl
  obtain ⟨hexact, -, hsuffice⟩ := checks_exact_and_sufficient logging
  obtain ⟨hchecked, hopened, hserved, hset, hdeep⟩ := hsuffice (.inr ⟨_, _, _, hload⟩)
  obtain ⟨-, hallowed⟩ := (hexact logging).mp hchecked
  have hword : ("condition_operator_pretty_or", "or else") ∈ logging.strings.entries :=
    List.mem_singleton.mpr rfl
  refine ⟨hload, hchecked, ?never, rfl, rfl, hset _ hword, ?english, hdeep, ?unknown⟩
  case never =>
    intro out f h
    rcases hopened out with ⟨opened, hok⟩ | hio
    · exact absurd (hok.symm.trans h) (by simp)
    · exact absurd (hio.symm.trans h) (by simp)
  case english =>
    refine (hserved .and []).trans ?_
    rw [Template.substitute_nil]
    rfl
  case unknown =>
    obtain ⟨-, hfaults, -⟩ := checks_exact_and_sufficient
      { logging with strings := logging.strings.insert "x" "" }
    refine (hfaults _).mpr ⟨_, .text (e := ("x", "")) hallowed.size hallowed.nesting
      ⟨hallowed.sink.required, hallowed.sink.path⟩ ?_
      (.unknown (Phrase.isNone_ofName?_iff.mp rfl)) ?_, rfl⟩
    · exact List.mem_pair.mpr (.inr rfl)
    · intro d hd hlt
      rcases List.mem_pair.mp hd with rfl | rfl
      · exact hallowed.strings _ hword
      · exact absurd hlt (String.lt_irrefl _)

-- A path is checked even where nothing goes to a file, and before the texts are.
example : fault? ⟨Limits.default, .discard, some " ", Table.empty.insert "x" "y"⟩ =
    some .pathEmpty := rfl

end Settings

end Prerequisite
