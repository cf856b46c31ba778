/-
The log of events.

A session opens the file of the log and writes one line for each of its events.  Nothing that was
there before is touched, whichever session wrote it: what the file holds in the end is what it held
at first and then the lines, in the order of the events (`Logged`).

That the lines can be told apart rests on how texts are written.  An event may carry any text, line
feeds included, but none of them gets into its line: a plain value is written without control
characters, and in UTF-8 the byte of a line feed stands for nothing else.  And what is read from a
line says all there is to the event, so it says it of no other one (`ToldBy.unique`).
-/
import Mathlib.Tactic
import Prerequisite.Audit.Sink
import Prerequisite.Proofs.FileTree
import Prerequisite.Proofs.Json.Reading
import Prerequisite.Proofs.Text.Bytes

namespace Prerequisite

/-! ### Bytes of texts -/

namespace Text

/-- The byte of a line feed. -/
def lineFeed : UInt8 := 10

theorem bytes_push_lineFeed (s : String) : bytes (s.push '\n') = bytes s ++ [lineFeed] := by
  rw [bytes_eq, bytes_eq, String.toList_push, List.flatMap_append]
  rfl

end Text

open Text

/-! ### What an event is written as -/

/-- How a severity is spelled. -/
inductive Severity.Spelled : Severity → String → Prop
  | info : Spelled .info "info"
  | warning : Spelled .warning "warning"
  | error : Spelled .error "error"

/-- How a scope is spelled. -/
inductive Scope.Spelled : Scope → String → Prop
  | courseSection : Spelled .courseSection "section"
  | room : Spelled .room "room"

namespace AuditEvent

/-- **What a value says about an event:** ten fields, those it says nothing about being null. -/
structure ToldBy (e : AuditEvent) (v : Json) : Prop where
  name : v.field? "event" = some (.string e.name)
  time : v.field? "timestamp_ms" = some (.nat e.time.toNat)
  /-- The severity is spelled as usual, and is known by that. -/
  severity : ∃ text, v.field? "level" = some (.string text) ∧ e.severity.Spelled text ∧
    Severity.ofName? text = some e.severity
  component : v.field? "component" = some (.string "availability_adler")
  /-- So is the scope. -/
  scope : ∃ text, v.field? "scope" = some (.string text) ∧ e.scope.Spelled text ∧
    Scope.ofName? text = some e.scope
  formula : v.field? "formula" = some (.string e.formula)
  user : v.field? "user_id" = some (e.user.elim .null fun u => .nat u.number.toNat)
  restore : v.field? "restore_id" = some (e.restore.elim .null fun r => .string r.name)
  sectionId : v.field? "section_id" = some (e.sectionId.elim .null fun s => .nat s.number.toNat)
  message : v.field? "message" = some (.string e.message)
  nothingElse : ∃ fields, v = .object fields ∧ fields.length = 10

theorem nat_inj {m n : UInt64} (h : Json.nat m.toNat = Json.nat n.toNat) : m = n := by
  injection h with h
  injection h with h
  exact UInt64.toNat_inj.mp (Int.ofNat.inj h)

/-- What may be missing is known by a value that is null only if it is. -/
theorem elim_null_inj {α : Type} {write : α → Json} (hnull : ∀ a, write a ≠ .null)
    (hinj : ∀ a b, write a = write b → a = b) {x y : Option α}
    (h : x.elim .null write = y.elim .null write) : x = y := by
  cases x with
  | none =>
      cases y with
      | none => rfl
      | some b => exact absurd h.symm (hnull b)
  | some a =>
      cases y with
      | none => exact absurd h (hnull a)
      | some b => exact congrArg some (hinj a b h)

section

variable {e e' : AuditEvent} {v : Json}

theorem ToldBy.severity_eq (h : e.ToldBy v) (h' : e'.ToldBy v) : e.severity = e'.severity := by
  obtain ⟨text, htext, -, hknown⟩ := h.severity
  obtain ⟨text', htext', -, hknown'⟩ := h'.severity
  obtain rfl : text = text' := Json.string.inj (Option.some.inj (htext.symm.trans htext'))
  exact Option.some.inj (hknown.symm.trans hknown')

theorem ToldBy.scope_eq (h : e.ToldBy v) (h' : e'.ToldBy v) : e.scope = e'.scope := by
  obtain ⟨text, htext, -, hknown⟩ := h.scope
  obtain ⟨text', htext', -, hknown'⟩ := h'.scope
  obtain rfl : text = text' := Json.string.inj (Option.some.inj (htext.symm.trans htext'))
  exact Option.some.inj (hknown.symm.trans hknown')

theorem ToldBy.user_eq (h : e.ToldBy v) (h' : e'.ToldBy v) : e.user = e'.user :=
  elim_null_inj (fun _ => Json.noConfusion) (fun _ _ hn => congrArg UserId.mk (nat_inj hn))
    (Option.some.inj (h.user.symm.trans h'.user))

theorem ToldBy.restore_eq (h : e.ToldBy v) (h' : e'.ToldBy v) : e.restore = e'.restore :=
  elim_null_inj (fun _ => Json.noConfusion)
    (fun _ _ hs => congrArg RestoreId.mk (Json.string.inj hs))
    (Option.some.inj (h.restore.symm.trans h'.restore))

theorem ToldBy.sectionId_eq (h : e.ToldBy v) (h' : e'.ToldBy v) : e.sectionId = e'.sectionId :=
  elim_null_inj (fun _ => Json.noConfusion) (fun _ _ hn => congrArg SectionId.mk (nat_inj hn))
    (Option.some.inj (h.sectionId.symm.trans h'.sectionId))

/-- **A value tells one event only.** -/
theorem ToldBy.unique (h : e.ToldBy v) (h' : e'.ToldBy v) : e = e' := by
  have htext : ∀ {name s s' : String}, v.field? name = some (.string s) →
      v.field? name = some (.string s') → s = s' := by
    intro name s s' hs hs'
    exact Json.string.inj (Option.some.inj (hs.symm.trans hs'))
  have hname := htext h.name h'.name
  have htime := nat_inj (Option.some.inj (h.time.symm.trans h'.time))
  have hseverity := h.severity_eq h'
  have hscope := h.scope_eq h'
  have hformula := htext h.formula h'.formula
  have huser := h.user_eq h'
  have hrestore := h.restore_eq h'
  have hsection := h.sectionId_eq h'
  have hmessage := htext h.message h'.message
  cases e
  cases e'
  simp only at hname htime hseverity hscope hformula huser hrestore hsection hmessage
  subst hname htime hseverity hscope hformula huser hrestore hsection hmessage
  rfl

end

theorem plain_toJson (e : AuditEvent) : e.toJson.Plain := by
  have hnat : ∀ n : UInt64, (Json.nat n.toNat).Plain := by
    intro n
    have hlt := n.toNat_lt_size
    exact .whole (by omega) (by omega)
  refine .object fun f hf => ?_
  simp only [List.mem_cons, List.not_mem_nil, or_false] at hf
  rcases hf with rfl | rfl | rfl | rfl | rfl | rfl | rfl | rfl | rfl | rfl
  case inr.inl => exact hnat _
  case inr.inr.inr.inr.inr.inr.inl =>
    cases e.user with
    | none => exact .null
    | some u => exact hnat _
  case inr.inr.inr.inr.inr.inr.inr.inl =>
    cases e.restore with
    | none => exact .null
    | some r => exact .string _
  case inr.inr.inr.inr.inr.inr.inr.inr.inl =>
    cases e.sectionId with
    | none => exact .null
    | some s => exact hnat _
  all_goals exact .string _

end AuditEvent

/-! ### What a session does to the log -/

/-- The bytes of the file that a path leads to; one that is not there yet has none. -/
def Outlets.content (out : Outlets) (path : String) : List UInt8 :=
  ((out.files.read? path).getD .empty).data.toList

namespace Sink

/-- **A session of the log under a path:** opens its file and writes events. -/
def session (path : String) (out : Outlets) (events : List AuditEvent) : Option Outlets :=
  (out.files.openToAppend path).map fun opened =>
    (Sink.file opened.1).recordAll { out with files := opened.2 } events

/-- **The file that a path leads to has some bytes,** and nothing else is changed. -/
structure Logged (base : Outlets) (path : String) (l : Location) (content : List UInt8)
    (out : Outlets) : Prop where
  file : ∃ c, out.files.follow path = some (.taken l (.file c)) ∧ c.data.toList = content
  elsewhere : ∀ k ≠ l, out.files.get? k = base.files.get? k
  stderr : out.stderr = base.stderr

section

variable {base out : Outlets} {path : String} {l : Location} {content : List UInt8}

/-- An event is one more line at the end. -/
theorem Logged.record (h : Logged base path l content out) (e : AuditEvent) :
    Logged base path l (content ++ (bytes e.text ++ [lineFeed])) ((Sink.file l).record out e) := by
  obtain ⟨c, hc, rfl⟩ := h.file
  have hget : out.files.get? l = some (.file c) := FileTree.get?_of_follow hc
  have hne : l ≠ [] := by
    rintro rfl
    exact absurd hget (by simp [FileTree.get?])
  have happend : out.files.append l (line e).toUTF8 =
      out.files.put l (.file (c ++ (line e).toUTF8)) := by
    unfold FileTree.append
    rw [hget]
  unfold record
  simp only [happend]
  refine ⟨⟨_, FileTree.follow_put hc (by simp [FileTree.Place.entry?]) _, ?_⟩, ?_, h.stderr⟩
  · rw [ByteArray.toList_data_append, ← bytes_push_lineFeed]
    rfl
  · intro k hk
    show (out.files.put l _).get? k = _
    rw [FileTree.get?_put hne, if_neg hk]
    exact h.elsewhere k hk

/-- The bytes of the lines of events. -/
def lines (events : List AuditEvent) : List UInt8 :=
  events.flatMap fun e => bytes e.text ++ [lineFeed]

theorem Logged.recordAll (h : Logged base path l content out) (events : List AuditEvent) :
    Logged base path l (content ++ lines events) ((Sink.file l).recordAll out events) := by
  induction events generalizing content out with
  | nil => simpa [lines, Sink.recordAll] using h
  | cons e events ih =>
      have hrest := ih (h.record e)
      rwa [List.append_assoc] at hrest

/-- A session adds its lines to a log that is there. -/
theorem Logged.session (h : Logged base path l content out) (events : List AuditEvent) :
    ∃ out', Sink.session path out events = some out' ∧
      Logged base path l (content ++ lines events) out' := by
  obtain ⟨c, hc, -⟩ := h.file
  have hopen : out.files.openToAppend path = some (l, out.files) := by
    unfold FileTree.openToAppend
    rw [hc]
  refine ⟨(Sink.file l).recordAll out events, ?_, h.recordAll events⟩
  unfold Sink.session
  rw [hopen]
  rfl

theorem Logged.sessions (h : Logged base path l content out) (ss : List (List AuditEvent)) :
    ∃ out', ss.foldlM (Sink.session path) out = some out' ∧
      Logged base path l (content ++ lines ss.flatten) out' := by
  induction ss generalizing content out with
  | nil => exact ⟨out, rfl, by simpa [lines] using h⟩
  | cons events ss ih =>
      obtain ⟨mid, hmid, hlogged⟩ := h.session events
      obtain ⟨out', hout, hdone⟩ := ih hlogged
      refine ⟨out', ?_, ?_⟩
      · rw [List.foldlM_cons, hmid]
        exact hout
      · rw [List.flatten_cons, lines, List.flatMap_append]
        rwa [List.append_assoc] at hdone

end

/-! ### Telling the lines apart -/

end Sink

end Prerequisite
