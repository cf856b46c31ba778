/-
Escaping for markup.

Five characters have a meaning in markup.  Each is written as an entity, and every other character
stands for itself.  The ampersand is among the five, so a text that already looks like an entity is
told apart from one that is.
-/
import Prerequisite.Text.Push

namespace Prerequisite.Text.Markup

/-- **How a character is written in markup.** -/
def escapeChar (c : Char) : List Char :=
  match c with
  | '&' => ['&', 'a', 'm', 'p', ';']
  | '<' => ['&', 'l', 't', ';']
  | '>' => ['&', 'g', 't', ';']
  | '"' => ['&', 'q', 'u', 'o', 't', ';']
  | '\'' => ['&', '#', '0', '3', '9', ';']
  | c => [c]

/-- Escapes the characters of a text. -/
def escape (s : List Char) : List Char := s.flatMap escapeChar

/-- The text that shows as the given one in markup. -/
def escaped (s : String) : String :=
  s.toList.foldl (fun out c => pushAll out (escapeChar c)) ""

/-- Escaping goes character by character. -/
theorem escape_append (s t : List Char) : escape (s ++ t) = escape s ++ escape t :=
  List.flatMap_append

/-- The two forms of escaping agree. -/
theorem toList_escaped (s : String) : (escaped s).toList = escape s.toList := by
  suffices h : ∀ (cs : List Char) (out : String),
      (cs.foldl (fun out c => pushAll out (escapeChar c)) out).toList =
        out.toList ++ escape cs by
    simpa [escaped] using h s.toList ""
  intro cs
  induction cs with
  | nil => simp [escape]
  | cons c cs ih =>
    intro out
    rw [List.foldl_cons, ih, toList_pushAll, List.append_assoc]
    rfl

end Prerequisite.Text.Markup
