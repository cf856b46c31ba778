/-
Writing characters onto a string.

Strings are built by appending, and reasoned about as lists of characters.  The lemma below is the
bridge: the characters of what was built are those written, in order.
-/
namespace Prerequisite.Text

/-- Appends characters to a string. -/
def pushAll (out : String) (cs : List Char) : String := cs.foldl String.push out

/-- **Appended characters come last, in their order.** -/
@[simp] theorem toList_pushAll (out : String) (cs : List Char) :
    (pushAll out cs).toList = out.toList ++ cs := by
  induction cs generalizing out with
  | nil => simp [pushAll]
  | cons c cs ih => rw [pushAll, List.foldl_cons, ← pushAll, ih, String.toList_push]; simp

end Prerequisite.Text
