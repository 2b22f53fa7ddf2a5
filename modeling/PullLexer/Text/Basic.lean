/-!
# Texts

A text is a list of characters: every offset and length of the library counts
characters. A cut at a negative offset counts from the end, and a cut outside
the text is clamped to it.
-/

namespace PullLexer

abbrev Text := List Char

namespace Text

/-- The text after the first `offset` characters; a negative offset counts from the end. -/
def after (offset : Int) (t : Text) : Text :=
  if 0 ≤ offset then t.drop offset.toNat else t.drop (t.length - offset.natAbs)

@[simp]
theorem after_zero (t : Text) : t.after 0 = t := by simp [after]

theorem after_natCast (n : Nat) (t : Text) : t.after n = t.drop n := by simp [after]

theorem after_suffix (offset : Int) (t : Text) : t.after offset <:+ t := by
  unfold after
  split <;> exact List.drop_suffix _ _

end Text

end PullLexer
