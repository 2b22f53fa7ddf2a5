import PullLexer.Text.Basic

/-!
# Excerpts

Short forms of a text for diagnostics: its beginning, or its beginning with an
ellipsis where something was left out.
-/

namespace PullLexer.Text

/-- The first `bound` characters, none for a bound below one. -/
def excerpt (bound : Int) (t : Text) : Text := t.take bound.toNat

def ellipsis : Text := ['.', '.', '.']

/-- A text no longer than `width` unchanged, a longer one cut so that it and the ellipsis fit,
the ellipsis alone where they cannot. -/
def abbreviate (width : Int) (t : Text) : Text :=
  if (t.length : Int) ≤ width then t else t.take (width - 3).toNat ++ ellipsis

def usualWidth : Int := 20

theorem excerpt_nonpos {bound : Int} (t : Text) (h : bound ≤ 0) : t.excerpt bound = [] := by
  simp [excerpt, Int.toNat_of_nonpos h]

theorem excerpt_isPrefix (bound : Int) (t : Text) : t.excerpt bound <+: t := List.take_prefix _ _

theorem abbreviate_short {width : Int} {t : Text} (h : (t.length : Int) ≤ width) :
    t.abbreviate width = t := by
  simp [abbreviate, h]

theorem length_abbreviate_le {width : Int} {t : Text} (h : 3 ≤ width) :
    ((t.abbreviate width).length : Int) ≤ width := by
  unfold abbreviate
  split
  · assumption
  · simp only [List.length_append, List.length_take, ellipsis, List.length_cons, List.length_nil]
    omega

end PullLexer.Text
