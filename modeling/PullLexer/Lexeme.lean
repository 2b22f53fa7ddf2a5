import PullLexer.Pattern.Basic

/-!
# Lexemes

A lexeme is a stretch of the input that a pattern matched, with what the groups
of the pattern captured. Its index counts from the start of the input. A lexeme
may also be written down by a caller, who can give it any index and any text.
-/

namespace PullLexer

structure Lexeme where
  text : Text
  index : Int
  groups : List (Option Text) := []
  named : List (Text × Option Text) := []
deriving DecidableEq, Inhabited

namespace Lexeme

def stop (l : Lexeme) : Int := l.index + l.text.length

/-- The lexeme of a match taken from a text that starts at `index`. -/
def ofMatch (m : Pattern.Match) (index : Int) : Lexeme :=
  ⟨m.text, index + m.start, m.groups, m.named⟩

/-- Two lexemes agree when their texts, places and numbered groups do. -/
def agrees (a b : Lexeme) : Bool := a.text == b.text && a.index == b.index && a.groups == b.groups

/-- A group by number: zero is the whole text, and numbers from one name the groups in order. A
negative number counts the groups from the end, where minus one names the last but one. -/
def group? (l : Lexeme) (n : Int) : Option (Option Text) :=
  if n = 0 then some (some l.text)
  else
    let place := if n - 1 < 0 then n - 1 + l.groups.length else n - 1
    if place < 0 then none else l.groups[place.toNat]?

def named? (l : Lexeme) (name : Text) : Option (Option Text) :=
  (l.named.find? (·.1 == name)).map (·.2)

theorem text_ofMatch (m : Pattern.Match) (index : Int) : (ofMatch m index).text = m.text := rfl

theorem stop_ofMatch (m : Pattern.Match) (index : Int) :
    (ofMatch m index).stop = index + m.start + m.text.length := rfl

theorem agrees_refl (l : Lexeme) : l.agrees l = true := by simp [agrees]

end Lexeme

end PullLexer
