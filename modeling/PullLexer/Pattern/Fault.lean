import PullLexer.Text.Quoted

/-!
# Faults in a pattern

Why the source of a pattern cannot be read, and where. Positions count
characters from the start of the source; the wording adds line and column when
the source has more than one line.
-/

namespace PullLexer.Pattern

inductive Problem where
  | endsInEscape
  | badEscape (escape : Text)
  | incompleteEscape (escape : Text)
  | octalTooLarge (escape : Text)
  | noSuchCharacter (name : Text)
  | missing (what : Text)
  | unterminatedName (terminator : Char)
  | unterminatedGroup
  | unterminatedComment
  | unterminatedSet
  | badRange (lo hi : Text)
  | boundsReversed
  | nothingToRepeat
  | multipleRepeat
  | unexpectedEnd
  | unknownExtension (head : Text)
  | badGroupName (name : Text)
  | unknownGroup (name : Text)
  | groupZero
  | noSuchGroup (n : Nat)
  | openGroup
  | groupOfSameLookBehind
  | groupRedefined (name : Text) (n was : Nat)
  | tooManyBranches
  | flagsTooLate
  | localeFlag
  | charsetClash
  | charsetTurnedOff
  | flagOnAndOff
  | unknownFlag
  | unbalanced
  | widthVaries
  /-- A number of rounds that cannot be counted. -/
  | tooManyRounds
  /-- Two separate flag groups ask for different character sets. -/
  | charsetsCombined
  /-- The source is deeper than the bound computed from its length, which no source is. -/
  | tooDeep
deriving DecidableEq, Repr

namespace Problem

def wording : Problem → Text
  | .endsInEscape => "bad escape (end of pattern)".toList
  | .badEscape escape => "bad escape ".toList ++ escape
  | .incompleteEscape escape => "incomplete escape ".toList ++ escape
  | .octalTooLarge escape =>
    "octal escape value ".toList ++ escape ++ " outside of range 0-0o377".toList
  | .noSuchCharacter name => "undefined character name ".toList ++ name.quoted
  | .missing what => "missing ".toList ++ what
  | .unterminatedName terminator => "missing ".toList ++ terminator :: ", unterminated name".toList
  | .unterminatedGroup => "missing ), unterminated subpattern".toList
  | .unterminatedComment => "missing ), unterminated comment".toList
  | .unterminatedSet => "unterminated character set".toList
  | .badRange lo hi => "bad character range ".toList ++ lo ++ '-' :: hi
  | .boundsReversed => "min repeat greater than max repeat".toList
  | .nothingToRepeat => "nothing to repeat".toList
  | .multipleRepeat => "multiple repeat".toList
  | .unexpectedEnd => "unexpected end of pattern".toList
  | .unknownExtension head => "unknown extension ?".toList ++ head
  | .badGroupName name => "bad character in group name ".toList ++ name.quoted
  | .unknownGroup name => "unknown group name ".toList ++ name.quoted
  | .groupZero => "bad group number".toList
  | .noSuchGroup n => "invalid group reference ".toList ++ (toString n).toList
  | .openGroup => "cannot refer to an open group".toList
  | .groupOfSameLookBehind =>
    "cannot refer to group defined in the same lookbehind subpattern".toList
  | .groupRedefined name n was =>
    "redefinition of group name ".toList ++ name.quoted ++ " as group ".toList ++
      (toString n).toList ++ "; was group ".toList ++ (toString was).toList
  | .tooManyBranches => "conditional backref with more than two branches".toList
  | .flagsTooLate => "global flags not at the start of the expression".toList
  | .localeFlag => "bad inline flags: cannot use 'L' flag with a str pattern".toList
  | .charsetClash => "bad inline flags: flags 'a', 'u' and 'L' are incompatible".toList
  | .charsetTurnedOff => "bad inline flags: cannot turn off flags 'a', 'u' and 'L'".toList
  | .flagOnAndOff => "bad inline flags: flag turned on and off".toList
  | .unknownFlag => "unknown flag".toList
  | .unbalanced => "unbalanced parenthesis".toList
  | .widthVaries => "look-behind requires fixed-width pattern".toList
  | .tooManyRounds => "the repetition number is too large".toList
  | .charsetsCombined => "ASCII and UNICODE flags are incompatible".toList
  | .tooDeep => "pattern too deep".toList

end Problem

structure Fault where
  problem : Problem
  position : Option Nat
deriving DecidableEq, Repr

namespace Fault

/-- The characters since the last newline before `position`, counted from one. -/
def column (source : Text) (position : Nat) : Nat :=
  ((source.take position).reverse.takeWhile (· != '\n')).length + 1

def line (source : Text) (position : Nat) : Nat := (source.take position).count '\n' + 1

def wording (source : Text) (fault : Fault) : Text :=
  match fault.position with
  | none => fault.problem.wording
  | some position =>
    let place := " at position ".toList ++ (toString position).toList
    let grid :=
      if source.contains '\n' then
        " (line ".toList ++ (toString (line source position)).toList ++ ", column ".toList ++
          (toString (column source position)).toList ++ [')']
      else []
    fault.problem.wording ++ place ++ grid

end Fault

end PullLexer.Pattern
