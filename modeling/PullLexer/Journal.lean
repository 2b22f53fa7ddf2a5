import PullLexer.Value.Literal

/-!
# The journal

What a lexer writes down about its work, oldest record first. Nothing it does
depends on the journal.
-/

namespace PullLexer

inductive Record where
  | registered (rule : Text) (patterns : Nat)
  | matched (rule : Text) (index : Int) (text : Text)
  | nothingMatched (position : Int) (excerpt : Text)
  | discarded (tokens : Nat)
deriving DecidableEq

abbrev Journal := List Record

namespace Record

def message : Record → Text
  | .registered rule patterns =>
    "Registered rule ".toList ++ rule.quoted ++ " (".toList ++ Text.ofInt patterns ++
      " pattern(s))".toList
  | .matched rule index text =>
    "Matched ".toList ++ rule.quoted ++ " at ".toList ++ Text.ofInt index ++ ": ".toList ++
      (text.abbreviate Text.usualWidth).quoted
  | .nothingMatched position excerpt =>
    "No rule matched at position ".toList ++ Text.ofInt position ++ ": ".toList ++ excerpt.quoted
  | .discarded tokens =>
    "Discarding ".toList ++ Text.ofInt tokens ++ " queued token(s) on direct consume".toList

end Record

namespace Journal

/-- The name under which journals of this library are kept; names outside its own family are put
into it. -/
def channel (name : Text) : Text :=
  let family := "rulescan".toList
  if name = family || (family ++ ['.']).isPrefixOf name then name else family ++ '.' :: name

end Journal

end PullLexer
