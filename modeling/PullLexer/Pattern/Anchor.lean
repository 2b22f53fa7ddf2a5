import PullLexer.Pattern.Basic

/-!
# Anchored patterns

A lexer takes only patterns whose source says that they match at the start of
the text: an anchor comes first, or right after one group of flags for the
whole pattern.
-/

namespace PullLexer.Pattern

def isAnchorFlag (c : Char) : Bool := ['a', 'i', 'L', 'm', 's', 'u', 'x'].contains c

/-- A source without the flag group that opens it. -/
def dropFlagGroup (source : Text) : Text :=
  match source with
  | '(' :: '?' :: rest =>
    match rest.takeWhile isAnchorFlag, rest.dropWhile isAnchorFlag with
    | _ :: _, ')' :: body => body
    | _, _ => source
  | _ => source

def opensWithAnchor : Text → Bool
  | '^' :: _ => true
  | '\\' :: 'A' :: _ => true
  | _ => false

def isAnchoredSource (source : Text) : Bool := opensWithAnchor (dropFlagGroup source)

def isAnchored (p : Pattern) : Bool := isAnchoredSource p.source

end PullLexer.Pattern
