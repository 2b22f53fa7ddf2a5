import PullLexer.Text.Basic
import PullLexer.Text.CharClass

/-!
# Pattern expressions

The expression that a pattern stands for once its flags are applied: every
character test carries its own way of comparing letters. Literals are code
points, because an escape can name one that is no character.
-/

namespace PullLexer

/-- The modes a pattern is read under. -/
structure Flags where
  ignoreCase : Bool := false
  multiline : Bool := false
  dotAll : Bool := false
  unicode : Bool := false
  verbose : Bool := false
  ascii : Bool := false
deriving DecidableEq, Repr, Inhabited

namespace Flags

def none : Flags := {}

def union (a b : Flags) : Flags :=
  ⟨a.ignoreCase || b.ignoreCase, a.multiline || b.multiline, a.dotAll || b.dotAll,
    a.unicode || b.unicode, a.verbose || b.verbose, a.ascii || b.ascii⟩

def inter (a b : Flags) : Flags :=
  ⟨a.ignoreCase && b.ignoreCase, a.multiline && b.multiline, a.dotAll && b.dotAll,
    a.unicode && b.unicode, a.verbose && b.verbose, a.ascii && b.ascii⟩

def diff (a b : Flags) : Flags :=
  ⟨a.ignoreCase && !b.ignoreCase, a.multiline && !b.multiline, a.dotAll && !b.dotAll,
    a.unicode && !b.unicode, a.verbose && !b.verbose, a.ascii && !b.ascii⟩

/-- The flags that choose a character set; at most one of them holds at a time. -/
def charset : Flags := { unicode := true, ascii := true }

/-- The flags inside a group that turns some on and some off. A character set that is turned on
replaces the one in force. -/
def adjust (flags on off : Flags) : Flags :=
  let base := if on.unicode || on.ascii then flags.diff charset else flags
  (base.union on).diff off

/-- The flag that a letter turns on. -/
def ofLetter? : Char → Option Flags
  | 'i' => some { ignoreCase := true }
  | 'm' => some { multiline := true }
  | 's' => some { dotAll := true }
  | 'u' => some { unicode := true }
  | 'x' => some { verbose := true }
  | 'a' => some { ascii := true }
  | _ => Option.none

/-- The weight of each flag in the number that stands for a set of them. -/
def toNat (flags : Flags) : Nat :=
  let weigh (on : Bool) (weight : Nat) := if on then weight else 0
  weigh flags.ignoreCase 2 + weigh flags.multiline 8 + weigh flags.dotAll 16 +
    weigh flags.unicode 32 + weigh flags.verbose 64 + weigh flags.ascii 256

end Flags

namespace Pattern

inductive Casing where
  | exact
  | ignoreAscii
  | ignore
deriving DecidableEq, Repr

namespace Casing

def fold : Casing → Nat → Nat
  | .exact, code => code
  | .ignoreAscii, code => CharClass.lowerAscii code
  | .ignore, code => CharClass.lower code

def unfold : Casing → Nat → Nat
  | .exact, code => code
  | .ignoreAscii, code => CharClass.upperAscii code
  | .ignore, code => CharClass.upper code

def same (casing : Casing) (a b : Nat) : Bool := casing.fold a == casing.fold b

theorem same_refl (casing : Casing) (code : Nat) : casing.same code code = true := by
  simp [same]

end Casing

inductive Category where
  | digit
  | space
  | word
deriving DecidableEq, Repr

def Category.has (ascii : Bool) : Category → Nat → Bool
  | .digit, code => if ascii then CharClass.isAsciiDigit code else CharClass.isDecimal code
  | .space, code => if ascii then CharClass.isAsciiSpace code else CharClass.isSpace code
  | .word, code => if ascii then CharClass.isAsciiWord code else CharClass.isWord code

inductive Member where
  | code (n : Nat)
  | range (lo hi : Nat)
  | category (ascii negated : Bool) (c : Category)
deriving DecidableEq, Repr

def Member.has (casing : Casing) (code : Nat) : Member → Bool
  | .code n => casing.same n code
  | .range lo hi =>
    let within (c : Nat) := lo ≤ c && c ≤ hi
    within code || within (casing.fold code) || within (casing.unfold (casing.fold code))
  | .category ascii negated c => c.has ascii code != negated

inductive CharTest where
  | any
  | notNewline
  | literal (casing : Casing) (code : Nat)
  | set (casing : Casing) (negated : Bool) (members : List Member)
deriving DecidableEq, Repr

def CharTest.accepts (code : Nat) : CharTest → Bool
  | .any => true
  | .notNewline => code != 10
  | .literal casing n => casing.same n code
  | .set casing negated members => members.any (Member.has casing code) != negated

/-- A condition on a place in the text. -/
inductive Assertion where
  | textStart
  | lineStart
  | textEnd
  | lineEnd
  /-- The end of the text, or before a newline that ends it. -/
  | lastLineEnd
  | boundary (ascii negated : Bool)
deriving DecidableEq, Repr

/-- Which number of rounds a loop tries first, and whether it may give rounds back. -/
inductive Greed where
  | greedy
  | lazy
  | possessive
deriving DecidableEq, Repr

inductive Expr where
  | empty
  /-- Matches nowhere. -/
  | never
  | one (test : CharTest)
  | assertion (a : Assertion)
  | seq (first second : Expr)
  | alt (first second : Expr)
  | group (n : Nat) (body : Expr)
  | loop (least : Nat) (most : Option Nat) (greed : Greed) (body : Expr)
  /-- The text that group `n` captured. -/
  | again (casing : Casing) (n : Nat)
  | ahead (negated : Bool) (body : Expr)
  /-- A look at the `width` characters before the place. -/
  | behind (width : Nat) (negated : Bool) (body : Expr)
  /-- `present` if group `n` captured a text, else `absent`. -/
  | given (n : Nat) (present absent : Expr)
  | atomic (body : Expr)
deriving DecidableEq, Repr, Inhabited

end Pattern

end PullLexer
