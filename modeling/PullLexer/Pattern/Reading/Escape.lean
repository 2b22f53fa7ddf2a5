import PullLexer.Pattern.Reading.Basic

/-!
# Reading escapes

What a backslash and the symbol after it stand for: a character, a category of
characters, a condition on the place, or the text of an earlier group. Inside a
character set fewer of these are possible. Characters cannot be given by name:
there is no table of the names, and every name is refused as an undefined one.
-/

namespace PullLexer.Pattern.Reading

def hexEscape (letter : Char) (width : Nat) : Reading Nat := do
  let digits ← takeClass isHex width
  let escape := '\\' :: letter :: digits
  if digits.length ≠ width then fail escape.length (.incompleteEscape escape)
  let code := numeral 16 digits
  if 0x10FFFF < code then fail escape.length (.badEscape escape)
  return code

/-- An escape that names one character wherever it stands. -/
def characterEscape (c : Char) : Reading Nat := do
  match c with
  | 'x' => hexEscape c 2
  | 'u' => hexEscape c 4
  | 'U' => hexEscape c 8
  | 'N' =>
    if !(← accept '{') then fail 0 (.missing ['{'])
    let name ← readName '}' "character name".toList
    fail (name.length + 4) (.noSuchCharacter name)
  | _ =>
    if CharClass.isAsciiLetter c.toNat || isDigit c then fail 2 (.badEscape ['\\', c])
    return c.toNat

def controlEscape? : Char → Option Nat
  | 'a' => some 7
  | 'f' => some 12
  | 'n' => some 10
  | 'r' => some 13
  | 't' => some 9
  | 'v' => some 11
  | '\\' => some 92
  | _ => none

def categoryEscape? (flags : Flags) : Char → Option Member
  | 'd' => some (.category flags.ascii false .digit)
  | 'D' => some (.category flags.ascii true .digit)
  | 's' => some (.category flags.ascii false .space)
  | 'S' => some (.category flags.ascii true .space)
  | 'w' => some (.category flags.ascii false .word)
  | 'W' => some (.category flags.ascii true .word)
  | _ => none

def assertionEscape? (flags : Flags) : Char → Option Assertion
  | 'A' => some .textStart
  | 'Z' => some .textEnd
  | 'b' => some (.boundary flags.ascii false)
  | 'B' => some (.boundary flags.ascii true)
  | _ => none

def octalCode (digits : Text) : Reading Nat := do
  let code := numeral 8 digits
  if 0xFF < code then fail (digits.length + 1) (.octalTooLarge ('\\' :: digits))
  return code

def setEscape (flags : Flags) (c : Char) : Reading Member := do
  if c = 'b' then return .code 8
  if let some code := controlEscape? c then return .code code
  if let some category := categoryEscape? flags c then return category
  if isOctal c then
    return .code (← octalCode (c :: (← takeClass isOctal 2)))
  return .code (← characterEscape c)

def casing (flags : Flags) : Casing :=
  if !flags.ignoreCase then .exact else if flags.ascii then .ignoreAscii else .ignore

/-- Refers to a group inside a look-behind, which may only look at groups closed before it. -/
def checkLookBehind (n : Nat) : Reading Unit := do
  let reader ← get
  if let some first := reader.lookBehindFrom then
    if !reader.closed.any (·.1 == n) then fail 0 .openGroup
    if first ≤ n then fail 0 .groupOfSameLookBehind

/-- A reference to a group by number, `width` characters long in the source. -/
def reference (flags : Flags) (n width : Nat) : Reading Expr := do
  let reader ← get
  if reader.opened < n then fail (width - 1) (.noSuchGroup n)
  if !reader.closed.any (·.1 == n) then fail width .openGroup
  checkLookBehind n
  return .again (casing flags) n

/-- An escape that starts with a digit other than zero: three octal digits name a character, any
other number names a group. -/
def numberEscape (flags : Flags) (c : Char) : Reading Expr := do
  match ← takeClass isDigit 1 with
  | [d] =>
    if isOctal c && isOctal d then
      if let [e] ← takeClass isOctal 1 then
        return .one (.literal (casing flags) (← octalCode [c, d, e]))
    reference flags (numeral 10 [c, d]) 3
  | _ => reference flags (numeral 10 [c]) 2

/-- What a piece of a sequence is to the repeat sign that may follow it. -/
inductive PieceKind where
  | anchor
  | repetition
  | plain
deriving DecidableEq

structure Piece where
  kind : PieceKind
  expr : Expr

/-- The pieces of a sequence, latest first, as one expression. -/
def joined (pieces : List Piece) : Expr :=
  match pieces with
  | [] => .empty
  | last :: earlier => earlier.foldl (fun e piece => .seq piece.expr e) last.expr

def escape (flags : Flags) (c : Char) : Reading Piece := do
  if let some a := assertionEscape? flags c then return ⟨.anchor, .assertion a⟩
  if let some category := categoryEscape? flags c then
    return ⟨.plain, .one (.set (casing flags) false [category])⟩
  if let some code := controlEscape? c then
    return ⟨.plain, .one (.literal (casing flags) code)⟩
  if c = '0' then
    let digits ← takeClass isOctal 2
    return ⟨.plain, .one (.literal (casing flags) (numeral 8 digits))⟩
  if isDigit c then return ⟨.plain, ← numberEscape flags c⟩
  return ⟨.plain, .one (.literal (casing flags) (← characterEscape c))⟩

end PullLexer.Pattern.Reading
