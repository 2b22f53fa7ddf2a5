import PullLexer.Pattern.Fault
import PullLexer.Pattern.Width

/-!
# Reading symbols

The source of a pattern is read symbol by symbol; a backslash and the
character after it are one symbol. The reader keeps the groups met so far, so
that a reference is checked where it stands, and notes the references that may
only be checked once the whole source is read.
-/

namespace PullLexer.Pattern

inductive Sym where
  | char (c : Char)
  | escaped (c : Char)
deriving DecidableEq

def Sym.text : Sym → Text
  | .char c => [c]
  | .escaped c => ['\\', c]

structure Reader where
  size : Nat
  rest : Text
  offset : Nat
  flags : Flags
  opened : Nat
  closed : List (Nat × Width)
  names : List (Text × Nat)
  /-- The first group that opened inside the look-behind being read. -/
  lookBehindFrom : Option Nat
  /-- Groups that conditions name by number, with the positions of the numbers, latest first. -/
  promised : List (Nat × Nat)
  varies : Bool

abbrev Reading := StateT Reader (Except Fault)

namespace Reading

def failAt {α : Type} (position : Nat) (problem : Problem) : Reading α :=
  throw ⟨problem, some position⟩

/-- Fails at `back` characters before the symbol that is next. -/
def fail {α : Type} (back : Nat) (problem : Problem) : Reading α := do
  failAt ((← get).offset - back) problem

def offset : Reading Nat := do return (← get).offset

def peek : Reading (Option Sym) := do
  match (← get).rest with
  | [] => return none
  | '\\' :: c :: _ => return some (.escaped c)
  | c :: _ => return some (.char c)

/-- A backslash that ends the source is refused as soon as it is next. -/
def checkEnd : Reading Unit := do
  let reader ← get
  if reader.rest = ['\\'] then failAt (reader.size - 1) .endsInEscape

def next : Reading (Option Sym) := do
  match ← peek with
  | none => return none
  | some symbol =>
    let width := symbol.text.length
    modify fun reader =>
      { reader with rest := reader.rest.drop width, offset := reader.offset + width }
    checkEnd
    return some symbol

def accept (c : Char) : Reading Bool := do
  if (← peek) = some (.char c) then
    let _ ← next
    return true
  return false

/-- Reads up to `bound` symbols that are characters of a class. -/
def takeClass (within : Char → Bool) : (bound : Nat) → Reading Text
  | 0 => return []
  | bound + 1 => do
    match ← peek with
    | some (.char c) =>
      if within c then
        let _ ← next
        return c :: (← takeClass within bound)
      return []
    | _ => return []

/-- Reads up to and including `terminator`, which is not part of the result. -/
def takeUntil (terminator : Char) (what : Text) : (bound : Nat) → Text → Reading Text
  | 0, _ => fail 0 .tooDeep
  | bound + 1, taken => do
    match ← next with
    | none =>
      if taken.isEmpty then fail 0 (.missing what)
      else fail taken.length (.unterminatedName terminator)
    | some symbol =>
      if symbol = .char terminator then
        if taken.isEmpty then fail 1 (.missing what) else return taken
      else takeUntil terminator what bound (taken ++ symbol.text)

/-- Reads symbols until one that is `last`; tells whether it was there. -/
def skipPast (last : Char) : (bound : Nat) → Reading Bool
  | 0 => return false
  | bound + 1 => do
    match ← next with
    | none => return false
    | some symbol => if symbol = .char last then return true else skipPast last bound

def readName (terminator : Char) (what : Text) : Reading Text := do
  takeUntil terminator what ((← get).rest.length + 1) []

/-! ## Numbers -/

def isOctal (c : Char) : Bool := '0' ≤ c && c ≤ '7'

def isDigit (c : Char) : Bool := CharClass.isAsciiDigit c.toNat

def isHex (c : Char) : Bool := isDigit c || ('a' ≤ c && c ≤ 'f') || ('A' ≤ c && c ≤ 'F')

def digitValue (c : Char) : Nat :=
  if isDigit c then c.toNat - 0x30
  else if 'a' ≤ c && c ≤ 'z' then c.toNat - 0x57
  else c.toNat - 0x37

def numeral (base : Nat) (digits : Text) : Nat :=
  digits.foldl (fun n c => n * base + digitValue c) 0

def scriptDigit? (c : Char) : Option Nat :=
  (CharClass.decimals.find? fun range => range.1 ≤ c.toNat && c.toNat ≤ range.2).map
    fun range => c.toNat - range.1

/-- Digits in which single low lines may separate. -/
def separatedDigits? : Text → Option Nat
  | [] => none
  | c :: rest => do go (← scriptDigit? c) rest
where
  go (n : Nat) : Text → Option Nat
    | [] => some n
    | '_' :: c :: rest => do go (n * 10 + (← scriptDigit? c)) rest
    | c :: rest => do go (n * 10 + (← scriptDigit? c)) rest

/-- A group number as a condition may write it: blanks around it, a sign, separated digits. -/
def groupNumber? (t : Text) : Option Nat :=
  let isBlank (c : Char) := CharClass.isSpace c.toNat
  match ((t.dropWhile isBlank).reverse.dropWhile isBlank).reverse with
  | '+' :: digits => separatedDigits? digits
  | '-' :: digits => (separatedDigits? digits).filter (· == 0)
  | digits => separatedDigits? digits

end Reading

end PullLexer.Pattern
