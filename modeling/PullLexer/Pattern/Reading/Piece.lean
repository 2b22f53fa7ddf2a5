import PullLexer.Pattern.Reading.Escape

/-!
# Reading character sets and repeat signs

A character set stands between brackets, where a closing bracket that comes
first is a member. A repeat sign applies to the piece before it; a brace that
does not open a pair of bounds is a literal.
-/

namespace PullLexer.Pattern.Reading

/-! ## Character sets -/

def member (flags : Flags) : Sym → Reading Member
  | .escaped c => setEscape flags c
  | .char c => return .code c.toNat

/-- The members of a set whose opening bracket stands at `opening`, up to its closing bracket. -/
def members (flags : Flags) (opening : Nat) : (bound : Nat) → List Member → Reading (List Member)
  | 0, _ => fail 0 .tooDeep
  | bound + 1, found => do
    let some low ← next | failAt opening .unterminatedSet
    if low = .char ']' && !found.isEmpty then return found.reverse
    let first ← member flags low
    if !(← accept '-') then members flags opening bound (first :: found)
    else
      let some high ← next | failAt opening .unterminatedSet
      if high = .char ']' then return (.code 0x2D :: first :: found).reverse
      let second ← member flags high
      match first, second with
      | .code lo, .code hi =>
        if hi < lo then badRange low high
        else members flags opening bound (.range lo hi :: found)
      | _, _ => badRange low high
where
  badRange (low high : Sym) : Reading (List Member) :=
    fail (low.text.length + 1 + high.text.length) (.badRange low.text high.text)

def characterSet (flags : Flags) (opening : Nat) : Reading Expr := do
  let negated ← accept '^'
  let found ← members flags opening ((← get).rest.length + 1) []
  return .one (.set (casing flags) negated found)

/-! ## Repeat signs -/

/-- The bounds between braces, none where the brace is a literal. -/
def braces? : Reading (Option (Nat × Option Nat)) := do
  if (← peek) = some (.char '}') then return none
  let reader ← get
  let start := reader.offset
  let bound := reader.rest.length
  let low ← takeClass isDigit bound
  let high ← if ← accept ',' then takeClass isDigit bound else pure low
  if !(← accept '}') then
    modify fun later => { later with rest := reader.rest, offset := start }
    return none
  let least := numeral 10 low
  if Width.unbounded ≤ least then throw ⟨.tooManyRounds, none⟩
  if high.isEmpty then return some (least, none)
  let most := numeral 10 high
  if Width.unbounded ≤ most then throw ⟨.tooManyRounds, none⟩
  if most < least then failAt start .boundsReversed
  return some (least, some most)

/-- The bounds that a repeat sign asks for, none where it is a literal brace. -/
def bounds? : Char → Reading (Option (Nat × Option Nat))
  | '?' => return some (0, some 1)
  | '*' => return some (0, none)
  | '+' => return some (1, none)
  | _ => braces?

def greed : Reading Greed := do
  if ← accept '?' then return .lazy
  if ← accept '+' then return .possessive
  return .greedy

/-- Repeats the latest piece; the sign stands at `sign`. -/
def repeatLast (sign : Nat) (least : Nat) (most : Option Nat) :
    List Piece → Reading (List Piece)
  | [] => failAt sign .nothingToRepeat
  | last :: earlier => do
    match last.kind with
    | .anchor => failAt sign .nothingToRepeat
    | .repetition => failAt sign .multipleRepeat
    | .plain => return ⟨.repetition, .loop least most (← greed) last.expr⟩ :: earlier

end PullLexer.Pattern.Reading
