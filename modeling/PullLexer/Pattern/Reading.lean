import PullLexer.Pattern.Reading.Group

/-!
# Reading a pattern

A pattern is branches between bars, and a branch is a sequence of pieces. All
that patterns may contain is read but for characters given by name, which are
refused. The recursion is bounded by a number computed from the length of the
source: every call either reads a symbol or is one of three between two symbols.
-/

namespace PullLexer.Pattern

namespace Reading

mutual

/-- Branches up to a closing parenthesis or the end. -/
def branches : (bound : Nat) → Flags → (nested : Bool) → Reading Expr
  | 0, _, _ => fail 0 .tooDeep
  | bound + 1, flags, nested => do
    let first ← sequence bound flags (!nested) []
    match ← moreBranches bound flags nested with
    | none => return first
    | some others => return .alt first others

/-- The branches after a bar, if one is next. Outside every group the flags are those of the
whole pattern by then. -/
def moreBranches : (bound : Nat) → Flags → (nested : Bool) → Reading (Option Expr)
  | 0, _, _ => fail 0 .tooDeep
  | bound + 1, flags, nested => do
    if !(← accept '|') then return none
    let whole := (← get).flags
    let flags := if nested then flags else whole
    let branch ← sequence bound flags false []
    match ← moreBranches bound flags nested with
    | none => return some branch
    | some others => return some (.alt branch others)

/-- Pieces up to a bar, a closing parenthesis or the end. `leading` tells whether flags of the
whole pattern may still stand here. -/
def sequence : (bound : Nat) → Flags → (leading : Bool) → List Piece → Reading Expr
  | 0, _, _, _ => fail 0 .tooDeep
  | bound + 1, flags, leading, pieces => do
    let start ← offset
    let ahead ← peek
    if ahead = none || ahead = some (.char '|') || ahead = some (.char ')') then
      return joined pieces
    let some symbol ← next | return joined pieces
    let add (piece : Piece) := sequence bound flags leading (piece :: pieces)
    let plain (e : Expr) := add ⟨.plain, e⟩
    match symbol with
    | .escaped c => add (← escape flags c)
    | .char c =>
      if flags.verbose && CharClass.isAsciiSpace c.toNat then sequence bound flags leading pieces
      else if flags.verbose && c = '#' then
        let _ ← skipPast '\n' ((← get).rest.length + 1)
        sequence bound flags leading pieces
      else
        match c with
        | '[' => plain (← characterSet flags start)
        | '.' => plain (.one (if flags.dotAll then .any else .notNewline))
        | '^' => add ⟨.anchor, .assertion (if flags.multiline then .lineStart else .textStart)⟩
        | '$' => add ⟨.anchor, .assertion (if flags.multiline then .lineEnd else .lastLineEnd)⟩
        | '(' =>
          match ← opening flags start with
          | .comment => sequence bound flags leading pieces
          | .reference e => plain e
          | .globalFlags =>
            if !leading || !pieces.isEmpty then failAt start .flagsTooLate
            sequence bound (← get).flags leading pieces
          | .look behind negated =>
            let reader ← get
            let outer := reader.lookBehindFrom
            if behind && outer.isNone then
              set { reader with lookBehindFrom := some (reader.opened + 1) }
            let body ← branches bound flags true
            if behind then modify fun later => { later with lookBehindFrom := outer }
            closing start
            match negated, body with
            | true, .empty => plain .never
            | _, _ => plain (← lookExpr behind negated body)
          | .condition n =>
            let present ← sequence bound flags false []
            let absent ←
              if ← accept '|' then
                let absent ← sequence bound flags false []
                if (← peek) = some (.char '|') then fail 0 .tooManyBranches
                pure absent
              else pure .empty
            closing start
            plain (.given n present absent)
          | .atomic =>
            let body ← branches bound flags true
            closing start
            plain (.atomic body)
          | .flagged on off =>
            let body ← branches bound (flags.adjust on off) true
            closing start
            plain body
          | .capturing name =>
            let n ← openGroup name
            let body ← branches bound flags true
            closing start
            closeGroup n body
            plain (.group n body)
        | '*' | '+' | '?' | '{' =>
          match ← bounds? c with
          | none => plain (.one (.literal (casing flags) c.toNat))
          | some (least, most) =>
            sequence bound flags leading (← repeatLast start least most pieces)
        | _ => plain (.one (.literal (casing flags) c.toNat))

end

/-- What a source says: its expression, all its flags and its groups. -/
structure Program where
  flags : Flags
  expr : Expr
  groupCount : Nat
  groupNames : List (Text × Nat)
deriving DecidableEq, Repr

/-- The flags of a whole pattern: letters are those of every script unless ASCII is asked for. -/
def settled (flags : Flags) : Reading Flags := do
  if flags.ascii && flags.unicode then throw ⟨.charsetsCombined, none⟩
  return { flags with unicode := !flags.ascii }

def program (flags : Flags) : Reading Program := do
  checkEnd
  let expr ← branches (4 * (← get).size + 8) flags false
  let flags ← settled (← get).flags
  if (← peek).isSome then fail 0 .unbalanced
  let reader ← get
  for (n, position) in reader.promised.reverse do
    if reader.opened < n then failAt position (.noSuchGroup n)
  if reader.varies then throw ⟨.widthVaries, none⟩
  return ⟨flags, expr, reader.opened, reader.names⟩

end Reading

def read (flags : Flags) (source : Text) : Except Fault Reading.Program :=
  (Reading.program flags).run'
    ⟨source.length, source, 0, flags, 0, [], [], none, [], false⟩

end PullLexer.Pattern
