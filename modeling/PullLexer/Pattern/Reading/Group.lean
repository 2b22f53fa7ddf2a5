import PullLexer.Pattern.Reading.Piece

/-!
# Reading what opens a group

After an opening parenthesis a question mark announces anything but a plain
group: flags, a name, a look at the neighbourhood, a condition, a reference or
a comment.
-/

namespace PullLexer.Pattern.Reading

inductive Opening where
  | capturing (name : Option Text)
  | flagged (on off : Flags)
  | atomic
  | look (behind negated : Bool)
  | condition (n : Nat)
  | reference (e : Expr)
  | comment
  | globalFlags

def isFlagLetter (c : Char) : Bool := c = 'L' || (Flags.ofLetter? c).isSome

/-- The flag that a letter adds to those turned on before it. -/
def turnOn (on : Flags) (c : Char) : Reading Flags := do
  if c = 'L' then fail 0 .localeFlag
  let flag := (Flags.ofLetter? c).getD .none
  let all := on.union flag
  if flag.inter .charset ≠ .none && all.inter .charset ≠ flag then fail 0 .charsetClash
  return all

/-- Which problem a symbol is where a flag or the end of the flags was due. -/
def notFlag (symbol : Sym) (wanted : Text) : Problem :=
  match symbol with
  | .char c => if CharClass.isLetter c.toNat then .unknownFlag else .missing wanted
  | .escaped _ => .missing wanted

/-- Letters of flags to turn on, up to the symbol that ends them. -/
def flagsOn : (bound : Nat) → Char → Flags → Reading (Flags × Char)
  | 0, _, _ => fail 0 .tooDeep
  | bound + 1, c, on => do
    let on ← turnOn on c
    let some symbol ← next | fail 0 (.missing "-, : or )".toList)
    match symbol with
    | .char d =>
      if d = ')' || d = '-' || d = ':' then return (on, d)
      if isFlagLetter d then flagsOn bound d on
      else fail 1 (notFlag symbol "-, : or )".toList)
    | .escaped _ => fail 2 (notFlag symbol "-, : or )".toList)

/-- Letters of flags to turn off, up to the colon. -/
def flagsOff : (bound : Nat) → Char → Flags → Reading Flags
  | 0, _, _ => fail 0 .tooDeep
  | bound + 1, c, off => do
    let flag := (Flags.ofLetter? c).getD .none
    if c = 'L' || flag.inter .charset ≠ .none then fail 0 .charsetTurnedOff
    let off := off.union flag
    let some symbol ← next | fail 0 (.missing [':'])
    match symbol with
    | .char d =>
      if d = ':' then return off
      if isFlagLetter d then flagsOff bound d off
      else fail 1 (notFlag symbol [':'])
    | .escaped _ => fail 2 (notFlag symbol [':'])

/-- A group of flags whose first character was read. -/
def flagGroup (c : Char) : Reading Opening := do
  let bound := (← get).rest.length + 1
  let (on, last) ← if c = '-' then pure (Flags.none, '-') else flagsOn bound c .none
  if last = ')' then
    modify fun reader => { reader with flags := reader.flags.union on }
    return .globalFlags
  if last = ':' then return .flagged on .none
  let some symbol ← next | fail 0 (.missing "flag".toList)
  match symbol with
  | .char d =>
    if !isFlagLetter d then fail 1 (notFlag symbol "flag".toList)
    let off ← flagsOff bound d .none
    if on.inter off ≠ .none then fail 1 .flagOnAndOff
    return .flagged on off
  | .escaped _ => fail 2 (notFlag symbol "flag".toList)

def checkName (name : Text) : Reading Unit := do
  if !CharClass.isIdentifier name then fail (name.length + 1) (.badGroupName name)

/-- The number of the group with a name that was just read. -/
def namedGroup (name : Text) : Reading Nat := do
  match (← get).names.find? (·.1 == name) with
  | some entry => return entry.2
  | none => fail (name.length + 1) (.unknownGroup name)

def conditionGroup : Reading Nat := do
  let name ← readName ')' "group name".toList
  let n ←
    if CharClass.isIdentifier name then namedGroup name
    else
      match groupNumber? name with
      | none => fail (name.length + 1) (.badGroupName name)
      | some 0 => fail (name.length + 1) .groupZero
      | some n =>
        modify fun reader =>
          if reader.promised.any (·.1 == n) then reader
          else { reader with promised := (n, reader.offset - name.length - 1) :: reader.promised }
        pure n
  checkLookBehind n
  return n

def namedOpening (flags : Flags) : Reading Opening := do
  if ← accept '<' then
    let name ← readName '>' "group name".toList
    checkName name
    return .capturing (some name)
  if ← accept '=' then
    let name ← readName ')' "group name".toList
    checkName name
    let n ← namedGroup name
    if !(← get).closed.any (·.1 == n) then fail (name.length + 1) .openGroup
    checkLookBehind n
    return .reference (.again (casing flags) n)
  let some symbol ← next | fail 0 .unexpectedEnd
  fail (symbol.text.length + 2) (.unknownExtension ('P' :: symbol.text))

/-- What follows an opening parenthesis that stands at `start`. -/
def opening (flags : Flags) (start : Nat) : Reading Opening := do
  if !(← accept '?') then return .capturing none
  let some symbol ← next | fail 0 .unexpectedEnd
  match symbol with
  | .char 'P' => namedOpening flags
  | .char ':' => return .flagged .none .none
  | .char '#' =>
    if ← skipPast ')' ((← get).rest.length + 1) then return .comment
    else failAt start .unterminatedComment
  | .char '=' => return .look false false
  | .char '!' => return .look false true
  | .char '<' =>
    let some direction ← next | fail 0 .unexpectedEnd
    if direction = .char '=' then return .look true false
    if direction = .char '!' then return .look true true
    fail (direction.text.length + 2) (.unknownExtension ('<' :: direction.text))
  | .char '(' => return .condition (← conditionGroup)
  | .char '>' => return .atomic
  | .char c =>
    if c = '-' || isFlagLetter c then flagGroup c
    else fail 2 (.unknownExtension [c])
  | .escaped _ => fail (symbol.text.length + 1) (.unknownExtension symbol.text)

def openGroup (name : Option Text) : Reading Nat := do
  let reader ← get
  let n := reader.opened + 1
  match name with
  | none => set { reader with opened := n }
  | some name =>
    match reader.names.find? (·.1 == name) with
    | some entry =>
      set { reader with opened := n }
      fail (name.length + 1) (.groupRedefined name n entry.2)
    | none => set { reader with opened := n, names := reader.names ++ [(name, n)] }
  return n

def widthOf (e : Expr) : Reading Width := do
  let closed := (← get).closed
  return e.width fun n => ((closed.find? (·.1 == n)).map (·.2)).getD .none

def closeGroup (n : Nat) (body : Expr) : Reading Unit := do
  let width ← widthOf body
  modify fun reader => { reader with closed := (n, width) :: reader.closed }

/-- The closing parenthesis of the group that opened at `start`. -/
def closing (start : Nat) : Reading Unit := do
  if !(← accept ')') then failAt start .unterminatedGroup

def lookExpr (behind negated : Bool) (body : Expr) : Reading Expr := do
  if behind then
    let width ← widthOf body
    if !width.isFixed then modify fun reader => { reader with varies := true }
    return .behind width.least negated body
  return .ahead negated body

end PullLexer.Pattern.Reading
