import PullLexer.Pattern.Expr

/-!
# Backtracking matching

A place is a cut of the text into what lies before it, nearest character
first, and what lies after it, with the captures made so far. An expression is
attempted at a place with the continuation that the rest of the pattern is;
what the continuation refuses, the expression tries to match otherwise, in
order of preference. Captures belong to the path that made them, so a path
given up takes its captures with it.

A loop runs at most one optional round more than there are characters left: a
round may start only at another place than the round before it did.
-/

namespace PullLexer.Pattern

structure Place where
  before : Text
  after : Text
  offset : Nat
  size : Nat
  captures : List (Nat × Text)

namespace Place

def start (t : Text) : Place := ⟨[], t, 0, t.length, []⟩

def step (p : Place) (c : Char) (rest : Text) : Place :=
  { p with before := c :: p.before, after := rest, offset := p.offset + 1 }

def captured? (p : Place) (n : Nat) : Option Text :=
  (p.captures.find? fun capture => capture.1 == n).map (·.2)

/-- Captures for group `n` what lies between `opened` and this place. -/
def capture (p : Place) (n : Nat) (opened : Place) : Place :=
  { p with captures := (n, opened.after.take (p.offset - opened.offset)) :: p.captures }

def back? : (width : Nat) → Place → Option Place
  | 0, p => some p
  | width + 1, p =>
    match p.before with
    | [] => none
    | c :: rest =>
      back? width { p with before := rest, after := c :: p.after, offset := p.offset - 1 }

/-- The place after a text that agrees with `expected`. -/
def follow? (casing : Casing) : (expected : Text) → Place → Option Place
  | [], p => some p
  | e :: expected, p =>
    match p.after with
    | [] => none
    | c :: rest =>
      if casing.same e.toNat c.toNat then follow? casing expected (p.step c rest) else none

end Place

def Assertion.holds (p : Place) : Assertion → Bool
  | .textStart => p.before.isEmpty
  | .lineStart => p.before.head?.all (· == '\n')
  | .textEnd => p.after.isEmpty
  | .lineEnd => p.after.head?.all (· == '\n')
  | .lastLineEnd => p.after.isEmpty || p.after == ['\n']
  | .boundary ascii negated =>
    let isWord (c : Option Char) := c.any fun c => Category.word.has ascii c.toNat
    !(p.before.isEmpty && p.after.isEmpty) &&
      ((isWord p.before.head? != isWord p.after.head?) != negated)

/-- What follows: accepts a place by naming the place where the whole match ends. -/
abbrev Rest := Place → Option Place

abbrev Step := Place → Rest → Option Place

def times (body : Step) : (n : Nat) → Step
  | 0, p, rest => rest p
  | n + 1, p, rest => body p fun q => times body n q rest

/-- As many rounds as possible first. -/
def greedyRounds (body : Step) : (rounds : Nat) → (last : Option Nat) → Step
  | 0, _, p, rest => rest p
  | rounds + 1, last, p, rest =>
    if last = some p.offset then rest p
    else
      match body p fun q => greedyRounds body rounds (some p.offset) q rest with
      | some found => some found
      | none => rest p

/-- As few rounds as possible first. -/
def lazyRounds (body : Step) : (rounds : Nat) → (last : Option Nat) → Step
  | 0, _, p, rest => rest p
  | rounds + 1, last, p, rest =>
    match rest p with
    | some found => some found
    | none =>
      if last = some p.offset then none
      else body p fun q => lazyRounds body rounds (some p.offset) q rest

/-- As many rounds as possible, each at its first way to match, and none given back. -/
def possessiveRounds (body : Step) : (rounds : Nat) → (last : Option Nat) → Place → Place
  | 0, _, p => p
  | rounds + 1, last, p =>
    if last = some p.offset then p
    else
      match body p some with
      | some q => possessiveRounds body rounds (some p.offset) q
      | none => p

/-- How many optional rounds can still differ from one another. -/
def Place.rounds (p : Place) (least : Nat) : Option Nat → Nat
  | none => p.size - p.offset + 1
  | some most => min (most - least) (p.size - p.offset + 1)

def repeated (body : Step) (least : Nat) (most : Option Nat) : Greed → Step
  | .greedy, p, rest =>
    times body least p fun q => greedyRounds body (q.rounds least most) none q rest
  | .lazy, p, rest =>
    times body least p fun q => lazyRounds body (q.rounds least most) none q rest
  | .possessive, p, rest =>
    match times (fun q next => (body q some).bind next) least p some with
    | some q => rest (possessiveRounds body (q.rounds least most) none q)
    | none => none

/-- The end of the first match of an expression at a place whose rest is accepted. -/
def Expr.attempt : Expr → Place → (Place → Option Place) → Option Place
  | .empty, p, rest => rest p
  | .never, _, _ => none
  | .one test, p, rest =>
    match p.after with
    | [] => none
    | c :: after => if test.accepts c.toNat then rest (p.step c after) else none
  | .assertion a, p, rest => if a.holds p then rest p else none
  | .seq first second, p, rest => first.attempt p fun q => second.attempt q rest
  | .alt first second, p, rest =>
    match first.attempt p rest with
    | some found => some found
    | none => second.attempt p rest
  | .group n body, p, rest => body.attempt p fun q => rest (q.capture n p)
  | .loop least most greed body, p, rest => repeated body.attempt least most greed p rest
  | .again casing n, p, rest =>
    match p.captured? n with
    | some t => (p.follow? casing t).bind rest
    | none => none
  | .ahead negated body, p, rest =>
    match body.attempt p some with
    | some q => if negated then none else rest { p with captures := q.captures }
    | none => if negated then rest p else none
  | .behind width negated body, p, rest =>
    match (p.back? width).bind fun q => body.attempt q some with
    | some q => if negated then none else rest { p with captures := q.captures }
    | none => if negated then rest p else none
  | .given n present absent, p, rest =>
    match p.captured? n with
    | some _ => present.attempt p rest
    | none => absent.attempt p rest
  | .atomic body, p, rest =>
    match body.attempt p some with
    | some q => rest q
    | none => none

end PullLexer.Pattern
