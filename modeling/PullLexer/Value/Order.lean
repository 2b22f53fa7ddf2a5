import PullLexer.Failure

/-!
# Equality and order of values

Numbers compare by what they are worth, whatever their kind; a truth value is
worth zero or one. Sequences compare item by item. Things that are known only
by identity equal nothing that was written down separately. An order exists
between numbers, between texts and between sequences of one kind; any other
pair is refused.
-/

namespace PullLexer.Value

mutual

def same : Value → Value → Bool
  | .null, .null => true
  | .text a, .text b => a == b
  | .bytes a, .bytes b => a == b
  | .list a, .list b => sameItems a b
  | .tuple a, .tuple b => sameItems a b
  | .dict a, .dict b => a.length == b.length && withinEntries b a
  | .pattern a, .pattern b => a.source == b.source && a.flags == b.flags
  | .bytesPattern a, .bytesPattern b => a == b
  | .rule name patterns, .rule name' patterns' => same name name' && same patterns patterns'
  | .lexeme a, .lexeme b => a.agrees b
  | .token ⟨kind, value, l, start, stop, _⟩, .token t =>
    kind == t.kind && same value t.value && l.agrees t.lexeme && start == t.start &&
      stop == t.stop
  | .bool a, b => sameNumeral (.ofBool a) b
  | .int a, b => sameNumeral (.ofInt a) b
  | .float a, b => sameNumeral (.ofText a) b
  | _, _ => false

def sameItems : List Value → List Value → Bool
  | [], [] => true
  | a :: as, b :: bs => same a b && sameItems as bs
  | _, _ => false

/-- Every entry of the second dictionary is one of the first. -/
def withinEntries (others : List (Value × Value)) : List (Value × Value) → Bool
  | [] => true
  | (k, v) :: rest =>
    (others.any fun other => same k other.1 && same v other.2) && withinEntries others rest

def sameNumeral (n : Numeral) (v : Value) : Bool :=
  match v.numeral? with
  | some m => n.same m
  | none => false

end

/-- Fails on a value that cannot be a key of a table: it is, or has inside, something that can
change. -/
def checkKey : Value → Except Failure Unit
  | .list _ => .error (.unhashable "list".toList)
  | .dict _ => .error (.unhashable "dict".toList)
  | .tuple items => checkKeys items
  | .rule name patterns =>
    match checkKey name with
    | .error f => .error f
    | .ok _ => checkKey patterns
  | .token ⟨_, value, _, _, _, _⟩ => checkKey value
  | _ => .ok ()
where
  checkKeys : List Value → Except Failure Unit
    | [] => .ok ()
    | v :: rest =>
      match checkKey v with
      | .error f => .error f
      | .ok _ => checkKeys rest

def lessText : Text → Text → Bool
  | [], [] => false
  | [], _ :: _ => true
  | _ :: _, [] => false
  | a :: as, b :: bs => if a == b then lessText as bs else a.toNat < b.toNat

mutual

def less : Value → Value → Except Failure Bool
  | .text a, .text b => .ok (lessText a b)
  | .bytes a, .bytes b => .ok (lessText a b)
  | .list a, .list b => lessItems a b
  | .tuple a, .tuple b => lessItems a b
  | a, b =>
    match a.numeral?, b.numeral? with
    | some m, some n => .ok (m.less n)
    | _, _ => .error (.unordered ['<'] a.qualifiedName b.qualifiedName)

/-- The first items that differ decide; a sequence comes after its own beginnings. -/
def lessItems : List Value → List Value → Except Failure Bool
  | [], [] => .ok false
  | [], _ :: _ => .ok true
  | _ :: _, [] => .ok false
  | a :: as, b :: bs => if same a b then lessItems as bs else less a b

end

/-- How many values from the front are in strictly falling order, or else in rising order. -/
def runLength (falling : Bool) : Value → List Value → Except Failure Nat
  | _, [] => .ok 0
  | last, v :: rest => do
    if (← less v last) == falling then return (← runLength falling v rest) + 1
    return 0

/-- Where `v` goes in a sorted list, after its equals, found by halving. -/
def insertionPoint (sorted : List Value) (v : Value) :
    (bound lo hi : Nat) → Except Failure Nat
  | 0, lo, _ => .ok lo
  | bound + 1, lo, hi => do
    if hi ≤ lo then return lo
    let middle := lo + (hi - lo) / 2
    match sorted[middle]? with
    | none => return lo
    | some m =>
      if ← less v m then insertionPoint sorted v bound lo middle
      else insertionPoint sorted v bound (middle + 1) hi

def insertSorted (sorted : List Value) (v : Value) : Except Failure (List Value) := do
  let n ← insertionPoint sorted v (sorted.length + 1) 0 sorted.length
  return sorted.take n ++ v :: sorted.drop n

/-- Values in rising order, equals in the order they came in. The values in front that are in
order already are kept as a run, and the others are inserted one by one, so that of two pairs
without an order the one met first is reported. -/
def sorted : List Value → Except Failure (List Value)
  | [] => .ok []
  | [v] => .ok [v]
  | first :: second :: rest => do
    let falling ← less second first
    let length := (← runLength falling second rest) + 2
    let all := first :: second :: rest
    let run := all.take length
    (all.drop length).foldlM insertSorted (if falling then run.reverse else run)

end PullLexer.Value
