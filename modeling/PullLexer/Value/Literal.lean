import PullLexer.Text.Excerpt
import PullLexer.Text.Quoted
import PullLexer.Value.Basic

/-!
# Literals

The text that stands for a value in messages. An integer of too many digits is
not written out, and then there is no text for a value that holds it.
-/

namespace PullLexer

def Text.ofInt (i : Int) : Text := (toString i).toList

/-- How many digits an integer may have that is written out. -/
def Text.digitLimit : Nat := 4300

/-- The least number that has too many digits. -/
def Text.unwritten : Nat := Nat.pow 10 digitLimit

theorem Text.unwritten_pos : 0 < unwritten := Nat.pos_of_ne_zero (by decide +kernel)

/-- Whether an integer is written out. The sign is no digit. -/
def Text.writesInt (i : Int) : Bool := i.natAbs < unwritten

def Text.joined (separator : Text) : List Text → Text
  | [] => []
  | [part] => part
  | part :: rest => part ++ separator ++ Text.joined separator rest

namespace Pattern

/-- The names of the flags that are shown; the usual character set is not. -/
def shownFlags (flags : Flags) : List Text :=
  [(flags.ignoreCase, "re.IGNORECASE"), (flags.multiline, "re.MULTILINE"),
    (flags.dotAll, "re.DOTALL"), (flags.verbose, "re.VERBOSE"), (flags.ascii, "re.ASCII")]
  |>.filterMap fun entry => if entry.1 then some entry.2.toList else none

/-- A pattern with at most two hundred characters of its quoted source. -/
def literal (p : Pattern) : Text :=
  let flags := Text.joined ['|'] (shownFlags p.flags)
  "re.compile(".toList ++ p.source.quoted.take 200 ++
    (if flags.isEmpty then [] else ", ".toList ++ flags) ++ [')']

end Pattern

namespace Value

def quotedOr (absent : Text) : Option Text → Text
  | some t => t.quoted
  | none => absent

/-- Items between round brackets; a single item is followed by a comma. -/
def tupleLiteral : List Text → Text
  | [item] => '(' :: item ++ [',', ')']
  | items => '(' :: Text.joined ", ".toList items ++ [')']

def dictLiteral (entries : List (Text × Text)) : Text :=
  '\x7b' :: Text.joined ", ".toList (entries.map fun e => e.1 ++ ": ".toList ++ e.2) ++ ['\x7d']

def lexemeLiteral (l : Lexeme) : Text :=
  "ScanMatch(text=".toList ++ l.text.quoted ++ ", index=".toList ++ Text.ofInt l.index ++
    ", groups=".toList ++ tupleLiteral (l.groups.map (quotedOr "None".toList)) ++
    ", named=mappingproxy(".toList ++
    dictLiteral (l.named.map fun e => (e.1.quoted, quotedOr "None".toList e.2)) ++ "))".toList

/-- A token as it is shown, given what its value is shown as. -/
def tokenLiteral (kind value : Text) (start stop : Int) : Text :=
  "Token(".toList ++ kind ++ ", ".toList ++ value ++ ", ".toList ++ Text.ofInt start ++
    ':' :: Text.ofInt stop ++ [')']

mutual

def literal : Value → Text
  | .null => "None".toList
  | .bool b => if b then "True".toList else "False".toList
  | .int i => Text.ofInt i
  | .float t => t
  | .text t => t.quoted
  | .bytes t => t.quotedBytes
  | .list items => '[' :: Text.joined ", ".toList (literals items) ++ [']']
  | .tuple items => tupleLiteral (literals items)
  | .dict entries => dictLiteral (entryLiterals entries)
  | .stream _ => "<generator object>".toList
  | .pattern p => p.literal
  | .bytesPattern source => "re.compile(".toList ++ source.quotedBytes ++ [')']
  | .rule name patterns =>
    "Rule(name=".toList ++ literal name ++ ", patterns=".toList ++ literal patterns ++ [')']
  | .lexeme l => lexemeLiteral l
  | .token ⟨kind, .text t, _, start, stop, _⟩ =>
    tokenLiteral kind (t.abbreviate Text.usualWidth).quoted start stop
  | .token ⟨kind, value, _, start, stop, _⟩ => tokenLiteral kind (literal value) start stop
  | .holder .. => "<Holder object>".toList
  | .object => "<object object>".toList

def literals : List Value → List Text
  | [] => []
  | v :: rest => literal v :: literals rest

def entryLiterals : List (Value × Value) → List (Text × Text)
  | [] => []
  | (k, v) :: rest => (literal k, literal v) :: entryLiterals rest

end

mutual

/-- Whether every integer is written out that the literal of a value shows. -/
def isWritable : Value → Bool
  | .int i => Text.writesInt i
  | .list items | .tuple items => areWritable items
  | .dict entries => entriesWritable entries
  | .rule name patterns => isWritable name && isWritable patterns
  | .lexeme l => Text.writesInt l.index
  | .token ⟨_, value, _, start, stop, _⟩ =>
    isWritable value && Text.writesInt start && Text.writesInt stop
  | _ => true

def areWritable : List Value → Bool
  | [] => true
  | v :: rest => isWritable v && areWritable rest

def entriesWritable : List (Value × Value) → Bool
  | [] => true
  | (k, v) :: rest => isWritable k && isWritable v && entriesWritable rest

end

theorem isWritable_list (items : List Value) :
    (list items).isWritable = items.all Value.isWritable := by
  rw [isWritable]
  induction items with
  | nil => rfl
  | cons v rest ih => rw [areWritable, List.all_cons, ih]

end Value

end PullLexer
