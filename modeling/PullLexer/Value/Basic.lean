import PullLexer.Numeral
import PullLexer.Token

/-!
# Values

Whatever a caller may hand to the lexer or get from it: a rule can be written
in several shapes, a token builder may make anything, and an argument of the
wrong kind is refused by name. A stream is a sequence that is read once. Texts
of floating numbers are kept as written.
-/

namespace PullLexer

inductive Value where
  | null
  | bool (b : Bool)
  | int (i : Int)
  | float (numeral : Text)
  | text (t : Text)
  | bytes (t : Text)
  | list (items : List Value)
  | tuple (items : List Value)
  | dict (entries : List (Value × Value))
  | stream (items : List Value)
  | pattern (p : Pattern)
  /-- A pattern over bytes, which no rule can use. -/
  | bytesPattern (source : Text)
  /-- A rule as written, whose name and patterns are not checked yet. -/
  | rule (name patterns : Value)
  | lexeme (l : Lexeme)
  | token (t : Token Value)
  /-- A foreign token that names a rule and keeps something under the name a lexeme has. -/
  | holder (rule : Text) (held : Value)
  /-- A thing with no parts and no operations. -/
  | object
deriving Inhabited

namespace Value

def typeName : Value → Text
  | .null => "NoneType".toList
  | .bool _ => "bool".toList
  | .int _ => "int".toList
  | .float _ => "float".toList
  | .text _ => "str".toList
  | .bytes _ => "bytes".toList
  | .list _ => "list".toList
  | .tuple _ => "tuple".toList
  | .dict _ => "dict".toList
  | .stream _ => "generator".toList
  | .pattern _ | .bytesPattern _ => "Pattern".toList
  | .rule .. => "Rule".toList
  | .lexeme _ => "ScanMatch".toList
  | .token _ => "Token".toList
  | .holder .. => "Holder".toList
  | .object => "object".toList

/-- The name of the kind with the module that patterns belong to. -/
def qualifiedName : Value → Text
  | .pattern _ | .bytesPattern _ => "re.Pattern".toList
  | v => v.typeName

def numeral? : Value → Option Numeral
  | .bool b => some (.ofBool b)
  | .int i => some (.ofInt i)
  | .float t => some (.ofText t)
  | _ => none

/-- Zero, what is empty and what is absent count as false. -/
def truthy : Value → Bool
  | .null => false
  | .bool b => b
  | .int i => i != 0
  | .float t => !(Numeral.ofText t).same (.ofInt 0)
  | .text t | .bytes t => !t.isEmpty
  | .list items | .tuple items => !items.isEmpty
  | .dict entries => !entries.isEmpty
  | .lexeme l => !l.text.isEmpty
  | .stream _ | .pattern _ | .bytesPattern _ | .rule .. | .token _ | .holder .. | .object => true

/-- The items of a value that can be gone through; those of a dictionary are its keys. -/
def items? : Value → Option (List Value)
  | .text t => some (t.map fun c => .text [c])
  | .bytes t => some (t.map fun c => .int c.toNat)
  | .list items | .tuple items | .stream items => some items
  | .dict entries => some (entries.map (·.1))
  | _ => none

def ofText? : Option Text → Value
  | some t => .text t
  | none => .null

/-- The lexeme that a value carries: a token carries its own, and a holder what it holds. -/
def lexeme? : Value → Option Lexeme
  | .token t => some t.lexeme
  | .holder _ (.lexeme l) => some l
  | _ => none

def isNull : Value → Bool
  | .null => true
  | _ => false

instance : TokenLike Value where
  ofToken t := .token (t.map .text)
  lexeme? := lexeme?
  typeName := typeName
  passesForAbsent := isNull
  lexeme_ofToken _ := rfl
  passesForAbsent_ofToken _ := rfl

def entry? (entries : List (Value × Value)) (key : Text) : Option Value :=
  (entries.find? fun entry => match entry.1 with
    | .text t => t == key
    | _ => false).map (·.2)

end Value

end PullLexer
