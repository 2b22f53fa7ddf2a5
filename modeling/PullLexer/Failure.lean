import PullLexer.Value.Literal

/-!
# Failures

Why an operation fails. A diagnostic is the lexer's own error: a complaint,
with the rule that was tried and an excerpt of the text it was tried on once
they are known. What is written first stays: a later annotation only fills
what is missing. The text of a diagnostic is made with it, and where a value in
it cannot be written out the failure is that. The other failures are arguments
of a kind that an operation cannot work with, and what client code raises.
-/

namespace PullLexer

inductive Diagnostic.Kind where
  | plain
  | invalidInput
  | invalidPattern
  | unsafeMatch
  | invalidArgument
  | invalidToken
deriving DecidableEq, Repr

namespace Diagnostic.Kind

def aboutType : Kind → Bool
  | .invalidInput | .invalidToken => true
  | _ => false

def aboutValue : Kind → Bool
  | .invalidPattern | .unsafeMatch | .invalidArgument => true
  | _ => false

end Diagnostic.Kind

inductive Complaint where
  | inputNotText (typeName : Text)
  | nameNotText (typeName : Text)
  | bytesPattern
  | unreadable (source : Text) (fault : Pattern.Fault)
  | notPattern (typeName : Text)
  | notAnchored (source : Text)
  | missingKeys (keys : List Value)
  | unknownShape (spec : Value)
  | emptyMatch (source : Text)
  | badCount (n : Value)
  | uncovered (typeName : Text)
  | nothingBuilt
  /-- An error that client code words itself. -/
  | stated (kind : Diagnostic.Kind) (message : Text)

namespace Complaint

def kind : Complaint → Diagnostic.Kind
  | .inputNotText _ => .invalidInput
  | .nameNotText _ | .bytesPattern | .unreadable .. | .notPattern _ | .notAnchored _
  | .missingKeys _ | .unknownShape _ => .invalidPattern
  | .emptyMatch _ => .unsafeMatch
  | .badCount _ | .uncovered _ => .invalidArgument
  | .nothingBuilt => .invalidToken
  | .stated kind _ => kind

def message : Complaint → Text
  | .inputNotText typeName => "expected a string, got ".toList ++ typeName
  | .nameNotText typeName => "rule name must be a string, got ".toList ++ typeName
  | .bytesPattern => "expected a str pattern, got a bytes pattern".toList
  | .unreadable source fault =>
    "invalid regular expression ".toList ++ source.quoted ++ ": ".toList ++ fault.wording source
  | .notPattern typeName => "expected a regular expression, got ".toList ++ typeName
  | .notAnchored source =>
    "expected pattern ".toList ++ source.quoted ++ " to start with '^'".toList
  | .missingKeys keys =>
    "rule spec needs 'type' and 'regex' keys, got ".toList ++ (Value.list keys).literal
  | .unknownShape spec => "unrecognized rule spec: ".toList ++ spec.literal
  | .emptyMatch source =>
    "unsafe pattern ".toList ++ source.quoted ++ ": patterns must not match an empty string".toList
  | .badCount n => "expected a non-negative integer, got ".toList ++ n.literal
  | .uncovered typeName => "cannot enqueue ".toList ++ typeName ++ " token without a match".toList
  | .nothingBuilt => "token factory returned None".toList
  | .stated _ message => message

/-- The value that the message writes out, if it writes one. -/
def subject? : Complaint → Option Value
  | .missingKeys keys => some (.list keys)
  | .unknownShape spec => some spec
  | .badCount n => some n
  | _ => none

def fromReading : Complaint → Bool
  | .unreadable .. => true
  | _ => false

end Complaint

structure Diagnostic where
  complaint : Complaint
  rule : Option Value := none
  /-- The beginning of the text that the rule was tried on. -/
  excerpt : Option Value := none

namespace Diagnostic

def kind (d : Diagnostic) : Kind := d.complaint.kind

def message (d : Diagnostic) : Text := d.complaint.message

/-- Fills in the rule and the excerpt where they are missing. -/
def annotate (d : Diagnostic) (rule excerpt : Option Value) : Diagnostic :=
  { d with rule := d.rule.or rule, excerpt := d.excerpt.or excerpt }

/-- The message, followed by what is known of rule and excerpt. -/
def render (d : Diagnostic) : Text :=
  match d.rule, d.excerpt with
  | none, none => d.message
  | some rule, none => d.message ++ " (rule ".toList ++ rule.literal ++ [')']
  | none, some excerpt => d.message ++ " (at ".toList ++ excerpt.literal ++ [')']
  | some rule, some excerpt =>
    d.message ++ " (rule ".toList ++ rule.literal ++ ", at ".toList ++ excerpt.literal ++ [')']

/-- Whether all values can be written out that the text shows. -/
def isWritable (d : Diagnostic) : Bool :=
  (d.complaint.subject?.toList ++ d.rule.toList ++ d.excerpt.toList).all Value.isWritable

@[simp]
theorem message_annotate (d : Diagnostic) (rule excerpt : Option Value) :
    (d.annotate rule excerpt).message = d.message := rfl

/-- An annotation given twice says no more than given once. -/
theorem annotate_annotate (d : Diagnostic) (rule excerpt : Option Value) :
    (d.annotate rule excerpt).annotate rule excerpt = d.annotate rule excerpt := by
  cases hr : d.rule <;> cases he : d.excerpt <;> cases rule <;> cases excerpt <;>
    simp [annotate, hr, he]

end Diagnostic

inductive Failure where
  | diagnostic (d : Diagnostic)
  | notIterable (typeName : Text)
  | noMember (typeName member : Text)
  | unhashable (typeName : Text)
  | unordered (relation left right : Text)
  | notJoinable (typeName : Text)
  | noDifference (typeName : Text)
  | notABound
  | notAnIndex
  | noSuchIndex
  | indexTooLarge
  | noSuchKey (key : Text)
  | frozenField (field : Text)
  | bytesSubject
  | notABuilder (typeName : Text)
  /-- A pattern asks for more rounds than can be counted. -/
  | tooManyRounds
  /-- A pattern asks for two character sets at once. -/
  | charsetsCombined
  /-- An integer in a text has more digits than are written out. -/
  | tooManyDigits
  /-- Client code raised an error of its own. -/
  | raised (message : Text)
  /-- Client code says that there is no more. -/
  | noMore (message : Text)
  /-- A bounded run ended before the operation did. -/
  | unfinished

namespace Failure

/-- The failure that a diagnostic is, if its text can be made. -/
def ofDiagnostic (d : Diagnostic) : Failure :=
  if d.isWritable then .diagnostic d else .tooManyDigits

def ofComplaint (complaint : Complaint) : Failure := ofDiagnostic { complaint }

def kind? : Failure → Option Diagnostic.Kind
  | .diagnostic d => some d.kind
  | _ => none

@[simp]
theorem kind_diagnostic (d : Diagnostic) : (diagnostic d).kind? = some d.kind := rfl

theorem ofDiagnostic_of_isWritable {d : Diagnostic} (h : d.isWritable) :
    ofDiagnostic d = .diagnostic d := if_pos h

theorem ofDiagnostic_of_not_isWritable {d : Diagnostic} (h : d.isWritable = false) :
    ofDiagnostic d = .tooManyDigits := if_neg (by simp [h])

/-- Whether an iteration takes the failure for its end. -/
def endsIteration : Failure → Bool
  | .noMore _ => true
  | _ => false

/-- Annotates a diagnostic; other failures stay as they are. -/
def annotate (rule excerpt : Option Value) : Failure → Failure
  | .diagnostic d => .diagnostic (d.annotate rule excerpt)
  | f => f

def message : Failure → Text
  | .diagnostic d => d.render
  | .notIterable typeName => '\'' :: typeName ++ "' object is not iterable".toList
  | .noMember typeName member =>
    '\'' :: typeName ++ "' object has no attribute ".toList ++ member.quoted
  | .unhashable typeName => "unhashable type: ".toList ++ typeName.quoted
  | .unordered relation left right =>
    relation.quoted ++ " not supported between instances of ".toList ++ left.quoted ++
      " and ".toList ++ right.quoted
  | .notJoinable typeName =>
    "can only concatenate str (not \"".toList ++ typeName ++ "\") to str".toList
  | .noDifference typeName =>
    "unsupported operand type(s) for -: ".toList ++ typeName.quoted ++ " and 'int'".toList
  | .notABound =>
    "slice indices must be integers or None or have an __index__ method".toList
  | .notAnIndex => "tuple indices must be integers or slices, not float".toList
  | .noSuchIndex => "tuple index out of range".toList
  | .indexTooLarge => "cannot fit 'int' into an index-sized integer".toList
  | .noSuchKey key => key.quoted
  | .frozenField field => "cannot assign to field ".toList ++ field.quoted
  | .bytesSubject => "cannot use a string pattern on a bytes-like object".toList
  | .notABuilder typeName => "expected a token factory or callable, got ".toList ++ typeName
  | .tooManyRounds => Pattern.Problem.tooManyRounds.wording
  | .charsetsCombined => Pattern.Problem.charsetsCombined.wording
  | .tooManyDigits =>
    "Exceeds the limit (".toList ++ Text.ofInt Text.digitLimit ++
      " digits) for integer string conversion; use sys.set_int_max_str_digits() ".toList ++
      "to increase the limit".toList
  | .raised message | .noMore message => message
  | .unfinished => "the run did not end within its bound".toList

end Failure

end PullLexer
