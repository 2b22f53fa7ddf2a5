import PullLexer.Pattern.Matching
import PullLexer.Pattern.Reading

/-!
# Patterns

A pattern is a source together with what it was read as. Matching at the start
of a text gives the text matched, which is a beginning of the text whatever the
expression says, and what each group captured.
-/

namespace PullLexer

/-- A pattern that was read. The fingerprint is a number that tells most patterns apart. -/
structure Pattern where
  fingerprint : Nat
  source : Text
  flags : Flags
  expr : Pattern.Expr
  groupCount : Nat
  groupNames : List (Text × Nat)
  named_le : ∀ entry ∈ groupNames, 0 < entry.2 ∧ entry.2 ≤ groupCount
deriving DecidableEq

instance : Inhabited Pattern := ⟨0, [], .none, .empty, 0, [], by simp⟩

namespace Pattern

/-- A number computed from the source and the flags alone. -/
def fingerprintOf (flags : Flags) (source : Text) : Nat :=
  source.foldl (fun n c => (n * 1114117 + c.toNat) % 2305843009213693951) flags.toNat

/-- The pattern that a source was read as. Only names of groups that there are count. -/
def ofProgram (source : Text) (program : Reading.Program) : Pattern where
  fingerprint := fingerprintOf program.flags source
  source := source
  flags := program.flags
  expr := program.expr
  groupCount := program.groupCount
  groupNames := program.groupNames.filter fun entry => 0 < entry.2 && entry.2 ≤ program.groupCount
  named_le := by
    intro entry h
    simpa using (List.mem_filter.mp h).2

def compile (source : Text) (flags : Flags) : Except Fault Pattern :=
  match read flags source with
  | .error fault => .error fault
  | .ok program => .ok (ofProgram source program)

theorem source_compile {source : Text} {flags : Flags} {p : Pattern}
    (h : compile source flags = .ok p) : p.source = source := by
  unfold compile at h
  split at h
  · cases h
  · cases h; rfl

/-- What a pattern matched: where, the text, and the text of each group that took part. -/
structure Match where
  start : Nat
  text : Text
  groups : List (Option Text)
  names : List (Text × Nat)
  names_le : ∀ entry ∈ names, 0 < entry.2 ∧ entry.2 ≤ groups.length
deriving DecidableEq

namespace Match

/-- The text of a group by number, the whole match for zero; no answer where there is no such
group. -/
def group? (m : Match) (n : Int) : Option (Option Text) :=
  if n = 0 then some (some m.text)
  else if 0 < n then m.groups[(n - 1).toNat]?
  else none

/-- The text of a group by name; no answer where there is no such group. -/
def named? (m : Match) (name : Text) : Option (Option Text) :=
  match m.names.find? (·.1 == name) with
  | some entry => m.group? entry.2
  | none => none

/-- Every name with the text of its group, in the order of the groups. -/
def named (m : Match) : List (Text × Option Text) :=
  m.names.map fun entry => (entry.1, (m.group? entry.2).join)

end Match

def matchBetween (p : Pattern) (place finish : Place) : Match where
  start := place.offset
  text := place.after.take (finish.offset - place.offset)
  groups := (List.range p.groupCount).map fun n => finish.captured? (n + 1)
  names := p.groupNames
  names_le := by simpa using p.named_le

def matchAt? (p : Pattern) (place : Place) : Option Match :=
  (p.expr.attempt place some).map (p.matchBetween place)

def matchStart? (p : Pattern) (t : Text) : Option Match := p.matchAt? (Place.start t)

/-- The first match at this place or after it, the place given by what surrounds it. -/
def searchFrom? (p : Pattern) (size : Nat) : (before after : Text) → (offset : Nat) → Option Match
  | before, [], offset => p.matchAt? ⟨before, [], offset, size, []⟩
  | before, c :: after, offset =>
    match p.matchAt? ⟨before, c :: after, offset, size, []⟩ with
    | some found => some found
    | none => searchFrom? p size (c :: before) after (offset + 1)

/-- The leftmost match in a text. -/
def search? (p : Pattern) (t : Text) : Option Match := p.searchFrom? t.length [] t 0

theorem start_matchStart {p : Pattern} {t : Text} {m : Match} (h : p.matchStart? t = some m) :
    m.start = 0 := by
  simp only [matchStart?, matchAt?, Option.map_eq_some_iff] at h
  obtain ⟨_, _, rfl⟩ := h
  rfl

theorem text_matchStart {p : Pattern} {t : Text} {m : Match} (h : p.matchStart? t = some m) :
    m.text = t.take m.text.length := by
  simp only [matchStart?, matchAt?, Option.map_eq_some_iff] at h
  obtain ⟨finish, _, rfl⟩ := h
  simp [matchBetween, Place.start]

theorem length_groups_matchStart {p : Pattern} {t : Text} {m : Match}
    (h : p.matchStart? t = some m) : m.groups.length = p.groupCount := by
  simp only [matchStart?, matchAt?, Option.map_eq_some_iff] at h
  obtain ⟨finish, _, rfl⟩ := h
  simp [matchBetween]

end Pattern

end PullLexer
