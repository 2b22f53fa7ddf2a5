import PullLexer.Lexer.Registration
import PullLexer.Proofs.Sorting

/-!
# How a rule may be spelt

One value spells a rule in one of four ways (`Rule.Spells`), and these are
understood. Whatever spells no rule is refused, and the lexer it was given to
stays as it is. The refusal of a dictionary names its keys in order, and any
other refusal shows the value. Keys that have no order cannot be named so, and
what holds an integer of too many digits cannot be shown; then it is the
comparison or the writing that fails (`Rule.spec_understood_or_refused`).
-/

namespace PullLexer

namespace Rule

variable {spec name patterns : Value} {entries : List (Value × Value)} {f : Failure}

-- ---------------------------------------------------------------------------
-- Shapes
-- ---------------------------------------------------------------------------

/-- The values under two keys of a dictionary that has both. -/
def both? (entries : List (Value × Value)) (first second : String) : Option (Value × Value) :=
  match Value.entry? entries first.toList, Value.entry? entries second.toList with
  | some v, some w => some (v, w)
  | _, _ => none

/-- How one value spells a name with patterns: as a rule value, as a dictionary with both under one
of two pairs of keys, of which the first is preferred, or as a pair. -/
inductive Spells : Value → Value → Value → Prop
  | rule {name patterns : Value} : Spells (.rule name patterns) name patterns
  | typed {entries : List (Value × Value)} {name patterns : Value} :
      both? entries "type" "regex" = some (name, patterns) → Spells (.dict entries) name patterns
  | named {entries : List (Value × Value)} {name patterns : Value} :
      both? entries "type" "regex" = none →
      both? entries "name" "pattern" = some (name, patterns) → Spells (.dict entries) name patterns
  | pair {name patterns : Value} : Spells (.tuple [name, patterns]) name patterns

/-- Why a value that spells no rule is refused. -/
inductive Refuses : Value → Failure → Prop
  | shape {spec : Value} : (∀ entries, spec ≠ .dict entries) →
      Refuses spec (.ofComplaint (.unknownShape spec))
  | keys {entries : List (Value × Value)} {keys : List Value} : keys.Perm (entries.map (·.1)) →
      Refuses (.dict entries) (.ofComplaint (.missingKeys keys))
  | disorder {entries : List (Value × Value)} {v w : Value} {f : Failure} :
      v ∈ entries.map (·.1) → w ∈ entries.map (·.1) → Value.less v w = .error f →
      Refuses (.dict entries) f

theorem ofSpec_dict (entries : List (Value × Value)) :
    ofSpec (.dict entries) =
      match both? entries "type" "regex" with
      | some found => .ok found
      | none =>
        match both? entries "name" "pattern" with
        | some found => .ok found
        | none =>
          match Value.sorted (entries.map (·.1)) with
          | .error f => .error f
          | .ok keys => .error (.ofComplaint (.missingKeys keys)) := rfl

theorem Spells.ofSpec_eq (h : Spells spec name patterns) : ofSpec spec = .ok (name, patterns) := by
  cases h with
  | rule => rfl
  | typed hboth => simp only [ofSpec_dict, hboth]
  | named hnone hboth => simp only [ofSpec_dict, hnone, hboth]
  | pair => rfl

theorem spells_or_refuses_dict (entries : List (Value × Value)) :
    (∃ name patterns, Spells (.dict entries) name patterns) ∨
      ∃ f, ofSpec (.dict entries) = .error f ∧ Refuses (.dict entries) f := by
  rw [ofSpec_dict]
  cases htyped : both? entries "type" "regex" with
  | some found => exact .inl ⟨_, _, .typed htyped⟩
  | none =>
    cases hnamed : both? entries "name" "pattern" with
    | some found => exact .inl ⟨_, _, .named htyped hnamed⟩
    | none =>
      have hcompares := Value.compares_sorted (entries.map (·.1))
      cases hsorted : Value.sorted (entries.map (·.1)) with
      | ok keys =>
        rw [hsorted] at hcompares
        exact .inr ⟨_, rfl, .keys hcompares⟩
      | error f =>
        rw [hsorted] at hcompares
        obtain ⟨v, hv, w, hw, hless⟩ := hcompares
        exact .inr ⟨f, rfl, .disorder hv hw hless⟩

theorem spells_or_refuses (spec : Value) :
    (∃ name patterns, Spells spec name patterns) ∨
      ∃ f, ofSpec spec = .error f ∧ Refuses spec f := by
  cases spec with
  | rule name patterns => exact .inl ⟨name, patterns, .rule⟩
  | dict entries => exact spells_or_refuses_dict entries
  | tuple items =>
    match items with
    | [name, patterns] => exact .inl ⟨name, patterns, .pair⟩
    | [] | [_] | _ :: _ :: _ :: _ => exact .inr ⟨_, rfl, .shape nofun⟩
  | _ => exact .inr ⟨_, rfl, .shape nofun⟩

theorem ofSpec_eq_ok_iff : ofSpec spec = .ok (name, patterns) ↔ Spells spec name patterns := by
  constructor
  · intro h
    rcases spells_or_refuses spec with ⟨name', patterns', hspells⟩ | ⟨f, hrefused, -⟩
    · cases hspells.ofSpec_eq.symm.trans h
      exact hspells
    · cases hrefused.symm.trans h
  · exact Spells.ofSpec_eq

/-- The failure to compare two keys of a dictionary, between which there is no order. -/
def Disordered (spec : Value) (f : Failure) : Prop :=
  ∃ entries v w left right, spec = .dict entries ∧ v ∈ entries.map (·.1) ∧
    w ∈ entries.map (·.1) ∧ Value.less v w = .error f ∧ f = .unordered ['<'] left right

/-- What the refusal of a value shows: the keys of a dictionary, and any other value itself. -/
def shown : Value → List Value
  | .dict entries => entries.map (·.1)
  | spec => [spec]

theorem shown_of_ne_dict (h : ∀ entries, spec ≠ .dict entries) : shown spec = [spec] := by
  cases spec with
  | dict entries => exact absurd rfl (h entries)
  | _ => rfl

/-- The failure to show a value that holds an integer of too many digits. -/
def Unshown (spec : Value) (f : Failure) : Prop :=
  f = .tooManyDigits ∧ ∃ v ∈ shown spec, v.isWritable = false

theorem diagnosed_or_unshown {complaint : Complaint} {v : Value}
    (hsubject : complaint.subject? = some v)
    (hwritable : v.isWritable = (shown spec).all Value.isWritable) :
    (Failure.ofComplaint complaint).kind? = some complaint.kind ∧
        (∀ w ∈ shown spec, w.isWritable = true) ∨
      Unshown spec (.ofComplaint complaint) := by
  have hwhole : Diagnostic.isWritable { complaint } = (shown spec).all Value.isWritable := by
    simp [Diagnostic.isWritable, hsubject, hwritable]
  cases hall : (shown spec).all Value.isWritable with
  | true =>
    rw [Failure.ofComplaint, Failure.ofDiagnostic_of_isWritable (hwhole.trans hall)]
    exact .inl ⟨rfl, List.all_eq_true.mp hall⟩
  | false =>
    rw [Failure.ofComplaint, Failure.ofDiagnostic_of_not_isWritable (hwhole.trans hall)]
    obtain ⟨w, hmem, hw⟩ := List.all_eq_false.mp hall
    exact .inr ⟨rfl, w, hmem, Bool.eq_false_iff.mpr hw⟩

/-- A refusal is a diagnostic about patterns, unless it is for want of an order between two keys or
what it shows cannot be shown. -/
theorem Refuses.cases (h : Refuses spec f) :
    f.kind? = some .invalidPattern ∧ (∀ v ∈ shown spec, v.isWritable = true) ∨
      Disordered spec f ∨ Unshown spec f := by
  cases h with
  | shape hspec =>
    have hwritable : spec.isWritable = (shown spec).all Value.isWritable := by
      rw [shown_of_ne_dict hspec, List.all_cons, List.all_nil, Bool.and_true]
    exact (diagnosed_or_unshown rfl hwritable).imp_right .inr
  | @keys entries keys hperm =>
    have hwritable : (Value.list keys).isWritable =
        (shown (.dict entries)).all Value.isWritable := by
      rw [Value.isWritable_list, shown, hperm.all_eq]
    exact (diagnosed_or_unshown rfl hwritable).imp_right .inr
  | @disorder entries v w f hv hw hless =>
    obtain ⟨left, right, hf⟩ := Value.less_eq_error hless
    exact .inr (.inl ⟨entries, v, w, left, right, rfl, hv, hw, hless, hf⟩)

end Rule

-- ---------------------------------------------------------------------------
-- Adding what was spelt
-- ---------------------------------------------------------------------------

namespace Lexer

variable {ω τ : Type} {spec name patterns : Value} {f : Failure}

theorem addRule_of_spells (s : Lexer ω τ) (h : Rule.Spells spec name patterns) :
    s.addRule spec .null = s.register name patterns := by
  have hspec := h.ofSpec_eq
  cases h <;> simp only [addRule, hspec]

theorem addRule_of_refused (s : Lexer ω τ) (h : Rule.ofSpec spec = .error f)
    (hspec : ∀ n, spec ≠ .text n) : s.addRule spec .null = (.error f, s) := by
  cases spec with
  | text n => exact absurd rfl (hspec n)
  | _ => simp only [addRule, h]

end Lexer

namespace Rule

variable {ω τ : Type}

/-- What is understood is what spells a rule. Anything else is refused, and leaves a lexer it is to
be added to as it is; only a text is taken for the name of a rule there. The refusal is a diagnostic
about patterns that shows the value, or the keys of a dictionary. Where there is no order between
two of these keys it is the failure to compare them, and where what is to be shown holds an integer of
too many digits it is the failure to write that. -/
theorem spec_understood_or_refused (spec : Value) :
    (∀ name patterns, ofSpec spec = .ok (name, patterns) ↔ Spells spec name patterns) ∧
      ((∀ name patterns, ¬Spells spec name patterns) → ∃ f, ofSpec spec = .error f ∧
        (f.kind? = some .invalidPattern ∧ (∀ v ∈ shown spec, v.isWritable = true) ∨
          Disordered spec f ∨ Unshown spec f) ∧
        ((∀ n, spec ≠ .text n) → ∀ s : Lexer ω τ, s.addRule spec .null = (.error f, s))) := by
  refine ⟨fun name patterns => ofSpec_eq_ok_iff, fun hnone => ?_⟩
  rcases spells_or_refuses spec with ⟨name, patterns, hspells⟩ | ⟨f, hrefused, hrefuses⟩
  · exact absurd hspells (hnone name patterns)
  · exact ⟨f, hrefused, hrefuses.cases,
      fun hspec s => s.addRule_of_refused hrefused hspec⟩

/-- A dictionary with one key of each pair, and values of any nesting. -/
theorem spec_understood_or_refused_half_spelt :
    let spec : Value := .dict
      [(.text "type".toList, .list [.tuple [.null, .dict [(.int 1, .object)]]]),
        (.text "pattern".toList, .text "^a".toList)]
    (∀ name patterns, ¬Spells spec name patterns) ∧ ∃ f, ofSpec spec = .error f ∧
      (f.kind? = some .invalidPattern ∧ (∀ v ∈ shown spec, v.isWritable = true) ∨
        Disordered spec f ∨ Unshown spec f) ∧
      ((∀ n, spec ≠ .text n) →
        ∀ s : Lexer Unit (Token Text), s.addRule spec .null = (.error f, s)) := by
  suffices hnone : ∀ name patterns, ¬Spells _ name patterns from
    ⟨hnone, (spec_understood_or_refused _).2 hnone⟩
  rintro name patterns (_ | h | ⟨-, h⟩ | _) <;> cases h

/-- A dictionary that spells no rule, with a number and a text for keys. It is refused, but not as
something that is no rule. -/
theorem disordered_keys_not_compared :
    let spec : Value := .dict
      [(.int 1, .text "x".toList), (.text "name".toList, .text "y".toList)]
    let f : Failure := .unordered ['<'] "str".toList "int".toList
    (∀ name patterns, ¬Spells spec name patterns) ∧ ofSpec spec = .error f ∧ f.kind? = none ∧
      ∀ s : Lexer Unit (Token Text), s.addRule spec .null = (.error f, s) := by
  refine ⟨?_, rfl, rfl, fun s => rfl⟩
  rintro name patterns (_ | h | ⟨-, h⟩ | _) <;> cases h

end Rule

end PullLexer
