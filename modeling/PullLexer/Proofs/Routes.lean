import PullLexer.Lexer.Operation
import PullLexer.Proofs.Registration
import PullLexer.Proofs.Spelling

/-!
# Routes of registration

A rule comes to a table under its name or spelt in one value, alone or as the
only one of a dictionary or a row, and through the lexer or past it. The routes
that add the same rule (`Operation.Adds`) come to the same: the table takes the
rule, or all fail alike and nothing changes. Several rules in one value are
added as they are one by one, and those before the first refused one stay
(`RuleTable.Takes`).

A rule under a name is refused for the first of its patterns that is refused,
and the refusal names the rule. Two faults of a source escape this
(`Rule.Rejects`): when it asks for more rounds than can be counted, and when it
asks for two character sets at once.
-/

namespace PullLexer

open List (Forall₂)

-- ---------------------------------------------------------------------------
-- Refusals
-- ---------------------------------------------------------------------------

namespace Rule

variable {name : Text} {rule : Option Value} {v patterns : Value} {values : List Value}
  {f : Failure}

/-- How one pattern of a named rule is refused. -/
inductive Rejects (name : Text) : Value → Failure → Prop
  | diagnosed {v : Value} {complaint : Complaint} : complaint.kind = .invalidPattern →
      Rejects name v (.diagnostic ⟨complaint, some (.text name), none⟩)
  | tooManyRounds {source : Text} {position : Option Nat} :
      Pattern.compile source .none = .error ⟨.tooManyRounds, position⟩ →
      Rejects name (.text source) .tooManyRounds
  | charsetsCombined {source : Text} {position : Option Nat} :
      Pattern.compile source .none = .error ⟨.charsetsCombined, position⟩ →
      Rejects name (.text source) .charsetsCombined

/-- The first pattern that is refused decides for those of a rule. -/
def RejectsFirst (name : Text) (patterns : Value) (f : Failure) : Prop :=
  ∃ before v after, written patterns = before ++ v :: after ∧
    (∀ w ∈ before, ∃ p, compilePattern (some (.text name)) w = .ok p) ∧ Rejects name v f

theorem rejects_compilePattern (h : compilePattern (some (.text name)) v = .error f) :
    Rejects name v f := by
  cases v with
  | pattern p => cases h
  | text source =>
    simp only [compilePattern, compileSource] at h
    split at h <;> rename_i hcompile
    · cases h
    · cases h
      exact .tooManyRounds hcompile
    · cases h
      exact .charsetsCombined hcompile
    · cases h
      exact .diagnosed rfl
  | _ =>
    cases h
    exact .diagnosed rfl

theorem compileEach_eq_error (h : compileEach rule values = .error f) :
    ∃ before v after, values = before ++ v :: after ∧
      (∀ w ∈ before, ∃ p, compilePattern rule w = .ok p) ∧ compilePattern rule v = .error f := by
  induction values with
  | nil => cases h
  | cons v rest ih =>
    unfold compileEach at h
    split at h <;> rename_i hv
    · cases h
      exact ⟨[], v, rest, rfl, List.forall_mem_nil _, hv⟩
    · split at h <;> rename_i hrest
      · cases h
        obtain ⟨before, w, after, rfl, hbefore, hw⟩ := ih hrest
        exact ⟨v :: before, w, after, rfl, List.forall_mem_cons.mpr ⟨⟨_, hv⟩, hbefore⟩, hw⟩
      · cases h

theorem rejectsFirst_ofValues (h : ofValues (.text name) patterns = .error f) :
    RejectsFirst name patterns f := by
  simp only [ofValues, compilePatterns_eq] at h
  split at h <;> rename_i hcompile
  · cases h
    obtain ⟨before, v, after, hwritten, hbefore, hv⟩ := compileEach_eq_error hcompile
    exact ⟨before, v, after, hwritten, hbefore, rejects_compilePattern hv⟩
  · cases h

theorem ofValues_of_charsetsCombined {source : Text} {position : Option Nat}
    (h : Pattern.compile source .none = .error ⟨.charsetsCombined, position⟩) :
    ofValues (.text name) (.text source) = .error .charsetsCombined := by
  simp only [ofValues, compilePatterns, compileEach, compilePattern, compileSource, h]

end Rule

-- ---------------------------------------------------------------------------
-- One rule
-- ---------------------------------------------------------------------------

namespace Lexer

variable {ω τ : Type} {s : Lexer ω τ} {name : Text} {patterns : Value} {r : Rule} {f : Failure}

theorem register_of_ok (h : Rule.ofValues (.text name) patterns = .ok r) :
    ∃ t, s.register (.text name) patterns = (.ok (), t) ∧ t.rules = s.rules.insert r := by
  simp only [register, RuleTable.add, h]
  exact ⟨_, rfl, rfl⟩

theorem register_of_error (h : Rule.ofValues (.text name) patterns = .error f) :
    s.register (.text name) patterns = (.error f, s) := by
  simp only [register, RuleTable.add, h]

theorem addToTable_of_ok (h : Rule.ofValues (.text name) patterns = .ok r) :
    s.addToTable (.text name) patterns = (.ok r, { s with rules := s.rules.insert r }) := by
  simp only [addToTable, RuleTable.add, h]

theorem addToTable_of_error (h : Rule.ofValues (.text name) patterns = .error f) :
    s.addToTable (.text name) patterns = (.error f, s) := by
  simp only [addToTable, RuleTable.add, h]

theorem addRule_text (s : Lexer ω τ) (name : Text) (patterns : Value) :
    s.addRule (.text name) patterns = s.register (.text name) patterns := by
  cases patterns <;> rfl

theorem addRules_dict (s : Lexer ω τ) (entries : List (Value × Value)) :
    s.addRules (.dict entries) = s.addEach entries := rfl

theorem addRules_list (s : Lexer ω τ) (specs : List Value) :
    s.addRules (.list specs) = s.addEach (specs.map (·, .null)) := rfl

theorem addEach_singleton (s : Lexer ω τ) (entry : Value × Value) :
    s.addEach [entry] = s.addRule entry.1 entry.2 := by
  simp only [addEach]
  rcases s.addRule entry.1 entry.2 with ⟨_ | _, _⟩ <;> rfl

end Lexer

namespace Operation

open Lexer

variable {ω τ : Type} {name : Text} {patterns : Value} {route : Operation ω τ}

/-- The operations that add this rule and no other. -/
inductive Adds (name : Text) (patterns : Value) : Operation ω τ → Prop
  | apart : Adds name patterns (.addRule (.text name) patterns)
  | spelt {spec : Value} : Rule.Spells spec (.text name) patterns →
      Adds name patterns (.addRule spec .null)
  | mapped : Adds name patterns (.addRules (.dict [(.text name, patterns)]))
  | listed {spec : Value} : Rule.Spells spec (.text name) patterns →
      Adds name patterns (.addRules (.list [spec]))
  | direct : Adds name patterns (.addToTable (.text name) patterns)

/-- The operations by which client code adds one rule. -/
def routes (name : Text) (patterns : Value) : List (Operation ω τ) :=
  [.addRule (.text name) patterns,
    .addRule (.tuple [.text name, patterns]) .null,
    .addRule (.dict [(.text "type".toList, .text name), (.text "regex".toList, patterns)]) .null,
    .addRule (.dict [(.text "name".toList, .text name), (.text "pattern".toList, patterns)]) .null,
    .addRule (.rule (.text name) patterns) .null,
    .addRules (.dict [(.text name, patterns)]),
    .addRules (.list [.tuple [.text name, patterns]]),
    .addToTable (.text name) patterns]

theorem adds_of_mem_routes (h : route ∈ routes name patterns) : Adds name patterns route := by
  simp only [routes, List.mem_cons, List.not_mem_nil, or_false] at h
  rcases h with rfl | rfl | rfl | rfl | rfl | rfl | rfl | rfl
  · exact .apart
  · exact .spelt .pair
  · exact .spelt (.typed rfl)
  · exact .spelt (.named rfl rfl)
  · exact .spelt .rule
  · exact .mapped
  · exact .listed .pair
  · exact .direct

variable [TokenLike τ] {s : Lexer ω τ} {r : Rule} {f : Failure}

theorem Adds.registers_or_direct (h : Adds name patterns route) (s : Lexer ω τ) :
    route.perform s = Outcome.map (fun _ => .done) (s.register (.text name) patterns) ∨
      route = .addToTable (.text name) patterns := by
  cases h with
  | apart =>
    rw [perform, addRule_text]
    exact .inl rfl
  | spelt hspells =>
    rw [perform, addRule_of_spells s hspells]
    exact .inl rfl
  | mapped =>
    rw [perform, addRules_dict, addEach_singleton, addRule_text]
    exact .inl rfl
  | listed hspells =>
    rw [perform, addRules_list, List.map_singleton, addEach_singleton, addRule_of_spells s hspells]
    exact .inl rfl
  | direct => exact .inr rfl

theorem Adds.perform_of_ok (h : Adds name patterns route)
    (hr : Rule.ofValues (.text name) patterns = .ok r) :
    (route.perform s).1.isOk ∧ (route.step s).rules = s.rules.insert r := by
  unfold step
  rcases h.registers_or_direct s with hregisters | rfl
  · obtain ⟨t, ht, hrules⟩ := register_of_ok (s := s) hr
    rw [hregisters, ht]
    exact ⟨rfl, hrules⟩
  · rw [perform, addToTable_of_ok hr]
    exact ⟨rfl, rfl⟩

theorem Adds.perform_of_error (h : Adds name patterns route)
    (hf : Rule.ofValues (.text name) patterns = .error f) : route.perform s = (.error f, s) := by
  rcases h.registers_or_direct s with hregisters | rfl
  · rw [hregisters, register_of_error hf]
    rfl
  · rw [perform, addToTable_of_error hf]
    rfl

end Operation

-- ---------------------------------------------------------------------------
-- Several rules
-- ---------------------------------------------------------------------------

/-- What a table that takes named rules one after the other comes to: all are accepted, or those
before the first that is refused. -/
inductive RuleTable.Takes (table : RuleTable) :
    List (Text × Value) → Except Failure Unit → RuleTable → Prop
  | all {entries : List (Text × Value)} {rules : List Rule} :
      Forall₂ (fun e r => Rule.ofValues (.text e.1) e.2 = .ok r) entries rules →
      Takes table entries (.ok ()) (rules.foldl insert table)
  | upTo {before after : List (Text × Value)} {e : Text × Value} {rules : List Rule}
      {f : Failure} :
      Forall₂ (fun e r => Rule.ofValues (.text e.1) e.2 = .ok r) before rules →
      Rule.ofValues (.text e.1) e.2 = .error f →
      Takes table (before ++ e :: after) (.error f) (rules.foldl insert table)

theorem RuleTable.Takes.cons {table table' : RuleTable} {e : Text × Value} {r : Rule}
    {entries : List (Text × Value)} {answer : Except Failure Unit}
    (hr : Rule.ofValues (.text e.1) e.2 = .ok r)
    (h : Takes (table.insert r) entries answer table') :
    Takes table (e :: entries) answer table' := by
  cases h with
  | all hrules => exact .all (.cons hr hrules)
  | upTo hrules hrefused => exact .upTo (.cons hr hrules) hrefused

namespace Operation

open Lexer

variable {ω τ : Type} [TokenLike τ] {s : Lexer ω τ} {entries : List (Text × Value)}
  {rows : List Value}

/-- Operations one after the other, up to the first that fails. -/
def inTurn : List (Operation ω τ) → Lexer ω τ → Outcome ω τ Unit
  | [], s => (.ok (), s)
  | operation :: rest, s =>
    match operation.perform s with
    | (.ok _, s) => inTurn rest s
    | (.error f, s) => (.error f, s)

def addCalls (entries : List (Text × Value)) : List (Operation ω τ) :=
  entries.map fun e => .addRule (.text e.1) e.2

def mapping (entries : List (Text × Value)) : Value :=
  .dict (entries.map fun e => (.text e.1, e.2))

theorem inTurn_cons_addRule (name : Text) (patterns : Value) (rest : List (Operation ω τ))
    (s : Lexer ω τ) :
    inTurn (.addRule (.text name) patterns :: rest) s =
      match s.register (.text name) patterns with
      | (.ok _, s) => inTurn rest s
      | (.error f, s) => (.error f, s) := by
  rw [inTurn, perform, addRule_text]
  rcases s.register (.text name) patterns with ⟨_ | _, _⟩ <;> rfl

theorem takes_inTurn (s : Lexer ω τ) (entries : List (Text × Value)) :
    s.rules.Takes entries (inTurn (addCalls entries) s).1
      (inTurn (addCalls entries) s).2.rules := by
  induction entries generalizing s with
  | nil => exact .all .nil
  | cons e rest ih =>
    rw [addCalls, List.map_cons, inTurn_cons_addRule, ← addCalls]
    cases hmade : Rule.ofValues (.text e.1) e.2 with
    | ok r =>
      obtain ⟨t, ht, hrules⟩ := register_of_ok (s := s) hmade
      rw [ht]
      exact RuleTable.Takes.cons hmade (hrules ▸ ih t)
    | error f =>
      rw [register_of_error hmade]
      show s.rules.Takes ([] ++ e :: rest) (.error f) s.rules
      exact .upTo .nil hmade

/-- Rules written in any way are added as they are one by one, if each of them is. -/
theorem addEach_eq_inTurn {written : List (Value × Value)}
    (hwritten : Forall₂ (fun e w => ∀ s : Lexer ω τ, s.addRule w.1 w.2 =
      s.register (.text e.1) e.2) entries written) (s : Lexer ω τ) :
    s.addEach written = inTurn (addCalls entries) s := by
  induction hwritten generalizing s with
  | nil => rfl
  | @cons e w _ _ hw _ ih =>
    rw [addCalls, List.map_cons, inTurn_cons_addRule, ← addCalls, addEach, hw]
    rcases s.register (.text e.1) e.2 with ⟨_ | _, t⟩
    · rfl
    · exact ih t

theorem addRules_mapping (s : Lexer ω τ) (entries : List (Text × Value)) :
    s.addRules (mapping entries) = inTurn (addCalls entries) s := by
  rw [mapping, addRules_dict]
  refine addEach_eq_inTurn (List.forall₂_map_right_iff.mpr (List.forall₂_same.mpr ?_)) s
  intro e _ s
  exact addRule_text s e.1 e.2

theorem addRules_rows
    (hrows : Forall₂ (fun e spec => Rule.Spells spec (.text e.1) e.2) entries rows)
    (s : Lexer ω τ) : s.addRules (.list rows) = inTurn (addCalls entries) s := by
  rw [addRules_list]
  refine addEach_eq_inTurn (List.forall₂_map_right_iff.mpr (hrows.imp ?_)) s
  intro e spec hspells s
  exact addRule_of_spells s hspells

theorem create_mapping {input : Text} {choice : Builder.Choice ω τ} {settings : Settings ω τ}
    {memory : ω} (hfresh : (create (.text input) .null choice settings memory).1 = .ok s)
    (entries : List (Text × Value)) :
    create (.text input) (mapping entries) choice settings memory =
      ((s.addRules (mapping entries)).1.map fun _ => (s.addRules (mapping entries)).2,
        (s.addRules (mapping entries)).2.journal) := by
  unfold create at hfresh ⊢
  dsimp only at hfresh ⊢
  cases hresolve : (choice.orElse settings.builder).resolve with
  | error f =>
    rw [hresolve] at hfresh
    cases hfresh
  | ok builder =>
    rw [hresolve] at hfresh
    cases hfresh
    cases entries with
    | nil => rfl
    | cons e rest =>
      simp only [mapping, Value.truthy, List.map_cons, List.isEmpty_cons, Bool.not_false, if_true]
      generalize Lexer.addRules _ _ = outcome
      obtain ⟨_ | _, _⟩ := outcome <;> rfl

/-- All routes that add one rule take it into the table, or else all fail alike and leave the lexer
as it is: for the first pattern refused, with a diagnostic that names the rule, unless one of two
faults of a source escapes it. A dictionary from names to patterns, a row of rules spelt in one
value each and a creation with the dictionary do what adding the rules one by one does, up to the
first that is refused. -/
theorem registration_routes_agree (s : Lexer ω τ) :
    (∀ name patterns,
      (∃ r, Rule.ofValues (.text name) patterns = .ok r ∧ ∀ route, Adds name patterns route →
        (route.perform s).1.isOk ∧ (route.step s).rules = s.rules.insert r) ∨
      ∃ f, Rule.ofValues (.text name) patterns = .error f ∧ Rule.RejectsFirst name patterns f ∧
        ∀ route, Adds name patterns route → route.perform s = (.error f, s)) ∧
    ∀ entries : List (Text × Value),
      let outcome := inTurn (addCalls entries) s
      s.rules.Takes entries outcome.1 outcome.2.rules ∧
        s.addRules (mapping entries) = outcome ∧
        (∀ rows, Forall₂ (fun e spec => Rule.Spells spec (.text e.1) e.2) entries rows →
          s.addRules (.list rows) = outcome) ∧
        ∀ input choice settings memory,
          (create (.text input) .null choice settings memory).1 = .ok s →
          create (.text input) (mapping entries) choice settings memory =
            (outcome.1.map fun _ => outcome.2, outcome.2.journal) := by
  refine ⟨fun name patterns => ?_, fun entries => ⟨takes_inTurn s entries,
    addRules_mapping s entries, fun rows hrows => addRules_rows hrows s, ?_⟩⟩
  · cases hmade : Rule.ofValues (.text name) patterns with
    | ok r => exact .inl ⟨r, rfl, fun route hadds => hadds.perform_of_ok hmade⟩
    | error f =>
      exact .inr ⟨f, rfl, Rule.rejectsFirst_ofValues hmade,
        fun route hadds => hadds.perform_of_error hmade⟩
  · intro input choice settings memory hfresh
    rw [create_mapping hfresh, addRules_mapping]

/-- A row that is read once is added under a name by every route; of three rules in one value the
second is refused. -/
theorem registration_routes_agree_after_stream :
    let name := "A".toList
    let patterns : Value := .stream [.text "^a".toList, .text "^b".toList]
    let s : Lexer Unit (Token Text) := start "ab".toList .empty .standard .default ()
    let entries := [(name, patterns), ("B".toList, .null), ("C".toList, .text "^c".toList)]
    let outcome := inTurn (addCalls entries) s
    (∃ r, Rule.ofValues (.text name) patterns = .ok r ∧ ∀ route ∈ routes name patterns,
      (route.perform s).1.isOk ∧ (route.step s).rules = s.rules.insert r) ∧
    (create (.text "ab".toList) .null .nothing .default ()).1 = .ok s ∧
    outcome.1.isOk = false ∧ outcome.2.rules.names = [name] ∧
    s.rules.Takes entries outcome.1 outcome.2.rules ∧ s.addRules (mapping entries) = outcome ∧
    s.addRules (.list (entries.map fun e => .tuple [.text e.1, e.2])) = outcome ∧
    create (.text "ab".toList) (mapping entries) .nothing .default () =
      (outcome.1.map fun _ => outcome.2, outcome.2.journal) := by
  intro name patterns s entries outcome
  obtain ⟨hone, hseveral⟩ := registration_routes_agree s
  obtain ⟨htakes, hmapping, hrows, hcreate⟩ := hseveral entries
  refine ⟨?_, rfl, by decide +kernel, by decide +kernel, htakes, hmapping, hrows _ ?_,
    hcreate "ab".toList .nothing .default () rfl⟩
  · have haccepted : (Rule.ofValues (.text name) patterns).isOk = true := by decide +kernel
    rcases hone name patterns with ⟨r, hr, hroutes⟩ | ⟨f, hf, -⟩
    · exact ⟨r, hr, fun route hmem => hroutes route (adds_of_mem_routes hmem)⟩
    · rw [hf] at haccepted
      cases haccepted
  · exact .cons .pair (.cons .pair (.cons .pair .nil))

/-- A source that asks for two character sets at once is refused by every route, but not as
something that is no pattern. -/
theorem combined_charsets_not_diagnosed :
    let s : Lexer Unit (Token Text) := start "x".toList .empty .standard .default ()
    Failure.charsetsCombined.kind? = none ∧
      ∀ route ∈ routes "n".toList (.text "(?a)(?u)^x".toList),
        route.perform s = (.error .charsetsCombined, s) := by
  intro s
  have hcompile : Pattern.compile "(?a)(?u)^x".toList .none = .error ⟨.charsetsCombined, none⟩ := by
    decide +kernel
  exact ⟨rfl, fun route hmem => (adds_of_mem_routes hmem).perform_of_error
    (Rule.ofValues_of_charsetsCombined hcompile)⟩

end Operation

end PullLexer
