import PullLexer.Proofs.Simulation

/-!
# Lexers that cannot be told apart

Two lexers that differ in settings, in the patterns known to be anchored or in
what is written down, and whose productions and matches correspond (`Twins`),
answer every operation alike, whichever tokens, lexemes or rules it is given, and
stay in step (`Twins.perform`). A guard may work on them itself as long as it
does not tell them apart.
-/

namespace PullLexer

open List (Forall₂)

variable {ω τ α β : Type}

-- ---------------------------------------------------------------------------
-- Correspondence that is equality
-- ---------------------------------------------------------------------------

theorem Entry.alike_eq : Entry.Alike (τ := τ) (· = ·) (· = ·) = (· = ·) := by
  funext ⟨item, lexeme⟩ ⟨item', lexeme'⟩
  simp only [Entry.Alike, Entry.mk.injEq]

theorem Alike.eq {a b : Except Failure α} (h : Alike (· = ·) (· = ·) a b) : a = b := by
  cases h with
  | ok h => rw [h]
  | error h => rw [h]

theorem option_rel_eq_iff {a b : Option α} : Option.Rel (· = ·) a b ↔ a = b := by
  constructor
  · rintro (rfl | _) <;> rfl
  · rintro rfl
    cases a with
    | none => exact .none
    | some a => exact .some rfl

theorem Answer.Alike.eq {a b : Answer τ} (h : Answer.Alike (· = ·) (· = ·) a b) : a = b := by
  cases h with
  | token h => rw [option_rel_eq_iff.mp h]
  | tokens h => rw [List.forall₂_eq_eq_eq] at h; rw [h]
  | text => rfl
  | lexeme h => rw [option_rel_eq_iff.mp h]

namespace Lexer

theorem Outcome.Alike.mono {R : Lexer ω τ → Lexer ω τ → Prop} {A B : α → β → Prop}
    {F : Failure → Failure → Prop} {outcome : Outcome ω τ α} {outcome' : Outcome ω τ β}
    (h : Alike R A F outcome outcome') (hAB : ∀ {a b}, A a b → B a b) :
    Alike R B F outcome outcome' := by
  cases h with
  | ok ha hstate => exact .ok (hAB ha) hstate
  | error hf hstate => exact .error hf hstate

theorem Decision.blind_eq (decision : Decision ω τ) : decision.Blind (· = ·) := by
  intro next next' hnext memory
  rw [option_rel_eq_iff.mp hnext]

-- ---------------------------------------------------------------------------
-- Twins are in step
-- ---------------------------------------------------------------------------

/-- The lexers differ in nothing that is handed out or consumed, and they make, match and write down
the same, but for failures that correspond. -/
structure Twins (R : Lexer ω τ → Lexer ω τ → Prop) (F : Failure → Failure → Prop) : Prop where
  failure (f : Failure) : F f f
  ends {f g} : F f g → g.endsIteration = f.endsIteration
  differ {s t} : R s t → ∃ verified settings journal, t = { s with verified, settings, journal }
  produce {s t} : R s t → Outcome.Alike R (· = ·) F s.produce t.produce
  matchHere {s t} (p : Pattern) : R s t →
    Outcome.Alike R (· = ·) F (s.matchHere p) (t.matchHere p)
  move {s t} (u : Lexer ω τ) : R s t → R (s.movedTo u) (t.movedTo u)
  remember {s t} (memory : ω) : R s t → R { s with memory } { t with memory }
  write {s t} (r : Record) : R s t → R (s.record r) (t.record r)

namespace Twins

variable {R : Lexer ω τ → Lexer ω τ → Prop} {F : Failure → Failure → Prop} {s t : Lexer ω τ}

theorem simulation [TokenLike τ] (hR : Twins R F) : Simulation R (· = ·) (· = ·) F where
  failure := hR.failure
  ends := hR.ends
  absent h := by rw [h]
  queue h := by
    obtain ⟨_, _, _, rfl⟩ := hR.differ h
    rw [Entry.alike_eq, List.forall₂_eq_eq_eq]
  remaining_eq h := by
    obtain ⟨_, _, _, rfl⟩ := hR.differ h
    rfl
  memory_eq h := by
    obtain ⟨_, _, _, rfl⟩ := hR.differ h
    rfl
  produce h := by
    rw [Entry.alike_eq]
    exact (hR.produce h).mono option_rel_eq_iff.mpr
  matchHere p h := (hR.matchHere p h).mono option_rel_eq_iff.mpr
  requeue {s _ es _} h hes := by
    rw [Entry.alike_eq, List.forall₂_eq_eq_eq] at hes
    obtain ⟨_, _, _, rfl⟩ := hR.differ h
    obtain rfl := hes
    exact hR.move { s with queue := es } h
  remind {s _ made _} h hmade := by
    rw [Entry.alike_eq, option_rel_eq_iff] at hmade
    obtain ⟨_, _, _, rfl⟩ := hR.differ h
    obtain rfl := hmade
    exact hR.move { s with advanced := made } h
  remember := hR.remember
  write := hR.write
  pass {s _ e _} h he := by
    rw [Entry.alike_eq] at he
    obtain ⟨_, _, _, rfl⟩ := hR.differ h
    obtain rfl := he
    exact hR.move (s.pass e) h
  cut {s _} length given h := by
    obtain ⟨_, _, _, rfl⟩ := hR.differ h
    exact hR.move (s.cut length given).2 h

theorem equip (hR : Twins R F) (rules : RuleTable) (h : R s t) :
    R { s with rules } { t with rules } := by
  obtain ⟨_, _, _, rfl⟩ := hR.differ h
  exact hR.move { s with rules } h

-- ---------------------------------------------------------------------------
-- Operations that are given tokens or rules
-- ---------------------------------------------------------------------------

theorem enqueueIfAny [TokenLike τ] (hR : Twins R F) (h : R s t) (item : Option (Item τ))
    (given : Option Lexeme) :
    Outcome.Alike R (· = ·) F (s.enqueueIfAny item given) (t.enqueueIfAny item given) := by
  cases item with
  | none => exact .ok rfl h
  | some item =>
    have hunder : t.lexemeUnder item given = s.lexemeUnder item given := by
      obtain ⟨_, _, _, rfl⟩ := hR.differ h
      rfl
    simp only [Lexer.enqueueIfAny, enqueue, hunder]
    cases s.lexemeUnder item given with
    | ok l => exact .ok rfl (hR.simulation.push h ⟨rfl, rfl⟩)
    | error f => exact .error (hR.failure f) h

theorem buildToken (hR : Twins R F) (h : R s t) (rule : Text) (l : Lexeme) :
    Outcome.Alike R (· = ·) F (s.buildToken rule l) (t.buildToken rule l) := by
  have hbuilt : t.builder.build rule l t.memory = s.builder.build rule l s.memory := by
    obtain ⟨_, _, _, rfl⟩ := hR.differ h
    rfl
  unfold Lexer.buildToken
  rw [hbuilt]
  rcases s.builder.build rule l s.memory with ⟨f | made, memory⟩
  · exact .error (hR.failure f) (hR.remember memory h)
  · exact .ok rfl (hR.remember memory h)

theorem rules_eq (hR : Twins R F) (h : R s t) : t.rules = s.rules := by
  obtain ⟨_, _, _, rfl⟩ := hR.differ h
  rfl

theorem register (hR : Twins R F) (h : R s t) (name patterns : Value) :
    Outcome.Alike R (· = ·) F (s.register name patterns) (t.register name patterns) := by
  unfold Lexer.register
  rw [hR.rules_eq h]
  rcases s.rules.add name patterns with f | ⟨r, rules⟩
  · exact .error (hR.failure f) h
  · exact .ok rfl (hR.write _ (hR.equip rules h))

theorem addRule (hR : Twins R F) (h : R s t) (rule patterns : Value) :
    Outcome.Alike R (· = ·) F (s.addRule rule patterns) (t.addRule rule patterns) := by
  unfold Lexer.addRule
  split
  · exact hR.register h _ _
  · split
    · exact hR.register h _ _
    · exact .error (hR.failure _) h
  · exact hR.register h _ _

theorem addEach (hR : Twins R F) (h : R s t) (entries : List (Value × Value)) :
    Outcome.Alike R (· = ·) F (s.addEach entries) (t.addEach entries) := by
  induction entries generalizing s t with
  | nil => exact .ok rfl h
  | cons entry rest ih =>
    have hadd := hR.addRule h entry.1 entry.2
    unfold Lexer.addEach
    generalize s.addRule entry.1 entry.2 = added, t.addRule entry.1 entry.2 = added' at hadd ⊢
    cases hadd with
    | ok _ hstate => exact ih hstate
    | error hf hstate => exact .error hf hstate

theorem addRules (hR : Twins R F) (h : R s t) (rules : Value) :
    Outcome.Alike R (· = ·) F (s.addRules rules) (t.addRules rules) := by
  unfold Lexer.addRules
  split
  · exact hR.addEach h _
  · exact .error (hR.failure _) h

theorem addToTable (hR : Twins R F) (h : R s t) (name patterns : Value) :
    Outcome.Alike R (· = ·) F (s.addToTable name patterns) (t.addToTable name patterns) := by
  unfold Lexer.addToTable
  rw [hR.rules_eq h]
  rcases s.rules.add name patterns with f | ⟨r, rules⟩
  · exact .error (hR.failure f) h
  · exact .ok rfl (hR.equip rules h)

end Twins

end Lexer

-- ---------------------------------------------------------------------------
-- All operations
-- ---------------------------------------------------------------------------

/-- A guard of the operation does not tell lexers in step apart. -/
def Operation.Respects (R : Lexer ω τ → Lexer ω τ → Prop) (F : Failure → Failure → Prop) :
    Operation ω τ → Prop
  | .scanGuarded accepts _ => accepts.Respects R (· = ·) F
  | _ => True

theorem Lexer.Twins.perform [TokenLike τ] {R : Lexer ω τ → Lexer ω τ → Prop}
    {F : Failure → Failure → Prop} {s t : Lexer ω τ} {operation : Operation ω τ}
    (hR : Twins R F) (hop : operation.Respects R F) (h : R s t) :
    Outcome.Alike R (· = ·) F (operation.perform s) (operation.perform t) := by
  have plain (hplain : operation.Plain (Decision.Blind (· = ·))) :=
    (hR.simulation.perform hplain h).mono Answer.Alike.eq
  cases operation with
  | scanGuarded accepts bound =>
    refine (hR.simulation.scanGuarded hop h bound).answer.map fun hitems => ?_
    rw [List.forall₂_eq_eq_eq] at hitems
    rw [hitems]
  | scanWhile decision => exact plain decision.blind_eq
  | enqueue item given => exact (hR.enqueueIfAny h item given).map fun hitem => congrArg _ hitem
  | buildToken rule l => exact (hR.buildToken h rule l).map fun hmade => congrArg _ hmade
  | addRule rule patterns => exact (hR.addRule h rule patterns).map fun _ => rfl
  | addRules rules => exact (hR.addRules h rules).map fun _ => rfl
  | addToTable name patterns => exact (hR.addToTable h name patterns).map fun hr => congrArg _ hr
  | _ => exact plain trivial

namespace Operation

open Lexer

variable [TokenLike τ] {R : Lexer ω τ → Lexer ω τ → Prop} {F : Failure → Failure → Prop}
  {s t : Lexer ω τ} {operations : List (Operation ω τ)}

/-- What the operations of a run answer, or why they fail, one after the other. -/
def answersAlong : Lexer ω τ → List (Operation ω τ) → List (Except Failure (Answer τ))
  | _, [] => []
  | s, operation :: rest => (operation.perform s).1 :: answersAlong (operation.step s) rest

theorem twins_along (hR : Twins R F) (hops : ∀ operation ∈ operations, operation.Respects R F)
    (h : R s t) :
    Forall₂ (Alike (· = ·) F) (answersAlong s operations) (answersAlong t operations) ∧
      Forall₂ R (trail s operations) (trail t operations) := by
  induction operations generalizing s t with
  | nil => exact ⟨.nil, .cons h .nil⟩
  | cons operation rest ih =>
    obtain ⟨hfirst, hrest⟩ := List.forall_mem_cons.mp hops
    have houtcome := hR.perform hfirst h
    obtain ⟨hanswers, hstates⟩ := ih hrest houtcome.states
    exact ⟨.cons houtcome.answers hanswers, .cons h hstates⟩

end Operation

end PullLexer
