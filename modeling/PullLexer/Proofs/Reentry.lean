import PullLexer.Builder.Catalogue
import PullLexer.Proofs.Alignment
import PullLexer.Proofs.Termination

/-!
# Guards that work on the lexer

A guard may perform operations itself, guarded loops among them, before it
accepts or refuses. What client code can bring a lexer to in this way is
followed operation by operation and guard by guard (`Works`), as are the
states that it meets on the way, inside a guard as well as between operations
(`Meets`). What all other operations keep is kept by client code, provided that
taking back a refused token keeps it (`Works.keeps`, `Meets.keeps`).

A token that an advance made is remembered while the head stays where it is.
Only taking back a refused token moves the head and remembers the token still.
-/

namespace PullLexer

variable {ω τ : Type}

-- ---------------------------------------------------------------------------
-- Where a loop asks its guard
-- ---------------------------------------------------------------------------

namespace Lexer

variable {s t r u : Lexer ω τ} {accepts : Guard ω τ} {I : Lexer ω τ → Prop}
  {next : Option (Item τ)} {items : List (Item τ)}

/-- A guarded loop that starts here comes to a round in which it asks its guard about this token, in
this state. -/
def Asks (accepts : Guard ω τ) (s round : Lexer ω τ) (next : Option (Item τ)) (u : Lexer ω τ) :
    Prop :=
  (∃ items, Rounds accepts s items round) ∧ round.peek = (.ok next, u)

theorem Asks.first (hpeek : s.peek = (.ok next, u)) : Asks accepts s s next u :=
  ⟨⟨[], .nil⟩, hpeek⟩

theorem Asks.later {item : Item τ} (hround : s.round accepts = (.ok (some item), t))
    (h : Asks accepts t r next u) : Asks accepts s r next u := by
  obtain ⟨⟨items, rounds⟩, hpeek⟩ := h
  exact ⟨⟨item :: items, .cons hround rounds⟩, hpeek⟩

/-- Wherever a loop that starts here asks its guard, the guard keeps a property of states, and so
does taking back what the guard refuses. -/
structure Guard.Keeps (accepts : Guard ω τ) (I : Lexer ω τ → Prop) (s : Lexer ω τ) : Prop where
  answers {r u : Lexer ω τ} {next : Option (Item τ)} : Asks accepts s r next u → I u →
    I (accepts next u).2
  refuses {r u v : Lexer ω τ} {next : Option (Item τ)} : Asks accepts s r next u →
    accepts next u = (.ok false, v) → I v → I (v.retract r.queue.length)

theorem Guard.Keeps.later {item : Item τ} (h : accepts.Keeps I s)
    (hround : s.round accepts = (.ok (some item), t)) : accepts.Keeps I t where
  answers hasks := h.answers (hasks.later hround)
  refuses hasks := h.refuses (hasks.later hround)

variable (hI : Sustained fun _ s => I s)

include hI

theorem Guard.Keeps.round (hg : accepts.Keeps I s) (h : I s) : I (s.round accepts).2 := by
  have hlooked : I s.peek.2 := @Sustained.peek _ _ s _ [] hI h
  have answered {next u v answer} (hpeek : s.peek = (.ok next, u))
      (haccepts : accepts next u = (answer, v)) : I v := by
    rw [hpeek] at hlooked
    have hv := hg.answers (.first hpeek) hlooked
    rwa [haccepts] at hv
  have step := roundStep accepts s
  generalize s.round accepts = outcome at step ⊢
  cases step with
  | unseen hpeek => exact hpeek ▸ hlooked
  | undecided hpeek haccepts => exact answered hpeek haccepts
  | refused hpeek haccepts => exact hg.refuses (.first hpeek) haccepts (answered hpeek haccepts)
  | @accepted _ _ u hpeek haccepts =>
    exact @Sustained.scan _ _ u _ [] hI (answered hpeek haccepts)

theorem Rounds.keeps (rounds : Rounds accepts s items r) (hg : accepts.Keeps I s) (h : I s) :
    I r := by
  induction rounds with
  | nil => exact h
  | cons hround _ ih =>
    have ht := hg.round hI h
    rw [hround] at ht
    exact ih (hg.later hround) ht

theorem Asks.keeps (hasks : Asks accepts s r next u) (hg : accepts.Keeps I s) (h : I s) : I u := by
  obtain ⟨⟨items, rounds⟩, hpeek⟩ := hasks
  have hlooked : I r.peek.2 := @Sustained.peek _ _ r _ [] hI (rounds.keeps hI hg h)
  rwa [hpeek] at hlooked

theorem Guard.Keeps.scanGuarded (hg : accepts.Keeps I s) (h : I s) (bound : Nat) :
    I (s.scanGuarded accepts bound).state := by
  induction bound generalizing s with
  | zero => exact h
  | succ bound ih =>
    rw [scanGuarded_succ]
    have ht := hg.round hI h
    rcases hround : s.round accepts with ⟨⟨f⟩ | ⟨_ | item⟩, t⟩ <;> rw [hround] at ht
    · exact ht
    · exact ht
    · exact ih (hg.later hround) ht

end Lexer

-- ---------------------------------------------------------------------------
-- What client code can bring a lexer to
-- ---------------------------------------------------------------------------

namespace Operation

open Lexer

variable {s t : Lexer ω τ} {I : Lexer ω τ → Prop}
  {permitted : Lexer ω τ → Operation ω τ → Prop}

/-- The operation asks no guard. -/
def Unguarded : Operation ω τ → Prop
  | .scanGuarded _ _ => False
  | _ => True

variable [TokenLike τ]

/-- Client code can bring the lexer from one state to another by permitted operations. What is a
guard of these operations does nothing to the lexer but what client code can do. -/
inductive Works (permitted : Lexer ω τ → Operation ω τ → Prop) : Lexer ω τ → Lexer ω τ → Prop
  | idle {s : Lexer ω τ} : Works permitted s s
  | remember {s t : Lexer ω τ} (memory : ω) : Works permitted s t →
      Works permitted s { t with memory }
  | operate {s t : Lexer ω τ} {operation : Operation ω τ} : Works permitted s t →
      permitted t operation →
      (∀ accepts bound, operation = .scanGuarded accepts bound →
        ∀ r next u, Asks accepts t r next u → Works permitted u (accepts next u).2) →
      Works permitted s (operation.step t)

/-- Client code that works on the lexer can meet it in this state: between two operations, or
wherever a guard that is asked about a token works on the lexer itself. -/
inductive Meets (permitted : Lexer ω τ → Operation ω τ → Prop) : Lexer ω τ → Lexer ω τ → Prop
  | between {s t : Lexer ω τ} : Works permitted s t → Meets permitted s t
  | within {s t r u v : Lexer ω τ} {accepts : Guard ω τ} {bound : Nat} {next : Option (Item τ)} :
      Works permitted s t → permitted t (.scanGuarded accepts bound) →
      (∀ r next u, Asks accepts t r next u → Works permitted u (accepts next u).2) →
      Asks accepts t r next u → Meets permitted u v → Meets permitted s v

theorem Works.of_unguarded {operation : Operation ω τ} (h : Works permitted s t)
    (hop : permitted t operation) (hunguarded : operation.Unguarded) :
    Works permitted s (operation.step t) :=
  h.operate hop fun _ _ heq => absurd hunguarded (heq ▸ id)

theorem Works.of_along {operations : List (Operation ω τ)} (h : Works permitted s t)
    (hrun : Along (fun s operation => permitted s operation ∧ operation.Unguarded) t operations) :
    Works permitted s (run t operations) := by
  induction operations generalizing t with
  | nil => exact h
  | cons operation rest ih =>
    obtain ⟨⟨hop, hunguarded⟩, hrest⟩ := hrun
    exact ih (h.of_unguarded hop hunguarded) hrest

/-- Taking back what a guard refuses keeps a property of states in every permitted loop. -/
def Retracts (permitted : Lexer ω τ → Operation ω τ → Prop) (I : Lexer ω τ → Prop) : Prop :=
  ∀ {s accepts bound r next u v}, permitted s (.scanGuarded accepts bound) →
    Asks accepts s r next u → accepts next u = (.ok false, v) → I v → I (v.retract r.queue.length)

section

variable (hI : Upheld (fun s operation => permitted s operation ∧ operation.Unguarded) I)
  (hretract : Retracts permitted I)

include hI hretract

theorem Works.keeps (hwork : Works permitted s t) (h : I s) : I t := by
  induction hwork with
  | idle => exact h
  | remember memory _ ih => exact @Sustained.remember _ _ _ hI.moves [] _ memory (ih h)
  | @operate s t operation _ hop _ ih ihguard =>
    by_cases hunguarded : operation.Unguarded
    · exact hI.step (ih h) ⟨hop, hunguarded⟩
    · cases operation with
      | scanGuarded accepts bound =>
        -- the guard is client code again, which the hypothesis of the induction speaks of
        have hg : accepts.Keeps I t :=
          { answers := fun hasks => ihguard accepts bound rfl _ _ _ hasks
            refuses := hretract hop }
        simp only [step, perform, Outcome.snd_map, snd_answer]
        exact hg.scanGuarded hI.moves (ih h) bound
      | _ => exact absurd trivial hunguarded

theorem Meets.keeps (hmet : Meets permitted s t) (h : I s) : I t := by
  induction hmet with
  | between hwork => exact hwork.keeps hI hretract h
  | @within s t r u v accepts bound next hwork hop hguard hasks _ ih =>
    have hg : accepts.Keeps I t :=
      { answers := fun hasks => (hguard _ _ _ hasks).keeps hI hretract
        refuses := hretract hop }
    exact ih (hasks.keeps hI.moves hg (hwork.keeps hI hretract h))

end

theorem Meets.equipped {builder : Builder ω τ} {settings : Settings ω τ}
    (hmet : Meets permitted s t) (h : Equipped builder settings s) :
    Equipped builder settings t :=
  hmet.keeps (upheld_equipped builder settings fun hop => hop.2.elim) (fun _ _ _ h => h) h

end Operation

-- ---------------------------------------------------------------------------
-- The token that an advance made
-- ---------------------------------------------------------------------------

namespace Lexer

variable {s s' : Lexer ω τ} {e : Entry τ}

/-- The token remembered from an advance starts at the head. -/
def RememberedAtHead (s : Lexer ω τ) : Prop :=
  ∀ e, s.advanced = some e → e.lexeme.index = s.head

theorem rememberedAtHead_of_none (h : s.advanced = none) : s.RememberedAtHead := by
  intro e he
  rw [h] at he
  cases he

theorem RememberedAtHead.produce {made : Except Failure (Option (Entry τ))}
    (h : s.RememberedAtHead) (hp : s.produce = (made, s')) : s'.RememberedAtHead := by
  obtain ⟨_, _, _, _, rfl, -⟩ := produce_frame hp
  exact h

theorem sustained_rememberedAtHead :
    Sustained (ω := ω) (τ := τ) fun _ s => s.RememberedAtHead where
  remember _ h := h
  forget _ := rememberedAtHead_of_none rfl
  produce h hp := h.produce hp
  push _ _ := rememberedAtHead_of_none rfl
  pass _ _ _ := rememberedAtHead_of_none rfl
  serve _ _ := rememberedAtHead_of_none rfl

theorem enqueue_advanced [TokenLike τ] {item : Item τ} (he : s.advanced = some e)
    (hsame : e.item.isSame item) : s.enqueue item none = (.ok item, s.push ⟨item, e.lexeme⟩) := by
  simp only [enqueue, lexemeUnder, lexemeFor, he, if_pos hsame]

end Lexer

namespace Operation

open Lexer

/-- A guard that refuses leaves no token to be taken back, or none remembered from an advance. -/
def Tidy (s : Lexer ω τ) : Operation ω τ → Prop
  | .scanGuarded accepts _ => ∀ r next u v, Asks accepts s r next u →
      accepts next u = (.ok false, v) → v.queue.length ≤ r.queue.length ∨ v.advanced = none
  | _ => True

theorem retracts_rememberedAtHead :
    Retracts Tidy (RememberedAtHead (ω := ω) (τ := τ)) := by
  intro s accepts bound r next u v htidy hasks haccepts h
  rcases htidy r next u v hasks haccepts with hlength | hnone
  · rwa [retract_of_length_le hlength]
  · exact rememberedAtHead_of_none hnone

variable [TokenLike τ] {t : Lexer ω τ}

/-- Whatever moves the head by one operation forgets what an advance made, loops with guards that
work on the lexer apart. -/
theorem upheld_rememberedAtHead (permitted : Lexer ω τ → Operation ω τ → Prop) :
    Upheld (fun s operation => permitted s operation ∧ operation.Unguarded)
      (RememberedAtHead (ω := ω) (τ := τ)) where
  moves := sustained_rememberedAtHead
  guard h := h.2.elim
  advance {s s' made} _ hp e he := by
    obtain rfl : made = some e := he
    obtain ⟨hindex, -, -⟩ := lexeme_produce hp
    obtain ⟨_, _, _, _, rfl, -⟩ := produce_frame hp
    exact hindex
  pop _ _ := rememberedAtHead_of_none rfl
  enqueue _ _ _ := rememberedAtHead_of_none rfl
  discard _ _ := rememberedAtHead_of_none rfl
  cut _ _ _ := rememberedAtHead_of_none rfl
  cutGiven _ _ _ _ := rememberedAtHead_of_none rfl
  register _ _ h := h
  verify _ h _ := h

/-- Client code whose guards are tidy when they refuse meets no lexer that remembers a token of an
advance elsewhere than at the head. To queue this token without a lexeme is to queue it there, at
the end of the last queued token or else at the cursor. -/
theorem remembered_at_head (input : Text) (rules : RuleTable) (builder : Builder ω τ)
    (settings : Settings ω τ) (memory : ω)
    (hmet : Meets Tidy (start input rules builder settings memory) t) :
    ∀ e, t.advanced = some e →
      (∀ item, e.item.isSame item → (t.enqueue item none).2 = t.push ⟨item, e.lexeme⟩) ∧
      e.lexeme.index = t.head ∧
      (∀ last, t.queue.getLast? = some last → e.lexeme.index = last.lexeme.stop) ∧
      (t.queue = [] → e.lexeme.index = t.position) := by
  intro e he
  have hstart : (start input rules builder settings memory).RememberedAtHead :=
    rememberedAtHead_of_none rfl
  have hhead := hmet.keeps (upheld_rememberedAtHead Tidy) retracts_rememberedAtHead hstart e he
  refine ⟨fun item hsame => ?_, hhead, fun last hlast => ?_, fun hq => ?_⟩
  · rw [enqueue_advanced he hsame]
  · exact hhead.trans (head_of_getLast? hlast)
  · exact hhead.trans (head_of_queue_nil hq)

/-- A guard that looks one token further on by an advance before it accepts. -/
theorem remembered_at_head_within_guard :
    let s : Lexer Unit (Token Text) :=
      start "aab".toList (.ofSources [("A", "^a")]) .standard .default ()
    let t := Operation.advance.step s.peek.2
    Meets Tidy s t ∧ ∃ e, t.advanced = some e ∧ e.lexeme = ⟨"a".toList, 1, [], []⟩ ∧
      (∀ item, e.item.isSame item → (t.enqueue item none).2 = t.push ⟨item, e.lexeme⟩) ∧
      e.lexeme.index = t.head ∧
      (∀ last, t.queue.getLast? = some last → e.lexeme.index = last.lexeme.stop) ∧
      (t.queue = [] → e.lexeme.index = t.position) := by
  intro s t
  let accepts : Guard Unit (Token Text) := fun _ s => (.ok true, Operation.advance.step s)
  have advances (u : Lexer Unit (Token Text)) : Works Tidy u (Operation.advance.step u) :=
    Works.idle.of_unguarded trivial trivial
  have htidy : Tidy s (.scanGuarded accepts 2) := by
    intro _ _ _ _ _ hrefused
    cases hrefused
  have hmet : Meets Tidy s t := by
    have hok : s.peek.1.isOk = true := by decide +kernel
    rcases hpeek : s.peek with ⟨⟨f⟩ | ⟨next⟩, u⟩
    · rw [hpeek] at hok
      cases hok
    · have ht : t = Operation.advance.step u := by
        show Operation.advance.step s.peek.2 = _
        rw [hpeek]
      rw [ht]
      exact .within .idle htidy (fun _ _ u _ => advances u) (.first hpeek) (.between (advances u))
  have hmade : t.advanced.any (fun e => decide (e.lexeme = ⟨"a".toList, 1, [], []⟩)) = true := by
    decide +kernel
  obtain ⟨e, he, hlexeme⟩ := (Option.any_eq_true _ _).mp hmade
  exact ⟨hmet, e, he, of_decide_eq_true hlexeme,
    remembered_at_head "aab".toList (.ofSources [("A", "^a")]) .standard .default () hmet e he⟩

/-- A token of an advance that a builder gives out again, and a guard that advances to the next one
and then refuses. What it advanced to is remembered when the token before it has been taken back,
and the text between the cursor and there goes with the token when it is queued and scanned. -/
theorem remembered_past_head :
    let accepts : Guard Unit Value := fun _ s => (.ok false, Operation.advance.step s)
    let s₀ : Lexer Unit Value := start "aab".toList (.ofSources [("A", "^a")])
      ⟨"CallableTokenFactory".toList, Builder.Catalogue.rules, Builder.Catalogue.handedOn⟩ .default
      ()
    let s := run s₀ [.advance, .scanGuarded accepts 1]
    Meets (fun _ _ => True) s₀ s ∧ ∃ item e, s₀.advance.1 = .ok (some item) ∧
      s.advanced = some e ∧ (s.enqueue item none).2 = s.push ⟨item, e.lexeme⟩ ∧ s.queue = [] ∧
      s.head = 0 ∧ e.lexeme.index = 1 ∧ (s.enqueue item none).2.scan.2.consumed = "aa".toList ∧
      e.lexeme.text = "a".toList := by
  intro accepts s₀ s
  have hmet : Meets (fun _ _ => True) s₀ s := by
    have hadvanced : Works (fun _ _ => True) s₀ (Operation.advance.step s₀) :=
      Works.idle.of_unguarded trivial trivial
    refine .between (hadvanced.operate trivial ?_)
    rintro _ _ ⟨⟩ _ _ u -
    exact Works.idle.of_unguarded trivial trivial
  have hplaces : s.queue.isEmpty ∧ s.head = 0 := by decide +kernel
  have hmade : (s₀.advance.1.toOption.bind id).any (fun item => s.advanced.any fun e =>
      e.item.isSame item && e.lexeme.index == 1 && e.lexeme.text == "a".toList &&
      (s.push ⟨item, e.lexeme⟩).scan.2.consumed == "aa".toList) = true := by
    decide +kernel
  obtain ⟨item, hitem, hany⟩ := (Option.any_eq_true _ _).mp hmade
  obtain ⟨e, he, hchecks⟩ := (Option.any_eq_true _ _).mp hany
  simp only [Bool.and_eq_true, beq_iff_eq] at hchecks
  obtain ⟨⟨⟨hsame, hindex⟩, htext⟩, hconsumed⟩ := hchecks
  have hanswer : s₀.advance.1 = .ok (some item) := by
    rcases h : s₀.advance.1 with f | made <;> rw [h] at hitem
    · cases hitem
    · exact congrArg Except.ok hitem
  have hqueued : (s.enqueue item none).2 = s.push ⟨item, e.lexeme⟩ := by
    rw [enqueue_advanced he hsame]
  refine ⟨hmet, item, e, hanswer, he, hqueued, List.isEmpty_iff.mp hplaces.1, hplaces.2, hindex,
    ?_, htext⟩
  rw [hqueued]
  exact hconsumed

end Operation

end PullLexer
