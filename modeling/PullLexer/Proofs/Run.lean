import PullLexer.Lexer.Operation
import PullLexer.Proofs.Scanning

/-!
# Runs

A run is followed operation by operation, together with the tokens that it
hands out, those of a loop that fails included. What every permitted operation
keeps holds after every permitted run (`run_induction`); operations made of scans
and looks ahead keep whatever their moves keep (`Sustained.step`).
-/

namespace PullLexer

variable {ω τ : Type} {s s' : Lexer ω τ}

namespace Operation

/-- The tokens that an operation consumes, in order, whether it fails in the end or not. A token
that an iteration takes for its end is among them. -/
def handed [TokenLike τ] (s : Lexer ω τ) : Operation ω τ → List (Item τ)
  | .scan => Lexer.Outcome.handed s.scan
  | .iterate it => if it.ended then [] else Lexer.Outcome.handed s.scan
  | .scanAll => s.collect.handed
  | .scanAvailable => (s.drainWhile .available).handed
  | .scanWhile decision => (s.drainWhile decision).handed
  | .scanGuarded accepts bound => (s.scanGuarded accepts bound).handed
  | _ => []

/-- Scanning and looking ahead, with guards that leave the lexer alone. -/
def Scans : Operation ω τ → Prop
  | .scan | .scanAll | .scanAvailable | .scanWhile _ | .iterate _ | .peek | .lookahead _ => True
  | .scanGuarded accepts _ => accepts.LeavesLexer
  | _ => False

variable [TokenLike τ]

/-- Every operation of a run is permitted in the state in which it is performed. -/
def Along (permitted : Lexer ω τ → Operation ω τ → Prop) :
    Lexer ω τ → List (Operation ω τ) → Prop
  | _, [] => True
  | s, operation :: rest => permitted s operation ∧ Along permitted (step s operation) rest

theorem along_of_forall {permitted : Lexer ω τ → Operation ω τ → Prop}
    {operations : List (Operation ω τ)} (h : ∀ operation ∈ operations, ∀ t, permitted t operation) :
    Along permitted s operations := by
  induction operations generalizing s with
  | nil => trivial
  | cons operation rest ih =>
    obtain ⟨hfirst, hrest⟩ := List.forall_mem_cons.mp h
    exact ⟨hfirst s, ih hrest⟩

def handedAlong : Lexer ω τ → List (Operation ω τ) → List (Item τ)
  | _, [] => []
  | s, operation :: rest => operation.handed s ++ handedAlong (step s operation) rest

/-- What every permitted operation keeps, of the tokens handed out so far and the state, holds
after every permitted run. -/
theorem run_induction {permitted : Lexer ω τ → Operation ω τ → Prop}
    {I : List (Item τ) → Lexer ω τ → Prop}
    (hstep : ∀ items s operation, permitted s operation → I items s →
      I (items ++ operation.handed s) (step s operation))
    {items : List (Item τ)} {operations : List (Operation ω τ)} (h : I items s)
    (hrun : Along permitted s operations) :
    I (items ++ handedAlong s operations) (run s operations) := by
  induction operations generalizing s items with
  | nil => simpa [handedAlong, run] using h
  | cons operation rest ih =>
    obtain ⟨hop, hrest⟩ := hrun
    simpa [handedAlong, run] using ih (hstep items s operation hop h) hrest

/-- The states that a run goes through, the first and the last included. -/
def trail : Lexer ω τ → List (Operation ω τ) → List (Lexer ω τ)
  | s, [] => [s]
  | s, operation :: rest => s :: trail (step s operation) rest

theorem trail_induction {permitted : Lexer ω τ → Operation ω τ → Prop} {I : Lexer ω τ → Prop}
    (hstep : ∀ s operation, permitted s operation → I s → I (step s operation))
    {operations : List (Operation ω τ)} (h : I s) (hrun : Along permitted s operations) :
    ∀ t ∈ trail s operations, I t := by
  induction operations generalizing s with
  | nil =>
    intro t ht
    rwa [List.mem_singleton.mp ht]
  | cons operation rest ih =>
    obtain ⟨hop, hrest⟩ := hrun
    intro t ht
    rcases List.mem_cons.mp ht with rfl | ht
    · exact h
    · exact ih (hstep s operation hop h) hrest t ht

theorem trail_pairwise {permitted : Lexer ω τ → Operation ω τ → Prop}
    {R : Lexer ω τ → Lexer ω τ → Prop} (htrans : ∀ a b c, R a b → R b c → R a c)
    (hstep : ∀ s operation, permitted s operation → R s (step s operation))
    {operations : List (Operation ω τ)} (hrun : Along permitted s operations) :
    (trail s operations).Pairwise R := by
  induction operations generalizing s with
  | nil => exact List.pairwise_singleton R s
  | cons operation rest ih =>
    obtain ⟨hop, hrest⟩ := hrun
    refine List.pairwise_cons.mpr ⟨?_, ih hrest⟩
    exact trail_induction (fun t next hnext ht => htrans s t _ ht (hstep t next hnext))
      (hstep s operation hop) hrest

end Operation

-- ---------------------------------------------------------------------------
-- Operations made of scans and looks ahead
-- ---------------------------------------------------------------------------

namespace Lexer.Sustained

variable {I : List (Item τ) → Lexer ω τ → Prop} {items : List (Item τ)}

theorem lookaheadBy (hI : Sustained I) (h : I items s) (n : Value) :
    I items (s.lookaheadBy n).2 := by
  unfold Lexer.lookaheadBy
  split
  · exact hI.lookahead h _
  · exact h

theorem step [TokenLike τ] (hI : Sustained I) (h : I items s) {operation : Operation ω τ}
    (hop : operation.Scans) : I (items ++ operation.handed s) (operation.step s) := by
  cases operation <;>
    simp only [Operation.step, Operation.perform, Operation.handed, Outcome.snd_map, scanAll,
      scanAvailable, scanWhile, snd_answer, List.append_nil]
  case scan => exact hI.scan h
  case scanAll => exact hI.collect h
  case scanAvailable => exact hI.drainWhile h _
  case scanWhile decision => exact hI.drainWhile h decision
  case scanGuarded accepts bound => exact hI.scanGuarded hop h bound
  case iterate it =>
    rw [snd_iterate]
    split
    · simpa using h
    · exact hI.scan h
  case peek => exact hI.peek h
  case lookahead n => exact hI.lookaheadBy h n
  all_goals exact hop.elim

end Lexer.Sustained

-- ---------------------------------------------------------------------------
-- Operations that work on the queue
-- ---------------------------------------------------------------------------

namespace Lexer

theorem advance_cases (s : Lexer ω τ) :
    (∃ made s', s.produce = (.ok made, s') ∧
        s.advance = (.ok (made.map (·.item)), { s' with advanced := made })) ∨
      ∃ f s', s.produce = (.error f, s') ∧ s.advance = (.error f, s') := by
  rcases hp : s.produce with ⟨⟨f⟩ | ⟨made⟩, t⟩
  · exact .inr ⟨f, t, rfl, by simp [advance, hp]⟩
  · exact .inl ⟨made, t, rfl, by simp [advance, hp]⟩

theorem snd_dequeue (s : Lexer ω τ) : s.dequeue.2 = s.pop.2 := rfl

theorem pop_cases (s : Lexer ω τ) :
    (s.queue = [] ∧ s.pop.2 = s) ∨
      ∃ e rest, s.queue = e :: rest ∧ s.pop.2 = { s with queue := rest, advanced := none } := by
  cases hq : s.queue with
  | nil => exact .inl ⟨rfl, by simp [pop, hq]⟩
  | cons e rest => exact .inr ⟨e, rest, rfl, by simp [pop, hq]⟩

theorem nextToken_cases (s : Lexer ω τ) :
    (∃ made, s.produce = (made, s.nextToken.2)) ∨
      ∃ e rest, s.queue = e :: rest ∧
        s.nextToken.2 = { s with queue := rest, advanced := none } := by
  have hsnd : s.nextToken.2 = s.nextEntry.2 := by
    unfold nextToken
    split <;> rename_i hnext <;> rw [hnext]
  rw [hsnd]
  cases hq : s.queue with
  | nil => exact .inl ⟨s.produce.1, by rw [nextEntry_of_queue_nil hq]⟩
  | cons e rest => exact .inr ⟨e, rest, rfl, by rw [nextEntry_of_queue_cons hq]⟩

theorem enqueueIfAny_cases [TokenLike τ] (s : Lexer ω τ) (item : Option (Item τ))
    (given : Option Lexeme) :
    (s.enqueueIfAny item given).2 = s ∨ ∃ i l, item = some i ∧ s.lexemeUnder i given = .ok l ∧
      (s.enqueueIfAny item given).2 = s.push ⟨i, l⟩ := by
  cases item with
  | none => exact .inl rfl
  | some i =>
    cases hl : s.lexemeUnder i given with
    | error f => exact .inl (by simp [enqueueIfAny, enqueue, hl])
    | ok l => exact .inr ⟨i, l, rfl, hl, by simp [enqueueIfAny, enqueue, hl]⟩

theorem lexemeUnder_advanced [TokenLike τ] {e : Entry τ} (he : s.advanced = some e)
    (hbuilt : e.item.serial.isSome) : s.lexemeUnder e.item none = .ok e.lexeme := by
  simp [lexemeUnder, lexemeFor, he, Item.isSame_self hbuilt]

theorem discardQueue_frame (s : Lexer ω τ) :
    ∃ journal, s.discardQueue = { s with queue := [], journal } := by
  unfold discardQueue
  split
  · rename_i hq
    exact ⟨s.journal, by rw [← hq]⟩
  · exact ⟨_, rfl⟩

/-- Consuming drops the queue and cuts, with the text given or without; a bad count changes
nothing, and what is no text is refused when the queue is gone already. -/
theorem consumeBy_cases (s : Lexer ω τ) (length given : Value) :
    (s.consumeBy length given).2 = s ∨
      ∃ journal, let dropped : Lexer ω τ := { s with queue := [], journal }
        (∃ n, given = .null ∧ (s.consumeBy length given).2 = (dropped.cut n none).2) ∨
        (∃ n t, length.count = .ok n ∧ given = .text t ∧
          (s.consumeBy length given).2 = (dropped.cut n (some t)).2) ∨
        (given ≠ .null ∧ (s.consumeBy length given).2 = { dropped with advanced := none }) := by
  obtain ⟨journal, hdrop⟩ := discardQueue_frame s
  cases hcount : length.count with
  | error f => exact .inl (by simp [consumeBy, hcount])
  | ok n =>
    refine .inr ⟨journal, ?_⟩
    cases given with
    | null => exact .inl ⟨n, rfl, by simp [consumeBy, hcount, consume, hdrop]⟩
    | text t => exact .inr (.inl ⟨n, t, rfl, rfl, by simp [consumeBy, hcount, consume, hdrop]⟩)
    | _ => exact .inr (.inr ⟨by simp, by simp [consumeBy, hcount, hdrop]⟩)

end Lexer

-- ---------------------------------------------------------------------------
-- Operations that leave cursor and queue alone
-- ---------------------------------------------------------------------------

namespace Lexer

theorem matchBy_frame (s : Lexer ω τ) (pattern : Value) :
    ∃ verified, (s.matchBy pattern).2 = { s with verified } ∧ s.verified.Grows verified := by
  unfold matchBy
  split
  · exact ⟨_, rfl, .refl _⟩
  · split
    · rename_i p
      unfold matchHere
      split
      · exact ⟨_, rfl, .refl _⟩
      · have hgrows := s.verified.grows_attempt p s.remaining
        split <;> rename_i hattempt <;> rw [hattempt] at hgrows <;> exact ⟨_, rfl, hgrows⟩
    all_goals exact ⟨_, rfl, .refl _⟩

theorem register_frame (s : Lexer ω τ) (name patterns : Value) :
    ∃ rules journal, (s.register name patterns).2 = { s with rules, journal } := by
  unfold register
  split <;> exact ⟨_, _, rfl⟩

theorem addRule_frame (s : Lexer ω τ) (rule patterns : Value) :
    ∃ rules journal, (s.addRule rule patterns).2 = { s with rules, journal } := by
  unfold addRule
  split
  · exact register_frame s _ _
  · split
    · exact register_frame s _ _
    · exact ⟨_, _, rfl⟩
  · exact register_frame s _ _

theorem addEach_frame (s : Lexer ω τ) (entries : List (Value × Value)) :
    ∃ rules journal, (s.addEach entries).2 = { s with rules, journal } := by
  induction entries generalizing s with
  | nil => exact ⟨_, _, rfl⟩
  | cons entry rest ih =>
    obtain ⟨rules, journal, hadd⟩ := addRule_frame s entry.1 entry.2
    unfold addEach
    split <;> rename_i heq <;> rw [heq] at hadd <;> cases hadd
    · exact ih _
    · exact ⟨_, _, rfl⟩

theorem addRules_frame (s : Lexer ω τ) (rules : Value) :
    ∃ rules' journal, (s.addRules rules).2 = { s with rules := rules', journal } := by
  unfold addRules
  split
  · exact addEach_frame s _
  · exact ⟨_, _, rfl⟩

theorem addToTable_frame (s : Lexer ω τ) (name patterns : Value) :
    ∃ rules, (s.addToTable name patterns).2 = { s with rules } := by
  unfold addToTable
  split <;> exact ⟨_, rfl⟩

end Lexer

-- ---------------------------------------------------------------------------
-- What every operation keeps
-- ---------------------------------------------------------------------------

/-- A property of states that every permitted operation keeps, since all that operations are made of
keeps it. -/
structure Upheld [TokenLike τ] (permitted : Lexer ω τ → Operation ω τ → Prop)
    (I : Lexer ω τ → Prop) : Prop where
  moves : Lexer.Sustained fun _ s => I s
  guard {s : Lexer ω τ} {accepts bound} : permitted s (.scanGuarded accepts bound) →
    accepts.LeavesLexer
  advance {s s' : Lexer ω τ} {made} : I s → s.produce = (.ok made, s') →
    I { s' with advanced := made }
  pop {s : Lexer ω τ} {e rest} : I s → s.queue = e :: rest →
    I { s with queue := rest, advanced := none }
  enqueue {s : Lexer ω τ} {item given l} : I s → permitted s (.enqueue (some item) given) →
    s.lexemeUnder item given = .ok l → I (s.push ⟨item, l⟩)
  discard {s : Lexer ω τ} (journal : Journal) : I s →
    I { s with queue := [], advanced := none, journal }
  cut {s : Lexer ω τ} (n : Nat) : I s → s.queue = [] → I (s.cut n none).2
  cutGiven {s : Lexer ω τ} {length n t} (journal : Journal) : I s →
    permitted s (.consume length (.text t)) → length.count = .ok n →
    I (({ s with queue := [], journal }).cut n (some t)).2
  register {s : Lexer ω τ} (rules : RuleTable) (journal : Journal) : I s →
    I { s with rules, journal }
  verify {s : Lexer ω τ} (verified : Verified) : I s → s.verified.Grows verified →
    I { s with verified }

namespace Upheld

variable [TokenLike τ] {permitted : Lexer ω τ → Operation ω τ → Prop} {I : Lexer ω τ → Prop}
  {operation : Operation ω τ}

open Lexer

theorem mono {permitted' : Lexer ω τ → Operation ω τ → Prop} (hI : Upheld permitted I)
    (himp : ∀ {s operation}, permitted' s operation → permitted s operation) :
    Upheld permitted' I where
  moves := hI.moves
  guard hop := hI.guard (himp hop)
  advance := hI.advance
  pop := hI.pop
  enqueue h hop := hI.enqueue h (himp hop)
  discard := hI.discard
  cut := hI.cut
  cutGiven journal h hop := hI.cutGiven journal h (himp hop)
  register := hI.register
  verify := hI.verify

theorem produce {made : Except Failure (Option (Entry τ))} (hI : Upheld permitted I) (h : I s)
    (hp : s.produce = (made, s')) : I s' := @Sustained.produce _ _ _ hI.moves [] s made s' h hp

theorem consume (hI : Upheld permitted I) (h : I s) {length given : Value}
    (hop : permitted s (.consume length given)) : I (s.consumeBy length given).2 := by
  have discarded := fun journal => hI.discard journal h
  rcases consumeBy_cases s length given with
    hsame | ⟨journal, ⟨n, -, hcut⟩ | ⟨n, t, hcount, rfl, hcut⟩ | ⟨-, hdiscard⟩⟩
  · rwa [hsame]
  · have hleft := hI.cut n (discarded journal) rfl
    exact hcut ▸ hleft
  · rw [hcut]
    exact hI.cutGiven journal h hop hcount
  · exact hdiscard ▸ discarded journal

theorem step (hI : Upheld permitted I) (h : I s) (hop : permitted s operation) :
    I (operation.step s) := by
  have scans : operation.Scans → I (operation.step s) := @Sustained.step _ _ s _ [] _ hI.moves h _
  cases operation with
  | scan => exact scans trivial
  | scanAll => exact scans trivial
  | scanAvailable => exact scans trivial
  | scanWhile decision => exact scans trivial
  | scanGuarded accepts bound => exact scans (hI.guard hop)
  | iterate it => exact scans trivial
  | peek => exact scans trivial
  | lookahead n => exact scans trivial
  | advance =>
    simp only [Operation.step, Operation.perform, Outcome.snd_map]
    rcases advance_cases s with ⟨made, t, hp, hadvance⟩ | ⟨f, t, hp, hadvance⟩ <;> rw [hadvance]
    · exact hI.advance h hp
    · exact hI.produce h hp
  | nextToken =>
    simp only [Operation.step, Operation.perform, Outcome.snd_map]
    rcases nextToken_cases s with ⟨made, hp⟩ | ⟨e, rest, hq, hpop⟩
    · exact hI.produce h hp
    · rw [hpop]
      exact hI.pop h hq
  | dequeue =>
    simp only [Operation.step, Operation.perform, snd_dequeue]
    rcases pop_cases s with ⟨-, hpop⟩ | ⟨e, rest, hq, hpop⟩ <;> rw [hpop]
    · exact h
    · exact hI.pop h hq
  | enqueue item given =>
    simp only [Operation.step, Operation.perform, Outcome.snd_map]
    rcases enqueueIfAny_cases s item given with hsame | ⟨i, l, rfl, hl, hpush⟩
    · rwa [hsame]
    · rw [hpush]
      exact hI.enqueue h hop hl
  | consume length given =>
    simp only [Operation.step, Operation.perform, Outcome.snd_map]
    exact hI.consume h hop
  | matchBy pattern =>
    obtain ⟨verified, hmatch, hgrows⟩ := matchBy_frame s pattern
    simp only [Operation.step, Operation.perform, Outcome.snd_map, hmatch]
    exact hI.verify verified h hgrows
  | buildToken rule l =>
    simp only [Operation.step, Operation.perform, Outcome.snd_map]
    exact @Sustained.remember _ _ _ hI.moves [] s _ h
  | addRule rule patterns =>
    obtain ⟨rules, journal, hadd⟩ := addRule_frame s rule patterns
    simp only [Operation.step, Operation.perform, Outcome.snd_map, hadd]
    exact hI.register rules journal h
  | addRules rules =>
    obtain ⟨rules', journal, hadd⟩ := addRules_frame s rules
    simp only [Operation.step, Operation.perform, Outcome.snd_map, hadd]
    exact hI.register rules' journal h
  | addToTable name patterns =>
    obtain ⟨rules, hadd⟩ := addToTable_frame s name patterns
    simp only [Operation.step, Operation.perform, Outcome.snd_map, hadd]
    exact hI.register rules s.journal h

theorem trail (hI : Upheld permitted I) (h : I s) {operations : List (Operation ω τ)}
    (hrun : Operation.Along permitted s operations) : ∀ t ∈ Operation.trail s operations, I t :=
  Operation.trail_induction (fun _ _ hop ht => hI.step ht hop) h hrun

theorem run (hI : Upheld permitted I) (h : I s) {operations : List (Operation ω τ)}
    (hrun : Operation.Along permitted s operations) : I (Operation.run s operations) :=
  @Operation.run_induction _ _ s _ permitted (fun _ s => I s)
    (fun _ _ _ hop ht => hI.step ht hop) [] operations h hrun

end Upheld

-- ---------------------------------------------------------------------------
-- Builder and settings
-- ---------------------------------------------------------------------------

namespace Lexer

/-- The builder and the settings are these still, and the patterns remembered are anchored. -/
def Equipped (builder : Builder ω τ) (settings : Settings ω τ) (s : Lexer ω τ) : Prop :=
  s.builder = builder ∧ s.settings = settings ∧ s.verified.Sound

variable {builder : Builder ω τ} {settings : Settings ω τ}

theorem Equipped.produce {made : Except Failure (Option (Entry τ))}
    (h : Equipped builder settings s) (hp : s.produce = (made, s')) :
    Equipped builder settings s' := by
  obtain ⟨hbuilder, hsettings, hsound⟩ := h
  obtain ⟨verified, memory, issued, journal, rfl, hverified⟩ := produce_frame hp
  exact ⟨hbuilder, hsettings, hverified.sound hsound⟩

theorem sustained_equipped (builder : Builder ω τ) (settings : Settings ω τ) :
    Sustained fun _ => Equipped builder settings where
  remember _ h := h
  forget h := h
  produce h hp := h.produce hp
  push {_ _ _ s'} h hp := show Equipped builder settings s' from h.produce hp
  pass {_ _ _ s'} h _ hp := show Equipped builder settings s' from h.produce hp
  serve h _ := h

theorem upheld_equipped [TokenLike τ] {permitted : Lexer ω τ → Operation ω τ → Prop}
    (builder : Builder ω τ) (settings : Settings ω τ)
    (hguard : ∀ {s accepts bound}, permitted s (.scanGuarded accepts bound) →
      accepts.LeavesLexer) : Upheld permitted (Equipped builder settings) where
  moves := sustained_equipped builder settings
  guard := hguard
  advance {_ s' _} h hp := show Equipped builder settings s' from h.produce hp
  pop h _ := h
  enqueue h _ _ := h
  discard _ h := h
  cut _ h _ := h
  cutGiven _ h _ _ := h
  register _ _ h := h
  verify _ h hgrows := ⟨h.1, h.2.1, hgrows.sound h.2.2⟩

end Lexer

end PullLexer
