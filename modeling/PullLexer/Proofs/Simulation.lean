import Mathlib.Data.List.Forall2
import PullLexer.Proofs.Run
import PullLexer.Proofs.Succession

/-!
# Lexers in step

Two lexers are in step under a relation of their states that the moves keep
which operations are made of (`Simulation`). Tokens, lexemes and failures need
not be equal, but have to correspond. Then every operation that is given nothing
by which the lexers could be told apart comes to answers or failures that
correspond, and leaves the lexers in step (`Simulation.perform`).
-/

namespace PullLexer

open List (Forall₂)

/-- Both are answers that correspond, or both are failures that do. -/
inductive Alike {α β : Type} (A : α → β → Prop) (F : Failure → Failure → Prop) :
    Except Failure α → Except Failure β → Prop
  | ok {a : α} {b : β} : A a b → Alike A F (.ok a) (.ok b)
  | error {f g : Failure} : F f g → Alike A F (.error f) (.error g)

variable {ω τ α β γ δ : Type}

/-- Items correspond, and so do the lexemes under which they are queued. -/
def Entry.Alike (I : Item τ → Item τ → Prop) (L : Lexeme → Lexeme → Prop) (e e' : Entry τ) : Prop :=
  I e.item e'.item ∧ L e.lexeme e'.lexeme

inductive Answer.Alike (I : Item τ → Item τ → Prop) (L : Lexeme → Lexeme → Prop) :
    Answer τ → Answer τ → Prop
  | token {item item' : Option (Item τ)} : Option.Rel I item item' →
      Alike I L (.token item) (.token item')
  | tokens {items items' : List (Item τ)} : Forall₂ I items items' →
      Alike I L (.tokens items) (.tokens items')
  | text {t : Text} : Alike I L (.text t) (.text t)
  | lexeme {l l' : Option Lexeme} : Option.Rel L l l' → Alike I L (.lexeme l) (.lexeme l')

namespace Lexer

inductive Outcome.Alike (R : Lexer ω τ → Lexer ω τ → Prop) (A : α → β → Prop)
    (F : Failure → Failure → Prop) : Outcome ω τ α → Outcome ω τ β → Prop
  | ok {a : α} {b : β} {s t : Lexer ω τ} : A a b → R s t → Alike R A F (.ok a, s) (.ok b, t)
  | error {f g : Failure} {s t : Lexer ω τ} : F f g → R s t →
      Alike R A F (.error f, s) (.error g, t)

namespace Outcome.Alike

variable {R : Lexer ω τ → Lexer ω τ → Prop} {A : α → β → Prop} {F : Failure → Failure → Prop}
  {outcome : Outcome ω τ α} {outcome' : Outcome ω τ β}

theorem answers (h : Alike R A F outcome outcome') : PullLexer.Alike A F outcome.1 outcome'.1 := by
  cases h with
  | ok ha _ => exact .ok ha
  | error hf _ => exact .error hf

theorem states (h : Alike R A F outcome outcome') : R outcome.2 outcome'.2 := by
  cases h with
  | ok _ hstate => exact hstate
  | error _ hstate => exact hstate

theorem map {B : γ → δ → Prop} {g : α → γ} {g' : β → δ} (h : Alike R A F outcome outcome')
    (hg : ∀ {a b}, A a b → B (g a) (g' b)) :
    Alike R B F (Outcome.map g outcome) (Outcome.map g' outcome') := by
  cases h with
  | ok ha hstate => exact .ok (hg ha) hstate
  | error hf hstate => exact .error hf hstate

end Outcome.Alike

/-- The loops handed out tokens that correspond, ended in the same way, and left the lexers in
step. -/
structure Progress.Alike (R : Lexer ω τ → Lexer ω τ → Prop) (I : Item τ → Item τ → Prop)
    (F : Failure → Failure → Prop) (p p' : Progress ω τ) : Prop where
  handed : Forall₂ I p.handed p'.handed
  ending : PullLexer.Alike (· = ·) F p.ending p'.ending
  state : R p.state p'.state

namespace Progress.Alike

variable {R : Lexer ω τ → Lexer ω τ → Prop} {I : Item τ → Item τ → Prop}
  {F : Failure → Failure → Prop} {p p' : Progress ω τ} {item item' : Item τ}

theorem after (h : Alike R I F p p') (hitem : I item item') :
    Alike R I F (p.after item) (p'.after item') :=
  ⟨.cons hitem h.handed, h.ending, h.state⟩

theorem answer (h : Alike R I F p p') : Outcome.Alike R (Forall₂ I) F p.answer p'.answer := by
  obtain ⟨handed, ending, s⟩ := p
  obtain ⟨handed', ending', s'⟩ := p'
  obtain ⟨hhanded, hending, hstate⟩ := h
  cases hending with
  | ok _ => exact .ok hhanded hstate
  | error hf => exact .error hf hstate

end Progress.Alike

inductive Draw.Alike (I : Item τ → Item τ → Prop) (F : Failure → Failure → Prop) :
    Draw τ → Draw τ → Prop
  | next {item item' : Item τ} : I item item' → Alike I F (.next item) (.next item')
  | ended {lost lost' : Option (Item τ)} : Option.Rel I lost lost' →
      Alike I F (.ended lost) (.ended lost')
  | failed {f g : Failure} : F f g → Alike I F (.failed f) (.failed g)

/-- The decision is the same on tokens that correspond. -/
def Decision.Blind (I : Item τ → Item τ → Prop) (decision : Decision ω τ) : Prop :=
  ∀ next next', Option.Rel I next next' → ∀ memory, decision next' memory = decision next memory

/-- Asked about tokens that correspond, the guard decides the same and leaves the lexers in step. -/
def Guard.Respects (R : Lexer ω τ → Lexer ω τ → Prop) (I : Item τ → Item τ → Prop)
    (F : Failure → Failure → Prop) (accepts : Guard ω τ) : Prop :=
  ∀ s t next next', R s t → Option.Rel I next next' →
    Outcome.Alike R (· = ·) F (accepts next s) (accepts next' t)

/-- What the moves keep which operations are made of, so that two lexers stay in step. -/
structure Simulation [TokenLike τ] (R : Lexer ω τ → Lexer ω τ → Prop) (I : Item τ → Item τ → Prop)
    (L : Lexeme → Lexeme → Prop) (F : Failure → Failure → Prop) : Prop where
  failure (f : Failure) : F f f
  ends {f g} : F f g → g.endsIteration = f.endsIteration
  absent {i i'} : I i i' → i'.passesForAbsent = i.passesForAbsent
  queue {s t} : R s t → Forall₂ (Entry.Alike I L) s.queue t.queue
  remaining_eq {s t} : R s t → t.remaining = s.remaining
  memory_eq {s t} : R s t → t.memory = s.memory
  produce {s t} : R s t →
    Outcome.Alike R (Option.Rel (Entry.Alike I L)) F s.produce t.produce
  matchHere {s t} (p : Pattern) : R s t →
    Outcome.Alike R (Option.Rel L) F (s.matchHere p) (t.matchHere p)
  requeue {s t es es'} : R s t → Forall₂ (Entry.Alike I L) es es' →
    R { s with queue := es } { t with queue := es' }
  remind {s t made made'} : R s t → Option.Rel (Entry.Alike I L) made made' →
    R { s with advanced := made } { t with advanced := made' }
  remember {s t} (memory : ω) : R s t → R { s with memory } { t with memory }
  write {s t} (r : Record) : R s t → R (s.record r) (t.record r)
  pass {s t e e'} : R s t → Entry.Alike I L e e' → R (s.pass e) (t.pass e')
  cut {s t} (length : Nat) (given : Option Text) : R s t →
    R (s.cut length given).2 (t.cut length given).2

theorem rel_getElem? {A : α → β → Prop} {xs : List α} {ys : List β} (h : Forall₂ A xs ys)
    (n : Nat) : Option.Rel A xs[n]? ys[n]? := by
  induction h generalizing n with
  | nil => exact .none
  | cons hhead _ ih =>
    cases n with
    | zero => exact .some hhead
    | succ n => exact ih n

namespace Simulation

variable [TokenLike τ] {R : Lexer ω τ → Lexer ω τ → Prop} {I : Item τ → Item τ → Prop}
  {L : Lexeme → Lexeme → Prop} {F : Failure → Failure → Prop} {s t : Lexer ω τ} {e e' : Entry τ}

-- ---------------------------------------------------------------------------
-- The queue
-- ---------------------------------------------------------------------------

theorem push (hR : Simulation R I L F) (h : R s t) (he : Entry.Alike I L e e') :
    R (s.push e) (t.push e') :=
  hR.remind (hR.requeue h (List.rel_append (hR.queue h) (.cons he .nil))) .none

theorem pop (hR : Simulation R I L F) (h : R s t) :
    Option.Rel (Entry.Alike I L) s.pop.1 t.pop.1 ∧ R s.pop.2 t.pop.2 := by
  have hqueue := hR.queue h
  rcases hs : s.queue with _ | ⟨e, rest⟩ <;> rcases ht : t.queue with _ | ⟨e', rest'⟩ <;>
    rw [hs, ht] at hqueue <;> cases hqueue <;> simp only [Lexer.pop, hs, ht]
  · exact ⟨.none, h⟩
  · rename_i he hrest
    exact ⟨.some he, hR.remind (hR.requeue h hrest) .none⟩

theorem retract (hR : Simulation R I L F) (h : R s t) (kept : Nat) :
    R (s.retract kept) (t.retract kept) :=
  hR.requeue h (List.forall₂_take kept (hR.queue h))

theorem nextEntry (hR : Simulation R I L F) (h : R s t) :
    Outcome.Alike R (Option.Rel (Entry.Alike I L)) F s.nextEntry t.nextEntry := by
  have hpop := hR.pop h
  unfold Lexer.nextEntry
  generalize s.pop = popped, t.pop = popped' at hpop ⊢
  obtain ⟨front, s⟩ := popped
  obtain ⟨front', t⟩ := popped'
  obtain ⟨hfront, hstate⟩ := hpop
  cases hfront with
  | none => exact hR.produce hstate
  | some he => exact .ok (.some he) hstate

theorem nextToken (hR : Simulation R I L F) (h : R s t) :
    Outcome.Alike R (Option.Rel I) F s.nextToken t.nextToken := by
  have hnext := hR.nextEntry h
  unfold Lexer.nextToken
  generalize s.nextEntry = next, t.nextEntry = next' at hnext ⊢
  cases hnext with
  | error hf hstate => exact .error hf hstate
  | ok hentry hstate =>
    cases hentry with
    | none => exact .ok .none hstate
    | some he => exact .ok (.some he.1) hstate

theorem dequeue (hR : Simulation R I L F) (h : R s t) :
    Option.Rel I s.dequeue.1 t.dequeue.1 ∧ R s.dequeue.2 t.dequeue.2 := by
  have hpop := hR.pop h
  unfold Lexer.dequeue
  generalize s.pop = popped, t.pop = popped' at hpop ⊢
  obtain ⟨front, s⟩ := popped
  obtain ⟨front', t⟩ := popped'
  obtain ⟨hfront, hstate⟩ := hpop
  cases hfront with
  | none => exact ⟨.none, hstate⟩
  | some he => exact ⟨.some he.1, hstate⟩

theorem advance (hR : Simulation R I L F) (h : R s t) :
    Outcome.Alike R (Option.Rel I) F s.advance t.advance := by
  have hmade := hR.produce h
  unfold Lexer.advance
  generalize s.produce = made, t.produce = made' at hmade ⊢
  cases hmade with
  | error hf hstate => exact .error hf hstate
  | ok hentry hstate =>
    refine .ok ?_ (hR.remind hstate hentry)
    cases hentry with
    | none => exact .none
    | some he => exact .some he.1

theorem fill (hR : Simulation R I L F) (h : R s t) (missing : Nat) :
    Outcome.Alike R (· = ·) F (s.fill missing) (t.fill missing) := by
  induction missing generalizing s t with
  | zero => exact .ok rfl h
  | succ missing ih =>
    have hmade := hR.produce h
    unfold Lexer.fill
    generalize s.produce = made, t.produce = made' at hmade ⊢
    cases hmade with
    | error hf hstate => exact .error hf hstate
    | ok hentry hstate =>
      cases hentry with
      | none => exact .ok rfl hstate
      | some he => exact ih (hR.push hstate he)

theorem lookahead (hR : Simulation R I L F) (h : R s t) (n : Nat) :
    Outcome.Alike R (Option.Rel I) F (s.lookahead n) (t.lookahead n) := by
  have hfill := hR.fill h (n - s.queue.length)
  unfold Lexer.lookahead
  rw [← (hR.queue h).length_eq]
  generalize s.fill _ = filled, t.fill _ = filled' at hfill ⊢
  cases hfill with
  | error hf hstate => exact .error hf hstate
  | @ok _ _ u v _ hstate =>
    refine .ok ?_ hstate
    split
    · exact .none
    · have hnth := rel_getElem? (hR.queue hstate) (n - 1)
      generalize u.queue[n - 1]? = nth, v.queue[n - 1]? = nth' at hnth ⊢
      cases hnth with
      | none => exact .none
      | some he => exact .some he.1

-- ---------------------------------------------------------------------------
-- Scans
-- ---------------------------------------------------------------------------

theorem scan (hR : Simulation R I L F) (h : R s t) :
    Outcome.Alike R (Option.Rel I) F s.scan t.scan := by
  have hnext := hR.nextEntry h
  unfold Lexer.scan
  generalize s.nextEntry = next, t.nextEntry = next' at hnext ⊢
  cases hnext with
  | error hf hstate => exact .error hf hstate
  | ok hentry hstate =>
    cases hentry with
    | none => exact .ok .none hstate
    | some he => exact .ok (.some he.1) (hR.pass hstate he)

theorem draw (hR : Simulation R I L F) (h : R s t) :
    Draw.Alike I F s.draw.1 t.draw.1 ∧ R s.draw.2 t.draw.2 := by
  have hscan := hR.scan h
  unfold Lexer.draw
  generalize s.scan = scanned, t.scan = scanned' at hscan ⊢
  cases hscan with
  | error hf hstate =>
    simp only [hR.ends hf]
    split
    · exact ⟨.ended .none, hstate⟩
    · exact ⟨.failed hf, hstate⟩
  | ok hitem hstate =>
    cases hitem with
    | none => exact ⟨.ended .none, hstate⟩
    | some hitem =>
      simp only [hR.absent hitem]
      split
      · exact ⟨.ended (.some hitem), hstate⟩
      · exact ⟨.next hitem, hstate⟩

theorem collectUpTo (hR : Simulation R I L F) (h : R s t) (bound : Nat) :
    Progress.Alike R I F (s.collectUpTo bound) (t.collectUpTo bound) := by
  induction bound generalizing s t with
  | zero => exact ⟨.nil, .error (hR.failure _), h⟩
  | succ bound ih =>
    have hdraw := hR.draw h
    unfold Lexer.collectUpTo
    generalize s.draw = drawn, t.draw = drawn' at hdraw ⊢
    obtain ⟨drawn, s⟩ := drawn
    obtain ⟨drawn', t⟩ := drawn'
    obtain ⟨halike, hstate⟩ := hdraw
    cases halike with
    | next hitem => exact (ih hstate).after hitem
    | ended hlost =>
      cases hlost with
      | none => exact ⟨.nil, .ok rfl, hstate⟩
      | some hitem => exact ⟨.cons hitem .nil, .ok rfl, hstate⟩
    | failed hf => exact ⟨.nil, .error hf, hstate⟩

theorem collect (hR : Simulation R I L F) (h : R s t) :
    Progress.Alike R I F s.collect t.collect := by
  -- a bound above the scans that either has left serves for both
  have hs : s.scansLeft < s.scansLeft + t.scansLeft + 1 := by omega
  have ht : t.scansLeft < s.scansLeft + t.scansLeft + 1 := by omega
  rw [← collectUpTo_eq_collect hs, ← collectUpTo_eq_collect ht]
  exact hR.collectUpTo h _

theorem present (hR : Simulation R I L F) {p p' : Progress ω τ} (h : Progress.Alike R I F p p') :
    Progress.Alike R I F p.present p'.present :=
  { h with handed := List.rel_filter (fun _ _ hitem => by simp only [hR.absent hitem]) h.handed }

theorem respects_quiet (hR : Simulation R I L F) {decision : Decision ω τ}
    (hd : decision.Blind I) : (Guard.quiet decision).Respects R I F := by
  intro s t next next' h hnext
  simp only [Guard.quiet, hd next next' hnext, hR.memory_eq h]
  rcases decision next s.memory with ⟨f | accepted, memory⟩
  · exact .error (hR.failure f) (hR.remember memory h)
  · exact .ok rfl (hR.remember memory h)

theorem scanGuarded (hR : Simulation R I L F) {accepts : Guard ω τ}
    (hg : accepts.Respects R I F) (h : R s t) (bound : Nat) :
    Progress.Alike R I F (s.scanGuarded accepts bound) (t.scanGuarded accepts bound) := by
  induction bound generalizing s t with
  | zero => exact ⟨.nil, .error (hR.failure _), h⟩
  | succ bound ih =>
    have hpeek := hR.lookahead h 1
    unfold Lexer.scanGuarded Lexer.peek
    rw [← (hR.queue h).length_eq]
    generalize s.lookahead 1 = looked, t.lookahead 1 = looked' at hpeek ⊢
    cases hpeek with
    | error hf hstate => exact ⟨.nil, .error hf, hstate⟩
    | @ok next next' u v hnext hstate =>
      have hanswer := hg u v next next' hstate hnext
      dsimp only
      generalize accepts next u = answer, accepts next' v = answer' at hanswer ⊢
      cases hanswer with
      | error hf hstate => exact ⟨.nil, .error hf, hstate⟩
      | @ok accepted _ u v haccepted hstate =>
        obtain rfl := haccepted
        cases accepted with
        | false => exact ⟨.nil, .ok rfl, hR.retract hstate _⟩
        | true =>
          have hscan := hR.scan hstate
          dsimp only
          generalize u.scan = scanned, v.scan = scanned' at hscan ⊢
          cases hscan with
          | error hf hstate => exact ⟨.nil, .error hf, hstate⟩
          | ok hitem hstate =>
            cases hitem with
            | none => exact ⟨.nil, .ok rfl, hstate⟩
            | some hitem => exact (ih hstate).after hitem

theorem drainWhile (hR : Simulation R I L F) {decision : Decision ω τ} (hd : decision.Blind I)
    (h : R s t) : Progress.Alike R I F (s.drainWhile decision) (t.drainWhile decision) := by
  have hs : s.scansLeft < s.scansLeft + t.scansLeft + 1 := by omega
  have ht : t.scansLeft < s.scansLeft + t.scansLeft + 1 := by omega
  rw [← scanGuarded_eq_drainWhile decision hs, ← scanGuarded_eq_drainWhile decision ht]
  exact hR.scanGuarded (hR.respects_quiet hd) h _

theorem iterate (hR : Simulation R I L F) (h : R s t) (it : Iteration) :
    Outcome.Alike R (Option.Rel I) F (s.iterate it).1 (t.iterate it).1 := by
  have hdraw := hR.draw h
  unfold Lexer.iterate
  split
  · exact .ok .none h
  · generalize s.draw = drawn, t.draw = drawn' at hdraw ⊢
    obtain ⟨drawn, s⟩ := drawn
    obtain ⟨drawn', t⟩ := drawn'
    obtain ⟨halike, hstate⟩ := hdraw
    cases halike with
    | next hitem => exact .ok (.some hitem) hstate
    | ended => exact .ok .none hstate
    | failed hf => exact .error hf hstate

-- ---------------------------------------------------------------------------
-- Operations with arguments
-- ---------------------------------------------------------------------------

theorem lookaheadBy (hR : Simulation R I L F) (h : R s t) (n : Value) :
    Outcome.Alike R (Option.Rel I) F (s.lookaheadBy n) (t.lookaheadBy n) := by
  unfold Lexer.lookaheadBy
  split
  · exact hR.lookahead h _
  · exact .error (hR.failure _) h

theorem discardQueue (hR : Simulation R I L F) (h : R s t) : R s.discardQueue t.discardQueue := by
  have hqueue := hR.queue h
  unfold Lexer.discardQueue
  rcases hs : s.queue with _ | ⟨e, rest⟩ <;> rcases ht : t.queue with _ | ⟨e', rest'⟩ <;>
    rw [hs, ht] at hqueue <;> cases hqueue <;> dsimp only
  · exact h
  · rename_i he hrest
    rw [← (List.Forall₂.cons he hrest).length_eq]
    exact hR.requeue (hR.write _ h) .nil

theorem consumeBy (hR : Simulation R I L F) (h : R s t) (length given : Value) :
    Outcome.Alike R (· = ·) F (s.consumeBy length given) (t.consumeBy length given) := by
  have hdropped := hR.discardQueue h
  unfold Lexer.consumeBy
  split
  · exact .error (hR.failure _) h
  · split
    · exact .ok (by rw [hR.remaining_eq hdropped]) (hR.cut _ _ hdropped)
    · exact .ok rfl (hR.cut _ _ hdropped)
    · exact .error (hR.failure _) (hR.remind hdropped .none)

theorem matchBy (hR : Simulation R I L F) (h : R s t) (pattern : Value) :
    Outcome.Alike R (Option.Rel L) F (s.matchBy pattern) (t.matchBy pattern) := by
  unfold Lexer.matchBy
  rw [hR.remaining_eq h]
  split
  · exact .ok .none h
  · split
    · exact hR.matchHere _ h
    · exact .error (hR.failure _) h
    · exact .error (hR.failure _) h
    · exact .error (hR.failure _) h

end Simulation

end Lexer

/-- Operations that are given no token and no lexeme and add no rules; a decision satisfies `P`. -/
def Operation.Plain (P : Lexer.Decision ω τ → Prop) : Operation ω τ → Prop
  | .scan | .scanAll | .scanAvailable | .iterate _ | .peek | .lookahead _ | .advance | .nextToken
  | .dequeue | .consume .. | .matchBy _ => True
  | .scanWhile decision => P decision
  | _ => False

theorem Operation.Plain.mono {P Q : Lexer.Decision ω τ → Prop} {operation : Operation ω τ}
    (h : operation.Plain P) (hPQ : ∀ decision, P decision → Q decision) : operation.Plain Q := by
  cases operation with
  | scanWhile decision => exact hPQ decision h
  | _ => exact h

theorem Lexer.Decision.blind_available (I : Item τ → Item τ → Prop) :
    (Decision.available : Decision ω τ).Blind I := by
  intro next next' h memory
  cases h <;> rfl

/-- Lexers in step answer every such operation alike and stay in step. -/
theorem Lexer.Simulation.perform [TokenLike τ] {R : Lexer ω τ → Lexer ω τ → Prop}
    {I : Item τ → Item τ → Prop} {L : Lexeme → Lexeme → Prop} {F : Failure → Failure → Prop}
    {s t : Lexer ω τ} {operation : Operation ω τ} (hR : Simulation R I L F)
    (hop : operation.Plain (Decision.Blind I)) (h : R s t) :
    Outcome.Alike R (Answer.Alike I L) F (operation.perform s) (operation.perform t) := by
  cases operation with
  | scan => exact (hR.scan h).map .token
  | scanAll => exact (hR.present (hR.collect h)).answer.map .tokens
  | scanAvailable => exact (hR.drainWhile (Decision.blind_available I) h).answer.map .tokens
  | scanWhile decision => exact (hR.drainWhile hop h).answer.map .tokens
  | iterate it => exact (hR.iterate h it).map .token
  | peek => exact (hR.lookahead h 1).map .token
  | lookahead n => exact (hR.lookaheadBy h n).map .token
  | advance => exact (hR.advance h).map .token
  | nextToken => exact (hR.nextToken h).map .token
  | dequeue =>
    obtain ⟨hitem, hstate⟩ := hR.dequeue h
    exact .ok (.token hitem) hstate
  | consume length given =>
    refine (hR.consumeBy h length given).map ?_
    rintro a _ rfl
    exact .text
  | matchBy pattern => exact (hR.matchBy h pattern).map .lexeme
  | _ => exact hop.elim

end PullLexer
