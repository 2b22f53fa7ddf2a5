import PullLexer.Proofs.Failing
import PullLexer.Proofs.Reentry

/-!
# The end of the input is final

Where nothing remains and nothing is queued, no pattern is looked at and no
builder is asked: a production makes no token and changes nothing
(`Spent.produce_eq`). Client code that queues no token and gives no text to be
consumed stays there, whatever rules it adds (`upheld_spent`), and every operation
finds nothing (`answer_of_spent`).
-/

namespace PullLexer

variable {ω τ : Type}

namespace Lexer

variable {s₀ s s' : Lexer ω τ} {e : Entry τ} {made : Except Failure (Option (Entry τ))}

-- ---------------------------------------------------------------------------
-- Staying at the end
-- ---------------------------------------------------------------------------

/-- Nothing remains and nothing is queued, and the cursor is where it was. -/
structure Spent (s₀ s : Lexer ω τ) : Prop extends SameCursor s₀ s where
  remaining_nil : s.remaining = []
  queue_nil : s.queue = []

namespace Spent

theorem exhausted (h : Spent s₀ s) : s.exhausted := by
  rw [Lexer.exhausted, headOffset_of_queue_nil h.queue_nil, h.remaining_nil]
  exact Int.le_refl _

theorem produce_eq (h : Spent s₀ s) : s.produce = (.ok none, s) :=
  (ProduceStep.exhausted h.exhausted).produce_eq

theorem produce (h : Spent s₀ s) (hp : s.produce = (made, s')) : Spent s₀ s' := by
  rw [h.produce_eq] at hp
  cases hp
  exact h

theorem ne_made (h : Spent s₀ s) (hp : s.produce = (.ok (some e), s')) : False := by
  rw [h.produce_eq] at hp
  cases hp

theorem ne_cons {rest : List (Entry τ)} (h : Spent s₀ s) (hq : s.queue = e :: rest) : False :=
  List.cons_ne_nil e rest (hq.symm.trans h.queue_nil)

theorem cut (h : Spent s₀ s) (n : Nat) : Spent s₀ (s.cut n none).2 := by
  obtain ⟨⟨hposition, hconsumed, hremaining⟩, hnil, hqueue⟩ := h
  rw [cut_none, hnil]
  refine ⟨⟨?_, ?_, ?_⟩, List.drop_nil, hqueue⟩
  · simpa using hposition
  · simpa using hconsumed
  · simpa [hnil] using hremaining

end Spent

theorem spent_of_atEnd (h : s.atEnd) : Spent s s := by
  rw [atEnd, Bool.and_eq_true, List.isEmpty_iff, List.isEmpty_iff] at h
  exact ⟨⟨rfl, rfl, rfl⟩, h.1, h.2⟩

theorem Spent.atEnd (h : Spent s₀ s) : s.atEnd := by
  rw [Lexer.atEnd, h.remaining_nil, h.queue_nil]
  rfl

theorem sustained_spent (s₀ : Lexer ω τ) : Sustained fun _ s => Spent s₀ s where
  remember _ h := { h with }
  forget h := { h with }
  produce h hp := h.produce hp
  push h hp := (h.ne_made hp).elim
  pass h _ hp := (h.ne_made hp).elim
  serve h hq := (h.ne_cons hq).elim

-- ---------------------------------------------------------------------------
-- Finding nothing
-- ---------------------------------------------------------------------------

namespace Spent

variable (h : Spent s₀ s)

include h

theorem scan_eq : s.scan = (.ok none, s) := (ScanStep.ended h.queue_nil h.produce_eq).scan_eq

theorem peek_eq : s.peek = (.ok none, s) := (PeekStep.ended h.queue_nil h.produce_eq).peek_eq

theorem collect_eq [TokenLike τ] : s.collect = ⟨[], .ok (), s⟩ := collect_of_none h.scan_eq

theorem fill_eq (missing : Nat) : s.fill missing = (.ok (), s) := by
  cases missing with
  | zero => rfl
  | succ missing => rw [fill, h.produce_eq]

theorem lookahead_eq (n : Nat) : s.lookahead n = (.ok none, s) := by
  simp only [lookahead, h.fill_eq, h.queue_nil, List.getElem?_nil, Option.map_none, ite_self]

theorem advance_eq : s.advance = (.ok none, { s with advanced := none }) := by
  rw [advance, h.produce_eq]
  rfl

theorem nextToken_eq : s.nextToken = (.ok none, s) := by
  rw [nextToken, nextEntry_of_queue_nil h.queue_nil, h.produce_eq]
  rfl

theorem consume_eq (n : Nat) : (s.consume n none).1 = [] := by
  rw [consume, discardQueue, h.queue_nil, cut_none, h.remaining_nil]
  exact List.take_nil

theorem scanGuarded_eq {accepts : Guard ω τ} (hg : accepts.LeavesLexer)
    (hok : (accepts none s).1.isOk) (bound : Nat) :
    ∃ t, s.scanGuarded accepts (bound + 1) = ⟨[], .ok (), t⟩ := by
  obtain ⟨memory, hmemory⟩ := hg none s
  rw [scanGuarded, h.peek_eq]
  dsimp only
  rcases haccepts : accepts none s with ⟨⟨f⟩ | ⟨_ | _⟩, u⟩ <;> rw [haccepts] at hok hmemory
  · cases hok
  · exact ⟨_, rfl⟩
  · obtain rfl : u = { s with memory } := hmemory
    have hleft : Spent s₀ { s with memory } := { h with }
    dsimp only
    rw [hleft.scan_eq]
    exact ⟨_, rfl⟩

theorem drainWhile_eq {decision : Decision ω τ} (hok : ∀ memory, (decision none memory).1.isOk) :
    ∃ t, s.drainWhile decision = ⟨[], .ok (), t⟩ :=
  h.scanGuarded_eq (Guard.leavesLexer_quiet decision) (hok s.memory) _

end Spent

end Lexer

-- ---------------------------------------------------------------------------
-- What client code finds
-- ---------------------------------------------------------------------------

namespace Operation

open Lexer Lexer.Outcome

/-- No token is queued, and what is consumed is not given as a text. -/
def AddsNothing (_ : Lexer ω τ) : Operation ω τ → Prop
  | .enqueue (some _) _ => False
  | .consume _ given => given = .null
  | _ => True

/-- What the operations answer that find nothing where the input has ended: no token, no lexeme, no
tokens or no text. The arguments are such that they are not refused, and what client code decides is
decided without an error. -/
inductive AnswersAtEnd : Operation ω τ → Answer τ → Prop
  | scan : AnswersAtEnd .scan (.token none)
  | peek : AnswersAtEnd .peek (.token none)
  | advance : AnswersAtEnd .advance (.token none)
  | nextToken : AnswersAtEnd .nextToken (.token none)
  | dequeue : AnswersAtEnd .dequeue (.token none)
  | iterate {it : Iteration} : AnswersAtEnd (.iterate it) (.token none)
  | lookahead {n : Nat} : AnswersAtEnd (.lookahead (.int n)) (.token none)
  | enqueue {given : Option Lexeme} : AnswersAtEnd (.enqueue none given) (.token none)
  | matchBy {pattern : Value} : AnswersAtEnd (.matchBy pattern) (.lexeme none)
  | scanAll : AnswersAtEnd .scanAll (.tokens [])
  | scanAvailable : AnswersAtEnd .scanAvailable (.tokens [])
  | scanWhile {decision : Decision ω τ} : (∀ memory, (decision none memory).1.isOk) →
      AnswersAtEnd (.scanWhile decision) (.tokens [])
  | scanGuarded {accepts : Guard ω τ} {bound : Nat} : accepts.LeavesLexer →
      (∀ s, (accepts none s).1.isOk) → AnswersAtEnd (.scanGuarded accepts (bound + 1)) (.tokens [])
  | consume {n : Nat} : AnswersAtEnd (.consume (.int n) .null) (.text [])

theorem retracts_spent (s₀ : Lexer ω τ) : Retracts AddsNothing (Spent s₀) := by
  intro s accepts bound r next u v _ _ _ h
  rwa [retract_of_length_le (by rw [h.queue_nil]; exact Nat.zero_le _)]

variable [TokenLike τ] {s₀ s t : Lexer ω τ}

theorem upheld_spent (s₀ : Lexer ω τ) :
    Upheld (fun s operation => AddsNothing s operation ∧ operation.Unguarded) (Spent s₀) where
  moves := sustained_spent s₀
  guard h := h.2.elim
  advance h hp := { h.produce hp with }
  pop h hq := (h.ne_cons hq).elim
  enqueue _ hop _ := hop.1.elim
  discard _ h := { h with queue_nil := rfl }
  cut n h _ := h.cut n
  cutGiven _ _ hop _ := nomatch hop.1
  register _ _ h := { h with }
  verify _ h _ := { h with }

theorem answer_of_spent (h : Spent s₀ s) {operation : Operation ω τ} {answer : Answer τ}
    (hop : AnswersAtEnd operation answer) : (operation.perform s).1 = .ok answer := by
  have keepsGoing (decision : Decision ω τ) (hok : ∀ memory, (decision none memory).1.isOk) :
      (s.scanWhile decision).1 = .ok [] := by
    obtain ⟨t, ht⟩ := h.drainWhile_eq hok
    rw [Lexer.scanWhile, ht]
    rfl
  cases hop with
  | scan => rw [perform, h.scan_eq]; rfl
  | peek => rw [perform, h.peek_eq]; rfl
  | advance => rw [perform, h.advance_eq]; rfl
  | nextToken => rw [perform, h.nextToken_eq]; rfl
  | dequeue => simp only [perform, Lexer.dequeue, pop, h.queue_nil, Option.map_none]
  | iterate =>
    simp only [perform, Lexer.iterate, draw, h.scan_eq]
    split <;> rfl
  | @lookahead n =>
    rw [perform, lookaheadBy_int, h.lookahead_eq]
    rfl
  | enqueue => rfl
  | matchBy => simp only [perform, Lexer.matchBy, h.remaining_nil, List.isEmpty_nil, if_true, map]
  | scanAll => rw [perform, Lexer.scanAll, h.collect_eq]; rfl
  | scanAvailable => exact fst_map_of_ok Answer.tokens (keepsGoing .available fun _ => rfl)
  | scanWhile hok => exact fst_map_of_ok Answer.tokens (keepsGoing _ hok)
  | @scanGuarded accepts bound hg hok =>
    obtain ⟨t, ht⟩ := h.scanGuarded_eq hg (hok s) bound
    rw [perform, ht]
    rfl
  | @consume n =>
    have hcount : (Value.int n).count = .ok n := rfl
    rw [perform, consumeBy, hcount]
    exact congrArg (fun t => Except.ok (Answer.text t)) (h.consume_eq n)

/-- Client code that adds no token and no text meets no lexer but at the end once the input has
ended, with the same cursor and nothing queued, whatever rules it adds, and there no operation finds
anything or fails. -/
theorem end_is_final (hend : s.atEnd) (hmet : Meets AddsNothing s t) :
    t.atEnd ∧ SameCursor s t ∧ t.queue = s.queue ∧
      ∀ operation answer, AnswersAtEnd operation answer → (operation.perform t).1 = .ok answer := by
  have hs : Spent s s := spent_of_atEnd hend
  have ht : Spent s t := hmet.keeps (upheld_spent s) (retracts_spent s) hs
  exact ⟨ht.atEnd, ht.toSameCursor, ht.queue_nil.trans hs.queue_nil.symm,
    fun _ _ hop => answer_of_spent ht hop⟩

/-- A rule that is not anchored and one that matches the empty text, added at the end. -/
theorem end_is_final_under_refused_rules :
    let s : Lexer Unit (Token Text) :=
      run (start "a".toList (.ofSources [("A", "^a")]) .standard .default ()) [.scan]
    let t := run s [.addRule (.text "B".toList) (.text "b".toList), .advance,
      .addRule (.text "C".toList) (.text "^c*".toList), .consume (.int 2) .null]
    s.atEnd ∧ Meets AddsNothing s t ∧
      (t.atEnd ∧ SameCursor s t ∧ t.queue = s.queue ∧
        ∀ operation answer, AnswersAtEnd operation answer →
          (operation.perform t).1 = .ok answer) ∧
      t.rules.rules.length = 3 := by
  intro s t
  have hend : s.atEnd := by decide +kernel
  have hmet : Meets AddsNothing s t :=
    .between (Works.idle.of_along
      ⟨⟨trivial, trivial⟩, ⟨trivial, trivial⟩, ⟨trivial, trivial⟩, ⟨rfl, trivial⟩, trivial⟩)
  exact ⟨hend, hmet, end_is_final hend hmet, by decide +kernel⟩

end Operation

end PullLexer
