import PullLexer.Proofs.Alignment
import PullLexer.Proofs.Succession

/-!
# What a failure leaves

A production that fails comes before anything is moved, queued or forgotten, so
that an operation made of one production leaves cursor, queue and the token
remembered as they were (`Intact`). Looking ahead keeps the tokens it built
before the production that failed (`Extended`), and scanning for all tokens
leaves what the scans before the failing one did.
-/

namespace PullLexer

namespace Lexer

variable {ω τ : Type} {s s' t : Lexer ω τ} {e : Entry τ} {es : List (Entry τ)} {f : Failure}

-- ---------------------------------------------------------------------------
-- Productions
-- ---------------------------------------------------------------------------

structure SameCursor (s s' : Lexer ω τ) : Prop where
  position_eq : s'.position = s.position
  consumed_eq : s'.consumed = s.consumed
  remaining_eq : s'.remaining = s.remaining

theorem SameCursor.refl (s : Lexer ω τ) : SameCursor s s := ⟨rfl, rfl, rfl⟩

theorem SameCursor.trans (h : SameCursor s s') (h' : SameCursor s' t) : SameCursor s t where
  position_eq := h'.position_eq.trans h.position_eq
  consumed_eq := h'.consumed_eq.trans h.consumed_eq
  remaining_eq := h'.remaining_eq.trans h.remaining_eq

theorem SameCursor.push (h : SameCursor s s') (e : Entry τ) : SameCursor s (s'.push e) :=
  ⟨h.position_eq, h.consumed_eq, h.remaining_eq⟩

structure SamePlace (s s' : Lexer ω τ) : Prop extends SameCursor s s' where
  queue_eq : s'.queue = s.queue

theorem SamePlace.frame (h : SamePlace s t) (verified : Verified) (advanced : Option (Entry τ))
    (journal : Journal) (memory : ω) : SamePlace s { t with verified, advanced, journal, memory } :=
  ⟨⟨h.position_eq, h.consumed_eq, h.remaining_eq⟩, h.queue_eq⟩

/-- Cursor, queue and the token remembered from the last advance are as they were. -/
structure Intact (s s' : Lexer ω τ) : Prop extends SameCursor s s' where
  queue_eq : s'.queue = s.queue
  advanced_eq : s'.advanced = s.advanced

theorem Intact.refl (s : Lexer ω τ) : Intact s s := ⟨⟨rfl, rfl, rfl⟩, rfl, rfl⟩

theorem intact_produce {made : Except Failure (Option (Entry τ))} (hp : s.produce = (made, s')) :
    Intact s s' := by
  obtain ⟨_, _, _, _, rfl, -⟩ := produce_frame hp
  exact ⟨⟨rfl, rfl, rfl⟩, rfl, rfl⟩

theorem issued_produce_some (hp : s.produce = (.ok (some e), s')) :
    e.item.serial = some s.issued ∧ s'.issued = s.issued + 1 := by
  have step := hp ▸ produceStep s
  cases step with
  | made => exact ⟨rfl, rfl⟩

theorem issued_produce_error (hp : s.produce = (.error f, s')) : s'.issued = s.issued := by
  have step := hp ▸ produceStep s
  cases step <;> rfl

/-- The cursor is where it was, and the tokens built since stand at the end of the queue, all of
them and no others. -/
structure Extended (s : Lexer ω τ) (built : List (Entry τ)) (s' : Lexer ω τ) : Prop
    extends SameCursor s s' where
  queue_eq : s'.queue = s.queue ++ built
  serials_eq : built.map (·.item.serial) = (List.range' s.issued built.length).map some
  issued_eq : s'.issued = s.issued + built.length

theorem Extended.nil (s : Lexer ω τ) : Extended s [] s :=
  ⟨⟨rfl, rfl, rfl⟩, (List.append_nil _).symm, rfl, rfl⟩

theorem Queues.extended (h : Queues s es t) : Extended s es t := by
  induction h with
  | nil => exact .nil _
  | @cons s t u e es hp hqueues ih =>
    obtain ⟨hserial, hissued⟩ := issued_produce_some hp
    have hframe := intact_produce hp
    have hpushed : (t.push e).issued = s.issued + 1 := hissued
    refine ⟨(hframe.toSameCursor.push e).trans ih.toSameCursor, (Queues.cons hp hqueues).queue_eq,
      ?_, ?_⟩
    · rw [List.map_cons, ih.serials_eq, hserial, hpushed, List.length_cons, List.range'_succ,
        List.map_cons]
    · rw [ih.issued_eq, hpushed, List.length_cons]
      omega

theorem Extended.of_failure (h : Extended s es t) (hp : t.produce = (.error f, s')) :
    Extended s es s' := by
  have hframe := intact_produce hp
  exact
    { toSameCursor := h.toSameCursor.trans hframe.toSameCursor
      queue_eq := hframe.queue_eq.trans h.queue_eq
      serials_eq := h.serials_eq
      issued_eq := (issued_produce_error hp).trans h.issued_eq }

-- ---------------------------------------------------------------------------
-- Operations
-- ---------------------------------------------------------------------------

namespace Outcome

variable {α β : Type} {g : α → β} {outcome : Outcome ω τ α}

theorem map_eq_error : map g outcome = (.error f, s) ↔ outcome = (.error f, s) := by
  obtain ⟨_ | _, _⟩ := outcome <;> simp [map]

theorem eq_error_of_not_isOk (outcome : Outcome ω τ α) (h : outcome.1.isOk = false) :
    ∃ f s, outcome = (.error f, s) := by
  obtain ⟨f | _, s⟩ := outcome
  · exact ⟨f, s, rfl⟩
  · cases h

end Outcome

theorem intact_of_scan (h : s.scan = (.error f, s')) : Intact s s' :=
  intact_produce (@produce_of_scan _ _ s s' (.error f) h).2

theorem intact_of_peek (h : s.peek = (.error f, s')) : Intact s s' := by
  have step := h ▸ peekStep s
  cases step with
  | failed _ hp => exact intact_produce hp

theorem intact_of_advance (h : s.advance = (.error f, s')) : Intact s s' := by
  rcases advance_cases s with ⟨made, t, -, hadvance⟩ | ⟨g, t, hp, hadvance⟩ <;> rw [hadvance] at h
  · cases h
  · cases h
    exact intact_produce hp

theorem intact_of_nextToken (h : s.nextToken = (.error f, s')) : Intact s s' := by
  cases hq : s.queue with
  | nil =>
    have hp : s.produce.2 = s.nextToken.2 := by
      unfold nextToken
      rw [nextEntry_of_queue_nil hq]
      rcases s.produce with ⟨_ | _, _⟩ <;> rfl
    rw [h] at hp
    exact intact_produce (Prod.ext rfl hp)
  | cons e rest =>
    rw [nextToken, nextEntry_of_queue_cons hq] at h
    cases h

theorem intact_of_matchBy {pattern : Value} (h : (s.matchBy pattern).2 = s') : Intact s s' := by
  obtain ⟨verified, hmatch, -⟩ := matchBy_frame s pattern
  obtain rfl := hmatch.symm.trans h
  exact ⟨⟨rfl, rfl, rfl⟩, rfl, rfl⟩

theorem intact_of_enqueueIfAny [TokenLike τ] {item : Option (Item τ)} {given : Option Lexeme}
    (h : s.enqueueIfAny item given = (.error f, s')) : Intact s s' := by
  cases item with
  | none => cases h
  | some i =>
    cases hl : s.lexemeUnder i given with
    | ok l => simp [enqueueIfAny, enqueue, hl] at h
    | error g =>
      obtain rfl : s = s' := by simpa [enqueueIfAny, enqueue, hl] using congrArg Prod.snd h
      exact .refl s

theorem intact_of_consumeBy {length given : Value} (hgiven : given = .null ∨ ∃ t, given = .text t)
    (h : s.consumeBy length given = (.error f, s')) : Intact s s' := by
  -- only the count is refused, and that before the queue is discarded
  cases hcount : length.count with
  | error g =>
    obtain rfl : s = s' := by simpa [consumeBy, hcount] using congrArg Prod.snd h
    exact .refl s
  | ok n =>
    rcases hgiven with rfl | ⟨t, rfl⟩ <;> simp [consumeBy, hcount] at h

theorem extended_of_lookaheadBy {n : Value} (h : s.lookaheadBy n = (.error f, s')) :
    ∃ built t, Queues s built t ∧ (t.produce = (.error f, s') ∨ built = [] ∧ n.count = .error f) ∧
      Extended s built s' := by
  cases hcount : n.count with
  | error g =>
    simp only [lookaheadBy, hcount, Prod.mk.injEq, Except.error.injEq] at h
    obtain ⟨rfl, rfl⟩ := h
    exact ⟨[], s, .nil, .inr ⟨rfl, rfl⟩, .nil s⟩
  | ok n =>
    simp only [lookaheadBy, hcount] at h
    have step := h ▸ lookStep s n
    cases step with
    | failed hqueues _ hp => exact ⟨_, _, hqueues, .inl hp, hqueues.extended.of_failure hp⟩

theorem hands_of_scanAll [TokenLike τ] (h : s.scanAll = (.error f, s')) :
    ∃ items t, Hands s items t ∧ t.scan = (.error f, s') := by
  have step := collectStep s
  unfold scanAll at h
  generalize s.collect = collected at step h
  cases step with
  | lost | ended | stopped => cases h
  | failed hands _ hscan =>
    cases h
    exact ⟨_, _, hands, hscan⟩

end Lexer

namespace Operation

open Lexer Lexer.Outcome

variable {ω τ : Type} {s s' : Lexer ω τ} {f : Failure}

/-- Operations that make one token at most; a value given to be consumed is a text. -/
def Single : Operation ω τ → Prop
  | .scan | .nextToken | .peek | .advance | .dequeue | .matchBy _ | .enqueue .. => True
  | .consume _ given => given = .null ∨ ∃ t, given = .text t
  | _ => False

variable [TokenLike τ]

theorem intact_of_single {operation : Operation ω τ} (hop : operation.Single)
    (h : operation.perform s = (.error f, s')) : Intact s s' := by
  cases operation with
  | scan => exact intact_of_scan (map_eq_error.mp h)
  | nextToken => exact intact_of_nextToken (map_eq_error.mp h)
  | peek => exact intact_of_peek (map_eq_error.mp h)
  | advance => exact intact_of_advance (map_eq_error.mp h)
  | dequeue => cases h
  | matchBy pattern => exact intact_of_matchBy (congrArg Prod.snd (map_eq_error.mp h))
  | enqueue item given => exact intact_of_enqueueIfAny (map_eq_error.mp h)
  | consume length given => exact intact_of_consumeBy hop (map_eq_error.mp h)
  | _ => exact hop.elim

/-- In whatever state, an operation that makes one token at most and fails leaves cursor, queue and
the token remembered as they were. Looking ahead that fails leaves the cursor, and behind the old
queue the tokens built before the production that failed. Scanning for all tokens that fails leaves
what the scans before the failing one left. -/
theorem intact_of_failure (s : Lexer ω τ) :
    (∀ operation : Operation ω τ, operation.Single → ∀ f s',
      operation.perform s = (.error f, s') → Intact s s') ∧
    (∀ n f s', (Operation.lookahead n).perform s = (.error f, s') →
      ∃ built t, Queues s built t ∧
        (t.produce = (.error f, s') ∨ built = [] ∧ n.count = .error f) ∧ Extended s built s') ∧
    ∀ f s', Operation.scanAll.perform s = (.error f, s') →
      ∃ items t, Hands s items t ∧ t.scan = (.error f, s') ∧ Intact t s' := by
  refine ⟨fun operation hop f s' h => intact_of_single hop h, fun n f s' h => ?_,
    fun f s' h => ?_⟩
  · exact extended_of_lookaheadBy (map_eq_error.mp h)
  · obtain ⟨items, t, hands, hscan⟩ := hands_of_scanAll (map_eq_error.mp h)
    exact ⟨items, t, hands, hscan, intact_of_scan hscan⟩

/-- An advance that fails since its rule was replaced, while another token is remembered, and loops
that fail at a pattern that matches the empty text. -/
theorem intact_of_failure_refused :
    let rules : RuleTable := .ofSources [("A", "^a"), ("E", "^(?=b)")]
    let start := start "aab".toList rules .standard .default ()
    let s : Lexer Unit (Token Text) :=
      run start [.peek, .advance, .addRule (.text "A".toList) (.text "^(?=a)".toList)]
    (s.queue ≠ [] ∧ s.advanced.isSome ∧ Operation.advance.Single (ω := Unit) (τ := Token Text) ∧
      ∃ f s', Operation.advance.perform s = (.error f, s') ∧ Intact s s') ∧
    (∃ f s', (Operation.lookahead (.int 3)).perform start = (.error f, s') ∧
      ∃ built t, Queues start built t ∧
        (t.produce = (.error f, s') ∨ built = [] ∧ (Value.int 3).count = .error f) ∧
        Extended start built s') ∧
    ∃ f s', Operation.scanAll.perform start = (.error f, s') ∧
      ∃ items t, Hands start items t ∧ t.scan = (.error f, s') ∧ Intact t s' := by
  intro rules start s
  obtain ⟨f, t, hadvance⟩ :=
    eq_error_of_not_isOk (Operation.advance.perform s) (by decide +kernel)
  obtain ⟨g, u, hlookahead⟩ :=
    eq_error_of_not_isOk ((Operation.lookahead (.int 3)).perform start) (by decide +kernel)
  obtain ⟨k, v, hall⟩ :=
    eq_error_of_not_isOk (Operation.scanAll.perform start) (by decide +kernel)
  refine ⟨⟨?_, by decide +kernel, trivial, f, t, hadvance, ?_⟩, ⟨g, u, hlookahead, ?_⟩,
    ⟨k, v, hall, ?_⟩⟩
  · have hlength : s.queue.length = 1 := by decide +kernel
    exact List.ne_nil_of_length_pos (by omega)
  · exact (intact_of_failure s).1 .advance trivial f t hadvance
  · exact (intact_of_failure start).2.1 (.int 3) g u hlookahead
  · exact (intact_of_failure start).2.2 k v hall

end Operation

end PullLexer
