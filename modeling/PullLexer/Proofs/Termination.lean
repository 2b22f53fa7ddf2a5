import PullLexer.Proofs.Cursor
import PullLexer.Proofs.Succession

/-!
# Loops end

The loops are stated here without a bound: scans that hand out tokens up to one
that makes none (`Hands`) or that ends an iteration (`CollectStep`), rounds of a
guarded loop up to one that hands out none (`Rounds`), and productions queued up
to one that makes none (`Queues`).
Scans and rounds use up the queue and the remaining text together
(`Hands.length_le`, `Rounds.length_le`), and each token queued puts the head
forward (`Queues.length_le`), wherever the lexemes lie that callers queued.
-/

namespace PullLexer.Lexer

variable {ω τ : Type} {s t u : Lexer ω τ} {e : Entry τ} {es : List (Entry τ)} {item : Item τ}
  {items : List (Item τ)} {accepts : Guard ω τ} {decision : Decision ω τ}

-- ---------------------------------------------------------------------------
-- Scans
-- ---------------------------------------------------------------------------

theorem Hands.length_le (h : Hands s items t) : items.length + t.scansLeft ≤ s.scansLeft := by
  induction h with
  | nil => simp
  | cons hscan _ ih =>
    have hfewer := scansLeft_scan hscan
    rw [List.length_cons]
    omega

theorem CollectStep.length_le [TokenLike τ] {p : Progress ω τ} (h : CollectStep s p) :
    p.handed.length ≤ s.scansLeft := by
  cases h with
  | lost hands _ hscan => exact Nat.le_trans (Nat.le_add_right _ _) (hands.snoc hscan).length_le
  | ended hands | stopped hands | failed hands =>
    exact Nat.le_trans (Nat.le_add_right _ _) hands.length_le

-- ---------------------------------------------------------------------------
-- Rounds of a guarded loop
-- ---------------------------------------------------------------------------

/-- One round of a guarded loop: a look at the next token, the guard's answer, and a scan if it
accepts. -/
def round (accepts : Guard ω τ) (s : Lexer ω τ) : Outcome ω τ (Option (Item τ)) :=
  match s.peek with
  | (.error f, t) => (.error f, t)
  | (.ok next, t) =>
    match accepts next t with
    | (.error f, u) => (.error f, u)
    | (.ok false, u) => (.ok none, u.retract s.queue.length)
    | (.ok true, u) => u.scan

inductive RoundStep (accepts : Guard ω τ) (s : Lexer ω τ) : Outcome ω τ (Option (Item τ)) → Prop
  | unseen {f : Failure} {t : Lexer ω τ} : s.peek = (.error f, t) →
      RoundStep accepts s (.error f, t)
  | undecided {next : Option (Item τ)} {f : Failure} {t u : Lexer ω τ} :
      s.peek = (.ok next, t) → accepts next t = (.error f, u) → RoundStep accepts s (.error f, u)
  | refused {next : Option (Item τ)} {t u : Lexer ω τ} : s.peek = (.ok next, t) →
      accepts next t = (.ok false, u) → RoundStep accepts s (.ok none, u.retract s.queue.length)
  | accepted {next : Option (Item τ)} {t u : Lexer ω τ} : s.peek = (.ok next, t) →
      accepts next t = (.ok true, u) → RoundStep accepts s u.scan

theorem roundStep (accepts : Guard ω τ) (s : Lexer ω τ) :
    RoundStep accepts s (s.round accepts) := by
  unfold round
  rcases hpeek : s.peek with ⟨⟨f⟩ | ⟨next⟩, t⟩
  · exact .unseen hpeek
  · dsimp only
    rcases haccepts : accepts next t with ⟨⟨f⟩ | ⟨_ | _⟩, u⟩
    · exact .undecided hpeek haccepts
    · exact .refused hpeek haccepts
    · exact .accepted hpeek haccepts

theorem scanGuarded_succ (accepts : Guard ω τ) (bound : Nat) (s : Lexer ω τ) :
    s.scanGuarded accepts (bound + 1) =
      match s.round accepts with
      | (.error f, t) => ⟨[], .error f, t⟩
      | (.ok none, t) => ⟨[], .ok (), t⟩
      | (.ok (some item), t) => (t.scanGuarded accepts bound).after item := by
  rw [scanGuarded]
  unfold round
  rcases hpeek : s.peek with ⟨⟨f⟩ | ⟨next⟩, t⟩
  · rfl
  · dsimp only
    rcases accepts next t with ⟨⟨f⟩ | ⟨_ | _⟩, u⟩
    · rfl
    · rfl
    · rcases hscan : u.scan with ⟨⟨f⟩ | ⟨_ | item⟩, v⟩ <;> simp only [hscan]

/-- Rounds, one after the other, hand out these tokens and leave this state. -/
inductive Rounds (accepts : Guard ω τ) : Lexer ω τ → List (Item τ) → Lexer ω τ → Prop
  | nil {s : Lexer ω τ} : Rounds accepts s [] s
  | cons {s t u : Lexer ω τ} {item : Item τ} {items : List (Item τ)} :
      s.round accepts = (.ok (some item), t) → Rounds accepts t items u →
      Rounds accepts s (item :: items) u

theorem scansLeft_round (h : s.round (.quiet decision) = (.ok (some item), t)) :
    t.scansLeft < s.scansLeft := by
  have step := h ▸ roundStep (.quiet decision) s
  generalize houtcome : ((.ok (some item), t) : Outcome ω τ (Option (Item τ))) = outcome at step
  cases step with
  | unseen => cases houtcome
  | undecided => cases houtcome
  | refused => cases houtcome
  | @accepted next t' u hpeek haccepts =>
    -- the decision changed at most what is remembered
    obtain ⟨memory, hmemory⟩ := Guard.leavesLexer_quiet decision next t'
    rw [haccepts] at hmemory
    obtain rfl : u = { t' with memory } := hmemory
    exact scansLeft_scan_of_peek memory hpeek houtcome.symm

theorem Rounds.length_le (h : Rounds (.quiet decision) s items t) :
    items.length + t.scansLeft ≤ s.scansLeft := by
  induction h with
  | nil => simp
  | cons hround _ ih =>
    have hfewer := scansLeft_round hround
    rw [List.length_cons]
    omega

theorem drainWhile_eq (decision : Decision ω τ) (s : Lexer ω τ) :
    s.drainWhile decision =
      match s.round (.quiet decision) with
      | (.error f, t) => ⟨[], .error f, t⟩
      | (.ok none, t) => ⟨[], .ok (), t⟩
      | (.ok (some item), t) => (t.drainWhile decision).after item := by
  rw [drainWhile, scanGuarded_succ]
  rcases hround : s.round (.quiet decision) with ⟨⟨f⟩ | ⟨_ | item⟩, t⟩
  · rfl
  · rfl
  · dsimp only
    rw [scanGuarded_eq_drainWhile decision (scansLeft_round hround)]

/-- A loop with a decision that leaves the lexer alone hands out tokens up to a round that hands out
none, and ends as that round does. -/
theorem drainWhile_rounds (decision : Decision ω τ) (s : Lexer ω τ) :
    ∃ t, Rounds (.quiet decision) s (s.drainWhile decision).handed t ∧
      t.round (.quiet decision) =
        ((s.drainWhile decision).ending.map fun _ => none, (s.drainWhile decision).state) := by
  induction hn : s.scansLeft using Nat.strongRecOn generalizing s with
  | ind n ih =>
    subst hn
    rw [drainWhile_eq]
    rcases hround : s.round (.quiet decision) with ⟨⟨f⟩ | ⟨_ | item⟩, t⟩
    · exact ⟨s, .nil, hround⟩
    · exact ⟨s, .nil, hround⟩
    · obtain ⟨u, rounds, hlast⟩ := ih _ (scansLeft_round hround) t rfl
      exact ⟨u, .cons hround rounds, hlast⟩

-- ---------------------------------------------------------------------------
-- Productions that are queued
-- ---------------------------------------------------------------------------

theorem headOffset_push (s : Lexer ω τ) (e : Entry τ) :
    (s.push e).headOffset = e.lexeme.stop - s.position := by
  simp [headOffset, push]

/-- A token made and queued puts the head forward by its text, which is not empty. -/
theorem headOffset_push_produce (hp : s.produce = (.ok (some e), t)) :
    (t.push e).headOffset = s.headOffset + e.lexeme.text.length ∧ 0 < e.lexeme.text.length := by
  obtain ⟨hindex, -, hne⟩ := lexeme_produce hp
  refine ⟨?_, List.length_pos_iff.mpr hne⟩
  rw [headOffset_push, Lexeme.stop, hindex, head, position_produce hp]
  omega

theorem remaining_push_produce (hp : s.produce = (.ok (some e), t)) :
    (t.push e).remaining = s.remaining := by
  obtain ⟨_, _, _, _, rfl, -⟩ := produce_frame hp
  rfl

/-- No more tokens can be made and queued than characters lie between the head and the end of the
text, whether the head is before the cursor or behind it. -/
theorem Queues.length_le (h : Queues s es t) :
    (es.length : Int) ≤ max 0 (s.remaining.length - s.headOffset) := by
  induction h with
  | nil => exact Int.le_max_left _ _
  | cons hp _ ih =>
    have hahead := (produce_some hp).1
    obtain ⟨hforward, hpos⟩ := headOffset_push_produce hp
    rw [remaining_push_produce hp, hforward] at ih
    rw [exhausted] at hahead
    rw [List.length_cons]
    omega

theorem lookahead_queues (n : Nat) (s : Lexer ω τ) :
    ∃ es t, Queues s es t ∧ (s.lookahead n).2.queue = s.queue ++ es ∧
      (n ≤ (s.lookahead n).2.queue.length ∨ ∃ ending : Except Failure Unit,
        t.produce = (ending.map fun _ => none, (s.lookahead n).2)) := by
  have step := lookStep s n
  generalize s.lookahead n = outcome at step ⊢
  cases step with
  | @queued es t hqueues hle => exact ⟨es, t, hqueues, hqueues.queue_eq, .inl hle⟩
  | @ended es t u hqueues _ hlast =>
    exact ⟨es, t, hqueues, (queue_produce hlast).trans hqueues.queue_eq, .inr ⟨.ok (), hlast⟩⟩
  | @failed es t u f hqueues _ hlast =>
    exact ⟨es, t, hqueues, (queue_produce hlast).trans hqueues.queue_eq, .inr ⟨.error f, hlast⟩⟩

-- ---------------------------------------------------------------------------
-- In whatever state
-- ---------------------------------------------------------------------------

/-- In whatever state, and whatever lexemes are queued, scanning alone, collecting the tokens of an
iteration and scanning while a decision accepts come to an end, by a scan or a round that hands out
no token or by what an iteration takes for its end, after as many tokens at most as are queued and
characters remain. Looking ahead adds as many tokens at most as characters lie between the head and
the end, however many it is asked for. -/
theorem loops_end [TokenLike τ] (s : Lexer ω τ) (decision : Decision ω τ) :
    (∃ t, Hands s s.drain.handed t ∧
        t.scan = (s.drain.ending.map fun _ => none, s.drain.state) ∧
        s.drain.handed.length ≤ s.queue.length + s.remaining.length) ∧
      (CollectStep s s.collect ∧
        s.scanAll = (s.collect.ending.map fun _ => s.collect.present.handed, s.collect.state) ∧
        s.collect.handed.length ≤ s.queue.length + s.remaining.length) ∧
      (let progress := s.drainWhile decision
        ∃ t, Rounds (.quiet decision) s progress.handed t ∧
          t.round (.quiet decision) = (progress.ending.map fun _ => none, progress.state) ∧
          progress.handed.length ≤ s.queue.length + s.remaining.length) ∧
      ∀ n, ∃ es t, Queues s es t ∧ (s.lookahead n).2.queue = s.queue ++ es ∧
        (n ≤ (s.lookahead n).2.queue.length ∨ ∃ ending : Except Failure Unit,
          t.produce = (ending.map fun _ => none, (s.lookahead n).2)) ∧
        (es.length : Int) ≤ max 0 (s.remaining.length - s.headOffset) := by
  refine ⟨?_, ⟨collectStep s, answer_eq _, (collectStep s).length_le⟩, ?_, fun n => ?_⟩
  · obtain ⟨t, hands, hlast⟩ := drain_hands s
    exact ⟨t, hands, hlast, Nat.le_trans (Nat.le_add_right _ _) hands.length_le⟩
  · obtain ⟨t, rounds, hlast⟩ := drainWhile_rounds decision s
    exact ⟨t, rounds, hlast, Nat.le_trans (Nat.le_add_right _ _) rounds.length_le⟩
  · obtain ⟨es, t, hqueues, hqueue, hstop⟩ := lookahead_queues n s
    exact ⟨es, t, hqueues, hqueue, hstop, hqueues.length_le⟩

end PullLexer.Lexer
