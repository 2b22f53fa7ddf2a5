import PullLexer.Proofs.Scanning

/-!
# Moves in succession

Scans that each hand out a token (`Hands`), and productions that are each queued
at once (`Queues`), one after the other. A drain hands out tokens up to a scan
that makes none (`drain_hands`); an iteration also ends at a token that equals
the absent value and at a failure that says so (`collectStep`). Looking ahead
queues tokens until there are enough of them or a production makes none
(`lookStep`).
-/

namespace PullLexer.Lexer

variable {ω τ : Type} {s t u : Lexer ω τ} {items later handed : List (Item τ)} {item : Item τ}

-- ---------------------------------------------------------------------------
-- Scans
-- ---------------------------------------------------------------------------

/-- Scans, one after the other, hand out these tokens and leave this state. -/
inductive Hands : Lexer ω τ → List (Item τ) → Lexer ω τ → Prop
  | nil {s : Lexer ω τ} : Hands s [] s
  | cons {s t u : Lexer ω τ} {item : Item τ} {items : List (Item τ)} :
      s.scan = (.ok (some item), t) → Hands t items u → Hands s (item :: items) u

namespace Hands

theorem trans (h : Hands s items t) (h' : Hands t later u) : Hands s (items ++ later) u := by
  induction h with
  | nil => exact h'
  | cons hscan _ ih => exact .cons hscan (ih h')

theorem snoc (h : Hands s items t) (hscan : t.scan = (.ok (some item), u)) :
    Hands s (items ++ [item]) u :=
  h.trans (.cons hscan .nil)

theorem drain_eq (h : Hands s items t) :
    s.drain = ⟨items ++ t.drain.handed, t.drain.ending, t.drain.state⟩ := by
  induction h with
  | nil => rfl
  | cons hscan _ ih => rw [drain_of_token hscan, ih, Progress.after, List.cons_append]

end Hands

/-- A drain hands out tokens up to a scan that makes none, and ends as that scan does. -/
theorem drain_hands (s : Lexer ω τ) :
    ∃ t, Hands s s.drain.handed t ∧
      t.scan = (s.drain.ending.map fun _ => none, s.drain.state) := by
  induction hn : s.scansLeft using Nat.strongRecOn generalizing s with
  | ind n ih =>
    subst hn
    rcases hscan : s.scan with ⟨⟨f⟩ | ⟨_ | item⟩, t⟩
    · rw [drain_of_error hscan]
      exact ⟨s, .nil, hscan⟩
    · rw [drain_of_none hscan]
      exact ⟨s, .nil, hscan⟩
    · obtain ⟨u, hands, hlast⟩ := ih _ (scansLeft_scan hscan) t rfl
      rw [drain_of_token hscan]
      exact ⟨u, .cons hscan hands, hlast⟩

namespace Sustained

variable {I : List (Item τ) → Lexer ω τ → Prop}

theorem hands (hI : Sustained I) (h : I handed s) (hands : Hands s items t) :
    I (handed ++ items) t := by
  induction hands generalizing handed with
  | nil => simpa using h
  | @cons s t u item items hscan _ ih =>
    have hmoved := hI.scan h
    rw [hscan] at hmoved
    simpa [Outcome.handed] using ih hmoved

theorem drain_last (hI : Sustained I) (h : I handed s) :
    ∃ t, I (handed ++ s.drain.handed) t ∧
      t.scan = (s.drain.ending.map fun _ => none, s.drain.state) := by
  obtain ⟨t, hands, hlast⟩ := drain_hands s
  exact ⟨t, hI.hands h hands, hlast⟩

end Sustained

theorem Kindred.sustained (s₀ : Lexer ω τ) : Sustained fun _ s => Kindred s₀ s where
  remember _ h := h
  forget h := h
  produce h hp := h.produce hp
  push {_ _ _ s'} h hp := show Kindred s₀ s' from h.produce hp
  pass {_ _ _ s'} h _ hp := show Kindred s₀ s' from h.produce hp
  serve h _ := h

-- ---------------------------------------------------------------------------
-- Iterations
-- ---------------------------------------------------------------------------

section Iterations

variable [TokenLike τ]

theorem collectUpTo_eq_collect {bound : Nat} (h : s.scansLeft < bound) :
    s.collectUpTo bound = s.collect := by
  have agree : ∀ (m n : Nat) (s : Lexer ω τ), s.scansLeft < m → s.scansLeft < n →
      s.collectUpTo m = s.collectUpTo n := by
    intro m
    induction m with
    | zero => exact fun n s hm => absurd hm (Nat.not_lt_zero _)
    | succ m ih =>
      intro n s hm hn
      obtain ⟨n, rfl⟩ : ∃ k, n = k + 1 := ⟨n - 1, by omega⟩
      have step := drawStep s
      unfold collectUpTo
      generalize s.draw = drawn at step ⊢
      cases step with
      | @next item t hscan =>
        have hlt := scansLeft_scan hscan
        simp only [ih n t (by omega) (by omega)]
      | lost | ended | stopped | failed => rfl
  exact agree _ _ s h (Nat.lt_succ_self _)

/-- All that collecting the tokens of an iteration can come to. The last scan hands out a token that
equals the absent value, makes none, or fails; an iteration may take the failure for its end. -/
inductive CollectStep (s : Lexer ω τ) : Progress ω τ → Prop
  | lost {items : List (Item τ)} {item : Item τ} {t u : Lexer ω τ} : Hands s items t →
      (∀ other ∈ items, other.passesForAbsent = false) → t.scan = (.ok (some item), u) →
      item.passesForAbsent = true → CollectStep s ⟨items ++ [item], .ok (), u⟩
  | ended {items : List (Item τ)} {t u : Lexer ω τ} : Hands s items t →
      (∀ other ∈ items, other.passesForAbsent = false) → t.scan = (.ok none, u) →
      CollectStep s ⟨items, .ok (), u⟩
  | stopped {items : List (Item τ)} {t u : Lexer ω τ} {f : Failure} : Hands s items t →
      (∀ other ∈ items, other.passesForAbsent = false) → t.scan = (.error f, u) →
      f.endsIteration = true → CollectStep s ⟨items, .ok (), u⟩
  | failed {items : List (Item τ)} {t u : Lexer ω τ} {f : Failure} : Hands s items t →
      (∀ other ∈ items, other.passesForAbsent = false) → t.scan = (.error f, u) →
      f.endsIteration = false → CollectStep s ⟨items, .error f, u⟩

theorem CollectStep.after {p : Progress ω τ} (hscan : s.scan = (.ok (some item), t))
    (hpresent : item.passesForAbsent = false) (h : CollectStep t p) :
    CollectStep s (p.after item) := by
  cases h with
  | lost hands hothers hlast habsent =>
    exact .lost (.cons hscan hands) (List.forall_mem_cons.mpr ⟨hpresent, hothers⟩) hlast habsent
  | ended hands hothers hlast =>
    exact .ended (.cons hscan hands) (List.forall_mem_cons.mpr ⟨hpresent, hothers⟩) hlast
  | stopped hands hothers hlast hends =>
    exact .stopped (.cons hscan hands) (List.forall_mem_cons.mpr ⟨hpresent, hothers⟩) hlast hends
  | failed hands hothers hlast hends =>
    exact .failed (.cons hscan hands) (List.forall_mem_cons.mpr ⟨hpresent, hothers⟩) hlast hends

theorem collectStep (s : Lexer ω τ) : CollectStep s s.collect := by
  induction hn : s.scansLeft using Nat.strongRecOn generalizing s with
  | ind n ih =>
    subst hn
    have step := drawStep s
    unfold collect collectUpTo
    generalize s.draw = drawn at step ⊢
    cases step with
    | next hscan hpresent =>
      have hlt := scansLeft_scan hscan
      dsimp only
      rw [collectUpTo_eq_collect hlt]
      exact (ih _ hlt _ rfl).after hscan hpresent
    | lost hscan habsent => exact .lost .nil (List.forall_mem_nil _) hscan habsent
    | ended hscan => exact .ended .nil (List.forall_mem_nil _) hscan
    | stopped hscan hends => exact .stopped .nil (List.forall_mem_nil _) hscan hends
    | failed hscan hends => exact .failed .nil (List.forall_mem_nil _) hscan hends

theorem collect_of_none (h : s.scan = (.ok none, t)) : s.collect = ⟨[], .ok (), t⟩ := by
  simp only [collect, collectUpTo, draw, h, Option.toList_none]

/-- The failure that a loop of scans ended with, if it is one that ends an iteration, is no failure
of an iteration. -/
def Progress.closed (p : Progress ω τ) : Progress ω τ :=
  match p.ending with
  | .error f => if f.endsIteration then { p with ending := .ok () } else p
  | .ok _ => p

/-- As long as no token equals the absent value, an iteration collects what scanning alone hands
out. -/
theorem collect_eq_closed (h : ∀ item ∈ s.drain.handed, item.passesForAbsent = false) :
    s.collect = s.drain.closed := by
  have step := collectStep s
  generalize s.collect = collected at step ⊢
  cases step with
  | @lost items item t u hands _ hscan habsent =>
    rw [hands.drain_eq, drain_of_token hscan] at h
    have hpresent := h item (List.mem_append_right items List.mem_cons_self)
    rw [habsent] at hpresent
    cases hpresent
  | ended hands _ hscan =>
    rw [hands.drain_eq, drain_of_none hscan, List.append_nil, Progress.closed]
  | stopped hands _ hscan hends =>
    rw [hands.drain_eq, drain_of_error hscan, List.append_nil, Progress.closed]
    simp only [hends, if_true]
  | failed hands _ hscan hends =>
    rw [hands.drain_eq, drain_of_error hscan, List.append_nil, Progress.closed]
    simp only [hends, Bool.false_eq_true, if_false]

theorem present_of_forall {p : Progress ω τ}
    (h : ∀ item ∈ p.handed, item.passesForAbsent = false) : p.present = p := by
  have hkept : p.handed.filter (fun item => !item.passesForAbsent) = p.handed :=
    List.filter_eq_self.mpr fun item hmem => by rw [h item hmem, Bool.not_false]
  rw [Progress.present, hkept]

end Iterations

-- ---------------------------------------------------------------------------
-- Scanning while there is a token
-- ---------------------------------------------------------------------------

/-- A token looked at is the one that a scan would have handed out, and leaves the same behind. -/
theorem scan_push {e : Entry τ} (hq : s.queue = []) :
    (s.push e).scan = (.ok (some e.item), s.pass e) := by
  have hpushed : (s.push e).queue = [e] := by rw [push, hq, List.nil_append]
  rw [(ScanStep.served hpushed).scan_eq]
  obtain ⟨_, _, _, _, queue, _, _, _, _, _, _, _, _⟩ := s
  obtain rfl : queue = [] := hq
  rfl

/-- Productions, one after the other and each queued at once, make these entries and leave this
state. -/
inductive Queues : Lexer ω τ → List (Entry τ) → Lexer ω τ → Prop
  | nil {s : Lexer ω τ} : Queues s [] s
  | cons {s t u : Lexer ω τ} {e : Entry τ} {es : List (Entry τ)} :
      s.produce = (.ok (some e), t) → Queues (t.push e) es u → Queues s (e :: es) u

theorem Sustained.queues {I : List (Item τ) → Lexer ω τ → Prop} {es : List (Entry τ)}
    (hI : Sustained I) (h : I handed s) (hqueues : Queues s es t) : I handed t := by
  induction hqueues with
  | nil => exact h
  | cons hp _ ih => exact ih (hI.push h hp)

namespace Queues

variable {es : List (Entry τ)}

theorem queue_eq (h : Queues s es t) : t.queue = s.queue ++ es := by
  induction h with
  | nil => rw [List.append_nil]
  | cons hp _ ih =>
    rw [ih, push, queue_produce hp, List.append_assoc]
    rfl

theorem kindred (h : Queues s es t) (hsound : s.verified.Sound) : Kindred s t :=
  @Sustained.queues _ _ s t [] _ es (Kindred.sustained s) ⟨rfl, rfl, rfl, hsound⟩ h

theorem length_queue (h : Queues s es t) : t.queue.length = s.queue.length + es.length := by
  rw [h.queue_eq, List.length_append]

end Queues

/-- All that filling the queue can come to: it makes as many tokens as were missing, or ends with
the production that makes none. -/
inductive FillStep (s : Lexer ω τ) (missing : Nat) : Outcome ω τ Unit → Prop
  | filled {es : List (Entry τ)} {t : Lexer ω τ} : Queues s es t → es.length = missing →
      FillStep s missing (.ok (), t)
  | ended {es : List (Entry τ)} {t u : Lexer ω τ} : Queues s es t → es.length < missing →
      t.produce = (.ok none, u) → FillStep s missing (.ok (), u)
  | failed {es : List (Entry τ)} {t u : Lexer ω τ} {f : Failure} : Queues s es t →
      es.length < missing → t.produce = (.error f, u) → FillStep s missing (.error f, u)

theorem FillStep.cons {e : Entry τ} {missing : Nat} {outcome : Outcome ω τ Unit}
    (hp : s.produce = (.ok (some e), t)) (h : FillStep (t.push e) missing outcome) :
    FillStep s (missing + 1) outcome := by
  cases h with
  | filled hqueues hlength => exact .filled (.cons hp hqueues) (by simp [hlength])
  | ended hqueues hlt hlast => exact .ended (.cons hp hqueues) (by simpa using hlt) hlast
  | failed hqueues hlt hlast => exact .failed (.cons hp hqueues) (by simpa using hlt) hlast

theorem fillStep (s : Lexer ω τ) (missing : Nat) : FillStep s missing (s.fill missing) := by
  induction missing generalizing s with
  | zero => exact .filled .nil rfl
  | succ missing ih =>
    unfold fill
    rcases hp : s.produce with ⟨⟨f⟩ | ⟨_ | e⟩, t⟩
    · exact .failed .nil (Nat.succ_pos _) hp
    · exact .ended .nil (Nat.succ_pos _) hp
    · exact .cons hp (ih (t.push e))

-- ---------------------------------------------------------------------------
-- Looking ahead
-- ---------------------------------------------------------------------------

/-- All that looking ahead can come to: as many tokens are queued in the end, or a production that
makes none ends it. -/
inductive LookStep (s : Lexer ω τ) (n : Nat) : Outcome ω τ (Option (Item τ)) → Prop
  | queued {es : List (Entry τ)} {t : Lexer ω τ} : Queues s es t → n ≤ t.queue.length →
      LookStep s n (.ok (if n = 0 then none else (t.queue[n - 1]?).map (·.item)), t)
  | ended {es : List (Entry τ)} {t u : Lexer ω τ} : Queues s es t → t.queue.length < n →
      t.produce = (.ok none, u) → LookStep s n (.ok none, u)
  | failed {es : List (Entry τ)} {t u : Lexer ω τ} {f : Failure} : Queues s es t →
      t.queue.length < n → t.produce = (.error f, u) → LookStep s n (.error f, u)

theorem lookStep (s : Lexer ω τ) (n : Nat) : LookStep s n (s.lookahead n) := by
  have step := fillStep s (n - s.queue.length)
  unfold lookahead
  generalize s.fill (n - s.queue.length) = outcome at step ⊢
  cases step with
  | filled hqueues hlength =>
    have hqueue := hqueues.length_queue
    exact .queued hqueues (by omega)
  | @ended es t u hqueues hlt hp =>
    have hqueue := hqueues.length_queue
    have hnone : u.queue[n - 1]? = none := by
      rw [List.getElem?_eq_none_iff, queue_produce hp]
      omega
    simp only [hnone, Option.map_none, ite_self]
    exact .ended hqueues (by omega) hp
  | failed hqueues hlt hp =>
    have hqueue := hqueues.length_queue
    exact .failed hqueues (by omega) hp

theorem lookahead_of_queued {n : Nat} (h : n ≤ s.queue.length) :
    s.lookahead n = (.ok (if n = 0 then none else (s.queue[n - 1]?).map (·.item)), s) := by
  simp only [lookahead, Nat.sub_eq_zero_of_le h, fill]

theorem lookahead_of_idle {ending : Except Failure Unit} {n : Nat}
    (hp : s.produce = (ending.map fun _ => none, t)) (hlt : s.queue.length < n) :
    s.lookahead n = (ending.map fun _ => none, t) := by
  have hmissing : n - s.queue.length = n - (s.queue.length + 1) + 1 := by omega
  have hnone : t.queue[n - 1]? = none := by
    rw [List.getElem?_eq_none_iff, queue_produce hp]
    omega
  cases ending with
  | error f => simp only [lookahead, hmissing, fill, hp, Except.map]
  | ok _ => simp only [lookahead, hmissing, fill, hp, Except.map, hnone, Option.map_none, ite_self]

/-- A token that is looked ahead to might be queued first. -/
theorem lookahead_of_made {e : Entry τ} {n : Nat} (hp : s.produce = (.ok (some e), t))
    (hlt : s.queue.length < n) : s.lookahead n = (t.push e).lookahead n := by
  have hmissing : n - s.queue.length = n - (t.push e).queue.length + 1 := by
    rw [push, queue_produce hp, List.length_append, List.length_singleton]
    omega
  simp only [lookahead, hmissing, fill, hp]

theorem Queues.lookahead_eq {es : List (Entry τ)} (h : Queues s es t) {n : Nat}
    (hlt : t.queue.length < n) : s.lookahead n = t.lookahead n := by
  induction h with
  | nil => rfl
  | cons hp hqueues ih =>
    have hlength := (Queues.cons hp hqueues).length_queue
    rw [lookahead_of_made hp (by omega), ih hlt]

theorem lookahead_error_iff {f : Failure} {n : Nat} :
    (s.lookahead n).1 = .error f ↔
      ∃ t, (∃ es, Queues s es t ∧ t.queue.length < n) ∧ t.produce.1 = .error f := by
  constructor
  · intro h
    have step := lookStep s n
    generalize s.lookahead n = outcome at step h
    cases step with
    | queued | ended => cases h
    | failed hqueues hlt hp =>
      obtain rfl := Except.error.inj h
      exact ⟨_, ⟨_, hqueues, hlt⟩, congrArg Prod.fst hp⟩
  · rintro ⟨t, ⟨es, hqueues, hlt⟩, h⟩
    have hp : t.produce = ((.error f : Except Failure Unit).map fun _ => none, t.produce.2) :=
      Prod.ext h rfl
    rw [hqueues.lookahead_eq hlt, lookahead_of_idle hp hlt]
    rfl

end PullLexer.Lexer
