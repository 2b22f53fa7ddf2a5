import PullLexer.Lexer.Scan
import PullLexer.Proofs.Production

/-!
# Scanning move by move

A scan serves the front of the queue or passes a token just made (`ScanStep`),
and looking at the next token queues one at most (`PeekStep`). What these moves
keep is kept by every loop made of them (`Sustained`). A scan that hands out a
token leaves fewer scans to come, so that the bounds of the loops are never
reached (`scanUpTo_eq_drain`, `scanGuarded_eq_drainWhile`). The loops are set
beside scanning alone, up to the first scan that hands out no token (`drain`).
-/

namespace PullLexer.Lexer

variable {ω τ : Type} {s s' : Lexer ω τ} {e : Entry τ}

def Outcome.handed : Outcome ω τ (Option (Item τ)) → List (Item τ)
  | (.ok (some item), _) => [item]
  | _ => []

-- ---------------------------------------------------------------------------
-- Single moves
-- ---------------------------------------------------------------------------

inductive ScanStep (s : Lexer ω τ) : Outcome ω τ (Option (Item τ)) → Prop
  | served {e : Entry τ} {rest : List (Entry τ)} : s.queue = e :: rest →
      ScanStep s (.ok (some e.item), ({ s with queue := rest, advanced := none }).pass e)
  | made {e : Entry τ} {s' : Lexer ω τ} : s.queue = [] → s.produce = (.ok (some e), s') →
      ScanStep s (.ok (some e.item), s'.pass e)
  | ended {s' : Lexer ω τ} : s.queue = [] → s.produce = (.ok none, s') →
      ScanStep s (.ok none, s')
  | failed {f : Failure} {s' : Lexer ω τ} : s.queue = [] → s.produce = (.error f, s') →
      ScanStep s (.error f, s')

theorem nextEntry_of_queue_cons {rest : List (Entry τ)} (hq : s.queue = e :: rest) :
    s.nextEntry = (.ok (some e), { s with queue := rest, advanced := none }) := by
  simp [nextEntry, pop, hq]

theorem nextEntry_of_queue_nil (hq : s.queue = []) : s.nextEntry = s.produce := by
  simp [nextEntry, pop, hq]

theorem ScanStep.scan_eq {outcome : Outcome ω τ (Option (Item τ))} (h : ScanStep s outcome) :
    s.scan = outcome := by
  cases h with
  | served hq => simp only [scan, nextEntry_of_queue_cons hq]
  | made hq hp => simp only [scan, nextEntry_of_queue_nil hq, hp]
  | ended hq hp => simp only [scan, nextEntry_of_queue_nil hq, hp]
  | failed hq hp => simp only [scan, nextEntry_of_queue_nil hq, hp]

theorem scanStep (s : Lexer ω τ) : ScanStep s s.scan := by
  have step : ∃ outcome, ScanStep s outcome := by
    cases hq : s.queue with
    | cons e rest => exact ⟨_, .served hq⟩
    | nil =>
      rcases hp : s.produce with ⟨⟨f⟩ | ⟨_ | e⟩, s'⟩
      · exact ⟨_, .failed hq hp⟩
      · exact ⟨_, .ended hq hp⟩
      · exact ⟨_, .made hq hp⟩
  obtain ⟨outcome, step⟩ := step
  exact step.scan_eq ▸ step

theorem produce_of_scan {ending : Except Failure Unit}
    (h : s.scan = (ending.map fun _ => none, s')) :
    s.queue = [] ∧ s.produce = (ending.map fun _ => none, s') := by
  have step := h ▸ scanStep s
  cases ending with
  | error f =>
    cases step with
    | failed hq hp => exact ⟨hq, hp⟩
  | ok _ =>
    cases step with
    | ended hq hp => exact ⟨hq, hp⟩

inductive PeekStep (s : Lexer ω τ) : Outcome ω τ (Option (Item τ)) → Prop
  | waiting {e : Entry τ} {rest : List (Entry τ)} : s.queue = e :: rest →
      PeekStep s (.ok (some e.item), s)
  | made {e : Entry τ} {s' : Lexer ω τ} : s.queue = [] → s.produce = (.ok (some e), s') →
      PeekStep s (.ok (some e.item), s'.push e)
  | ended {s' : Lexer ω τ} : s.queue = [] → s.produce = (.ok none, s') →
      PeekStep s (.ok none, s')
  | failed {f : Failure} {s' : Lexer ω τ} : s.queue = [] → s.produce = (.error f, s') →
      PeekStep s (.error f, s')

theorem queue_produce {made : Except Failure (Option (Entry τ))} (h : s.produce = (made, s')) :
    s'.queue = s.queue := by
  obtain ⟨_, _, _, _, rfl, -⟩ := produce_frame h
  rfl

theorem PeekStep.peek_eq {outcome : Outcome ω τ (Option (Item τ))} (h : PeekStep s outcome) :
    s.peek = outcome := by
  cases h with
  | waiting hq => simp [peek, lookahead, hq, fill]
  | made hq hp => simp [peek, lookahead, hq, fill, hp, push, queue_produce hp]
  | ended hq hp => simp [peek, lookahead, hq, fill, hp, queue_produce hp]
  | failed hq hp => simp [peek, lookahead, hq, fill, hp]

theorem peekStep (s : Lexer ω τ) : PeekStep s s.peek := by
  have step : ∃ outcome, PeekStep s outcome := by
    cases hq : s.queue with
    | cons e rest => exact ⟨_, .waiting hq⟩
    | nil =>
      rcases hp : s.produce with ⟨⟨f⟩ | ⟨_ | e⟩, s'⟩
      · exact ⟨_, .failed hq hp⟩
      · exact ⟨_, .ended hq hp⟩
      · exact ⟨_, .made hq hp⟩
  obtain ⟨outcome, step⟩ := step
  exact step.peek_eq ▸ step

theorem fst_peek (s : Lexer ω τ) : s.peek.1 = s.scan.1 := by
  have step := peekStep s
  generalize s.peek = outcome at step ⊢
  cases step with
  | waiting hq => rw [(ScanStep.served hq).scan_eq]
  | made hq hp => rw [(ScanStep.made hq hp).scan_eq]
  | ended hq hp => rw [(ScanStep.ended hq hp).scan_eq]
  | failed hq hp => rw [(ScanStep.failed hq hp).scan_eq]

-- ---------------------------------------------------------------------------
-- What an iteration draws
-- ---------------------------------------------------------------------------

inductive DrawStep [TokenLike τ] (s : Lexer ω τ) : Draw τ × Lexer ω τ → Prop
  | next {item : Item τ} {t : Lexer ω τ} : s.scan = (.ok (some item), t) →
      item.passesForAbsent = false → DrawStep s (.next item, t)
  | lost {item : Item τ} {t : Lexer ω τ} : s.scan = (.ok (some item), t) →
      item.passesForAbsent = true → DrawStep s (.ended (some item), t)
  | ended {t : Lexer ω τ} : s.scan = (.ok none, t) → DrawStep s (.ended none, t)
  | stopped {f : Failure} {t : Lexer ω τ} : s.scan = (.error f, t) → f.endsIteration = true →
      DrawStep s (.ended none, t)
  | failed {f : Failure} {t : Lexer ω τ} : s.scan = (.error f, t) → f.endsIteration = false →
      DrawStep s (.failed f, t)

theorem drawStep [TokenLike τ] (s : Lexer ω τ) : DrawStep s s.draw := by
  unfold draw
  rcases hscan : s.scan with ⟨⟨f⟩ | ⟨_ | item⟩, t⟩
  · cases hends : f.endsIteration
    · simp only [hends]
      exact .failed hscan hends
    · simp only [hends]
      exact .stopped hscan hends
  · exact .ended hscan
  · cases habsent : item.passesForAbsent
    · simp only [habsent]
      exact .next hscan habsent
    · simp only [habsent]
      exact .lost hscan habsent

theorem snd_draw [TokenLike τ] (s : Lexer ω τ) : s.draw.2 = s.scan.2 := by
  unfold draw
  split <;> rename_i hscan <;> rw [hscan]

theorem snd_iterate [TokenLike τ] (s : Lexer ω τ) (it : Iteration) :
    (s.iterate it).1.2 = if it.ended then s else s.scan.2 := by
  rw [← snd_draw]
  unfold iterate
  split
  · rfl
  · split <;> rename_i hdraw <;> rw [hdraw]

/-- An iteration that is not over hands out what a scan does, unless that passes for absent. -/
theorem handed_iterate [TokenLike τ] {it : Iteration} (hended : ¬ it.ended) :
    (s.iterate it).1.handed = s.scan.handed.filter fun item => !item.passesForAbsent := by
  have step := drawStep s
  rw [iterate, if_neg hended]
  generalize s.draw = drawn at step ⊢
  cases step with
  | next hscan hpresent =>
    rw [hscan]
    simp [Outcome.handed, hpresent]
  | lost hscan habsent =>
    rw [hscan]
    simp [Outcome.handed, habsent]
  | ended hscan | stopped hscan | failed hscan =>
    rw [hscan]
    rfl

theorem answer_eq (p : Progress ω τ) : p.answer = (p.ending.map fun _ => p.handed, p.state) := by
  unfold Progress.answer
  split <;> rename_i hending <;> rw [hending] <;> rfl

theorem snd_answer (p : Progress ω τ) : p.answer.2 = p.state := by rw [answer_eq]

theorem ending_of_answer {p : Progress ω τ} {items : List (Item τ)}
    (h : p.answer = (.ok items, s)) : p.ending = .ok () ∧ p.handed = items ∧ p.state = s := by
  unfold Progress.answer at h
  split at h
  · rename_i hending
    cases h
    exact ⟨hending, rfl, rfl⟩
  · cases h

theorem retract_of_length_le {kept : Nat} (h : s.queue.length ≤ kept) : s.retract kept = s := by
  simp only [retract, List.take_of_length_le h]

theorem retract_push (s : Lexer ω τ) (e : Entry τ) (memory : ω) :
    ({ s.push e with memory }).retract s.queue.length = { s with memory, advanced := none } := by
  simp only [retract, push, List.take_left]

-- ---------------------------------------------------------------------------
-- What every loop keeps
-- ---------------------------------------------------------------------------

/-- Scans until there is no token, at most `bound` times. -/
def scanUpTo : (bound : Nat) → Lexer ω τ → Progress ω τ
  | 0, s => ⟨[], .error .unfinished, s⟩
  | bound + 1, s =>
    match s.scan with
    | (.ok (some item), s) => (scanUpTo bound s).after item
    | (.ok none, s) => ⟨[], .ok (), s⟩
    | (.error f, s) => ⟨[], .error f, s⟩

/-- Scanning alone, up to the first scan that hands out no token. -/
def drain (s : Lexer ω τ) : Progress ω τ := s.scanUpTo (s.scansLeft + 1)

/-- A guard that may read the lexer and remember something, but changes nothing else. -/
def Guard.LeavesLexer (accepts : Guard ω τ) : Prop :=
  ∀ next s, ∃ memory, (accepts next s).2 = { s with memory }

theorem Guard.leavesLexer_quiet (decision : Decision ω τ) :
    (Guard.quiet decision).LeavesLexer := fun _ _ => ⟨_, rfl⟩

/-- A property of the tokens handed out so far and of the state that each move keeps which scanning
and looking ahead are made of. -/
structure Sustained (I : List (Item τ) → Lexer ω τ → Prop) : Prop where
  remember {handed s} (memory : ω) : I handed s → I handed { s with memory }
  forget {handed s} : I handed s → I handed { s with advanced := none }
  produce {handed s made s'} : I handed s → s.produce = (made, s') → I handed s'
  push {handed s e s'} : I handed s → s.produce = (.ok (some e), s') → I handed (s'.push e)
  pass {handed s e s'} : I handed s → s.queue = [] → s.produce = (.ok (some e), s') →
    I (handed ++ [e.item]) (s'.pass e)
  serve {handed s e rest} : I handed s → s.queue = e :: rest →
    I (handed ++ [e.item]) (({ s with queue := rest, advanced := none }).pass e)

namespace Sustained

variable {I : List (Item τ) → Lexer ω τ → Prop} {handed : List (Item τ)}

theorem scan (hI : Sustained I) (h : I handed s) :
    I (handed ++ Outcome.handed s.scan) s.scan.2 := by
  rcases hscan : s.scan with ⟨answer, s'⟩
  have step := hscan ▸ scanStep s
  cases step with
  | served hq => exact hI.serve h hq
  | made hq hp => exact hI.pass h hq hp
  | ended hq hp => simpa [Outcome.handed] using hI.produce h hp
  | failed hq hp => simpa [Outcome.handed] using hI.produce h hp

theorem peek (hI : Sustained I) (h : I handed s) : I handed s.peek.2 := by
  rcases hpeek : s.peek with ⟨answer, s'⟩
  have step := hpeek ▸ peekStep s
  cases step with
  | waiting => exact h
  | made hq hp => exact hI.push h hp
  | ended hq hp => exact hI.produce h hp
  | failed hq hp => exact hI.produce h hp

theorem fill (hI : Sustained I) (h : I handed s) (missing : Nat) :
    I handed (s.fill missing).2 := by
  induction missing generalizing s with
  | zero => exact h
  | succ missing ih =>
    unfold Lexer.fill
    rcases hp : s.produce with ⟨⟨f⟩ | ⟨_ | e⟩, s'⟩
    · exact hI.produce h hp
    · exact hI.produce h hp
    · exact ih (hI.push h hp)

theorem lookahead (hI : Sustained I) (h : I handed s) (n : Nat) :
    I handed (s.lookahead n).2 := by
  have hfill := hI.fill h (n - s.queue.length)
  unfold Lexer.lookahead
  split <;> rename_i hf <;> rwa [hf] at hfill

theorem scanUpTo (hI : Sustained I) (h : I handed s) (bound : Nat) :
    I (handed ++ (s.scanUpTo bound).handed) (s.scanUpTo bound).state := by
  induction bound generalizing s handed with
  | zero => simpa [Lexer.scanUpTo] using h
  | succ bound ih =>
    have hscan := hI.scan h
    unfold Lexer.scanUpTo
    split <;> rename_i heq <;> rw [heq] at hscan
    · simpa [Progress.after, Outcome.handed] using ih hscan
    · simpa [Outcome.handed] using hscan
    · simpa [Outcome.handed] using hscan

theorem collectUpTo [TokenLike τ] (hI : Sustained I) (h : I handed s) (bound : Nat) :
    I (handed ++ (s.collectUpTo bound).handed) (s.collectUpTo bound).state := by
  induction bound generalizing s handed with
  | zero => simpa [Lexer.collectUpTo] using h
  | succ bound ih =>
    have hscan := hI.scan h
    have step := drawStep s
    unfold Lexer.collectUpTo
    generalize s.draw = drawn at step ⊢
    cases step with
    | next heq =>
      rw [heq] at hscan
      simpa [Progress.after, Outcome.handed] using ih hscan
    | lost heq => simpa [heq, Outcome.handed] using hscan
    | ended heq => simpa [heq, Outcome.handed] using hscan
    | stopped heq => simpa [heq, Outcome.handed] using hscan
    | failed heq => simpa [heq, Outcome.handed] using hscan

theorem retract (hI : Sustained I) (h : I handed s) {answer : Except Failure (Option (Item τ))}
    (hpeek : s.peek = (answer, s')) (memory : ω) :
    I handed (({ s' with memory }).retract s.queue.length) := by
  have step := hpeek ▸ peekStep s
  cases step with
  | waiting hq =>
    rw [retract_of_length_le (s := { s with memory }) (Nat.le_refl _)]
    exact hI.remember memory h
  | made hq hp =>
    rw [← queue_produce hp, retract_push]
    exact hI.forget (hI.remember memory (hI.produce h hp))
  | ended hq hp =>
    have hle : s'.queue.length ≤ s.queue.length := Nat.le_of_eq (by rw [queue_produce hp])
    rw [retract_of_length_le (s := { s' with memory }) hle]
    exact hI.remember memory (hI.produce h hp)
  | failed hq hp =>
    have hle : s'.queue.length ≤ s.queue.length := Nat.le_of_eq (by rw [queue_produce hp])
    rw [retract_of_length_le (s := { s' with memory }) hle]
    exact hI.remember memory (hI.produce h hp)

theorem scanGuarded (hI : Sustained I) {accepts : Guard ω τ} (hg : accepts.LeavesLexer)
    (h : I handed s) (bound : Nat) :
    I (handed ++ (s.scanGuarded accepts bound).handed) (s.scanGuarded accepts bound).state := by
  induction bound generalizing s handed with
  | zero => simpa [Lexer.scanGuarded] using h
  | succ bound ih =>
    unfold Lexer.scanGuarded
    have hlooked := hI.peek h
    rcases hpeek : s.peek with ⟨⟨f⟩ | ⟨next⟩, t⟩ <;> rw [hpeek] at hlooked
    · simpa using hlooked
    · dsimp only
      obtain ⟨memory, hmemory⟩ := hg next t
      rcases haccepts : accepts next t with ⟨⟨f⟩ | ⟨_ | _⟩, u⟩ <;>
        obtain rfl : u = { t with memory } := by rw [← hmemory, haccepts]
      · simpa using hI.remember memory hlooked
      · simpa using hI.retract h hpeek memory
      · dsimp only
        have hscan := hI.scan (hI.remember memory hlooked)
        rcases hs : ({ t with memory }).scan with ⟨⟨f⟩ | ⟨_ | item⟩, v⟩ <;> rw [hs] at hscan
        · simpa [hs, Outcome.handed] using hscan
        · simpa [hs, Outcome.handed] using hscan
        · simpa [hs, Progress.after, Outcome.handed] using ih hscan

theorem drain (hI : Sustained I) (h : I handed s) :
    I (handed ++ s.drain.handed) s.drain.state := hI.scanUpTo h _

theorem collect [TokenLike τ] (hI : Sustained I) (h : I handed s) :
    I (handed ++ s.collect.handed) s.collect.state := hI.collectUpTo h _

theorem drainWhile (hI : Sustained I) (h : I handed s) (decision : Decision ω τ) :
    I (handed ++ (s.drainWhile decision).handed) (s.drainWhile decision).state :=
  hI.scanGuarded (Guard.leavesLexer_quiet decision) h _

end Sustained

-- ---------------------------------------------------------------------------
-- Draining without a bound
-- ---------------------------------------------------------------------------

theorem remaining_pass (s : Lexer ω τ) (e : Entry τ) :
    (s.pass e).remaining = s.remaining.drop (s.reach e) := by
  unfold pass
  by_cases hlen : s.reach e = e.lexeme.text.length
  · simp [hlen, cut]
  · simp [hlen, cut_none]

theorem queue_pass (s : Lexer ω τ) (e : Entry τ) : (s.pass e).queue = s.queue := rfl

theorem scansLeft_pass (s : Lexer ω τ) (e : Entry τ) :
    (s.pass e).scansLeft = s.queue.length + (s.remaining.length - s.reach e) := by
  rw [scansLeft, queue_pass, remaining_pass, List.length_drop]

theorem scansLeft_produce {made : Except Failure (Option (Entry τ))}
    (h : s.produce = (made, s')) : s'.scansLeft = s.scansLeft := by
  obtain ⟨_, _, _, _, rfl, -⟩ := produce_frame h
  rfl

theorem reach_of_produce (hq : s.queue = []) (h : s.produce = (.ok (some e), s')) :
    s'.reach e = e.lexeme.text.length ∧ 0 < e.lexeme.text.length ∧
      e.lexeme.text.length ≤ s'.remaining.length := by
  obtain ⟨hindex, htext, hne⟩ := lexeme_produce h
  rw [ahead_of_queue_nil hq] at htext
  obtain ⟨_, _, _, _, rfl, -⟩ := produce_frame h
  simp only [head, headOffset_of_queue_nil hq, Int.add_zero] at hindex
  refine ⟨?_, List.length_pos_iff.mpr hne, htext.length_le⟩
  simp only [reach, Lexeme.stop, hindex]
  omega

/-- A scan takes a token off the queue, or else characters off the remaining text. -/
theorem scansLeft_scan {item : Item τ} (h : s.scan = (.ok (some item), s')) :
    s'.scansLeft < s.scansLeft := by
  have step := h ▸ scanStep s
  cases step with
  | served hq =>
    rw [scansLeft_pass, scansLeft, hq, List.length_cons]
    dsimp only
    omega
  | made hq hp =>
    obtain ⟨hreach, hpos, hle⟩ := reach_of_produce hq hp
    rw [← scansLeft_produce hp, scansLeft_pass, scansLeft, hreach]
    omega

/-- Any bound above the number of scans left will do. -/
theorem scanUpTo_eq_drain {bound : Nat} (h : s.scansLeft < bound) :
    s.scanUpTo bound = s.drain := by
  have agree : ∀ (m n : Nat) (s : Lexer ω τ), s.scansLeft < m → s.scansLeft < n →
      s.scanUpTo m = s.scanUpTo n := by
    intro m
    induction m with
    | zero => exact fun n s hm => absurd hm (Nat.not_lt_zero _)
    | succ m ih =>
      intro n s hm hn
      obtain ⟨n, rfl⟩ : ∃ k, n = k + 1 := ⟨n - 1, by omega⟩
      unfold scanUpTo
      rcases hscan : s.scan with ⟨⟨f⟩ | ⟨_ | item⟩, t⟩
      · rfl
      · rfl
      · have hlt := scansLeft_scan hscan
        simp only [ih n t (by omega) (by omega)]
  exact agree _ _ s h (Nat.lt_succ_self _)

theorem scansLeft_scan_of_peek {next : Option (Item τ)} {item : Item τ} {t u : Lexer ω τ}
    (memory : ω) (hpeek : s.peek = (.ok next, t))
    (hscan : ({ t with memory } : Lexer ω τ).scan = (.ok (some item), u)) :
    u.scansLeft < s.scansLeft := by
  have step := hpeek ▸ peekStep s
  have hfewer := scansLeft_scan hscan
  cases step with
  | waiting hq => exact hfewer
  | ended hq hp =>
    obtain ⟨_, _, _, _, rfl, -⟩ := produce_frame hp
    exact hfewer
  | @made e t hq hp =>
    -- the token queued by the look counts as one scan more, which the text it covers makes up for
    obtain ⟨hreach, hpos, hle⟩ := reach_of_produce hq hp
    have hpushed : ({ t.push e with memory } : Lexer ω τ).queue = [e] := by
      simp [push, queue_produce hp, hq]
    have served := hscan ▸ scanStep ({ t.push e with memory } : Lexer ω τ)
    cases served with
    | served hq' =>
      obtain ⟨rfl, rfl⟩ := List.cons.inj (hpushed.symm.trans hq')
      rw [← scansLeft_produce hp, scansLeft_pass, scansLeft]
      show 0 + (t.remaining.length - t.reach e) < t.queue.length + t.remaining.length
      omega
    | made hq' => exact absurd (hpushed.symm.trans hq') (List.cons_ne_nil _ _)

/-- A decision that leaves the lexer alone never exhausts a bound above the number of scans left. -/
theorem scanGuarded_eq_drainWhile (decision : Decision ω τ) {bound : Nat}
    (h : s.scansLeft < bound) : s.scanGuarded (.quiet decision) bound = s.drainWhile decision := by
  have agree : ∀ (m n : Nat) (s : Lexer ω τ), s.scansLeft < m → s.scansLeft < n →
      s.scanGuarded (.quiet decision) m = s.scanGuarded (.quiet decision) n := by
    intro m
    induction m with
    | zero => exact fun n s hm => absurd hm (Nat.not_lt_zero _)
    | succ m ih =>
      intro n s hm hn
      obtain ⟨n, rfl⟩ : ∃ k, n = k + 1 := ⟨n - 1, by omega⟩
      unfold scanGuarded
      rcases hpeek : s.peek with ⟨⟨f⟩ | ⟨next⟩, t⟩
      · rfl
      · rcases hdecided : decision next t.memory with ⟨⟨f⟩ | ⟨_ | _⟩, memory⟩
        · simp only [Guard.quiet, hdecided]
        · simp only [Guard.quiet, hdecided]
        · simp only [Guard.quiet, hdecided]
          rcases hscan : ({ t with memory } : Lexer ω τ).scan with ⟨⟨f⟩ | ⟨_ | item⟩, u⟩
          · rfl
          · rfl
          · have hlt := scansLeft_scan_of_peek memory hpeek hscan
            simp only [ih n u (by omega) (by omega)]
  exact agree _ _ s h (Nat.lt_succ_self _)

theorem drain_of_token {item : Item τ} (h : s.scan = (.ok (some item), s')) :
    s.drain = s'.drain.after item := by
  unfold drain
  rw [scanUpTo, h]
  dsimp only
  rw [scanUpTo_eq_drain (scansLeft_scan h)]
  rfl

theorem drain_of_none (h : s.scan = (.ok none, s')) : s.drain = ⟨[], .ok (), s'⟩ := by
  rw [drain, scanUpTo, h]

theorem drain_of_error {f : Failure} (h : s.scan = (.error f, s')) :
    s.drain = ⟨[], .error f, s'⟩ := by
  rw [drain, scanUpTo, h]

theorem queue_prefix_drain (s : Lexer ω τ) : s.queue.map (·.item) <+: s.drain.handed := by
  induction hq : s.queue generalizing s with
  | nil => exact List.nil_prefix
  | cons e rest ih =>
    have step := scanStep s
    rcases hscan : s.scan with ⟨answer, t⟩
    rw [hscan] at step
    cases step with
    | @served e' rest' hq' =>
      obtain ⟨rfl, rfl⟩ := List.cons.inj (hq ▸ hq')
      rw [drain_of_token hscan]
      exact (List.prefix_cons_inj e.item).mpr (ih _ (queue_pass _ _))
    | made hq' => simp [hq] at hq'
    | ended hq' => simp [hq] at hq'
    | failed hq' => simp [hq] at hq'

end PullLexer.Lexer
