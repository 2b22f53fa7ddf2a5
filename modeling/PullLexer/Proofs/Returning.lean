import PullLexer.Proofs.Alignment
import PullLexer.Proofs.Termination

/-!
# Tokens that are queued again

Client code may queue again what the lexer handed out, under the lexeme with
which it was handed out. What operations hand out in this way is followed along
a run (`offered`), so that permission may depend on it (`AlongOffered`).

Whatever is made in such a run lies within the input (`Founded`), and it is true
of the input if the head is not before the cursor. A head before the cursor
makes tokens of the end of the remaining text and puts them elsewhere. Where
nothing is queued that ends before the head, the head is foremost (`Foremost`).
-/

namespace PullLexer

-- whether a token was handed out under a lexeme is decided for the runs below
deriving instance DecidableEq for Item, Entry

variable {ω τ : Type}

-- ---------------------------------------------------------------------------
-- What operations hand out
-- ---------------------------------------------------------------------------

namespace Lexer

variable {s : Lexer ω τ} {e : Entry τ}

def Outcome.entries : Outcome ω τ (Option (Entry τ)) → List (Entry τ)
  | (.ok (some e), _) => [e]
  | _ => []

theorem Outcome.eq_of_mem_entries {outcome : Outcome ω τ (Option (Entry τ))}
    (h : e ∈ outcome.entries) : ∃ t, outcome = (.ok (some e), t) := by
  obtain ⟨⟨f⟩ | ⟨_ | e'⟩, t⟩ := outcome
  · cases h
  · cases h
  · exact ⟨t, by rw [List.mem_singleton.mp h]⟩

def looked (s : Lexer ω τ) (n : Nat) : List (Entry τ) :=
  match s.lookahead n with
  | (.ok (some _), t) => t.queue[n - 1]?.toList
  | _ => []

theorem mem_queue_of_looked {n : Nat} (h : e ∈ s.looked n) : e ∈ (s.lookahead n).2.queue := by
  unfold looked at h
  split at h <;> rename_i hlook
  · rw [hlook]
    exact List.mem_of_getElem? (Option.mem_toList.mp h)
  · cases h

theorem items_looked (s : Lexer ω τ) (n : Nat) :
    (s.looked n).map (·.item) = Outcome.handed (s.lookahead n) := by
  unfold looked
  rcases hlook : s.lookahead n with ⟨⟨f⟩ | ⟨_ | item⟩, t⟩
  · rfl
  · rfl
  · have hanswer : (t.queue[n - 1]?).map (·.item) = some item := by
      unfold lookahead at hlook
      split at hlook
      · obtain ⟨hnext, rfl⟩ := Prod.mk.inj hlook
        have hsome := Except.ok.inj hnext
        split at hsome
        · cases hsome
        · exact hsome
      · cases hlook
    obtain ⟨e, he, rfl⟩ := Option.map_eq_some_iff.mp hanswer
    simp only [he]
    rfl

theorem items_nextEntry (s : Lexer ω τ) :
    s.nextEntry.entries.map (·.item) = Outcome.handed s.scan := by
  unfold scan
  rcases s.nextEntry with ⟨⟨f⟩ | ⟨_ | e⟩, t⟩ <;> rfl

theorem mem_nextEntry (h : e ∈ s.nextEntry.entries) :
    e ∈ s.queue ∨ ∃ t, s.produce = (.ok (some e), t) := by
  cases hq : s.queue with
  | nil =>
    rw [nextEntry_of_queue_nil hq] at h
    exact .inr (Outcome.eq_of_mem_entries h)
  | cons e' rest =>
    rw [nextEntry_of_queue_cons hq] at h
    obtain rfl := List.mem_singleton.mp h
    exact .inl List.mem_cons_self

end Lexer

namespace Operation

open Lexer

/-- The token that an operation hands out one at a time, with its lexeme. -/
def offered [TokenLike τ] (s : Lexer ω τ) : Operation ω τ → List (Entry τ)
  | .scan | .nextToken => s.nextEntry.entries
  | .iterate it =>
    if it.ended then [] else s.nextEntry.entries.filter fun e => !e.item.passesForAbsent
  | .advance => s.produce.entries
  | .dequeue => s.queue.head?.toList
  | .peek => s.looked 1
  | .lookahead n =>
    match n.count with
    | .ok n => s.looked n
    | .error _ => []
  | _ => []

def tokenOf : Except Failure (Answer τ) → List (Item τ)
  | .ok (.token next) => next.toList
  | _ => []

theorem tokenOf_map_token (outcome : Outcome ω τ (Option (Item τ))) :
    tokenOf (Outcome.map .token outcome).1 = outcome.handed := by
  obtain ⟨⟨f⟩ | ⟨_ | item⟩, t⟩ := outcome <;> rfl

theorem tokenOf_map_eq_nil {α : Type} {f : α → Answer τ} (hf : ∀ a, tokenOf (.ok (f a)) = [])
    (outcome : Outcome ω τ α) : tokenOf (Outcome.map f outcome).1 = [] := by
  obtain ⟨⟨failure⟩ | ⟨a⟩, t⟩ := outcome
  · rfl
  · exact hf a

variable [TokenLike τ] {s : Lexer ω τ} {e : Entry τ} {operation : Operation ω τ}

/-- What an operation offers is the token that it answers, unless a token is queued, which is
answered as it was given. -/
theorem items_offered (s : Lexer ω τ) (operation : Operation ω τ)
    (hne : ∀ item given, operation ≠ .enqueue item given) :
    (operation.offered s).map (·.item) = tokenOf (operation.perform s).1 := by
  cases operation with
  | scan => rw [perform, tokenOf_map_token, offered, items_nextEntry]
  | nextToken =>
    rw [perform, tokenOf_map_token, offered, Lexer.nextToken]
    rcases s.nextEntry with ⟨⟨f⟩ | ⟨_ | e⟩, t⟩ <;> rfl
  | iterate it =>
    rw [perform, tokenOf_map_token, offered]
    split
    · rename_i hended
      rw [Lexer.iterate, if_pos hended]
      rfl
    · rename_i hended
      rw [handed_iterate hended, ← items_nextEntry, List.filter_map]
      rfl
  | advance =>
    rw [perform, tokenOf_map_token, offered, Lexer.advance]
    rcases s.produce with ⟨⟨f⟩ | ⟨_ | e⟩, t⟩ <;> rfl
  | dequeue =>
    rw [perform, offered, Lexer.dequeue, pop]
    cases s.queue <;> rfl
  | peek => rw [perform, tokenOf_map_token, offered, items_looked, Lexer.peek]
  | lookahead n =>
    rw [perform, tokenOf_map_token, offered, lookaheadBy]
    cases n.count with
    | ok n => exact items_looked s n
    | error f => rfl
  | enqueue item given => exact absurd rfl (hne item given)
  | _ => exact (tokenOf_map_eq_nil (fun _ => rfl) _).symm

/-- What an operation offers was queued, or is made at the head, or is queued in the end. -/
theorem offered_cases (h : e ∈ operation.offered s) :
    e ∈ s.queue ∨ (∃ t, s.produce = (.ok (some e), t)) ∨ e ∈ (operation.step s).queue := by
  cases operation <;> simp only [offered] at h
  case scan => exact (mem_nextEntry h).imp_right .inl
  case nextToken => exact (mem_nextEntry h).imp_right .inl
  case iterate it =>
    split at h
    · cases h
    · exact (mem_nextEntry (List.mem_filter.mp h).1).imp_right .inl
  case advance => exact .inr (.inl (Outcome.eq_of_mem_entries h))
  case dequeue => exact .inl (List.mem_of_head? (Option.mem_toList.mp h))
  case peek =>
    refine .inr (.inr ?_)
    simpa only [step, perform, Outcome.snd_map, Lexer.peek] using mem_queue_of_looked h
  case lookahead n =>
    refine .inr (.inr ?_)
    cases hcount : n.count with
    | error f =>
      rw [hcount] at h
      cases h
    | ok n =>
      rw [hcount] at h
      simpa only [step, perform, Outcome.snd_map, lookaheadBy, hcount] using mem_queue_of_looked h
  all_goals cases h

/-- Every operation of a run is permitted, after all that those before it offered. -/
def AlongOffered (permitted : List (Entry τ) → Lexer ω τ → Operation ω τ → Prop) :
    List (Entry τ) → Lexer ω τ → List (Operation ω τ) → Prop
  | _, _, [] => True
  | known, s, operation :: rest => permitted known s operation ∧
      AlongOffered permitted (known ++ operation.offered s) (step s operation) rest

/-- Tokens are queued only under lexemes with which they are known, no text is given to be consumed,
and guards leave the lexer alone. -/
def Returning (known : List (Entry τ)) (s : Lexer ω τ) : Operation ω τ → Prop
  | .enqueue (some item) given => ∀ l, s.lexemeUnder item given = .ok l → ⟨item, l⟩ ∈ known
  | .consume _ (.text _) => False
  | .scanGuarded accepts _ => accepts.LeavesLexer
  | _ => True

theorem Returning.mono {known known' : List (Entry τ)} (h : Returning known s operation)
    (hsub : known ⊆ known') : Returning known' s operation := by
  cases operation with
  | enqueue item given =>
    cases item with
    | none => trivial
    | some item => exact fun l hl => hsub (h l hl)
  | consume length given => cases given <;> exact h
  | _ => exact h

end Operation

-- ---------------------------------------------------------------------------
-- Entries that lie in the input
-- ---------------------------------------------------------------------------

/-- The lexeme does not start before the input, and a scan may pass under the entry. -/
def Entry.Founded (input : Text) (position : Nat) (e : Entry τ) : Prop :=
  0 ≤ e.lexeme.index ∧ Lexer.Passable input position e

theorem Entry.Founded.mono {input : Text} {m n : Nat} {e : Entry τ} (h : e.Founded input m)
    (hle : m ≤ n) : e.Founded input n := ⟨h.1, h.2.mono hle⟩

theorem Entry.Founded.stop_le {input : Text} {n : Nat} {e : Entry τ} (h : e.Founded input n)
    (hle : n ≤ input.length) : e.lexeme.stop ≤ input.length := by
  rcases h.2 with hstands | ⟨-, hstop⟩
  · exact hstands.stop_le
  · omega

namespace Lexer

variable {s s' t : Lexer ω τ} {e : Entry τ} {es known : List (Entry τ)} {input : Text}

/-- The cursor cuts the input in two, and what is queued or known lies in the input. -/
structure Founded (input : Text) (known : List (Entry τ)) (s : Lexer ω τ) : Prop
    extends Whole input s where
  queued : ∀ e ∈ s.queue, e.Founded input s.position
  known : ∀ e ∈ known, e.Founded input s.position

namespace Founded

theorem tracked (h : Founded input known s) : Tracked input s :=
  ⟨h.toWhole, fun e hmem => (h.queued e hmem).2⟩

theorem moved (h : Founded input known s) (hwhole : Whole input s')
    (hle : s.position ≤ s'.position)
    (hqueue : ∀ e ∈ s'.queue, e ∈ s.queue ∨ e.Founded input s'.position) :
    Founded input known s' := by
  refine ⟨hwhole, fun e hmem => ?_, fun e hmem => (h.known e hmem).mono hle⟩
  rcases hqueue e hmem with hold | hnew
  · exact (h.queued e hold).mono hle
  · exact hnew

theorem learn (h : Founded input known s) {more : List (Entry τ)}
    (hmore : ∀ e ∈ more, e.Founded input s.position) : Founded input (known ++ more) s := by
  refine ⟨h.toWhole, h.queued, fun e hmem => ?_⟩
  rcases List.mem_append.mp hmem with hmem | hmem
  · exact h.known e hmem
  · exact hmore e hmem

theorem head_nonneg (h : Founded input known s) : 0 ≤ s.head := by
  cases hlast : s.queue.getLast? with
  | none =>
    rw [head_of_queue_nil (List.getLast?_eq_none_iff.mp hlast)]
    exact Int.natCast_nonneg _
  | some last =>
    have hindex := (h.queued last (List.mem_of_getLast? hlast)).1
    rw [head_of_getLast? hlast, Lexeme.stop]
    omega

theorem founded_produce (h : Founded input known s) (hp : s.produce = (.ok (some e), s')) :
    e.Founded input s.position := by
  obtain ⟨hindex, -, -⟩ := lexeme_produce hp
  exact ⟨hindex ▸ h.head_nonneg, h.toWhole.passable_produce hp⟩

theorem produce {made : Except Failure (Option (Entry τ))} (h : Founded input known s)
    (hp : s.produce = (made, s')) : Founded input known s' := by
  refine h.moved (h.tracked.produce hp).toWhole (Nat.le_of_eq (position_produce hp).symm) ?_
  rw [queue_produce hp]
  exact fun e hmem => .inl hmem

theorem push (h : Founded input known s) (he : e.Founded input s.position) :
    Founded input known (s.push e) := by
  refine h.moved (h.tracked.push he.2).toWhole (Nat.le_refl _) fun other hmem => ?_
  rcases List.mem_append.mp hmem with hmem | hmem
  · exact .inl hmem
  · rw [List.mem_singleton.mp hmem]
    exact .inr he

theorem pop {rest : List (Entry τ)} (h : Founded input known s) (hq : s.queue = e :: rest) :
    Founded input known ({ s with queue := rest, advanced := none } : Lexer ω τ) := by
  refine h.moved (h.tracked.pop hq).2.toWhole (Nat.le_refl _) fun other hmem => .inl ?_
  rw [hq]
  exact List.mem_cons_of_mem e hmem

theorem pass (h : Founded input known s) (he : e.Founded input s.position) :
    Founded input known (s.pass e) :=
  h.moved (h.tracked.pass he.2).toWhole (position_le_pass s e) fun _ hmem => .inl hmem

theorem discard (h : Founded input known s) (journal : Journal) :
    Founded input known { s with queue := [], advanced := none, journal } :=
  h.moved (h.tracked.discard journal).toWhole (Nat.le_refl _) fun _ hmem => nomatch hmem

theorem cut (h : Founded input known s) (length : Nat) :
    Founded input known (s.cut length none).2 :=
  h.moved (h.toWhole.cut length) (position_le_cut s length none) fun _ hmem => .inl hmem

theorem frame (h : Founded input known s) (rules : RuleTable) (verified : Verified)
    (advanced : Option (Entry τ)) (issued : Nat) (journal : Journal) (memory : ω) :
    Founded input known { s with rules, verified, advanced, issued, journal, memory } :=
  ⟨⟨h.input_eq, h.consumed_append, h.position_eq⟩, h.queued, h.known⟩

theorem produced (h : Founded input known s) (hp : s.produce = (.ok (some e), s')) :
    Founded input known s' ∧ e.Founded input s'.position := by
  have he := h.founded_produce hp
  rw [← position_produce hp] at he
  exact ⟨h.produce hp, he⟩

theorem sustained : Sustained (ω := ω) (τ := τ) fun _ s => Founded input known s where
  remember memory h := h.frame _ _ _ _ _ memory
  forget h := h.frame _ _ none _ _ _
  produce h hp := h.produce hp
  push h hp := (h.produced hp).1.push (h.produced hp).2
  pass h _ hp := (h.produced hp).1.pass (h.produced hp).2
  serve {_ _ e _} h hq := (h.pop hq).pass (h.queued e (hq ▸ List.mem_cons_self))

theorem start (input : Text) (rules : RuleTable) (builder : Builder ω τ) (settings : Settings ω τ)
    (memory : ω) : Founded input [] (start input rules builder settings memory) :=
  ⟨⟨rfl, rfl, rfl⟩, fun _ hmem => (nomatch hmem), fun _ hmem => (nomatch hmem)⟩

/-- Tokens made and queued one after the other lie in the input, and are true of it if the head was
not before the cursor. -/
theorem of_queues (hqueues : Queues s es t) (h : Founded input known s) :
    ∀ e ∈ es, 0 ≤ e.lexeme.index ∧ e.lexeme.stop ≤ input.length ∧
      (0 ≤ s.headOffset → e.lexeme.StandsIn input) := by
  induction hqueues with
  | nil => exact fun _ hmem => nomatch hmem
  | @cons s s' t e es hp _ ih =>
    obtain ⟨hs', he⟩ := h.produced hp
    intro other hmem
    rcases List.mem_cons.mp hmem with rfl | hmem
    · have hposition := hs'.toWhole.position_add
      exact ⟨he.1, he.stop_le (by omega), fun hhead => h.toWhole.standsIn_produce hhead hp⟩
    · obtain ⟨hindex, hstop, hstands⟩ := ih (hs'.push he) other hmem
      refine ⟨hindex, hstop, fun hhead => hstands ?_⟩
      -- the token queued puts the head forward
      rw [(headOffset_push_produce hp).1]
      omega

end Founded

end Lexer

namespace Operation

open Lexer

variable [TokenLike τ] {s : Lexer ω τ} {e : Entry τ} {known : List (Entry τ)} {input : Text}
  {operation : Operation ω τ} {operations : List (Operation ω τ)}

theorem upheld_founded (input : Text) (known : List (Entry τ)) :
    Upheld (Returning (ω := ω) known) (Founded input known) where
  moves := Founded.sustained
  guard h := h
  advance {_ _ made} h hp := (h.produce hp).frame _ _ made _ _ _
  pop h hq := h.pop hq
  enqueue h hop hl := h.push (h.known _ (hop _ hl))
  discard journal h := h.discard journal
  cut length h _ := h.cut length
  cutGiven _ _ hop _ := hop.elim
  register rules journal h := h.frame rules _ _ _ journal _
  verify verified h _ := h.frame _ verified _ _ _ _

theorem founded_offered (h : Founded input known s) (hop : Returning known s operation) :
    ∀ e ∈ operation.offered s, e.Founded input (operation.step s).position := by
  intro e hmem
  have early (he : e.Founded input s.position) : e.Founded input (operation.step s).position := by
    have hlearned : Founded input (known ++ [e]) s :=
      h.learn fun other hother => List.mem_singleton.mp hother ▸ he
    have hnext := (upheld_founded input (known ++ [e])).step hlearned
      (hop.mono (List.subset_append_left known [e]))
    exact hnext.known e (List.mem_append_right known List.mem_cons_self)
  rcases offered_cases hmem with hqueued | ⟨t, hp⟩ | hqueued
  · exact early (h.queued e hqueued)
  · exact early (h.founded_produce hp)
  · exact ((upheld_founded input known).step h hop).queued e hqueued

theorem founded_along (h : Founded input known s)
    (hrun : AlongOffered Returning known s operations) :
    ∃ known', Founded input known' (run s operations) := by
  induction operations generalizing known s with
  | nil => exact ⟨known, h⟩
  | cons operation rest ih =>
    obtain ⟨hop, hrest⟩ := hrun
    have hnext := (upheld_founded input known).step h hop
    exact ih (hnext.learn (founded_offered h hop)) hrest

end Operation

-- ---------------------------------------------------------------------------
-- A head that nothing gets past
-- ---------------------------------------------------------------------------

namespace Lexer

variable {s s' t : Lexer ω τ} {e : Entry τ} {rest : List (Entry τ)}

/-- The head is not before the cursor, and nothing queued ends past it. -/
structure Foremost (s : Lexer ω τ) : Prop where
  position_le : (s.position : Int) ≤ s.head
  stop_le : ∀ e ∈ s.queue, e.lexeme.stop ≤ s.head

theorem position_pass_le (s : Lexer ω τ) (e : Entry τ) :
    (s.pass e).position ≤ s.position + s.reach e := by
  unfold pass
  by_cases hlen : s.reach e = e.lexeme.text.length
  · simp only [hlen, if_true, cut, Option.isSome_some, Nat.le_refl]
  · simp only [hlen, if_false, cut_none]
    omega

namespace Foremost

theorem of_queue_nil (hq : s.queue = []) : Foremost s where
  position_le := Int.le_of_eq (head_of_queue_nil hq).symm
  stop_le e hmem := by
    rw [hq] at hmem
    cases hmem

theorem headOffset_nonneg (h : Foremost s) : 0 ≤ s.headOffset := by
  have hle := h.position_le
  rw [head] at hle
  omega

theorem produce {made : Except Failure (Option (Entry τ))} (h : Foremost s)
    (hp : s.produce = (made, s')) : Foremost s' := by
  obtain ⟨_, _, _, _, rfl, -⟩ := produce_frame hp
  exact ⟨h.position_le, h.stop_le⟩

theorem push (h : Foremost s) (hle : s.head ≤ e.lexeme.stop) : Foremost (s.push e) := by
  have hhead : (s.push e).head = e.lexeme.stop := head_of_getLast? List.getLast?_concat
  have hposition := h.position_le
  refine ⟨hhead ▸ Int.le_trans hposition hle, fun other hmem => ?_⟩
  rw [hhead]
  rcases List.mem_append.mp hmem with hmem | hmem
  · exact Int.le_trans (h.stop_le other hmem) hle
  · exact Int.le_of_eq (List.mem_singleton.mp hmem ▸ rfl)

theorem behind_front (h : Foremost s) (hq : s.queue = e :: rest) (hrest : t.queue = rest)
    (hle : (t.position : Int) ≤ s.head) : Foremost t := by
  cases hlast : rest.getLast? with
  | none => exact of_queue_nil (hrest.trans (List.getLast?_eq_none_iff.mp hlast))
  | some last =>
    have hhead : t.head = s.head := by
      rw [head_of_getLast? (hrest ▸ hlast), head_of_getLast? (s := s) (e := last)]
      rw [hq, List.getLast?_cons, hlast]
      rfl
    refine ⟨hhead ▸ hle, fun other hmem => ?_⟩
    rw [hhead]
    exact h.stop_le other (hq ▸ List.mem_cons_of_mem e (hrest ▸ hmem))

theorem pop (h : Foremost s) (hq : s.queue = e :: rest) :
    Foremost ({ s with queue := rest, advanced := none } : Lexer ω τ) :=
  h.behind_front hq rfl h.position_le

theorem serve (h : Foremost s) (hq : s.queue = e :: rest) :
    Foremost (({ s with queue := rest, advanced := none } : Lexer ω τ).pass e) := by
  refine h.behind_front hq rfl ?_
  have hposition := h.position_le
  have hstop := h.stop_le e (hq ▸ List.mem_cons_self)
  have hpass := position_pass_le ({ s with queue := rest, advanced := none } : Lexer ω τ) e
  unfold reach at hpass
  dsimp only at hpass
  omega

theorem sustained : Sustained (ω := ω) (τ := τ) fun _ s => Foremost s where
  remember _ h := ⟨h.position_le, h.stop_le⟩
  forget h := ⟨h.position_le, h.stop_le⟩
  produce h hp := h.produce hp
  push {_ s e s'} h hp := by
    refine (h.produce hp).push ?_
    obtain ⟨hindex, -, -⟩ := lexeme_produce hp
    obtain ⟨_, _, _, _, rfl, -⟩ := produce_frame hp
    show s.head ≤ e.lexeme.stop
    rw [Lexeme.stop, hindex]
    omega
  pass _ hq hp := of_queue_nil ((queue_pass _ _).trans ((queue_produce hp).trans hq))
  serve h hq := h.serve hq

end Foremost

end Lexer

-- ---------------------------------------------------------------------------
-- Over whole runs
-- ---------------------------------------------------------------------------

namespace Operation

open Lexer

variable [TokenLike τ]

/-- No token is queued under a lexeme that ends before the head, and guards leave the lexer
alone. -/
def Forward (s : Lexer ω τ) : Operation ω τ → Prop
  | .enqueue (some item) given => ∀ l, s.lexemeUnder item given = .ok l → s.head ≤ l.stop
  | .scanGuarded accepts _ => accepts.LeavesLexer
  | _ => True

theorem upheld_foremost : Upheld (ω := ω) (τ := τ) Forward Foremost where
  moves := Foremost.sustained
  guard h := h
  advance h hp := ⟨(h.produce hp).position_le, (h.produce hp).stop_le⟩
  pop h hq := h.pop hq
  enqueue h hop hl := h.push (hop _ hl)
  discard _ _ := .of_queue_nil rfl
  cut _ _ hq := .of_queue_nil hq
  cutGiven _ _ _ _ := .of_queue_nil rfl
  register _ _ h := ⟨h.position_le, h.stop_le⟩
  verify _ h _ := ⟨h.position_le, h.stop_le⟩

/-- After a run that queues tokens again only under the lexemes with which they were handed out,
every token made lies within the input, and is true of it if the head is not before the cursor.
Where no token was queued under a lexeme that ends before the head, the head is not before the
cursor. -/
theorem lexemes_after_returning (input : Text) (rules : RuleTable) (builder : Builder ω τ)
    (settings : Settings ω τ) (memory : ω) (operations : List (Operation ω τ))
    (hrun : AlongOffered Returning [] (start input rules builder settings memory) operations) :
    let s₀ := start input rules builder settings memory
    let s := run s₀ operations
    (∀ es t, Queues s es t → ∀ e ∈ es, 0 ≤ e.lexeme.index ∧ e.lexeme.stop ≤ input.length ∧
        (0 ≤ s.headOffset → e.lexeme.StandsIn input)) ∧
      (Along Forward s₀ operations → 0 ≤ s.headOffset) := by
  intro s₀ s
  obtain ⟨known, hfounded⟩ :=
    founded_along (.start input rules builder settings memory) hrun
  refine ⟨fun es t hqueues => hfounded.of_queues hqueues, fun hforward => ?_⟩
  have hforemost : Foremost s := upheld_foremost.run (.of_queue_nil rfl) hforward
  exact hforemost.headOffset_nonneg

/-- Two tokens taken off the queue and queued again in the same order. -/
theorem lexemes_after_returning_in_order :
    let letter (serial : Nat) (text : String) : Entry (Token Text) :=
      let l : Lexeme := ⟨text.toList, serial, [], []⟩
      ⟨⟨.plain "W".toList l, some serial, none⟩, l⟩
    let operations : List (Operation Unit (Token Text)) :=
      [.lookahead (.int 2), .dequeue, .dequeue,
        .enqueue (some (letter 0 "a").item) (some (letter 0 "a").lexeme),
        .enqueue (some (letter 1 "b").item) (some (letter 1 "b").lexeme), .scan]
    let s₀ : Lexer Unit (Token Text) :=
      start "abc".toList (.ofSources [("W", "^\\w")]) .standard .default ()
    let s := run s₀ operations
    AlongOffered Returning [] s₀ operations ∧ Along Forward s₀ operations ∧
      ∃ e t, s.produce = (.ok (some e), t) ∧ e.lexeme = ⟨"c".toList, 2, [], []⟩ ∧
        0 ≤ e.lexeme.index ∧ e.lexeme.stop ≤ "abc".toList.length ∧
          e.lexeme.StandsIn "abc".toList := by
  intro letter operations s₀ s
  have hrun : AlongOffered Returning [] s₀ operations := by
    refine ⟨trivial, trivial, trivial, ?_, ?_, trivial, trivial⟩
    · rintro l ⟨⟩
      decide +kernel
    · rintro l ⟨⟩
      decide +kernel
  have hforward : Along Forward s₀ operations := by
    refine ⟨trivial, trivial, trivial, ?_, ?_, trivial, trivial⟩
    · rintro l ⟨⟩
      decide +kernel
    · rintro l ⟨⟩
      decide +kernel
  have hlexemes : s.produce.entries.map (·.lexeme) = [⟨"c".toList, 2, [], []⟩] := by decide +kernel
  obtain ⟨e, he, hlexeme⟩ := List.map_eq_singleton_iff.mp hlexemes
  obtain ⟨t, hp⟩ := Outcome.eq_of_mem_entries (he ▸ List.mem_cons_self)
  obtain ⟨hmade, hhead⟩ :=
    lexemes_after_returning "abc".toList (.ofSources [("W", "^\\w")]) .standard .default ()
      operations hrun
  obtain ⟨hindex, hstop, hstands⟩ := hmade [e] _ (.cons hp .nil) e List.mem_cons_self
  exact ⟨hrun, hforward, e, t, hp, hlexeme, hindex, hstop, hstands (hhead hforward)⟩

/-- A token queued again when the cursor is past it. The next token is made of the last character
and put where the second one is. -/
theorem misplaced_after_returning :
    let a : Entry (Token Text) :=
      let l : Lexeme := ⟨"a".toList, 0, [], []⟩
      ⟨⟨.plain "W".toList l, some 0, none⟩, l⟩
    let operations : List (Operation Unit (Token Text)) :=
      [.scan, .scan, .enqueue (some a.item) (some a.lexeme)]
    let s₀ : Lexer Unit (Token Text) :=
      start "abc".toList (.ofSources [("W", "^\\w")]) .standard .default ()
    AlongOffered Returning [] s₀ operations ∧
      ∃ e t, (run s₀ operations).produce = (.ok (some e), t) ∧
        e.lexeme = ⟨"c".toList, 1, [], []⟩ ∧ ¬ e.lexeme.StandsIn "abc".toList := by
  intro a operations s₀
  have hrun : AlongOffered Returning [] s₀ operations := by
    refine ⟨trivial, trivial, ?_, trivial⟩
    rintro l ⟨⟩
    decide +kernel
  have hlexemes : (run s₀ operations).produce.entries.map (·.lexeme) =
      [⟨"c".toList, 1, [], []⟩] := by decide +kernel
  obtain ⟨e, he, hlexeme⟩ := List.map_eq_singleton_iff.mp hlexemes
  obtain ⟨t, hp⟩ := Outcome.eq_of_mem_entries (he ▸ List.mem_cons_self)
  refine ⟨hrun, e, t, hp, hlexeme, fun hstands => ?_⟩
  have htext := hstands.text_eq
  rw [hlexeme] at htext
  exact absurd htext (by decide)

end Operation

end PullLexer
