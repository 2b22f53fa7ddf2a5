import PullLexer.Proofs.Alignment
import PullLexer.Proofs.Displacement

/-!
# Going on in the middle of an input

A client that names no places cannot tell a lexer with nothing queued from a new
one on the text that remains (`Session.ServedAnew`): both give the same answers
and fail with the same errors, with everything as much further on as was consumed
before.
-/

namespace PullLexer

open List (Forall₂)

variable {ω τ : Type} [TokenLike τ]

-- ---------------------------------------------------------------------------
-- Sessions
-- ---------------------------------------------------------------------------

/-- What a client asks for without naming a token: an operation, or that the token be queued which
the last advance returned. -/
inductive Request (ω τ : Type) where
  | perform (operation : Operation ω τ)
  | enqueueReturned

def Request.operation (returned : Option (Item τ)) : Request ω τ → Operation ω τ
  | .perform operation => operation
  | .enqueueReturned => .enqueue returned none

def Operation.returns (returned : Option (Item τ)) :
    Operation ω τ → Except Failure (Answer τ) → Option (Item τ)
  | .advance, .ok (.token item) => item
  | _, _ => returned

/-- A lexer with what its last advance returned to the client. -/
structure Session (ω τ : Type) where
  lexer : Lexer ω τ
  returned : Option (Item τ) := none

namespace Session

def serve (c : Session ω τ) (request : Request ω τ) : Except Failure (Answer τ) × Session ω τ :=
  let operation := request.operation c.returned
  let outcome := operation.perform c.lexer
  (outcome.1, ⟨outcome.2, operation.returns c.returned outcome.1⟩)

def answers : Session ω τ → List (Request ω τ) → List (Except Failure (Answer τ))
  | _, [] => []
  | c, request :: rest => (c.serve request).1 :: answers (c.serve request).2 rest

def after (c : Session ω τ) (requests : List (Request ω τ)) : Session ω τ :=
  requests.foldl (fun c request => (c.serve request).2) c

end Session

/-- The decision looks at nothing of a token but its kind and its text. -/
def Lexer.Decision.Placeless (decision : Lexer.Decision ω τ) : Prop :=
  ∀ a b : Token Text, a.kind = b.kind → a.text = b.text → ∀ serial serial' memory,
    decision (some ⟨TokenLike.ofToken a, serial, none⟩) memory =
      decision (some ⟨TokenLike.ofToken b, serial', none⟩) memory

theorem Lexer.Decision.Placeless.blind {decision : Lexer.Decision ω τ} (h : decision.Placeless)
    (n issued : Nat) : decision.Blind (Item.Displaced n issued) := by
  intro next next' hnext memory
  cases hnext with
  | none => rfl
  | @some item item' hitem =>
    obtain ⟨value, serial, shared⟩ := item
    obtain ⟨value', serial', shared'⟩ := item'
    obtain ⟨token, rfl, rfl, -, rfl, rfl⟩ := hitem
    exact h (token.displaced n) token rfl rfl serial' serial memory

/-- Requests that say nothing of places in the input. -/
def Request.Placeless : Request ω τ → Prop
  | .perform operation => operation.Plain Lexer.Decision.Placeless
  | .enqueueReturned => True

def Answer.Displaced (n issued : Nat) : Answer τ → Answer τ → Prop :=
  Answer.Alike (Item.Displaced n issued) fun l l' => l' = l.displaced n

namespace Session

variable {gone : Text} {issued : Nat} {c c' : Session ω τ} {request : Request ω τ}
  {requests : List (Request ω τ)}

structure Displaced (gone : Text) (issued : Nat) (c c' : Session ω τ) : Prop where
  lexer : Lexer.Displaced gone issued c.returned.isSome c.lexer c'.lexer
  returned : Option.Rel (Item.Displaced gone.length issued) c.returned c'.returned

namespace Displaced

theorem advance (h : Displaced gone issued c c') :
    Alike (Answer.Displaced gone.length issued) (· = ·) (c.serve (.perform .advance)).1
        (c'.serve (.perform .advance)).1 ∧
      Displaced gone issued (c.serve (.perform .advance)).2 (c'.serve (.perform .advance)).2 := by
  obtain ⟨houtcome, hsynced⟩ := h.lexer.advance
  simp only [serve, Request.operation, Operation.perform]
  generalize c.lexer.advance = outcome, c'.lexer.advance = outcome' at houtcome hsynced ⊢
  cases houtcome with
  | error hf hstate => exact ⟨.error hf, hstate, h.returned⟩
  | ok hitem _ =>
    have hstate := hsynced rfl
    exact ⟨.ok (.token hitem), { hstate with advanced := fun _ => hstate.advanced trivial }, hitem⟩

theorem serve (h : Displaced gone issued c c') (hrequest : request.Placeless) :
    Alike (Answer.Displaced gone.length issued) (· = ·) (c.serve request).1 (c'.serve request).1 ∧
      Displaced gone issued (c.serve request).2 (c'.serve request).2 := by
  have hR := Lexer.Displaced.simulation (ω := ω) (τ := τ) gone issued c.returned.isSome
  cases request with
  | enqueueReturned =>
    have houtcome : Lexer.Outcome.Alike (Lexer.Displaced gone issued c.returned.isSome)
        (Answer.Displaced gone.length issued) (· = ·)
        ((Operation.enqueue c.returned none).perform c.lexer)
        ((Operation.enqueue c'.returned none).perform c'.lexer) :=
      (h.lexer.enqueueIfAny h.returned id).map .token
    exact ⟨houtcome.answers, houtcome.states, h.returned⟩
  | perform operation =>
    have hplain : operation.Plain (Lexer.Decision.Blind (Item.Displaced gone.length issued)) :=
      Operation.Plain.mono hrequest fun _ hd => hd.blind gone.length issued
    have houtcome := hR.perform hplain h.lexer
    cases operation with
    | advance => exact h.advance
    | _ => exact ⟨houtcome.answers, houtcome.states, h.returned⟩

theorem along (h : Displaced gone issued c c')
    (hrequests : ∀ request ∈ requests, request.Placeless) :
    Forall₂ (Alike (Answer.Displaced gone.length issued) (· = ·)) (c.answers requests)
        (c'.answers requests) ∧
      Displaced gone issued (c.after requests) (c'.after requests) := by
  induction requests generalizing c c' with
  | nil => exact ⟨.nil, h⟩
  | cons request rest ih =>
    obtain ⟨hfirst, hrest⟩ := List.forall_mem_cons.mp hrequests
    obtain ⟨hanswer, hserved⟩ := h.serve hfirst
    obtain ⟨hanswers, hafter⟩ := ih hserved hrest
    exact ⟨.cons hanswer hanswers, hafter⟩

end Displaced

end Session

-- ---------------------------------------------------------------------------
-- Starting in the middle of an input
-- ---------------------------------------------------------------------------

namespace Lexer

variable {settings : Settings ω τ} {s : Lexer ω τ}

/-- A new lexer on what follows the cursor in the input. -/
def anew (input : Text) (settings : Settings ω τ) (s : Lexer ω τ) : Lexer ω τ :=
  start (input.drop s.position) s.rules .standard settings s.memory

theorem Whole.displaced {input : Text} (h : Whole input s) (hq : s.queue = [])
    (hs : Equipped .standard settings s) :
    Displaced (input.take s.position) s.issued False (s.anew input settings) s where
  position_eq := by
    have hsum := h.position_add
    rw [List.length_take, Nat.min_eq_left (by omega)]
    exact (Nat.zero_add _).symm
  remaining_eq := h.remaining_eq
  consumed_eq := by
    rw [← h.consumed_append, h.position_eq, List.take_left]
    exact (List.append_nil _).symm
  queue := by
    rw [hq]
    exact .nil
  rules_eq := rfl
  builder_eq := ⟨rfl, hs.1⟩
  settings_eq := hs.2.1
  memory_eq := rfl
  sound := ⟨Verified.sound_nil, hs.2.2⟩
  issued_eq := (Nat.zero_add _).symm
  advanced := False.elim

end Lexer

namespace Session

open Lexer (start)

/-- A client is served by the lexer as by a new one on what follows its cursor in the input, with
everything as much further on as the cursor is. -/
structure ServedAnew (input : Text) (settings : Settings ω τ) (s : Lexer ω τ)
    (requests : List (Request ω τ)) : Prop where
  answers : Forall₂ (Alike (Answer.Displaced s.position s.issued) (· = ·))
    (answers ⟨s.anew input settings, none⟩ requests) (answers ⟨s, none⟩ requests)
  position_eq : (after ⟨s, none⟩ requests).lexer.position =
    (after ⟨s.anew input settings, none⟩ requests).lexer.position + s.position
  remaining_eq : (after ⟨s, none⟩ requests).lexer.remaining =
    (after ⟨s.anew input settings, none⟩ requests).lexer.remaining
  consumed_eq : (after ⟨s, none⟩ requests).lexer.consumed =
    input.take s.position ++ (after ⟨s.anew input settings, none⟩ requests).lexer.consumed
  queue : Forall₂ (Entry.Displaced s.position s.issued)
    (after ⟨s.anew input settings, none⟩ requests).lexer.queue
    (after ⟨s, none⟩ requests).lexer.queue

/-- After an orderly run that leaves nothing queued, a client is served as by a new lexer on the
text that remains. -/
theorem served_anew_after_run (input : Text) (rules : RuleTable) (settings : Settings ω τ)
    (memory : ω) (earlier : List (Operation ω τ)) (requests : List (Request ω τ))
    (hrun : Operation.Along Operation.Orderly (start input rules .standard settings memory) earlier)
    (hrequests : ∀ request ∈ requests, request.Placeless)
    (hq : (Operation.run (start input rules .standard settings memory) earlier).queue = []) :
    ServedAnew input settings (Operation.run (start input rules .standard settings memory) earlier)
      requests := by
  generalize hs : Operation.run (start input rules .standard settings memory) earlier = s at hq ⊢
  obtain ⟨q, q', hlined⟩ : ∃ p q, Lexer.Lined input (fun _ => True) p q s :=
    hs ▸ (Operation.upheld_lined input).run
      ⟨0, 0, .start _ input rules .standard settings memory⟩ hrun
  have hequipped : Lexer.Equipped .standard settings s :=
    hs ▸ (Lexer.upheld_equipped .standard settings id).run ⟨rfl, rfl, Verified.sound_nil⟩ hrun
  have hlexers := hlined.toWhole.displaced hq hequipped
  have hsessions : Displaced (input.take s.position) s.issued ⟨s.anew input settings, none⟩
      ⟨s, none⟩ := ⟨{ hlexers with advanced := fun h => nomatch h }, .none⟩
  have hlength : (input.take s.position).length = s.position := by
    have hsum := hlined.toWhole.position_add
    rw [List.length_take, Nat.min_eq_left (by omega)]
  obtain ⟨hanswers, hafter⟩ := hsessions.along hrequests
  obtain ⟨hposition, hremaining, hconsumed, hqueue, -⟩ := hafter.lexer
  rw [hlength] at hanswers hposition hqueue
  exact ⟨hanswers, hposition, hremaining, hconsumed, hqueue⟩

/-- A rule that asks for a word boundary, where the text consumed would make one. -/
theorem served_anew_at_boundary :
    let rules : RuleTable := .ofSources [("letter", "^[a-z]"), ("gap", "^\\b ")]
    let settings : Settings Unit (Token Text) := .default
    let earlier : List (Operation Unit (Token Text)) := [.peek, .scan, .scan]
    let letters : Lexer.Decision Unit (Token Text) := fun next memory =>
      (.ok (next.any fun item => item.value.kind == "letter".toList), memory)
    let requests : List (Request Unit (Token Text)) :=
      [.perform .scan, .perform (.consume (.int 1) .null), .perform .peek, .perform .advance,
        .enqueueReturned, .perform (.scanWhile letters)]
    let s := Operation.run (start "ab cd".toList rules .standard settings ()) earlier
    s.position = 2 ∧ s.queue = [] ∧ (∀ request ∈ requests, request.Placeless) ∧
      Operation.Along Operation.Orderly (start "ab cd".toList rules .standard settings ()) earlier ∧
      ServedAnew "ab cd".toList settings s requests := by
  intro rules settings earlier letters requests s
  have hq : s.queue = [] := List.eq_nil_of_length_eq_zero (by decide +kernel)
  have hrun : Operation.Along Operation.Orderly
      (start "ab cd".toList rules .standard settings ()) earlier :=
    ⟨trivial, trivial, trivial, trivial⟩
  have hletters : letters.Placeless := by
    intro a b hkind _ _ _ _
    show (Except.ok (a.kind == _), _) = (Except.ok (b.kind == _), _)
    rw [hkind]
  have hrequests : ∀ request ∈ requests, request.Placeless := by
    simp only [requests, List.forall_mem_cons, Request.Placeless, Operation.Plain]
    exact ⟨trivial, trivial, trivial, trivial, trivial, hletters, nofun⟩
  exact ⟨by decide +kernel, hq, hrequests, hrun,
    served_anew_after_run "ab cd".toList rules settings () earlier requests hrun hrequests hq⟩

end Session

end PullLexer
