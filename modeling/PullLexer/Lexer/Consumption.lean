import PullLexer.Lexer.Queue

/-!
# Consuming text

Consuming moves the cursor over the front of the remaining text. The text may
be given by the caller, who is trusted: it is taken for the text consumed, and
the length alone says how far the cursor moves.
-/

namespace PullLexer.Lexer

variable {ω τ : Type}

/-- Moves the cursor over `length` characters, or to the end if fewer are left and no text is
given. -/
def cut (length : Nat) (given : Option Text) (s : Lexer ω τ) : Text × Lexer ω τ :=
  let value := given.getD (s.remaining.take length)
  let length := if given.isSome then length else value.length
  (value,
    { s with
      advanced := none
      consumed := s.consumed ++ value
      position := s.position + length
      remaining := s.remaining.drop length })

/-- Drops every queued token, since it describes text at the old cursor. -/
def discardQueue (s : Lexer ω τ) : Lexer ω τ :=
  match s.queue with
  | [] => s
  | _ :: _ => { s.record (.discarded s.queue.length) with queue := [] }

def consume (length : Nat) (given : Option Text) (s : Lexer ω τ) : Text × Lexer ω τ :=
  s.discardQueue.cut length given

theorem cut_none (length : Nat) (s : Lexer ω τ) :
    s.cut length none =
      (s.remaining.take length,
        { s with
          advanced := none
          consumed := s.consumed ++ s.remaining.take length
          position := s.position + min length s.remaining.length
          remaining := s.remaining.drop length }) := by
  simp only [cut, Option.getD_none, Option.isSome_none, Bool.false_eq_true, if_false,
    List.length_take, Prod.mk.injEq, true_and]
  congr 1
  by_cases h : length ≤ s.remaining.length
  · rw [Nat.min_eq_left h]
  · have h' : s.remaining.length ≤ length := by omega
    rw [Nat.min_eq_right h', List.drop_length, List.drop_eq_nil_of_le h']

theorem consumed_append_remaining_cut (length : Nat) (s : Lexer ω τ) :
    (s.cut length none).2.consumed ++ (s.cut length none).2.remaining =
      s.consumed ++ s.remaining := by
  simp [cut_none]

end PullLexer.Lexer
