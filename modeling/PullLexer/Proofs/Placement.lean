import PullLexer.Lexeme

/-!
# Lexemes that stand in a text

A lexeme is true of a text when its text is what lies there between its index
and its end. A lexeme taken from the beginning of what follows some place, and
put at that place, is true. A lexeme fits from some place on when it is true of
what the text has there, or starts nowhere from that place on.
-/

namespace PullLexer

def Text.between (start stop : Int) (t : Text) : Text := (t.take stop.toNat).drop start.toNat

theorem Text.between_add (n length : Nat) (t : Text) :
    t.between n (n + length) = (t.drop n).take length := by
  have hstop : ((n : Int) + length).toNat = n + length := by omega
  rw [between, hstop, Int.toNat_natCast, List.drop_take, Nat.add_sub_cancel_left]

theorem Text.take_append_between {m n : Nat} (h : m ≤ n) (t : Text) :
    t.take m ++ t.between m n = t.take n := by
  have htake : (t.take n).take m = t.take m := by rw [List.take_take, Nat.min_eq_left h]
  rw [between, Int.toNat_natCast, Int.toNat_natCast, ← htake, List.take_append_drop]

namespace Lexeme

/-- The lexeme lies inside the text and has there the text it says. -/
structure StandsIn (l : Lexeme) (input : Text) : Prop where
  index_nonneg : 0 ≤ l.index
  stop_le : l.stop ≤ input.length
  text_eq : l.text = input.between l.index l.stop

variable {l : Lexeme} {input : Text} {n : Nat}

theorem StandsIn.text_eq_take (h : l.StandsIn input) (hn : l.index = n) :
    l.text = (input.drop n).take l.text.length := by
  have htext := h.text_eq
  rwa [stop, hn, Text.between_add] at htext

theorem standsIn_of_prefix (hn : l.index = n) (hp : l.text <+: input.drop n) (hne : l.text ≠ []) :
    l.StandsIn input where
  index_nonneg := by omega
  stop_le := by
    have hle := hp.length_le
    have hpos := List.length_pos_iff.mpr hne
    rw [List.length_drop] at hle
    rw [stop, hn]
    omega
  text_eq := by
    rw [stop, hn, Text.between_add]
    exact List.prefix_iff_eq_take.mp hp

/-- If the lexeme starts at a place of the text from this one on, or at its end, its text begins
what follows. -/
def Fits (input : Text) (place : Nat) (l : Lexeme) : Prop :=
  ∀ n : Nat, place ≤ n → n ≤ input.length → l.index = n → l.text <+: input.drop n

theorem StandsIn.fits (h : l.StandsIn input) (place : Nat) : l.Fits input place := by
  intro n _ _ hn
  rw [h.text_eq_take hn]
  exact List.take_prefix _ _

theorem Fits.mono {m n : Nat} (h : l.Fits input m) (hle : m ≤ n) : l.Fits input n :=
  fun k hk => h k (Nat.le_trans hle hk)

end Lexeme

end PullLexer
