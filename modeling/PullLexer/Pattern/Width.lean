import PullLexer.Pattern.Expr

/-!
# Widths

The least and the greatest number of characters that an expression can match.
A look-behind needs both to agree. Numbers saturate at `Width.unbounded`.
-/

namespace PullLexer.Pattern

structure Width where
  least : Nat
  most : Nat
deriving DecidableEq, Repr

namespace Width

/-- Stands for every number of rounds too large to count. -/
def unbounded : Nat := 4294967295

def capped (least most : Nat) : Width := ⟨min least (unbounded - 1), min most unbounded⟩

def none : Width := ⟨0, 0⟩

def one : Width := ⟨1, 1⟩

def add (a b : Width) : Width := capped (a.least + b.least) (a.most + b.most)

def either (a b : Width) : Width := ⟨min a.least b.least, max a.most b.most⟩

def rounds (least : Nat) (most : Option Nat) (w : Width) : Width :=
  capped (w.least * least) (w.most * most.getD unbounded)

def isFixed (w : Width) : Bool := w.least == w.most

end Width

/-- The width of an expression, given those of the groups it refers back to. -/
def Expr.width (groups : Nat → Width) : Expr → Width
  | .empty | .never | .assertion _ | .ahead .. | .behind .. => .none
  | .one _ => .one
  | .seq first second => (first.width groups).add (second.width groups)
  | .alt first second => (first.width groups).either (second.width groups)
  | .group _ body => body.width groups
  | .loop least most _ body => (body.width groups).rounds least most
  | .again _ n => groups n
  | .given _ present absent => (present.width groups).either (absent.width groups)
  | .atomic body => body.width groups

end PullLexer.Pattern
