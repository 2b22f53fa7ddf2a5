import Mathlib.Data.List.Perm.Basic
import PullLexer.Value.Order

/-!
# What sorting comes to

Sorting compares two values at a time and does nothing else that can fail. It
comes to the same values in another order, or else fails as one of these
comparisons does (`compares_sorted`), which is always for want of an order
between two kinds (`less_eq_error`).
-/

namespace PullLexer.Value

variable {α β : Type} {vs rest sorted' : List Value} {v w last : Value} {f : Failure}

/-- The outcome has a property, or else it is the failure to compare two of these values. -/
def Compares (vs : List Value) (P : α → Prop) : Except Failure α → Prop
  | .ok a => P a
  | .error f => ∃ v ∈ vs, ∃ w ∈ vs, less v w = .error f

namespace Compares

variable {P : α → Prop} {Q : β → Prop} {x : Except Failure α} {g : α → Except Failure β}

theorem bind (hx : Compares vs P x) (hg : ∀ a, P a → Compares vs Q (g a)) :
    Compares vs Q (x >>= g) := by
  cases x with
  | error f => exact hx
  | ok a => exact hg a hx

theorem imp {P' : α → Prop} (hx : Compares vs P x) (himp : ∀ a, P a → P' a) :
    Compares vs P' x := by
  cases x with
  | error f => exact hx
  | ok a => exact himp a hx

theorem less (hv : v ∈ vs) (hw : w ∈ vs) : Compares vs (fun _ => True) (less v w) := by
  cases h : Value.less v w with
  | error f => exact ⟨v, hv, w, hw, h⟩
  | ok b => trivial

end Compares

theorem compares_runLength (falling : Bool) (hlast : last ∈ vs) (hrest : rest ⊆ vs) :
    Compares vs (fun _ => True) (runLength falling last rest) := by
  induction rest generalizing last with
  | nil => trivial
  | cons v rest ih =>
    obtain ⟨hv, hrest⟩ := List.cons_subset.mp hrest
    refine (Compares.less hv hlast).bind fun less _ => ?_
    split
    · exact (ih hv hrest).bind fun _ _ => trivial
    · trivial

theorem compares_insertionPoint (hsorted : sorted' ⊆ vs) (hv : v ∈ vs) (bound lo hi : Nat) :
    Compares vs (fun _ => True) (insertionPoint sorted' v bound lo hi) := by
  induction bound generalizing lo hi with
  | zero => trivial
  | succ bound ih =>
    unfold insertionPoint
    split
    · trivial
    · dsimp only
      split
      · trivial
      · rename_i m hm
        have hm : m ∈ vs := hsorted (List.mem_of_getElem? hm)
        refine (Compares.less hv hm).bind fun less _ => ?_
        split
        · exact ih _ _
        · exact ih _ _

theorem compares_insertSorted (hsorted : sorted' ⊆ vs) (hv : v ∈ vs) :
    Compares vs (fun ws => ws.Perm (v :: sorted')) (insertSorted sorted' v) := by
  refine (compares_insertionPoint hsorted hv _ _ _).bind fun n _ => ?_
  have hperm : (sorted'.take n ++ v :: sorted'.drop n).Perm
      (v :: (sorted'.take n ++ sorted'.drop n)) := List.perm_middle
  rwa [List.take_append_drop] at hperm

theorem compares_foldlM_insertSorted (hrest : rest ⊆ vs) (hsorted : sorted' ⊆ vs) :
    Compares vs (fun ws => ws.Perm (rest ++ sorted')) (rest.foldlM insertSorted sorted') := by
  induction rest generalizing sorted' with
  | nil => exact .refl _
  | cons v rest ih =>
    obtain ⟨hv, hrest⟩ := List.cons_subset.mp hrest
    refine (compares_insertSorted hsorted hv).bind fun more hmore => ?_
    have hsub : more ⊆ vs := fun w hw => by
      rcases List.mem_cons.mp (hmore.mem_iff.mp hw) with rfl | hw
      · exact hv
      · exact hsorted hw
    refine (ih hrest hsub).imp fun ws hws => hws.trans ?_
    exact (hmore.append_left rest).trans List.perm_middle

/-- Sorting loses no value and adds none, unless two of them cannot be compared. -/
theorem compares_sorted (vs : List Value) : Compares vs (fun ws => ws.Perm vs) (sorted vs) := by
  match vs with
  | [] => exact .refl _
  | [v] => exact .refl _
  | first :: second :: rest =>
    have hfirst : first ∈ first :: second :: rest := by simp
    have hsecond : second ∈ first :: second :: rest := by simp
    refine (Compares.less hsecond hfirst).bind fun falling _ => ?_
    refine (compares_runLength falling hsecond (by intro; simp +contextual)).bind fun length _ => ?_
    generalize first :: second :: rest = all
    have hrun : ((if falling then (all.take (length + 2)).reverse else all.take (length + 2))).Perm
        (all.take (length + 2)) := by
      split
      · exact List.reverse_perm _
      · exact .refl _
    refine (compares_foldlM_insertSorted (List.drop_subset _ _)
      fun w hw => List.take_subset _ _ (hrun.mem_iff.mp hw)).imp fun ws hws => hws.trans ?_
    refine (hrun.append_left _).trans (List.perm_append_comm.trans ?_)
    rw [List.take_append_drop]

-- ---------------------------------------------------------------------------
-- Values without an order
-- ---------------------------------------------------------------------------

theorem less_eq_error (h : less v w = .error f) :
    ∃ left right, f = .unordered ['<'] left right := by
  -- the induction is on items of sequences too, which fail as the items that first differ do
  refine less.induct
    (fun v w => less v w = .error f → ∃ left right, f = .unordered ['<'] left right)
    (fun vs ws => lessItems vs ws = .error f → ∃ left right, f = .unordered ['<'] left right)
    ?text ?bytes ?list ?tuple ?numbers ?others ?bothEnd ?leftEnds ?rightEnds ?sameFirst ?firstDiffer
    v w h
  case text | bytes => simp [less]
  case list | tuple => simp [less]
  case numbers =>
    intro a b _ _ _ _ m n hb ha
    simp [less, ha, hb]
  case others =>
    intro a b _ _ _ _ hnone h
    have hless : less a b = .error (.unordered ['<'] a.qualifiedName b.qualifiedName) := by
      simp_all [less]
    exact ⟨_, _, Except.error.inj (h.symm.trans hless)⟩
  case bothEnd | leftEnds | rightEnds => simp [lessItems]
  case sameFirst =>
    intro a as b bs hsame ih
    simpa only [lessItems, if_pos hsame] using ih
  case firstDiffer =>
    intro a as b bs hdiffer ih
    simpa only [lessItems, if_neg hdiffer] using ih

end PullLexer.Value
