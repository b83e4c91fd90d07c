import ACGlass.Transition
import Mathlib.Data.Multiset.AddSub

/-!
# Custody of resources

Resources are taken and given back one at a time. `hand` follows what is in custody, and is
not enabled when something is given back that is not there.
-/

namespace ACGlass
namespace Custody

open Transition

variable {α : Type*}

inductive Move (α : Type*)
  | take (a : α)
  | giveBack (a : α)
  deriving DecidableEq, Repr

section Hand

variable [DecidableEq α]

def hand (own : Multiset α) : Move α → Option (Multiset α)
  | .take a => some (a ::ₘ own)
  | .giveBack a => if a ∈ own then some (own.erase a) else none

/-- What is in custody after the moves. -/
def after (moves : List (Move α)) : Option (Multiset α) := exec hand 0 moves

theorem hand_giveBack_cons (a : α) (own : Multiset α) :
    hand (a ::ₘ own) (.giveBack a) = some own := by
  simp [hand]

/-- Everything can be given back. -/
theorem exec_giveBack (l : List α) (own : Multiset α) :
    exec hand ((l : Multiset α) + own) (l.map .giveBack) = some own := by
  induction l with
  | nil => simp
  | cons a l ih =>
    have hcons : ((a :: l : List α) : Multiset α) + own = a ::ₘ ((l : Multiset α) + own) := by
      rw [← Multiset.cons_coe, Multiset.cons_add]
    rw [List.map_cons, exec_cons, hcons, hand_giveBack_cons, Option.bind_some, ih]

/-- Nothing can be given back from empty hands. -/
theorem exec_giveBack_empty {l : List α} (h : l ≠ []) (moves : List (Move α)) :
    exec hand 0 (l.map .giveBack ++ moves) = none := by
  cases l with
  | nil => exact absurd rfl h
  | cons a l => simp [hand]

theorem after_append {moves more : List (Move α)} {own : Multiset α}
    (h : after moves = some own) : after (moves ++ more) = exec hand own more := by
  rw [after, exec_append]
  rw [after] at h
  rw [h]
  rfl

end Hand

end Custody
end ACGlass
