import Mathlib.Logic.Function.Basic
import Mathlib.Tactic

/-!
# Intrusive lists

`wl_list` as two pointers for each node. Nothing keeps the nodes in well-formed rings: an
operation follows the pointers that it finds. `none` is a node that has been removed or
freed, or a walk that does not come back to its head.
-/

namespace ACGlass
namespace WlList

variable {α : Type} [DecidableEq α]

/-- `prev` and `next` of the nodes that have them. -/
abbrev Links (α : Type) := α → Option (α × α)

/-- `wl_list_init` -/
def init (l : Links α) (a : α) : Links α := Function.update l a (some (a, a))

def setPrev (l : Links α) (a prev : α) : Option (Links α) :=
  (l a).map fun p => Function.update l a (some (prev, p.2))

def setNext (l : Links α) (a next : α) : Option (Links α) :=
  (l a).map fun p => Function.update l a (some (p.1, next))

/-- `wl_list_insert` -/
def insert (l : Links α) (list elm : α) : Option (Links α) := do
  let (_, next) ← l list
  let l ← setNext (Function.update l elm (some (list, next))) list elm
  setPrev l next elm

/-- `wl_list_remove` -/
def remove (l : Links α) (elm : α) : Option (Links α) := do
  let (prev, next) ← l elm
  let l ← setNext l prev next
  let l ← setPrev l next prev
  return Function.update l elm none

/-- `wl_list_remove` and `wl_list_insert` at the top of a list. -/
def moveToTop (l : Links α) (list elm : α) : Option (Links α) := do
  let l ← remove l elm
  insert l list elm

/-- The nodes from `pos` on against the direction of the list. -/
def backFrom (l : Links α) (head : α) : ℕ → α → Option (List α)
  | 0, _ => none
  | fuel + 1, pos =>
    if pos = head then some []
    else do
      let (prev, _) ← l pos
      let rest ← backFrom l head fuel prev
      return pos :: rest

/-- The order of `wl_list_for_each_reverse`. -/
def backward (l : Links α) (fuel : ℕ) (head : α) : Option (List α) := do
  let (prev, _) ← l head
  backFrom l head fuel prev

/-- `wl_list_for_each` that stops at a node. -/
def searchFrom (l : Links α) (head a : α) : ℕ → α → Option Bool
  | 0, _ => none
  | fuel + 1, pos =>
    if pos = head then some false
    else if pos = a then some true
    else do
      let (_, next) ← l pos
      searchFrom l head a fuel next

def search (l : Links α) (fuel : ℕ) (head a : α) : Option Bool := do
  let (_, next) ← l head
  searchFrom l head a fuel next

/-- A `wl_list_for_each_reverse_safe` that moves the nodes it selects to the top of another
list, with these nodes in the order in which it finds them. -/
def moveFrom (select : α → Option Bool) (dst head : α) :
    ℕ → Links α → α → Option (Links α × List α)
  | 0, _, _ => none
  | fuel + 1, l, pos =>
    if pos = head then some (l, [])
    else do
      let (tmp, _) ← l pos
      let selected ← select pos
      if selected then
        let l ← moveToTop l dst pos
        let (l, moved) ← moveFrom select dst head fuel l tmp
        return (l, pos :: moved)
      else moveFrom select dst head fuel l tmp

def moveAll (select : α → Option Bool) (fuel : ℕ) (l : Links α) (dst head : α) :
    Option (Links α × List α) := do
  let (prev, _) ← l head
  moveFrom select dst head fuel l prev

end WlList
end ACGlass
