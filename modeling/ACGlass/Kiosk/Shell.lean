import ACGlass.Android.WindowEvents
import ACGlass.Transition
import ACGlass.WlList

/-!
# The kiosk shell

`kiosk-shell.c` with one output, as functions on its windows, its surface trees and the two
layers of views. A function also returns, in order, the windows whose views it has moved to
the normal layer. A walk along pointers that does not end, or that leads to a freed node, has
no result. What libweston has decided about outputs is an argument.
-/

namespace ACGlass
namespace Kiosk

open Transition WlList
open Android (EventType)

/-- The nodes of surface trees: `surface_tree_list` and `surface_tree_link` of a window, and
`tmp_list` of `kiosk_shell_output_raise_surface_subtree`. -/
inductive Node
  | treeList (w : ℕ)
  | treeLink (w : ℕ)
  | tmpList
  deriving DecidableEq, Repr

/-- `container_of(node, struct kiosk_shell_surface, surface_tree_link)` -/
def Node.window : Node → Option ℕ
  | .treeLink w => some w
  | _ => none

/-- Windows are numbered in the order of their creation. `children` are the listeners of a
`parent_destroy_signal`, `activeSurfaceTree` is the window whose list is active, `normalLayer`
and `inactiveLayer` list the views from the top. -/
structure Shell where
  seat : Bool
  created : ℕ
  live : List ℕ
  acglassNextWindowId : UInt32
  acglassWindowId : ℕ → UInt32
  parent : ℕ → Option ℕ
  children : ℕ → List ℕ
  mapped : ℕ → Bool
  links : Links Node
  activeSurfaceTree : Option ℕ
  normalLayer : List ℕ
  inactiveLayer : List ℕ
  focusedSurface : Option ℕ
  events : List (EventType × ℕ)

/-- A state with the windows that have been moved to the normal layer. -/
abbrev Moved := Shell × List ℕ

/-- One call after the other. -/
def Moved.andThen (r : Option Moved) (f : Shell → Option Moved) : Option Moved :=
  r.bind fun m => (f m.1).map fun n => (n.1, m.2 ++ n.2)

namespace Shell

variable (s : Shell)

def initial (seat : Bool) : Shell where
  seat := seat
  created := 0
  live := []
  acglassNextWindowId := 0
  acglassWindowId := fun _ => 0
  parent := fun _ => none
  children := fun _ => []
  mapped := fun _ => false
  links := fun _ => none
  activeSurfaceTree := none
  normalLayer := []
  inactiveLayer := []
  focusedSurface := none
  events := []

/-- More steps than a walk over all windows can take. -/
def fuel : ℕ := 2 * s.created + 2

def emit (type : EventType) (w : ℕ) : Shell := { s with events := s.events ++ [(type, w)] }

/-- A view is taken out of the layer that it is in. -/
def leaveLayers (w : ℕ) : Shell :=
  { s with
    normalLayer := s.normalLayer.filter (· ≠ w)
    inactiveLayer := s.inactiveLayer.filter (· ≠ w) }

def moveToNormal (w : ℕ) : Shell :=
  let s := s.leaveLayers w
  { s with normalLayer := w :: s.normalLayer }

def moveToInactive (w : ℕ) : Shell :=
  let s := s.leaveLayers w
  { s with inactiveLayer := w :: s.inactiveLayer }

/-- `kiosk_shell_surface_get_parent_root` -/
def parentRootFrom (parent : ℕ → Option ℕ) : ℕ → ℕ → Option ℕ
  | 0, _ => none
  | fuel + 1, w =>
    match parent w with
    | none => some w
    | some p => parentRootFrom parent fuel p

def parentRoot (w : ℕ) : Option ℕ := parentRootFrom s.parent s.fuel w

/-- `kiosk_shell_surface_is_descendant_of` -/
def descendsFrom (parent : ℕ → Option ℕ) (ancestor : ℕ) : ℕ → Option ℕ → Option Bool
  | 0, _ => none
  | _ + 1, none => some false
  | fuel + 1, some w =>
    if w = ancestor then some true else descendsFrom parent ancestor fuel (parent w)

def isDescendantOf (w ancestor : ℕ) : Option Bool := descendsFrom s.parent ancestor s.fuel (some w)

/-- The windows of a surface tree in the order of `wl_list_for_each_reverse`. -/
def surfaceTree (root : ℕ) : Option (List ℕ) :=
  (backward s.links s.fuel (.treeList root)).bind fun nodes => nodes.mapM Node.window

/-- The windows of the active tree. -/
def activeWindows : Option (List ℕ) :=
  match s.activeSurfaceTree with
  | none => some []
  | some active => s.surfaceTree active

/-- `kiosk_shell_output_set_active_surface_tree` -/
def setActiveSurfaceTree (root : Option ℕ) : Option Moved :=
  s.activeWindows.bind fun old =>
    let s := old.foldl moveToInactive s
    match root with
    | none => some ({ s with activeSurfaceTree := none }, [])
    | some root => (s.surfaceTree root).map fun new =>
      ({ new.foldl moveToNormal s with activeSurfaceTree := some root }, new)

/-- The selection of nodes below a window. -/
def selectBelow (w : ℕ) (node : Node) : Option Bool := do
  let x ← node.window
  s.isDescendantOf x w

/-- `kiosk_shell_output_raise_surface_subtree` -/
def raiseSurfaceSubtree (w : ℕ) : Option Moved :=
  match s.activeSurfaceTree with
  | none => some (s, [])
  | some active => do
    let (links, _) ← moveAll (s.selectBelow w) s.fuel (init s.links .tmpList) .tmpList
      (.treeList active)
    let (links, nodes) ← moveAll (fun _ => some true) s.fuel links (.treeList active) .tmpList
    let raised ← nodes.mapM Node.window
    return ({ raised.foldl moveToNormal s with links }, raised)

/-- `kiosk_shell_surface_activate`, for the seat if there is one. -/
def activate (w : ℕ) : Option Moved :=
  if s.seat then { s with focusedSurface := some w }.raiseSurfaceSubtree w else some (s, [])

/-- The listener and the field of `kiosk_shell_surface_set_parent`. -/
def listen (w : ℕ) (parent : Option ℕ) : Shell :=
  let children :=
    match s.parent w with
    | none => s.children
    | some p => Function.update s.children p ((s.children p).erase w)
  let children :=
    match parent with
    | none => children
    | some p => Function.update children p (children p ++ [w])
  { s with parent := Function.update s.parent w parent, children }

/-- `kiosk_shell_surface_set_parent` -/
def setParent (w : ℕ) (parent : Option ℕ) : Option Moved := do
  let shroot ← s.parentRoot (parent.getD w)
  if parent = none ∧ w = shroot then return (s, [])
  else
    let s := s.listen w parent
    match parent with
    | some _ =>
      let inTree ← search s.links s.fuel (.treeList shroot) (.treeLink w)
      if inTree then return (s, [])
      else
        let links ← moveToTop s.links (.treeList shroot) (.treeLink w)
        return ({ s with links }, [])
    | none =>
      let (links, _) ← moveAll (s.selectBelow w) s.fuel (init s.links (.treeList w)) (.treeList w)
        (.treeList shroot)
      let s := { s with links }
      s.setActiveSurfaceTree (some w)

/-- `kiosk_shell_surface_notify_parent_destroy` of each listener. -/
def tellChildren (w : ℕ) (s : Shell) : List ℕ → Option Moved
  | [] => some (s, [])
  | child :: children =>
    Moved.andThen (s.setParent child (s.parent w)) fun s => tellChildren w s children

/-- One layer of `find_focus_successor`; the walk ends at a view of the same tree. -/
def scanLayer (w parentRoot : ℕ) (onOutput : List ℕ) : Option ℕ → List ℕ → Option (Option ℕ)
  | top, [] => some top
  | top, v :: views =>
    if v = w ∨ v ∉ onOutput then scanLayer w parentRoot onOutput top views
    else do
      let root ← s.parentRoot v
      if root = parentRoot then return some v
      else scanLayer w parentRoot onOutput (top.or (some v)) views

/-- `onOutput` are the windows whose view is on the output. -/
def findFocusSuccessor (w : ℕ) (onOutput : List ℕ) : Option (Option ℕ) := do
  let parentRoot ← s.parentRoot w
  let top ← s.scanLayer w parentRoot onOutput none s.normalLayer
  s.scanLayer w parentRoot onOutput top s.inactiveLayer

/-- The tree of a successor is shown if its view is in the hidden layer. -/
def showSuccessor (successor : ℕ) : Option Moved :=
  if successor ∈ s.inactiveLayer then
    (s.parentRoot successor).bind fun shroot => s.setActiveSurfaceTree (some shroot)
  else some (s, [])

/-- The part of `desktop_surface_removed` that moves the focus. -/
def passFocus (w : ℕ) (onOutput : List ℕ) : Option Moved :=
  (s.findFocusSuccessor w onOutput).bind fun
    | some successor => Moved.andThen (s.showSuccessor successor) fun s => s.activate successor
    | none =>
      let s := { s with focusedSurface := none }
      s.setActiveSurfaceTree none

/-- `kiosk_shell_surface_destroy` -/
def destroy (w : ℕ) : Option Shell := do
  let links ← remove s.links (.treeLink w)
  let links := Function.update (Function.update links (.treeLink w) none) (.treeList w) none
  let s := s.listen w none
  let s := s.leaveLayers w
  return { s with links, live := s.live.filter (· ≠ w) }

def hasFocus (w : ℕ) (elsewhere : Bool) : Prop :=
  s.seat = true ∧ s.focusedSurface ≠ none ∧ (s.focusedSurface = some w ∨ elsewhere = true)

instance (w : ℕ) (elsewhere : Bool) : Decidable (s.hasFocus w elsewhere) :=
  inferInstanceAs (Decidable (_ ∧ _ ∧ (_ ∨ _)))

end Shell

/-- What clients, the seat and the Android side ask for. `elsewhere`: the output of the
surface differs from that of the focused one. -/
inductive Request
  | added
  | committed (w : ℕ)
  | unmapped (w : ℕ)
  | minimizedRequested (w : ℕ)
  | restore (windowId : UInt32)
  | setParent (w : ℕ) (parent : Option ℕ)
  | activate (w : ℕ)
  | removed (w : ℕ) (elsewhere : Bool) (onOutput : List ℕ)
  deriving DecidableEq, Repr

namespace Shell

variable (s : Shell)

/-- `kiosk_shell_surface_create` -/
def create : Option Shell := do
  let w := s.created
  let next := s.acglassNextWindowId + 1
  let id := if next = 0 then next + 1 else next
  let links ← insert (init (init s.links (.treeList w)) (.treeLink w)) (.treeList w) (.treeLink w)
  return { s with
    created := s.created + 1
    live := s.live ++ [w]
    acglassNextWindowId := id
    acglassWindowId := Function.update s.acglassWindowId w id
    links }

def surfaceAdded : Option Moved := s.create.map fun t => (t.emit .opened s.created, [])

/-- `desktop_surface_committed` with content. -/
def surfaceCommitted (w : ℕ) : Option Moved :=
  if s.mapped w then some (s, [])
  else
    let s := { s with mapped := Function.update s.mapped w true }
    Moved.andThen
      (if s.parent w = none then s.setActiveSurfaceTree (some w) else some (s, []))
      fun s => s.activate w

/-- `weston_surface_unmap` -/
def surfaceUnmapped (w : ℕ) : Shell :=
  let s := s.leaveLayers w
  { s with mapped := Function.update s.mapped w false }

/-- The first part of `desktop_surface_minimized_requested`. -/
def hide (w : ℕ) : Option Moved := do
  let shroot ← s.parentRoot w
  if s.activeSurfaceTree = some shroot then s.setActiveSurfaceTree none
  else return (s.moveToInactive w, [])

def surfaceMinimizedRequested (w : ℕ) : Option Moved :=
  (s.hide w).map fun m => (m.1.emit .minimized w, m.2)

/-- `acglass_find_window` -/
def findWindow (windowId : UInt32) : Option ℕ :=
  (s.normalLayer ++ s.inactiveLayer).find? fun w => s.acglassWindowId w = windowId

/-- `acglass_restore_window` for the window that it finds. -/
def restoreWindow (w : ℕ) : Option Moved := do
  let shroot ← s.parentRoot w
  let m ← Moved.andThen
    (Moved.andThen (s.setActiveSurfaceTree (some shroot)) fun s => s.raiseSurfaceSubtree w)
    fun s => s.activate w
  return (m.1.emit .restored w, m.2)

def restore (windowId : UInt32) : Option Moved :=
  match s.findWindow windowId with
  | none => some (s, [])
  | some w => s.restoreWindow w

/-- `desktop_surface_removed` -/
def surfaceRemoved (w : ℕ) (elsewhere : Bool) (onOutput : List ℕ) : Option Moved := do
  let s := s.emit .closed w
  let m ← Moved.andThen (s.tellChildren w (s.children w)) fun s =>
    if s.hasFocus w elsewhere then s.passFocus w onOutput else some (s, [])
  let s ← m.1.destroy w
  return (s, m.2)

/-- The request is about windows that exist. -/
def Enabled : Request → Prop
  | .added | .restore _ => True
  | .committed w | .unmapped w | .minimizedRequested w | .activate w | .removed w _ _ => w ∈ s.live
  | .setParent w parent => w ∈ s.live ∧ ∀ p ∈ parent, p ∈ s.live

instance : ∀ r, Decidable (s.Enabled r)
  | .added | .restore _ => isTrue trivial
  | .committed w | .unmapped w | .minimizedRequested w | .activate w | .removed w _ _ =>
    inferInstanceAs (Decidable (w ∈ s.live))
  | .setParent w parent => inferInstanceAs (Decidable (w ∈ s.live ∧ ∀ p ∈ parent, p ∈ s.live))

/-- What a request makes of the shell. -/
def handle : Request → Option Moved
  | .added => s.surfaceAdded
  | .committed w => s.surfaceCommitted w
  | .unmapped w => some (s.surfaceUnmapped w, [])
  | .minimizedRequested w => s.surfaceMinimizedRequested w
  | .restore windowId => s.restore windowId
  | .setParent w parent => s.setParent w parent
  | .activate w => s.activate w
  | .removed w elsewhere onOutput => s.surfaceRemoved w elsewhere onOutput

def step (r : Request) : Option Shell :=
  if s.Enabled r then (s.handle r).map Prod.fst else none

end Shell

end Kiosk
end ACGlass
