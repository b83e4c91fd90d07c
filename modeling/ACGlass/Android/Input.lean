import ACGlass.Android.MouseButtons
import ACGlass.Anland.Seat

/-!
# Input events on their way to the library

The listeners of `DisplayActivity` and `DisplayOverlayService`, and what `native_consumer.c`
makes of their calls. Both classes handle pointers alike; they differ in the keys.
-/

namespace ACGlass
namespace Android

variable {φ : Type*}

inductive ToolType
  | finger
  | mouse
  | other
  deriving DecidableEq, Repr

/-- `getActionMasked` -/
inductive PointerAction
  | down
  | up
  | move
  | cancel
  | pointerDown
  | pointerUp
  | hoverMove
  | hoverEnter
  | hoverExit
  | scroll
  | other
  deriving DecidableEq, Repr

structure Pointer (φ : Type*) where
  id : Int32
  x : φ
  y : φ
  toolType : ToolType
  deriving DecidableEq, Repr

/-- The `MotionEvent` that the listeners read, with the pointer of its action index between the
ones before and after it. -/
structure PointerEvent (φ : Type*) where
  source : BitVec 32
  classification : Int32
  action : PointerAction
  before : List (Pointer φ)
  acting : Pointer φ
  after : List (Pointer φ)
  raw : φ × φ
  historical : List (φ × φ)
  buttonState : BitVec 32
  relative : φ × φ
  vScroll : φ
  hScroll : φ
  gestureScroll : φ × φ
  deriving DecidableEq, Repr

def twoFingerSwipe : Int32 := 3

def multiFingerSwipe : Int32 := 4

def pinch : Int32 := 5

def sourceTouchscreen : BitVec 32 := 0x1002

def sourceMouse : BitVec 32 := 0x2002

namespace PointerEvent

variable (e : PointerEvent φ)

def pointers : List (Pointer φ) := e.before ++ e.acting :: e.after

/-- What `getX()` and `getY()` read. -/
def firstPointer : Pointer φ := e.before.head?.getD e.acting

def motion : MotionEvent φ where
  x := e.firstPointer.x
  y := e.firstPointer.y
  historical := e.historical
  buttonState := e.buttonState

def isMouseEvent : Bool :=
  if e.source &&& sourceTouchscreen = sourceTouchscreen then false
  else if e.source &&& sourceMouse ≠ sourceMouse then false
  else e.acting.toolType = .mouse || e.acting.toolType = .finger

end PointerEvent

/-- The calls of the native methods. -/
inductive Sent (φ : Type*)
  | touch (action : Int32) (x y : φ) (pointerId : Int32)
  | touchFrame
  | key (action scanCode : Int32)
  | mouse (message : MouseMessage φ)
  | mouseScroll (axis : UInt32) (value : φ)

/-- The surface on the screen. -/
structure Surface (φ : Type*) where
  left : φ
  top : φ
  width : φ
  height : φ

/-- Every listener returns `savedBS`, its calls and whether it has consumed the event. -/
abbrev Handled (φ : Type*) := BitVec 32 × List (Sent φ) × Bool

section Pointers

variable (savedBS : BitVec 32) (e : PointerEvent φ)

def Pointer.send (action : Int32) (p : Pointer φ) : Sent φ := .touch action p.x p.y p.id

def handleTouchEvent : Handled φ :=
  match e.action with
  | .down | .pointerDown => (savedBS, [e.acting.send 0, .touchFrame], true)
  | .up | .pointerUp => (savedBS, [e.acting.send 1, .touchFrame], true)
  | .move => (savedBS, e.pointers.map (Pointer.send 2) ++ [.touchFrame], true)
  | .cancel => (savedBS, e.pointers.map (Pointer.send 1) ++ [.touchFrame], true)
  | _ => (savedBS, [], false)

variable [Zero φ] [Sub φ] [Neg φ] [Mul φ] [OfNat φ 10] [DecidableEq φ]

/-- The two calls of a scroll, if there is anything to scroll. -/
def scrolls (vertical horizontal : φ) (v h : φ) : List (Sent φ) :=
  (if vertical ≠ 0 then [.mouseScroll 0 v] else []) ++
    if horizontal ≠ 0 then [.mouseScroll 1 h] else []

def handleTouchpadScroll : Handled φ :=
  let (scrollX, scrollY) := e.gestureScroll
  (savedBS, if e.action = .move then scrolls scrollY scrollX scrollY (-scrollX) else [], true)

def handleDisplayTouchEvent : Handled φ :=
  if e.isMouseEvent then
    if e.classification = twoFingerSwipe then handleTouchpadScroll savedBS e
    else if e.classification = multiFingerSwipe ∨ e.classification = pinch then
      handleTouchEvent savedBS e
    else
      let (savedBS, messages) := handleMouseEvent savedBS e.motion
      (savedBS, messages.map .mouse, true)
  else handleTouchEvent savedBS e

variable [LT φ] [LE φ] [DecidableLT φ] [DecidableLE φ]

def Surface.outside (surface : Surface φ) (x y : φ) : Bool :=
  x < 0 || y < 0 || surface.width ≤ x || surface.height ≤ y

/-- The buttons are released outside of the surface. -/
def handleOutside : Handled φ :=
  let (savedBS, messages) := releaseSavedMouseButtons savedBS
  (savedBS, messages.map .mouse,
    e.action = .hoverMove || e.action = .hoverEnter || e.action = .hoverExit ||
      e.action = .scroll)

def handleDisplayGenericMotionEvent (surface : Surface φ) (x y : φ) : Handled φ :=
  if e.isMouseEvent then
    if surface.outside x y then handleOutside savedBS e
    else
      match e.action with
      | .hoverMove => (savedBS, [.mouse (.motion x y e.relative.1 e.relative.2)], true)
      | .hoverExit =>
        let (savedBS, messages) := releaseSavedMouseButtons savedBS
        (savedBS, messages.map .mouse, true)
      | .scroll =>
        (savedBS, scrolls e.vScroll e.hScroll (-e.vScroll * 10) (e.hScroll * 10), true)
      | _ => (savedBS, [], false)
  else (savedBS, [], false)

def handleRootGenericMotionEvent (surface : Surface φ) : Handled φ :=
  if !e.isMouseEvent then (savedBS, [], false)
  else
    let x := e.raw.1 - surface.left
    let y := e.raw.2 - surface.top
    if surface.outside x y then handleOutside savedBS e
    else handleDisplayGenericMotionEvent savedBS e surface x y

end Pointers

section Keys

/-- `KeyEvent`; the action is neither `ACTION_DOWN` nor `ACTION_UP` in `other`. -/
inductive KeyAction
  | down
  | up
  | other
  deriving DecidableEq, Repr

structure KeyEvent where
  action : KeyAction
  keyCode : Int32
  repeatCount : ℕ
  scanCode : Int32
  deriving DecidableEq, Repr

def keycodeBack : Int32 := 4

/-- The class that shows the display. -/
inductive View
  | activity
  | overlay
  deriving DecidableEq, Repr

variable (φ) (e : KeyEvent)

/-- The back key is left to the superclass. -/
def onKeyDown : List (Sent φ) :=
  if e.keyCode = keycodeBack then []
  else if 0 < e.repeatCount then []
  else if e.scanCode ≠ 0 then [.key 0 e.scanCode] else []

def onKeyUp : List (Sent φ) :=
  if e.keyCode = keycodeBack then []
  else if e.scanCode ≠ 0 then [.key 1 e.scanCode] else []

/-- The overlay is closed when the back key goes up, and not before. -/
def handleOverlayKeyEvent : List (Sent φ) :=
  if e.action = .other then []
  else if e.keyCode = keycodeBack ∧ e.action = .up then []
  else if e.action = .down ∧ 0 < e.repeatCount then []
  else if e.scanCode ≠ 0 then [.key (if e.action = .down then 0 else 1) e.scanCode] else []

def View.handleKey : View → List (Sent φ)
  | .activity =>
    match e.action with
    | .down => onKeyDown φ e
    | .up => onKeyUp φ e
    | .other => []
  | .overlay => handleOverlayKeyEvent φ e

end Keys

/-- The event that a native method pushes, without its floats. -/
def Sent.event : Sent φ → Anland.InputEvent
  | .touch action _ _ pointerId => .touch action pointerId
  | .touchFrame => .touchFrame
  | .key action scanCode => .key action scanCode
  | .mouse (.motion _ _ _ _) => .pointerMotion
  | .mouse (.button code isDown) => .pointerButton (.ofNat code) (if isDown then 1 else 0)
  | .mouseScroll axis _ => .pointerAxis axis 0

end Android
end ACGlass
