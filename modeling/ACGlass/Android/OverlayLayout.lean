import Mathlib.Data.Int.Basic
import Mathlib.Data.Int.DivMod
import Mathlib.Tactic

/-!
# The overlay's geometry

`DisplayOverlayService` lets the overlay be dragged, resized, maximised and minimised. Along
both axes it computes the same, so each step is written once for a span.
-/

namespace ACGlass
namespace Android

/-- A Java `int` after an overflow. -/
def wrap (n : ℤ) : ℤ := n.bmod (2 ^ 32)

def clamp (value min max : ℤ) : ℤ := Max.max min (Min.min max value)

theorem clamp_bounds {min max : ℤ} (h : min ≤ max) (value : ℤ) :
    min ≤ clamp value min max ∧ clamp value min max ≤ max :=
  ⟨le_max_left _ _, max_le h (min_le_left _ _)⟩

/-- The screen along an axis, with `dp` values of the window. -/
structure Axis where
  screen : ℤ
  margin : ℤ
  minimum : ℤ
  default : ℤ
  deriving DecidableEq, Repr

/-- The window along an axis. -/
structure Span where
  pos : ℤ
  size : ℤ
  deriving DecidableEq, Repr

namespace Axis

variable (a : Axis)

def initial : Span :=
  let size := min a.default (max a.minimum (a.screen - a.margin * 2))
  ⟨max a.margin ((a.screen - size).tdiv 2), size⟩

/-- Only the sum can overflow, whose first summand was a position when the drag began. -/
def moved (s : Span) (dragStart offset : ℤ) : Span :=
  let maxPos := max a.margin (a.screen - s.size - a.margin)
  { s with pos := clamp (wrap (dragStart + offset)) a.margin maxPos }

def resized (s : Span) (dragStart offset : ℤ) : Span :=
  let maxSize := max a.minimum (a.screen - s.pos - a.margin)
  { s with size := clamp (wrap (dragStart + offset)) a.minimum maxSize }

def maximized : Span := ⟨a.margin, a.screen - a.margin * 2⟩

/-- The screen has room for the smallest window. -/
structure Fits : Prop where
  margin : 0 < a.margin
  minimum : 0 < a.minimum
  screen : a.minimum + 2 * a.margin ≤ a.screen
  default : a.minimum ≤ a.default

/-- The span lies between the margins. -/
structure Holds (s : Span) : Prop where
  start : a.margin ≤ s.pos
  stop : s.pos + s.size ≤ a.screen - a.margin
  size : a.minimum ≤ s.size

variable {a} {s : Span}

theorem Fits.initial (h : a.Fits) : a.Holds a.initial := by
  obtain ⟨hmargin, hminimum, hscreen, hdefault⟩ := h
  have hmax : max a.minimum (a.screen - a.margin * 2) = a.screen - a.margin * 2 := by omega
  have hsize : a.initial.size = min a.default (a.screen - a.margin * 2) := by
    rw [Axis.initial, hmax]
  have hpos : a.initial.pos = max a.margin ((a.screen - a.initial.size) / 2) := by
    rw [← Int.tdiv_eq_ediv_of_nonneg (by omega)]
    rfl
  exact ⟨by omega, by omega, by omega⟩

/-- The upper bound of a move does not cross the lower one, as the window fits. -/
theorem Holds.moved (h : a.Holds s) (dragStart offset : ℤ) :
    a.Holds (a.moved s dragStart offset) := by
  obtain ⟨hstart, hstop, hsize⟩ := h
  have hmax : max a.margin (a.screen - s.size - a.margin) = a.screen - s.size - a.margin := by
    omega
  have hbounds : a.margin ≤ a.screen - s.size - a.margin := by omega
  have hpos : (a.moved s dragStart offset).pos =
      clamp (wrap (dragStart + offset)) a.margin (a.screen - s.size - a.margin) := by
    rw [Axis.moved, hmax]
  have hclamp := clamp_bounds hbounds (wrap (dragStart + offset))
  have hsame : (a.moved s dragStart offset).size = s.size := rfl
  exact ⟨by omega, by omega, by omega⟩

theorem Holds.resized (h : a.Holds s) (dragStart offset : ℤ) :
    a.Holds (a.resized s dragStart offset) := by
  obtain ⟨hstart, hstop, hsize⟩ := h
  have hmax : max a.minimum (a.screen - s.pos - a.margin) = a.screen - s.pos - a.margin := by
    omega
  have hbounds : a.minimum ≤ a.screen - s.pos - a.margin := by omega
  have hnew : (a.resized s dragStart offset).size =
      clamp (wrap (dragStart + offset)) a.minimum (a.screen - s.pos - a.margin) := by
    rw [Axis.resized, hmax]
  have hclamp := clamp_bounds hbounds (wrap (dragStart + offset))
  have hsame : (a.resized s dragStart offset).pos = s.pos := rfl
  exact ⟨by omega, by omega, by omega⟩

theorem Fits.maximized (h : a.Fits) : a.Holds a.maximized := by
  obtain ⟨hmargin, hminimum, hscreen, hdefault⟩ := h
  have hpos : a.maximized.pos = a.margin := rfl
  have hsize : a.maximized.size = a.screen - a.margin * 2 := rfl
  exact ⟨by omega, by omega, by omega⟩

end Axis

/-- The horizontal and the vertical axis of the screen. -/
structure Metrics where
  width : Axis
  height : Axis
  deriving DecidableEq, Repr

structure OverlayRect where
  x : ℤ
  y : ℤ
  width : ℤ
  height : ℤ
  deriving DecidableEq, Repr

namespace OverlayRect

def horizontal (r : OverlayRect) : Span := ⟨r.x, r.width⟩

def vertical (r : OverlayRect) : Span := ⟨r.y, r.height⟩

def ofSpans (h v : Span) : OverlayRect := ⟨h.pos, v.pos, h.size, v.size⟩

/-- The rectangle is on the screen and not too small. -/
structure OnScreen (m : Metrics) (r : OverlayRect) : Prop where
  left : m.width.margin ≤ r.x
  top : m.height.margin ≤ r.y
  right : r.x + r.width ≤ m.width.screen - m.width.margin
  bottom : r.y + r.height ≤ m.height.screen - m.height.margin
  width : m.width.minimum ≤ r.width
  height : m.height.minimum ≤ r.height

theorem onScreen_iff {m : Metrics} {r : OverlayRect} :
    r.OnScreen m ↔ m.width.Holds r.horizontal ∧ m.height.Holds r.vertical := by
  constructor
  · intro h
    exact ⟨⟨h.left, h.right, h.width⟩, h.top, h.bottom, h.height⟩
  · rintro ⟨h, v⟩
    exact ⟨h.start, v.start, h.stop, v.stop, h.size, v.size⟩

end OverlayRect

/-- The fields that place the overlay; the drag starts are kept for both ways to drag. -/
structure Overlay where
  overlayLayout : OverlayRect
  normalOverlayLayout : OverlayRect
  customMaximized : Bool
  customMinimized : Bool
  dragStartX : ℤ
  dragStartY : ℤ
  dragStartWidth : ℤ
  dragStartHeight : ℤ
  deriving DecidableEq, Repr

/-- A touch, with the rounded way from where the finger went down. -/
inductive Touch
  | down
  | move (dx dy : ℤ)
  | up
  | cancel
  | other
  deriving DecidableEq, Repr

inductive OverlayAction
  | titleBar (touch : Touch)
  | resize (touch : Touch)
  | toggle
  | minimize
  | restore
  deriving DecidableEq, Repr

section Actions

variable (m : Metrics) (o : Overlay)

def initialOverlayLayout : OverlayRect := .ofSpans m.width.initial m.height.initial

/-- As `buildOverlayWindow` leaves the fields. -/
def Overlay.initial : Overlay :=
  ⟨initialOverlayLayout m, initialOverlayLayout m, false, false, 0, 0, 0, 0⟩

def moveOverlay (dx dy : ℤ) : Overlay :=
  { o with
    overlayLayout := .ofSpans (m.width.moved o.overlayLayout.horizontal o.dragStartX dx)
      (m.height.moved o.overlayLayout.vertical o.dragStartY dy) }

def resizeOverlay (dx dy : ℤ) : Overlay :=
  { o with
    overlayLayout := .ofSpans (m.width.resized o.overlayLayout.horizontal o.dragStartWidth dx)
      (m.height.resized o.overlayLayout.vertical o.dragStartHeight dy) }

/-- What both touch listeners do; they differ in what they keep and in what they change. -/
def handleDrag (down : Overlay) (move : ℤ → ℤ → Overlay) (touch : Touch) : Overlay :=
  if o.customMaximized || o.customMinimized then o
  else match touch with
    | .down => down
    | .move dx dy => move dx dy
    | .up | .cancel => { o with normalOverlayLayout := o.overlayLayout }
    | .other => o

def handleTitleBarTouch (touch : Touch) : Overlay :=
  handleDrag o { o with dragStartX := o.overlayLayout.x, dragStartY := o.overlayLayout.y }
    (moveOverlay m o) touch

def handleResizeTouch (touch : Touch) : Overlay :=
  handleDrag o
    { o with dragStartWidth := o.overlayLayout.width, dragStartHeight := o.overlayLayout.height }
    (resizeOverlay m o) touch

def minimizeCustomWindow : Overlay := { o with customMinimized := true }

def restoreCustomWindow : Overlay := { o with customMinimized := false }

def toggleCustomMaximized : Overlay :=
  let o := if o.customMinimized then restoreCustomWindow o else o
  if o.customMaximized then
    { o with customMaximized := false, overlayLayout := o.normalOverlayLayout }
  else
    { o with
      customMaximized := true
      normalOverlayLayout := o.overlayLayout
      overlayLayout := .ofSpans m.width.maximized m.height.maximized }

def OverlayAction.step : OverlayAction → Overlay
  | .titleBar touch => handleTitleBarTouch m o touch
  | .resize touch => handleResizeTouch m o touch
  | .toggle => toggleCustomMaximized m o
  | .minimize => minimizeCustomWindow o
  | .restore => restoreCustomWindow o

end Actions

section Invariant

structure Metrics.Fits (m : Metrics) : Prop where
  width : m.width.Fits
  height : m.height.Fits

/-- Both the rectangle that is shown and the one to return to are on the screen. -/
structure Overlay.OnScreen (m : Metrics) (o : Overlay) : Prop where
  overlay : o.overlayLayout.OnScreen m
  normal : o.normalOverlayLayout.OnScreen m

variable {m : Metrics} {o : Overlay}

theorem Metrics.Fits.initial (h : m.Fits) : (Overlay.initial m).OnScreen m := by
  have hlayout : (initialOverlayLayout m).OnScreen m :=
    OverlayRect.onScreen_iff.mpr ⟨h.width.initial, h.height.initial⟩
  exact ⟨hlayout, hlayout⟩

theorem Metrics.Fits.maximized (h : m.Fits) :
    (OverlayRect.ofSpans m.width.maximized m.height.maximized).OnScreen m :=
  OverlayRect.onScreen_iff.mpr ⟨h.width.maximized, h.height.maximized⟩

theorem moveOverlay_onScreen (ho : o.OnScreen m) (dx dy : ℤ) :
    (moveOverlay m o dx dy).OnScreen m := by
  obtain ⟨hwidth, hheight⟩ := OverlayRect.onScreen_iff.mp ho.overlay
  exact ⟨OverlayRect.onScreen_iff.mpr ⟨hwidth.moved _ dx, hheight.moved _ dy⟩, ho.normal⟩

theorem resizeOverlay_onScreen (ho : o.OnScreen m) (dx dy : ℤ) :
    (resizeOverlay m o dx dy).OnScreen m := by
  obtain ⟨hwidth, hheight⟩ := OverlayRect.onScreen_iff.mp ho.overlay
  exact ⟨OverlayRect.onScreen_iff.mpr ⟨hwidth.resized _ dx, hheight.resized _ dy⟩, ho.normal⟩

theorem handleDrag_onScreen {down : Overlay} {move : ℤ → ℤ → Overlay} (ho : o.OnScreen m)
    (hdown : down.OnScreen m) (hmove : ∀ dx dy, (move dx dy).OnScreen m) (touch : Touch) :
    (handleDrag o down move touch).OnScreen m := by
  unfold handleDrag
  split_ifs
  · exact ho
  · cases touch with
    | down => exact hdown
    | move dx dy => exact hmove dx dy
    | up => exact ⟨ho.overlay, ho.overlay⟩
    | cancel => exact ⟨ho.overlay, ho.overlay⟩
    | other => exact ho

theorem toggleCustomMaximized_onScreen (h : m.Fits) (ho : o.OnScreen m) :
    (toggleCustomMaximized m o).OnScreen m := by
  rw [toggleCustomMaximized]
  have hrestored : (if o.customMinimized then restoreCustomWindow o else o).OnScreen m := by
    split_ifs
    · exact ⟨ho.overlay, ho.normal⟩
    · exact ho
  generalize (if o.customMinimized then restoreCustomWindow o else o) = o' at hrestored
  split_ifs
  · exact ⟨hrestored.normal, hrestored.normal⟩
  · exact ⟨h.maximized, hrestored.overlay⟩

theorem step_onScreen (h : m.Fits) (ho : o.OnScreen m) (a : OverlayAction) :
    (a.step m o).OnScreen m := by
  cases a with
  | titleBar touch =>
    apply handleDrag_onScreen ho
    · exact ⟨ho.overlay, ho.normal⟩
    · exact moveOverlay_onScreen ho
  | resize touch =>
    apply handleDrag_onScreen ho
    · exact ⟨ho.overlay, ho.normal⟩
    · exact resizeOverlay_onScreen ho
  | toggle => exact toggleCustomMaximized_onScreen h ho
  | minimize => exact ⟨ho.overlay, ho.normal⟩
  | restore => exact ⟨ho.overlay, ho.normal⟩

/-- The overlay after a sequence of actions. -/
def runActions (m : Metrics) (o : Overlay) : List OverlayAction → Overlay
  | [] => o
  | a :: acts => runActions m (a.step m o) acts

theorem runActions_onScreen (h : m.Fits) (ho : o.OnScreen m) (acts : List OverlayAction) :
    (runActions m o acts).OnScreen m := by
  induction acts generalizing o with
  | nil => exact ho
  | cons a acts ih => exact ih (step_onScreen h ho a)

/-- Whatever is dragged, maximised and minimised, the overlay stays on the screen. -/
theorem overlay_stays_onScreen (h : m.Fits) (acts : List OverlayAction) :
    (runActions m (.initial m) acts).OnScreen m :=
  runActions_onScreen h h.initial acts

theorem overlay_stays_onScreen_phone :
    (runActions ⟨⟨1080, 47, 945, 2520⟩, ⟨2400, 47, 630, 1680⟩⟩
      (.initial ⟨⟨1080, 47, 945, 2520⟩, ⟨2400, 47, 630, 1680⟩⟩)
      [.resize .down, .resize (.move (-200) (-900)), .toggle, .titleBar .down, .toggle,
        .titleBar (.move 2000 (-5000)), .titleBar .up]).OnScreen
      ⟨⟨1080, 47, 945, 2520⟩, ⟨2400, 47, 630, 1680⟩⟩ :=
  overlay_stays_onScreen ⟨⟨by decide, by decide, by decide, by decide⟩,
    by decide, by decide, by decide, by decide⟩ _

end Invariant

end Android
end ACGlass
