import Mathlib.Data.Finset.Basic
import Mathlib.Tactic

/-!
# The window events of the Android displays

`DisplayOverlayService` and `DisplayActivity` keep the set of open windows, and post a
delayed callback that finishes the display when the set is empty.
-/

namespace ACGlass
namespace Android

/-- The `WINDOW_EVENT_*` values. -/
inductive EventType
  | opened
  | closed
  | minimized
  | restored
  | other (code : Int32)
  deriving DecidableEq, Repr

/-- The fields of either class that the window events touch. `closing` is the
`closingFromBack` of the activity, and only the activity sets
`keepDisplayWhileBackgrounded`. `posted` are the generations of the callbacks that have not
run yet. -/
structure Display where
  lastWindowId : UInt32
  windowMinimizedByCompositor : Bool
  customMinimized : Bool
  keepDisplayWhileBackgrounded : Bool
  activeWindowIds : Finset UInt32
  emptyWindowExitGeneration : UInt32
  closing : Bool
  posted : List UInt32
  deriving DecidableEq

namespace Display

variable (s : Display)

def scheduleFinishIfNoWindows : Display :=
  let generation := s.emptyWindowExitGeneration + 1
  { s with emptyWindowExitGeneration := generation, posted := s.posted ++ [generation] }

/-- The callback that `scheduleFinishIfNoWindows` posts. -/
def finishIfNoWindows (generation : UInt32) : Display :=
  if s.closing ∨ generation ≠ s.emptyWindowExitGeneration ∨ s.activeWindowIds ≠ ∅ then s
  else { s with closing := true }

def minimizeCustomWindow : Display :=
  if s.customMinimized then s else { s with customMinimized := true }

/-- `restoreCustomWindow(false)` -/
def restoreCustomWindow : Display := { s with customMinimized := false }

/-- `if (windowId != 0) lastWindowId = windowId;` -/
def noteWindow (windowId : UInt32) : Display :=
  if windowId ≠ 0 then { s with lastWindowId := windowId } else s

def addWindow (windowId : UInt32) : Display :=
  if windowId ≠ 0 then { s with activeWindowIds := insert windowId s.activeWindowIds } else s

def removeWindow (windowId : UInt32) : Display :=
  if windowId ≠ 0 then { s with activeWindowIds := s.activeWindowIds.erase windowId } else s

/-- The guard of a `CLOSED` that is ignored. -/
def ignoresClose (hasLaunchToken : Bool) (windowId : UInt32) : Bool :=
  hasLaunchToken && s.windowMinimizedByCompositor && windowId = s.lastWindowId

end Display

def DisplayOverlayService.handleWindowEvent (hasLaunchToken : Bool) (s : Display)
    (type : EventType) (windowId : UInt32) : Display :=
  if s.closing then s
  else
    let s := s.noteWindow windowId
    match type with
    | .closed =>
      if s.ignoresClose hasLaunchToken windowId then s
      else
        let s := s.removeWindow windowId
        if hasLaunchToken ∧ s.activeWindowIds ≠ ∅ then s
        else s.scheduleFinishIfNoWindows
    | .minimized => { s with windowMinimizedByCompositor := true }.minimizeCustomWindow
    | .restored | .opened =>
      let s := s.addWindow windowId
      { s with
        emptyWindowExitGeneration := s.emptyWindowExitGeneration + 1
        windowMinimizedByCompositor := false }.restoreCustomWindow
    | .other _ => s

/-- Without a launch token the activity finishes at once. -/
def DisplayActivity.handleWindowEvent (hasLaunchToken : Bool) (s : Display)
    (type : EventType) (windowId : UInt32) : Display :=
  if s.closing then s
  else
    let s := s.noteWindow windowId
    match type with
    | .closed =>
      if s.ignoresClose hasLaunchToken windowId then s
      else
        let s := s.removeWindow windowId
        if hasLaunchToken ∧ s.activeWindowIds ≠ ∅ then s
        else if hasLaunchToken then s.scheduleFinishIfNoWindows
        else { s with closing := true }
    | .minimized =>
      { s with
        windowMinimizedByCompositor := true
        keepDisplayWhileBackgrounded := true }.minimizeCustomWindow
    | .restored | .opened =>
      let s := s.addWindow windowId
      { s with
        emptyWindowExitGeneration := s.emptyWindowExitGeneration + 1
        windowMinimizedByCompositor := false
        keepDisplayWhileBackgrounded := false }.restoreCustomWindow
    | .other _ => s

/-- The class that displays the windows. -/
inductive Host
  | overlayService
  | activity
  deriving DecidableEq, Repr

def Host.handleWindowEvent : Host → Bool → Display → EventType → UInt32 → Display
  | .overlayService => DisplayOverlayService.handleWindowEvent
  | .activity => DisplayActivity.handleWindowEvent

/-- A window of the compositor. -/
abbrev WindowId := { id : UInt32 // id ≠ 0 }

structure WindowEvent where
  type : EventType
  windowId : WindowId
  deriving DecidableEq

namespace Host

variable (host : Host) (s : Display)

def handle (hasLaunchToken : Bool) (s : Display) (e : WindowEvent) : Display :=
  host.handleWindowEvent hasLaunchToken s e.type e.windowId

theorem handle_of_closing (h : s.closing = true) (token : Bool) (e : WindowEvent) :
    host.handle token s e = s := by
  unfold handle handleWindowEvent
  cases host
  · simp [DisplayOverlayService.handleWindowEvent, h]
  · simp [DisplayActivity.handleWindowEvent, h]

/-- What every event of either class does to the set of windows. -/
inductive Handled (token : Bool) (e : WindowEvent) (t : Display) : Prop
  | opens (type : e.type = .opened ∨ e.type = .restored)
      (active : t.activeWindowIds = insert e.windowId.1 s.activeWindowIds)
      (minimized : t.windowMinimizedByCompositor = false) (closing : t.closing = false)
  | ignored (type : e.type = .closed) (launched : token = true)
      (flag : s.windowMinimizedByCompositor = true)
      (active : t.activeWindowIds = s.activeWindowIds)
      (minimized : t.windowMinimizedByCompositor = true) (closing : t.closing = false)
      (generation : t.emptyWindowExitGeneration = s.emptyWindowExitGeneration)
      (posted : t.posted = s.posted)
  | closes (type : e.type = .closed)
      (flag : token = true → s.windowMinimizedByCompositor = false)
      (active : t.activeWindowIds = s.activeWindowIds.erase e.windowId.1)
      (minimized : t.windowMinimizedByCompositor = s.windowMinimizedByCompositor)
      (closing : t.closing = true → host = .activity ∧ token = false)
      (scheduled : token = true → t.activeWindowIds = ∅ → t.emptyWindowExitGeneration ∈ t.posted)
  | minimizes (type : e.type = .minimized) (active : t.activeWindowIds = s.activeWindowIds)
      (minimized : t.windowMinimizedByCompositor = true) (closing : t.closing = false)
      (generation : t.emptyWindowExitGeneration = s.emptyWindowExitGeneration)
      (posted : t.posted = s.posted)
  | other (code : Int32) (type : e.type = .other code)
      (active : t.activeWindowIds = s.activeWindowIds)
      (minimized : t.windowMinimizedByCompositor = s.windowMinimizedByCompositor)
      (closing : t.closing = false)
      (generation : t.emptyWindowExitGeneration = s.emptyWindowExitGeneration)
      (posted : t.posted = s.posted)

/-- Only an activity without a launch token closes on an event. -/
theorem Handled.closing_eq {host : Host} {s t : Display} {token : Bool} {e : WindowEvent}
    (h : host.Handled s token e t) (hkeep : ¬ (host = .activity ∧ token = false)) :
    t.closing = false := by
  cases h with
  | closes type flag active minimized closing scheduled => simpa using mt closing hkeep
  | opens type active minimized closing => exact closing
  | ignored type launched flag active minimized closing generation posted => exact closing
  | minimizes type active minimized closing generation posted => exact closing
  | other code type active minimized closing generation posted => exact closing

theorem noteWindow_eq (id : WindowId) : s.noteWindow id = { s with lastWindowId := id } := by
  rw [Display.noteWindow, if_pos id.2]

/-- The window of the event has just become the last one. -/
theorem ignoresClose_noteWindow (token : Bool) (id : WindowId) :
    (s.noteWindow id).ignoresClose token id = (token && s.windowMinimizedByCompositor) := by
  simp [Display.ignoresClose, noteWindow_eq]

theorem minimizeCustomWindow_fields :
    s.minimizeCustomWindow.activeWindowIds = s.activeWindowIds ∧
      s.minimizeCustomWindow.windowMinimizedByCompositor = s.windowMinimizedByCompositor ∧
      s.minimizeCustomWindow.closing = s.closing ∧
      s.minimizeCustomWindow.emptyWindowExitGeneration = s.emptyWindowExitGeneration ∧
      s.minimizeCustomWindow.posted = s.posted := by
  unfold Display.minimizeCustomWindow
  split <;> exact ⟨rfl, rfl, rfl, rfl, rfl⟩

theorem handle_opens (h : s.closing = false) (token : Bool) {type : EventType} (id : WindowId)
    (htype : type = .opened ∨ type = .restored) :
    (host.handle token s ⟨type, id⟩).activeWindowIds = insert id.1 s.activeWindowIds ∧
      (host.handle token s ⟨type, id⟩).windowMinimizedByCompositor = false ∧
      (host.handle token s ⟨type, id⟩).closing = false := by
  rcases htype with rfl | rfl
  all_goals
    cases host <;>
      simp [handle, handleWindowEvent, DisplayOverlayService.handleWindowEvent,
        DisplayActivity.handleWindowEvent, h, noteWindow_eq, Display.addWindow,
        Display.restoreCustomWindow, id.2]

/-- With a launch token, the close of a window that was minimised is ignored. -/
theorem handle_ignores (h : s.closing = false) (id : WindowId)
    (hflag : s.windowMinimizedByCompositor = true) :
    host.Handled s true ⟨.closed, id⟩ (host.handle true s ⟨.closed, id⟩) := by
  cases host
  all_goals
    simp only [handle, handleWindowEvent, DisplayOverlayService.handleWindowEvent,
      DisplayActivity.handleWindowEvent, h, Bool.false_eq_true, if_false,
      ignoresClose_noteWindow, hflag, Bool.and_true, if_true]
    rw [noteWindow_eq]
    exact .ignored rfl rfl hflag rfl hflag h rfl rfl

theorem handle_closes (h : s.closing = false) (token : Bool) (id : WindowId)
    (hflag : token = true → s.windowMinimizedByCompositor = false) :
    host.Handled s token ⟨.closed, id⟩ (host.handle token s ⟨.closed, id⟩) := by
  have hign : ¬ (token && s.windowMinimizedByCompositor) = true := by
    intro hboth
    obtain ⟨htoken, hmin⟩ := Bool.and_eq_true_iff.mp hboth
    exact absurd (hmin.symm.trans (hflag htoken)) (by simp)
  have hopen : ∀ t : Display, t.closing = false →
      t.closing = true → host = .activity ∧ token = false := by
    intro t hfalse htrue
    rw [hfalse] at htrue
    cases htrue
  cases host
  all_goals
    simp only [handle, handleWindowEvent, DisplayOverlayService.handleWindowEvent,
      DisplayActivity.handleWindowEvent, h, Bool.false_eq_true, if_false,
      ignoresClose_noteWindow, hign]
    rw [noteWindow_eq]
    simp only [Display.removeWindow, id.2, ne_eq, not_false_eq_true, if_true]
    split
    · rename_i hmore
      exact .closes rfl hflag rfl rfl (hopen _ h) fun _ hnone => absurd hnone hmore.2
  · refine .closes rfl hflag rfl rfl (hopen _ h) fun _ _ => ?_
    simp [Display.scheduleFinishIfNoWindows]
  · split
    · refine .closes rfl hflag rfl rfl (hopen _ h) fun _ _ => ?_
      simp [Display.scheduleFinishIfNoWindows]
    · rename_i hunlaunched
      have htoken : token = false := by simpa using hunlaunched
      exact .closes rfl hflag rfl rfl (fun _ => ⟨rfl, htoken⟩) fun hlaunched =>
        absurd hlaunched hunlaunched

theorem handle_handled (h : s.closing = false) (token : Bool) (e : WindowEvent) :
    host.Handled s token e (host.handle token s e) := by
  obtain ⟨type, id⟩ := e
  cases type with
  | opened =>
    obtain ⟨hactive, hmin, hclosing⟩ := host.handle_opens s h token id (.inl rfl)
    exact .opens (.inl rfl) hactive hmin hclosing
  | restored =>
    obtain ⟨hactive, hmin, hclosing⟩ := host.handle_opens s h token id (.inr rfl)
    exact .opens (.inr rfl) hactive hmin hclosing
  | minimized =>
    cases host
    all_goals
      simp only [handle, handleWindowEvent, DisplayOverlayService.handleWindowEvent,
        DisplayActivity.handleWindowEvent, h, Bool.false_eq_true, if_false, noteWindow_eq]
      obtain ⟨hactive, hmin, hclosing, hgen, hposted⟩ := minimizeCustomWindow_fields _
      exact .minimizes rfl hactive hmin hclosing hgen hposted
  | other code =>
    cases host
    all_goals
      simp only [handle, handleWindowEvent, DisplayOverlayService.handleWindowEvent,
        DisplayActivity.handleWindowEvent, h, Bool.false_eq_true, if_false, noteWindow_eq]
      exact .other code rfl rfl rfl rfl rfl rfl
  | closed =>
    by_cases hign : (token && s.windowMinimizedByCompositor) = true
    · obtain ⟨rfl, hflag⟩ := Bool.and_eq_true_iff.mp hign
      exact host.handle_ignores s h id hflag
    · apply host.handle_closes s h token id
      rintro rfl
      simpa using hign

end Host

end Android
end ACGlass
