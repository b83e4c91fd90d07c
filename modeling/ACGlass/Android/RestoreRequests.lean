import ACGlass.Android.OpenWindows
import ACGlass.Kiosk.Shell

/-!
# Which window is restored

Every event makes its window the last one, and a restore asks for the last window, although a
minimised display waits for the window that was minimised.
-/

namespace ACGlass
namespace Android

open Transition Trace

/-- The id that `requestRestoreLastWindow` sends with `WINDOW_COMMAND_RESTORE`. -/
def Display.requestRestoreLastWindow (s : Display) : Option UInt32 :=
  if s.lastWindowId = 0 then none else some s.lastWindowId

def WindowEvent.minimizedWindow (e : WindowEvent) : Option WindowId :=
  if e.type = .minimized then some e.windowId else none

/-- The window of the most recent `MINIMIZED` event. -/
def lastMinimized (h : List WindowEvent) : Option WindowId := lastOf WindowEvent.minimizedWindow h

/-- `acglass_restore_window` finds the window with the id as long as it has a view. -/
def FoundWhileAlive (id : UInt32) : Prop :=
  ∀ (shell : Kiosk.Shell) (w : ℕ), shell.acglassWindowId w = id →
    w ∈ shell.normalLayer ++ shell.inactiveLayer →
    (∀ v ∈ shell.normalLayer ++ shell.inactiveLayer, shell.acglassWindowId v = id → v = w) →
      shell.findWindow id = some w

namespace Watch

variable {host : Host} (s : Watch)

/-- Events are handled while the display is not closing. -/
def openStep (host : Host) (s : Watch) : Tick → Option Watch
  | .event token e => if s.display.closing then none else s.step host (.event token e)
  | .fire i => s.step host (.fire i)

/-- While the display is minimised, it asks for the window that was minimised last. -/
def RestoresMinimized : Prop :=
  s.display.windowMinimizedByCompositor = true →
    ∃ id : WindowId, lastMinimized s.history = some id ∧
      s.display.requestRestoreLastWindow = some id.1 ∧ FoundWhileAlive id.1

/-- Behind a minimised display, a close or an event of an unknown type is about the last
window. -/
def KeepsLast : Tick → Prop
  | .event _ e =>
    s.display.windowMinimizedByCompositor = true →
      e.type = .closed ∨ (∃ code, e.type = .other code) → e.windowId.1 = s.display.lastWindowId
  | .fire _ => True

variable {s}

theorem foundWhileAlive (id : UInt32) : FoundWhileAlive id := by
  intro shell w hid hw honly
  cases hfind : shell.findWindow id with
  | none =>
    have hnone := List.find?_eq_none.mp hfind w hw
    simp [hid] at hnone
  | some v =>
    have hv : shell.acglassWindowId v = id := by simpa using List.find?_some hfind
    exact congrArg some (honly v (List.mem_of_find?_eq_some hfind) hv)

theorem lastMinimized_append (h : List WindowEvent) (e : WindowEvent) :
    lastMinimized (h ++ [e]) = e.minimizedWindow.or (lastMinimized h) := by
  rw [lastMinimized, lastOf_append]
  cases hw : e.minimizedWindow <;> simp [lastOf, hw, lastMinimized]

theorem handle_lastWindowId (hopen : s.display.closing = false) (token : Bool) (e : WindowEvent) :
    (host.handle token s.display e).lastWindowId = e.windowId.1 := by
  have hkept : ∀ t : Display, t.minimizeCustomWindow.lastWindowId = t.lastWindowId := by
    intro t
    rw [Display.minimizeCustomWindow]
    split_ifs <;> rfl
  obtain ⟨type, id⟩ := e
  cases host
  all_goals
    simp only [Host.handle, Host.handleWindowEvent, DisplayOverlayService.handleWindowEvent,
      DisplayActivity.handleWindowEvent, hopen, Bool.false_eq_true, if_false, Host.noteWindow_eq]
    cases type with
    | opened | restored => simp [Display.addWindow, Display.restoreCustomWindow, id.2]
    | minimized => exact hkept _
    | other code => rfl
    | closed =>
      simp only [Display.removeWindow, Display.scheduleFinishIfNoWindows]
      split_ifs <;> rfl

/-- The request names the last window of a display that has one. -/
theorem restoresMinimized_iff : s.RestoresMinimized ↔
    (s.display.windowMinimizedByCompositor = true →
      (lastMinimized s.history).map Subtype.val = some s.display.lastWindowId) := by
  apply imp_congr_right
  intro _
  constructor
  · rintro ⟨id, hlast, hrequest, -⟩
    rw [Display.requestRestoreLastWindow] at hrequest
    split_ifs at hrequest
    rw [hlast, Option.map_some, Option.some.inj hrequest]
  · intro hlast
    obtain ⟨id, hid, heq⟩ := Option.map_eq_some_iff.mp hlast
    refine ⟨id, hid, ?_, foundWhileAlive id.1⟩
    rw [Display.requestRestoreLastWindow, ← heq, if_neg id.2]

/-- The invariant: a minimised display's last window is the one that was minimised. -/
def LastIsMinimized (s : Watch) : Prop :=
  s.display.windowMinimizedByCompositor = true →
    (lastMinimized s.history).map Subtype.val = some s.display.lastWindowId

theorem event_lastIsMinimized (hs : s.LastIsMinimized) (hopen : s.display.closing = false)
    (token : Bool) (e : WindowEvent) :
    LastIsMinimized ⟨host.handle token s.display e, s.history ++ [e]⟩ ↔
      s.KeepsLast (.event token e) := by
  have hlast : (host.handle token s.display e).lastWindowId = e.windowId.1 :=
    handle_lastWindowId hopen token e
  have hkeeps : e.type = .closed ∨ (∃ code, e.type = .other code) →
      (host.handle token s.display e).windowMinimizedByCompositor =
        s.display.windowMinimizedByCompositor →
      (LastIsMinimized ⟨host.handle token s.display e, s.history ++ [e]⟩ ↔
        s.KeepsLast (.event token e)) := by
    intro htype hflag
    have hnone : e.minimizedWindow = none := by
      rcases htype with htype | ⟨code, htype⟩ <;> simp [WindowEvent.minimizedWindow, htype]
    rw [LastIsMinimized, lastMinimized_append, hnone, Option.none_or, hlast, hflag]
    constructor
    · intro h hset _
      exact Option.some.inj ((h hset).symm.trans (hs hset))
    · intro h hset
      rw [hs hset, h hset htype]
  have hdone : e.type ≠ .closed → (∀ code, e.type ≠ .other code) →
      s.KeepsLast (.event token e) := by
    intro hclosed hother _ htype
    rcases htype with htype | ⟨code, htype⟩
    · exact absurd htype hclosed
    · exact absurd htype (hother code)
  cases host.handle_handled s.display hopen token e with
  | opens type active minimized closing =>
    apply iff_of_true
    · intro hset
      rw [minimized] at hset
      cases hset
    · rcases type with type | type <;> exact hdone (by simp [type]) (by simp [type])
  | ignored type launched flag active minimized closing generation posted =>
    exact hkeeps (.inl type) (minimized.trans flag.symm)
  | closes type flag active minimized closing scheduled => exact hkeeps (.inl type) minimized
  | minimizes type active minimized closing generation posted =>
    apply iff_of_true
    · intro _
      rw [lastMinimized_append, WindowEvent.minimizedWindow, if_pos type, hlast]
      rfl
    · exact hdone (by simp [type]) (by simp [type])
  | other code type active minimized closing generation posted =>
    exact hkeeps (.inr ⟨code, type⟩) minimized

theorem openStep_iff (hs : s.LastIsMinimized) {t : Tick} {s' : Watch}
    (hstep : openStep host s t = some s') : s'.LastIsMinimized ↔ s.KeepsLast t := by
  cases t with
  | event token e =>
    rw [openStep] at hstep
    split_ifs at hstep with hclosing
    obtain rfl := Option.some.inj hstep
    exact event_lastIsMinimized hs (by simpa using hclosing) token e
  | fire i =>
    apply iff_of_true _ trivial
    obtain ⟨generation, -, rfl⟩ := Option.map_eq_some_iff.mp hstep
    intro hset
    rw [Display.finishIfNoWindows] at hset ⊢
    split_ifs at hset ⊢ <;> exact hs hset

end Watch

/-- In every state in which the flag is set, the request that would be sent names the window
of the last `MINIMIZED` event, if and only if behind the flag every close and every event of an
unknown type names the window that was the last one already. -/
theorem restores_iff_keepsLast (host : Host) (display : Display) (ticks : List Tick) :
    Along (Watch.openStep host) (fun _ _ s => s.RestoresMinimized) (.start display) ticks ↔
      Along (Watch.openStep host) (fun s t _ => s.KeepsLast t) (.start display) ticks := by
  apply along_iff_of_invariant (I := Watch.LastIsMinimized)
  · intro s t s' hs hstep
    exact Watch.restoresMinimized_iff.trans (Watch.openStep_iff hs hstep)
  · intro s t s' hs hstep hkeeps
    exact (Watch.openStep_iff hs hstep).mpr hkeeps
  · intro hset
    cases hset

theorem firstId_ne : (1 : UInt32) ≠ 0 := by decide

theorem secondId_ne : (2 : UInt32) ≠ 0 := by decide

/-- The first of two windows is minimised, and the second is closed. -/
def closeOtherWindow : List Tick :=
  [.event true ⟨.opened, 1, firstId_ne⟩, .event true ⟨.opened, 2, secondId_ne⟩,
    .event true ⟨.minimized, 1, firstId_ne⟩, .event true ⟨.closed, 2, secondId_ne⟩]

/-- The request names the window that is gone. -/
theorem closeOtherWindow_not_restored :
    ¬ Along (Watch.openStep .overlayService) (fun _ _ s => s.RestoresMinimized)
      (.start newDisplay) closeOtherWindow := by
  intro h
  have hlast := Along.at (closeOtherWindow.take 3) h rfl rfl
  obtain ⟨id, hid, hrequest, -⟩ := hlast rfl
  have htwo : id.1 = 2 := Option.some.inj (hrequest.symm.trans rfl)
  have hone : id = ⟨1, by decide⟩ := Option.some.inj (hid.symm.trans rfl)
  rw [hone] at htwo
  cases htwo

end Android
end ACGlass
