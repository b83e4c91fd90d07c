import ACGlass.Android.OpenWindows
import ACGlass.Kiosk.Announced

/-!
# The windows of the shell and those of the overlay

The kiosk shell announces its windows to the overlay service over the data socket and through
the main thread, and whatever is announced while nobody is connected is lost. A window that the
overlay has seen opening stays open there for as long as it lives.
-/

namespace ACGlass
namespace OpenWindows

open Transition Android Kiosk

/-- The type and the id of a `WindowEvent`. -/
abbrev Event := EventType × UInt32

/-- `socket` holds what has been sent and not read, `posted` the events that the thread has
posted to the main thread, and `handled` those of the present app that have been handled. -/
structure State where
  shell : Shell
  socket : List Event
  posted : List Event
  display : Display
  handled : List Event

/-- `started` brings another app id, and `finished` is the end of the app or of the overlay. -/
inductive Label
  | request (r : Request) (connected : Bool)
  | disconnected
  | read (surface : Bool)
  | handle (hasLaunchToken : Bool)
  | fire (i : ℕ)
  | started
  | finished

namespace State

section Statement

variable (s : State)

/-- The events that a request has brought, with the ids of their windows. -/
def announced (t : Shell) : List Event :=
  (t.events.drop s.shell.events.length).map fun e => (e.1, t.acglassWindowId e.2)

def request (r : Request) (connected : Bool) : Option State :=
  (s.shell.step r).map fun t =>
    { s with
      shell := t
      socket := if connected then s.socket ++ s.announced t else s.socket }

/-- The thread polls an event. Without a surface view it is dropped. -/
def read (surface : Bool) : Option State :=
  match s.socket with
  | [] => none
  | e :: socket =>
    some { s with socket, posted := if surface then s.posted ++ [e] else s.posted }

def handle (hasLaunchToken : Bool) : Option State :=
  match s.posted with
  | [] => none
  | e :: posted =>
    some
      { s with
        posted
        display := DisplayOverlayService.handleWindowEvent hasLaunchToken s.display e.1 e.2
        handled := s.handled ++ [e] }

/-- One of the callbacks of `scheduleFinishIfNoWindows` runs. -/
def fire (i : ℕ) : Option State :=
  s.display.posted[i]?.map fun generation =>
    { s with
      display := { s.display with
        posted := s.display.posted.eraseIdx i }.finishIfNoWindows generation }

/-- `readIntent` with an app id that is not the present one. -/
def started : State where
  shell := s.shell
  socket := s.socket
  posted := s.posted
  display :=
    { s.display with
      activeWindowIds := ∅
      emptyWindowExitGeneration := s.display.emptyWindowExitGeneration + 1
      windowMinimizedByCompositor := false }
  handled := []

def finished : State := { s with display := { s.display with closing := true } }

def step : Label → Option State
  | .request r connected => s.request r connected
  | .disconnected => some { s with socket := [] }
  | .read surface => s.read surface
  | .handle token => s.handle token
  | .fire i => s.fire i
  | .started => some s.started
  | .finished => some s.finished

/-- A shell and an overlay that have both been started. -/
def initial (seat : Bool) : State where
  shell := Shell.initial seat
  socket := []
  posted := []
  display := newDisplay
  handled := []

/-- The overlay has handled an event that opens the window. -/
def Opened (w : ℕ) : Prop :=
  ∃ e ∈ s.handled, e.2 = s.shell.acglassWindowId w ∧ (e.1 = .opened ∨ e.1 = .restored)

/-- While the overlay is open, it holds each window that lives and that it has seen opening. -/
def HoldsOpened : Prop :=
  s.display.closing = false → ∀ w ∈ s.shell.live, s.Opened w →
    s.shell.acglassWindowId w ∈ s.display.activeWindowIds

/-- All events that have been sent and not been lost. -/
def pending : List Event := s.socket ++ s.posted ++ s.handled

/-- Each event is about a window that was created, and each close about one that is gone. -/
def Truthful : Prop :=
  ∀ e ∈ s.pending, ∃ w < s.shell.created, e.2 = s.shell.acglassWindowId w ∧
    (e.1 = .closed → w ∉ s.shell.live)

/-- What every run keeps. -/
structure Inv : Prop where
  placed : s.shell.Placed
  numbered : s.shell.Numbered
  announced : s.shell.Announced
  truthful : s.Truthful
  holds : s.shell.created < 2 ^ 32 → s.HoldsOpened

end Statement

variable {s t : State}

/-- With fewer windows than ids an id belongs to one window. -/
theorem id_inj {shell : Shell} (hs : shell.Numbered) (hfew : shell.created < 2 ^ 32) {v w : ℕ}
    (hv : v < shell.created) (hw : w < shell.created)
    (h : shell.acglassWindowId v = shell.acglassWindowId w) : v = w := by
  apply Nat.ModEq.eq_of_lt_of_lt ((hs.distinctIds v hv w hw).2.mp h)
  · omega
  · omega

theorem inv_initial (seat : Bool) : (initial seat).Inv where
  placed := Shell.placed_initial seat
  numbered := Shell.numbered_initial seat
  announced := Shell.announced_initial seat
  truthful := by simp [Truthful, pending, initial]
  holds _ _ w _ hopened := by
    obtain ⟨e, he, -⟩ := hopened
    exact absurd he (by simp [initial])

theorem Inv.live_lt (hs : s.Inv) {w : ℕ} (hw : w ∈ s.shell.live) : w < s.shell.created := by
  by_contra hle
  exact (hs.announced.untold w (not_lt.mp hle)).2 hw

/-- A request changes neither the id of a window that was created, nor brings one back. -/
theorem Announces.kept {u : Shell} {new : List (EventType × ℕ)}
    (h : Shell.Announces s.shell u new) {w : ℕ} (hw : w < s.shell.created) :
    w < u.created ∧ u.acglassWindowId w = s.shell.acglassWindowId w ∧
      (w ∈ u.live → w ∈ s.shell.live) := by
  cases h with
  | opened created live next ids =>
    refine ⟨by omega, by rw [ids, Function.update_of_ne hw.ne], fun hmem => ?_⟩
    rw [live] at hmem
    refine (List.mem_append.mp hmem).resolve_right fun hnew => ?_
    exact hw.ne (List.mem_singleton.mp hnew)
  | closed v created live next ids hv =>
    refine ⟨by omega, by rw [ids], fun hmem => ?_⟩
    rw [live] at hmem
    exact List.mem_of_mem_filter hmem
  | other created live next ids new_mem => exact ⟨by omega, by rw [ids], by rw [live]; exact id⟩

/-- What a request announces is true after it. -/
theorem Inv.announces (hs : s.Inv) {u : Shell} {new : List (EventType × ℕ)}
    (h : Shell.Announces s.shell u new) :
    ∀ e ∈ new, e.2 < u.created ∧ (e.1 = .closed → e.2 ∉ u.live) := by
  intro e he
  cases h with
  | opened created live next ids =>
    obtain rfl := List.mem_singleton.mp he
    exact ⟨by dsimp only; omega, by simp⟩
  | closed w created live next ids hw =>
    obtain rfl := List.mem_singleton.mp he
    refine ⟨?_, ?_⟩
    · rw [created]
      exact hs.live_lt hw
    · simp [live]
  | other created live next ids new_mem =>
    obtain ⟨htype, hlive⟩ := new_mem e he
    refine ⟨?_, fun hclosed => ?_⟩
    · rw [created]
      exact hs.live_lt hlive
    · rcases htype with htype | htype <;> simp [hclosed] at htype

theorem Inv.request (hs : s.Inv) {r : Request} {connected : Bool}
    (h : s.request r connected = some t) : t.Inv := by
  obtain ⟨u, hu, rfl⟩ := Option.map_eq_some_iff.mp h
  obtain ⟨new, hnew, hevents⟩ := Shell.step_announces hs.placed hu
  have hnumbered := hnew.numbered hs.numbered
  refine ⟨hs.placed.step hu, hnumbered, hnew.announced hevents hs.announced, ?_, ?_⟩
  · intro e he
    have hsent : e ∈ s.pending ∨ ∃ x ∈ new, (x.1, u.acglassWindowId x.2) = e := by
      have hdrop : s.announced u = new.map fun x => (x.1, u.acglassWindowId x.2) := by
        rw [State.announced, hevents, List.drop_left]
      cases connected with
      | false => exact .inl he
      | true =>
        simp only [pending, if_true, hdrop, List.mem_append, List.mem_map] at he ⊢
        tauto
    rcases hsent with he | ⟨x, hx, rfl⟩
    · obtain ⟨w, hw, hid, hclosed⟩ := hs.truthful e he
      obtain ⟨hlt, hsame, hback⟩ := Announces.kept hnew hw
      exact ⟨w, hlt, hid.trans hsame.symm, fun htype hlive => hclosed htype (hback hlive)⟩
    · obtain ⟨hlt, hclosed⟩ := hs.announces hnew x hx
      exact ⟨x.2, hlt, rfl, hclosed⟩
  · rintro hfew hopen w hw ⟨e, he, hid, htype⟩
    change u.created < 2 ^ 32 at hfew
    -- the event is of a window that was there before, and this is that window
    obtain ⟨v, hv, hidv, -⟩ := hs.truthful e (List.mem_append_right _ he)
    obtain ⟨hlt, hsame, hback⟩ := Announces.kept hnew hv
    have hwlt : w < u.created := by
      by_contra hle
      exact ((hnew.announced hevents hs.announced).untold w (not_lt.mp hle)).2 hw
    obtain rfl : v = w := by
      apply id_inj hnumbered hfew hlt hwlt
      rw [hsame, ← hidv]
      exact hid
    have hcreated : s.shell.created < 2 ^ 32 := by
      cases hnew <;> omega
    change u.acglassWindowId v ∈ _
    rw [hsame]
    exact hs.holds hcreated hopen v (hback hw) ⟨e, he, hidv, htype⟩

/-- A step that leaves the shell alone and sends nothing. -/
theorem Inv.elsewhere (hs : s.Inv) (hshell : t.shell = s.shell) (hpending : t.pending ⊆ s.pending)
    (hholds : s.HoldsOpened → s.shell.created < 2 ^ 32 → t.HoldsOpened) : t.Inv := by
  refine ⟨hshell ▸ hs.placed, hshell ▸ hs.numbered, hshell ▸ hs.announced, ?_, ?_⟩
  · intro e he
    rw [hshell]
    exact hs.truthful e (hpending he)
  · intro hfew
    rw [hshell] at hfew
    exact hholds (hs.holds hfew) hfew

/-- Neither the windows nor what the overlay knows of them changes. -/
theorem HoldsOpened.same (hs : s.HoldsOpened) (hshell : t.shell = s.shell)
    (hhandled : t.handled = s.handled)
    (hactive : t.display.activeWindowIds = s.display.activeWindowIds)
    (hclosing : t.display.closing = false → s.display.closing = false) : t.HoldsOpened := by
  intro hopen w hw hopened
  unfold Opened at hopened
  rw [hshell] at hw hopened ⊢
  rw [hhandled] at hopened
  rw [hactive]
  exact hs (hclosing hopen) w hw hopened

theorem Inv.read (hs : s.Inv) {surface : Bool} (h : s.read surface = some t) : t.Inv := by
  unfold State.read at h
  split at h
  · cases h
  · rename_i e socket hsocket
    obtain rfl := Option.some.inj h
    refine hs.elsewhere rfl (fun x hx => ?_) fun hholds _ => hholds.same rfl rfl rfl id
    cases surface <;> simp [pending, hsocket] at hx ⊢ <;> tauto

theorem Inv.id_ne_zero (hs : s.Inv) {e : Event} (he : e ∈ s.pending) : e.2 ≠ 0 := by
  obtain ⟨v, hv, hid, -⟩ := hs.truthful e he
  rw [hid]
  exact (hs.numbered.distinctIds v hv v hv).1

/-- An open overlay does with an event what is said of a display. -/
theorem Inv.handled (hs : s.Inv) {e : Event} (he : e ∈ s.pending)
    (hopen : s.display.closing = false) (token : Bool) :
    Host.overlayService.Handled s.display token ⟨e.1, e.2, hs.id_ne_zero he⟩
      (DisplayOverlayService.handleWindowEvent token s.display e.1 e.2) :=
  Host.overlayService.handle_handled s.display hopen token ⟨e.1, e.2, hs.id_ne_zero he⟩

/-- An overlay that handles an event goes on holding the windows that it has seen opening. -/
theorem HoldsOpened.handled (hs : s.HoldsOpened) (hinv : s.Inv)
    (hfew : s.shell.created < 2 ^ 32) {e : Event} (he : e ∈ s.pending)
    (hopen : s.display.closing = false) (token : Bool) {w : ℕ} (hw : w ∈ s.shell.live)
    (hopened : s.Opened w ∨ e.2 = s.shell.acglassWindowId w ∧ (e.1 = .opened ∨ e.1 = .restored)) :
    s.shell.acglassWindowId w ∈
      (DisplayOverlayService.handleWindowEvent token s.display e.1 e.2).activeWindowIds := by
  obtain ⟨v, hv, hid, hgone⟩ := hinv.truthful e he
  have hkept : (e.1 ≠ .opened ∧ e.1 ≠ .restored) →
      s.shell.acglassWindowId w ∈ s.display.activeWindowIds := by
    rintro ⟨hnotOpened, hnotRestored⟩
    refine hs hopen w hw (hopened.resolve_right ?_)
    rintro ⟨-, htype⟩
    exact htype.elim hnotOpened hnotRestored
  cases hinv.handled he hopen token with
  | opens type active minimized closing =>
    rw [active]
    rcases hopened with hopened | ⟨hsame, -⟩
    · exact Finset.mem_insert_of_mem (hs hopen w hw hopened)
    · rw [← hsame]
      exact Finset.mem_insert_self _ _
  | closes type flag active minimized closing scheduled =>
    rw [active]
    refine Finset.mem_erase.mpr ⟨fun heq => ?_, hkept ?_⟩
    · -- a close is about a window that is gone
      obtain rfl := id_inj hinv.numbered hfew (hinv.live_lt hw) hv (heq.trans hid)
      exact hgone type hw
    · simp [show e.1 = _ from type]
  | ignored type launched flag active minimized closing generation posted =>
    rw [active]
    exact hkept (by simp [show e.1 = _ from type])
  | minimizes type active minimized closing generation posted =>
    rw [active]
    exact hkept (by simp [show e.1 = _ from type])
  | other code type active minimized closing generation posted =>
    rw [active]
    exact hkept (by simp [show e.1 = _ from type])

/-- Handling an event neither closes the overlay nor opens one that is closing. -/
theorem Inv.handle_closing (hs : s.Inv) {e : Event} (he : e ∈ s.pending) (token : Bool) :
    (DisplayOverlayService.handleWindowEvent token s.display e.1 e.2).closing =
      s.display.closing := by
  cases hopen : s.display.closing with
  | true => rw [DisplayOverlayService.handleWindowEvent, if_pos hopen, hopen]
  | false => exact (hs.handled he hopen token).closing_eq (by simp)

theorem Inv.handle (hs : s.Inv) {token : Bool} (h : s.handle token = some t) :
    t.Inv ∧ t.display.closing = s.display.closing := by
  unfold State.handle at h
  split at h
  · cases h
  · rename_i e posted hposted
    obtain rfl := Option.some.inj h
    have he : e ∈ s.pending := by simp [pending, hposted]
    refine ⟨hs.elsewhere rfl ?_ ?_, hs.handle_closing he token⟩
    · intro x hx
      simp only [pending, hposted, List.mem_append, List.mem_cons, List.not_mem_nil] at hx ⊢
      tauto
    · rintro hholds hfew hopen w hw ⟨x, hx, hid, htype⟩
      have hopen' := (hs.handle_closing he token).symm.trans hopen
      apply hholds.handled hs hfew he hopen' token hw
      rcases List.mem_append.mp hx with hx | hx
      · exact .inl ⟨x, hx, hid, htype⟩
      · obtain rfl := List.mem_singleton.mp hx
        exact .inr ⟨hid, htype⟩

/-- A callback closes an overlay that holds no window, or it does nothing. -/
theorem fire_cases {i : ℕ} (h : s.fire i = some t) :
    t.shell = s.shell ∧ t.pending = s.pending ∧ t.handled = s.handled ∧
      t.display.activeWindowIds = s.display.activeWindowIds ∧
      (t.display.closing = true ∧ s.display.activeWindowIds = ∅ ∨
        t.display.closing = s.display.closing) := by
  obtain ⟨generation, -, rfl⟩ := Option.map_eq_some_iff.mp h
  refine ⟨rfl, rfl, rfl, ?_⟩
  dsimp only
  unfold Display.finishIfNoWindows
  split_ifs with hstale
  · exact ⟨rfl, .inr rfl⟩
  · push Not at hstale
    exact ⟨rfl, .inl ⟨rfl, hstale.2.2⟩⟩

theorem Inv.fire (hs : s.Inv) {i : ℕ} (h : s.fire i = some t) : t.Inv := by
  obtain ⟨hshell, hpending, hhandled, hactive, hclosing⟩ := fire_cases h
  refine hs.elsewhere hshell (fun e he => hpending ▸ he) fun hholds _ =>
    hholds.same hshell hhandled hactive fun hopen => ?_
  rcases hclosing with ⟨hclosing, -⟩ | hclosing
  · exact absurd (hclosing.symm.trans hopen) (by simp)
  · exact hclosing.symm.trans hopen

theorem Inv.step (hs : s.Inv) {l : Label} (h : s.step l = some t) : t.Inv := by
  cases l with
  | request r connected => exact hs.request h
  | read surface => exact hs.read h
  | handle token => exact (hs.handle h).1
  | fire i => exact hs.fire h
  | disconnected =>
    obtain rfl := Option.some.inj h
    refine hs.elsewhere rfl (fun e he => ?_) fun hholds _ => hholds.same rfl rfl rfl id
    simp only [pending, List.mem_append, List.not_mem_nil] at he ⊢
    tauto
  | started =>
    obtain rfl := Option.some.inj h
    refine hs.elsewhere rfl (fun e he => ?_) fun _ _ _ w _ hopened => ?_
    · simp only [pending, started, List.mem_append, List.not_mem_nil] at he ⊢
      tauto
    · obtain ⟨e, he, -⟩ := hopened
      exact absurd he (by simp [started])
  | finished =>
    obtain rfl := Option.some.inj h
    refine hs.elsewhere rfl (List.Subset.refl _) fun hholds _ =>
      hholds.same rfl rfl rfl fun hopen => ?_
    cases hopen

/-- The overlay closes of itself only when none of the windows that it has seen opening lives. -/
theorem Inv.closes (hs : s.Inv) {l : Label} (h : s.step l = some t) (hl : l ≠ .finished)
    (hfew : t.shell.created < 2 ^ 32) (hopen : s.display.closing = false)
    (hclosing : t.display.closing = true) : ∀ w ∈ s.shell.live, ¬ s.Opened w := by
  have hsame : t.display.closing ≠ s.display.closing := by simp [hopen, hclosing]
  cases l with
  | request r connected =>
    obtain ⟨u, -, rfl⟩ := Option.map_eq_some_iff.mp h
    exact absurd rfl hsame
  | read surface =>
    change s.read surface = some t at h
    unfold State.read at h
    split at h
    · cases h
    · obtain rfl := Option.some.inj h
      exact absurd rfl hsame
  | handle token => exact absurd (hs.handle h).2 hsame
  | disconnected | started =>
    obtain rfl := Option.some.inj h
    exact absurd rfl hsame
  | finished => exact absurd rfl hl
  | fire i =>
    obtain ⟨hshell, -, -, -, ⟨-, hnone⟩ | hkept⟩ := fire_cases h
    · intro w hw hopened
      have hmem := hs.holds (hshell ▸ hfew) hopen w hw hopened
      rw [hnone] at hmem
      exact Finset.notMem_empty _ hmem
    · exact absurd hkept hsame

end State

/-- While fewer windows were created than there are ids, an open overlay holds each living
window that it has seen opening, whichever other events were lost, and it closes of itself only
when there is none. -/
theorem openWindows_of_run (seat : Bool) (ls : List Label) :
    Along State.step
      (fun s l t => t.shell.created < 2 ^ 32 → t.HoldsOpened ∧
        (l ≠ .finished → s.display.closing = false → t.display.closing = true →
          ∀ w ∈ s.shell.live, ¬ s.Opened w)) (.initial seat) ls := by
  refine along_of_invariant (I := State.Inv) (fun s l t hs h => hs.step h)
    (fun s l t hs h hfew => ⟨(hs.step h).holds hfew, fun hl hopen hclosing => ?_⟩)
    (State.inv_initial seat) ls
  exact hs.closes h hl hfew hopen hclosing

end OpenWindows
end ACGlass
