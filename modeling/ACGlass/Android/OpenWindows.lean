import ACGlass.Android.WindowEvents
import ACGlass.Trace
import ACGlass.Transition

/-!
# Which windows are open

The set of a display is compared with the history of the events. Delayed callbacks run in
any order. A close that the display ignores has to belong to a window that is minimised.
-/

namespace ACGlass
namespace Android

open Transition Trace

namespace WindowEvent

variable (w : WindowId) (e : WindowEvent)

def Opens : Prop := e.windowId = w ∧ (e.type = .opened ∨ e.type = .restored)

def Closes : Prop := e.windowId = w ∧ e.type = .closed

def Minimizes : Prop := e.windowId = w ∧ e.type = .minimized

instance : Decidable (e.Opens w) := inferInstanceAs (Decidable (_ ∧ _))

instance : Decidable (e.Closes w) := inferInstanceAs (Decidable (_ ∧ _))

instance : Decidable (e.Minimizes w) := inferInstanceAs (Decidable (_ ∧ _))

end WindowEvent

variable (w : WindowId) (h : List WindowEvent)

/-- Opened or restored with no later close. -/
def IsOpen : Prop := Since (WindowEvent.Opens w) (fun _ x => ¬ x.Closes w) h

/-- Minimised, and not opened or restored since. -/
def MinimizedInForce : Prop := Since (WindowEvent.Minimizes w) (fun _ x => ¬ x.Opens w) h

/-- Opened or restored with no later close but such as came while the window was minimised. -/
def MayStay : Prop :=
  Since (WindowEvent.Opens w) (fun before x => x.Closes w → MinimizedInForce w before) h

/-- A display with the events it has handled. -/
structure Watch where
  display : Display
  history : List WindowEvent

/-- `fire` runs one of the posted callbacks. -/
inductive Tick
  | event (hasLaunchToken : Bool) (e : WindowEvent)
  | fire (i : ℕ)
  deriving DecidableEq

namespace Watch

variable (s : Watch)

/-- A new app id has been set; callbacks of the last one may be left. -/
def start (display : Display) : Watch where
  display :=
    { display with
      activeWindowIds := ∅, windowMinimizedByCompositor := false, closing := false }
  history := []

def step (host : Host) : Tick → Option Watch
  | .event token e => some ⟨host.handle token s.display e, s.history ++ [e]⟩
  | .fire i =>
    s.display.posted[i]?.map fun generation =>
      ⟨{ s.display with posted := s.display.posted.eraseIdx i }.finishIfNoWindows generation,
        s.history⟩

/-- The steps of a display with a launch token. -/
def launchedStep (host : Host) (s : Watch) (t : Tick) : Option Watch :=
  match t with
  | .event false _ => none
  | _ => s.step host t

/-- The set of the display holds what is open, and nothing else but windows that were closed
while they were minimised. -/
structure Tracks : Prop where
  contains : ∀ w, IsOpen w s.history → w.1 ∈ s.display.activeWindowIds
  only : ∀ id ∈ s.display.activeWindowIds, ∃ w : WindowId, w.1 = id ∧ MayStay w s.history

/-- Once all windows that were opened are closed, a callback that may finish the display is
posted. -/
def SchedulesFinish : Prop :=
  (∃ e ∈ s.history, ∃ w, e.Opens w) → (∀ w, ¬ MayStay w s.history) →
    s.display.emptyWindowExitGeneration ∈ s.display.posted

/-- The invariant behind `SchedulesFinish`. -/
def EmptyIsPosted : Prop :=
  (∃ e ∈ s.history, ∃ w, e.Opens w) → s.display.activeWindowIds = ∅ →
    s.display.emptyWindowExitGeneration ∈ s.display.posted

/-- A display that is not closing tracks its windows. -/
def TracksWhileOpen : Prop := s.display.closing = false → s.Tracks ∧ s.SchedulesFinish

/-- A close that meets the minimised flag is for a window that is minimised, or for one that
is not in the set. -/
def ClosesMinimized : Tick → Prop
  | .event _ e =>
    s.display.closing = false → e.type = .closed → s.display.windowMinimizedByCompositor = true →
      e.windowId.1 ∈ s.display.activeWindowIds → MinimizedInForce e.windowId s.history
  | .fire _ => True

end Watch

variable {w h}

theorem isOpen_append {x : WindowEvent} : IsOpen w (h ++ [x]) ↔
    x.Opens w ∨ IsOpen w h ∧ ¬ x.Closes w :=
  since_append_singleton

theorem mayStay_append {x : WindowEvent} : MayStay w (h ++ [x]) ↔
    x.Opens w ∨ MayStay w h ∧ (x.Closes w → MinimizedInForce w h) :=
  since_append_singleton

namespace Watch

variable {s : Watch} {host : Host}

theorem Tracks.same (hs : s.Tracks) {t : Display} {e : WindowEvent}
    (hactive : t.activeWindowIds = s.display.activeWindowIds) (hopens : ∀ w, ¬ e.Opens w)
    (hcloses : ∀ w, e.Closes w → w.1 ∈ s.display.activeWindowIds →
      MinimizedInForce w s.history) : Tracks ⟨t, s.history ++ [e]⟩ := by
  constructor
  · intro w hw
    rcases isOpen_append.mp hw with hw | ⟨hw, -⟩
    · exact absurd hw (hopens w)
    · rw [hactive]
      exact hs.contains w hw
  · intro id hid
    rw [hactive] at hid
    obtain ⟨w, rfl, hw⟩ := hs.only id hid
    exact ⟨w, rfl, mayStay_append.mpr (.inr ⟨hw, fun hc => hcloses w hc hid⟩)⟩

theorem Tracks.opens (hs : s.Tracks) {t : Display} {e : WindowEvent}
    (hactive : t.activeWindowIds = insert e.windowId.1 s.display.activeWindowIds)
    (htype : e.type = .opened ∨ e.type = .restored) : Tracks ⟨t, s.history ++ [e]⟩ := by
  constructor
  · intro w hw
    rw [hactive]
    rcases isOpen_append.mp hw with hopens | ⟨hw, -⟩
    · rw [hopens.1]
      exact Finset.mem_insert_self _ _
    · exact Finset.mem_insert_of_mem (hs.contains w hw)
  · intro id hid
    rw [hactive] at hid
    rcases Finset.mem_insert.mp hid with rfl | hid
    · exact ⟨e.windowId, rfl, mayStay_append.mpr (.inl ⟨rfl, htype⟩)⟩
    · obtain ⟨w, rfl, hw⟩ := hs.only id hid
      refine ⟨w, rfl, mayStay_append.mpr (.inr ⟨hw, fun hc => ?_⟩)⟩
      rcases htype with htype | htype <;> simp [hc.2] at htype

theorem Tracks.closes (hs : s.Tracks) {t : Display} {e : WindowEvent}
    (hactive : t.activeWindowIds = s.display.activeWindowIds.erase e.windowId.1)
    (htype : e.type = .closed) : Tracks ⟨t, s.history ++ [e]⟩ := by
  constructor
  · intro w hw
    rcases isOpen_append.mp hw with hopens | ⟨hw, hc⟩
    · simp [WindowEvent.Opens, htype] at hopens
    · have hne : w.1 ≠ e.windowId.1 := fun heq => hc ⟨(Subtype.ext heq).symm, htype⟩
      rw [hactive]
      exact Finset.mem_erase.mpr ⟨hne, hs.contains w hw⟩
  · intro id hid
    rw [hactive] at hid
    obtain ⟨hne, hid⟩ := Finset.mem_erase.mp hid
    obtain ⟨w, rfl, hw⟩ := hs.only id hid
    refine ⟨w, rfl, mayStay_append.mpr (.inr ⟨hw, fun hc => ?_⟩)⟩
    obtain ⟨rfl, -⟩ := hc
    exact absurd rfl hne

/-- The set goes on tracking the windows exactly if a close that is ignored may be. -/
theorem tracks_iff (hs : s.Tracks) {e : WindowEvent} {t : Display}
    (ht : host.Handled s.display true e t) :
    Tracks ⟨t, s.history ++ [e]⟩ ↔ (e.type = .closed →
      s.display.windowMinimizedByCompositor = true →
        e.windowId.1 ∈ s.display.activeWindowIds → MinimizedInForce e.windowId s.history) := by
  cases ht with
  | opens type active minimized closing =>
    refine iff_of_true (hs.opens active type) fun hclosed => ?_
    rcases type with type | type <;> simp [hclosed] at type
  | ignored type launched flag active minimized closing generation posted =>
    have hopens : ∀ w, ¬ e.Opens w := by simp [WindowEvent.Opens, type]
    constructor
    · intro htracks _ _ hmem
      obtain ⟨w, hid, hw⟩ := htracks.only e.windowId.1 (by rw [active]; exact hmem)
      obtain rfl := Subtype.ext hid
      rcases mayStay_append.mp hw with hw | ⟨-, hforce⟩
      · exact absurd hw (hopens _)
      · exact hforce ⟨rfl, type⟩
    · intro hforce
      apply hs.same active hopens
      intro w hc hmem
      obtain ⟨rfl, -⟩ := hc
      exact hforce type flag hmem
  | closes type flag active minimized closing scheduled =>
    exact iff_of_true (hs.closes active type) fun _ hflag => absurd hflag (by simp [flag rfl])
  | minimizes type active minimized closing generation posted =>
    apply iff_of_true (hs.same active ?_ ?_)
    · simp [type]
    · simp [WindowEvent.Opens, type]
    · simp [WindowEvent.Closes, type]
  | other code type active minimized closing generation posted =>
    apply iff_of_true (hs.same active ?_ ?_)
    · simp [type]
    · simp [WindowEvent.Opens, type]
    · simp [WindowEvent.Closes, type]

theorem Tracks.schedulesFinish (hs : s.Tracks) (hp : s.EmptyIsPosted) : s.SchedulesFinish := by
  intro hopened hclosed
  apply hp hopened
  apply Finset.eq_empty_of_forall_notMem
  intro id hid
  obtain ⟨w, -, hw⟩ := hs.only id hid
  exact hclosed w hw

theorem emptyIsPosted_handled (hs : s.EmptyIsPosted) {e : WindowEvent} {t : Display}
    (ht : host.Handled s.display true e t) : EmptyIsPosted ⟨t, s.history ++ [e]⟩ := by
  have hsame : (e.type ≠ .opened ∧ e.type ≠ .restored) →
      t.activeWindowIds = s.display.activeWindowIds →
      t.emptyWindowExitGeneration = s.display.emptyWindowExitGeneration →
      t.posted = s.display.posted → EmptyIsPosted ⟨t, s.history ++ [e]⟩ := by
    rintro ⟨hopened, hrestored⟩ hactive hgen hposted ⟨x, hx, w, hopens⟩ hnone
    dsimp only at hnone ⊢
    rw [hgen, hposted]
    rw [hactive] at hnone
    rcases List.mem_append.mp hx with hx | hx
    · exact hs ⟨x, hx, w, hopens⟩ hnone
    · obtain rfl := List.mem_singleton.mp hx
      exact (hopens.2.elim hopened hrestored).elim
  cases ht with
  | opens type active minimized closing =>
    intro _ hnone
    dsimp only at hnone
    rw [active] at hnone
    exact absurd hnone (Finset.insert_ne_empty _ _)
  | ignored type launched flag active minimized closing generation posted =>
    exact hsame (by simp [type]) active generation posted
  | closes type flag active minimized closing scheduled => exact fun _ hnone => scheduled rfl hnone
  | minimizes type active minimized closing generation posted =>
    exact hsame (by simp [type]) active generation posted
  | other code type active minimized closing generation posted =>
    exact hsame (by simp [type]) active generation posted

/-- Running a callback closes the display, or leaves the latest one where it is posted. -/
theorem fire_cases {i : ℕ} {s' : Watch} (hs : s.step host (.fire i) = some s') :
    s'.history = s.history ∧ s'.display.activeWindowIds = s.display.activeWindowIds ∧
      s'.display.emptyWindowExitGeneration = s.display.emptyWindowExitGeneration ∧
      (s'.display.closing = true ∧ s.display.activeWindowIds = ∅ ∨
        s'.display.closing = s.display.closing ∧
          (s.display.closing = false → s.display.activeWindowIds = ∅ →
            s.display.emptyWindowExitGeneration ∈ s.display.posted →
              s.display.emptyWindowExitGeneration ∈ s'.display.posted)) := by
  obtain ⟨generation, hgen, rfl⟩ := Option.map_eq_some_iff.mp hs
  unfold Display.finishIfNoWindows
  split
  · rename_i hstale
    refine ⟨rfl, rfl, rfl, .inr ⟨rfl, fun hopen hnone hmem => ?_⟩⟩
    have hne : generation ≠ s.display.emptyWindowExitGeneration := by
      simpa [hopen, hnone] using hstale
    obtain ⟨j, hj⟩ := List.mem_iff_getElem?.mp hmem
    refine List.mem_eraseIdx_iff_getElem?.mpr ⟨j, ?_, hj⟩
    rintro rfl
    exact hne (Option.some.inj (hgen.symm.trans hj))
  · rename_i hfinish
    push Not at hfinish
    exact ⟨rfl, rfl, rfl, .inl ⟨rfl, hfinish.2.2⟩⟩

/-- What every run keeps: the set tracks the windows and an empty one is posted. -/
def InStep (s : Watch) : Prop := s.display.closing = false → s.Tracks ∧ s.EmptyIsPosted

theorem inStep_start (display : Display) : (start display).InStep := by
  intro _
  refine ⟨⟨?_, ?_⟩, ?_⟩
  · intro w hw
    exact absurd hw not_since_nil
  · intro id hid
    simp [start] at hid
  · rintro ⟨e, he, -⟩
    simp [start] at he

theorem InStep.tracksWhileOpen (hs : s.InStep) : s.TracksWhileOpen := fun hopen =>
  ⟨(hs hopen).1, (hs hopen).1.schedulesFinish (hs hopen).2⟩

theorem InStep.event_iff (hs : s.InStep) (e : WindowEvent) :
    (TracksWhileOpen ⟨host.handle true s.display e, s.history ++ [e]⟩ ↔
        s.ClosesMinimized (.event true e)) ∧
      (s.ClosesMinimized (.event true e) →
        InStep ⟨host.handle true s.display e, s.history ++ [e]⟩) := by
  cases hopen : s.display.closing with
  | true =>
    rw [host.handle_of_closing s.display hopen true e]
    have hclosed : ∀ {P : Prop}, s.display.closing = false → P := by
      intro P hfalse
      rw [hopen] at hfalse
      cases hfalse
    exact ⟨iff_of_true hclosed hclosed, fun _ => hclosed⟩
  | false =>
    obtain ⟨htracks, hposted⟩ := hs hopen
    have hhandled := host.handle_handled s.display hopen true e
    have hopen' := hhandled.closing_eq (by simp)
    have hiff := tracks_iff htracks hhandled
    have hposted' := emptyIsPosted_handled hposted hhandled
    refine ⟨⟨?_, ?_⟩, ?_⟩
    · intro hp _
      exact hiff.mp (hp hopen').1
    · intro hg _
      have htracks' := hiff.mpr (hg hopen)
      exact ⟨htracks', htracks'.schedulesFinish hposted'⟩
    · intro hg _
      exact ⟨hiff.mpr (hg hopen), hposted'⟩

theorem InStep.fire (hs : s.InStep) {i : ℕ} {s' : Watch}
    (hstep : s.step host (.fire i) = some s') : s'.InStep := by
  obtain ⟨hhist, hactive, hgen, ⟨hclosing, -⟩ | ⟨hclosing, hkept⟩⟩ := fire_cases hstep
  · intro hopen
    rw [hclosing] at hopen
    cases hopen
  · intro hopen
    rw [hclosing] at hopen
    obtain ⟨htracks, hposted⟩ := hs hopen
    refine ⟨⟨?_, ?_⟩, ?_⟩
    · rw [hhist, hactive]
      exact htracks.contains
    · rw [hhist, hactive]
      exact htracks.only
    · unfold EmptyIsPosted
      rw [hhist, hactive, hgen]
      intro hopened hnone
      exact hkept hopen hnone (hposted hopened hnone)

theorem launchedStep_eq_some {t : Tick} {s' : Watch} (hstep : launchedStep host s t = some s') :
    s.step host t = some s' ∧ ∀ e, t ≠ .event false e := by
  cases t with
  | event token e =>
    cases token with
    | false => cases hstep
    | true => exact ⟨hstep, by simp⟩
  | fire i => exact ⟨hstep, by simp⟩

theorem InStep.step_iff (hs : s.InStep) {t : Tick} {s' : Watch}
    (hstep : launchedStep host s t = some s') :
    (s'.TracksWhileOpen ↔ s.ClosesMinimized t) ∧ (s.ClosesMinimized t → s'.InStep) := by
  obtain ⟨hstep, hlaunched⟩ := launchedStep_eq_some hstep
  cases t with
  | event token e =>
    cases token with
    | false => exact absurd rfl (hlaunched e)
    | true =>
      obtain rfl := Option.some.inj hstep
      exact hs.event_iff e
  | fire i =>
    have hs' := hs.fire hstep
    exact ⟨iff_of_true hs'.tracksWhileOpen trivial, fun _ => hs'⟩

/-- The set of the overlay service holds every open window, with or without a launch token. -/
def KeepsOpen (s : Watch) : Prop :=
  s.display.closing = false → ∀ w, IsOpen w s.history → w.1 ∈ s.display.activeWindowIds

theorem keepsOpen_handled {token : Bool} {e : WindowEvent} {t : Display}
    (hs : ∀ w, IsOpen w s.history → w.1 ∈ s.display.activeWindowIds)
    (ht : host.Handled s.display token e t) {w : WindowId} (hw : IsOpen w (s.history ++ [e])) :
    w.1 ∈ t.activeWindowIds := by
  have hold : (e.Opens w → w.1 ∈ t.activeWindowIds) →
      (¬ e.Closes w → w.1 ∈ s.display.activeWindowIds → w.1 ∈ t.activeWindowIds) →
        w.1 ∈ t.activeWindowIds := by
    intro hnew hkept
    rcases isOpen_append.mp hw with hopens | ⟨hw, hc⟩
    · exact hnew hopens
    · exact hkept hc (hs w hw)
  have hopens : e.type ≠ .opened ∧ e.type ≠ .restored → e.Opens w → w.1 ∈ t.activeWindowIds := by
    rintro ⟨hopened, hrestored⟩ hopens
    exact (hopens.2.elim hopened hrestored).elim
  cases ht with
  | opens type active minimized closing =>
    apply hold
    · intro hopens
      rw [active, hopens.1]
      exact Finset.mem_insert_self _ _
    · intro _ hmem
      rw [active]
      exact Finset.mem_insert_of_mem hmem
  | closes type flag active minimized closing scheduled =>
    refine hold (hopens (by simp [type])) fun hc hmem => ?_
    rw [active]
    refine Finset.mem_erase.mpr ⟨fun heq => hc ?_, hmem⟩
    exact ⟨(Subtype.ext heq).symm, type⟩
  | ignored type launched flag active minimized closing generation posted =>
    refine hold (hopens (by simp [type])) fun _ hmem => ?_
    rw [active]
    exact hmem
  | minimizes type active minimized closing generation posted =>
    refine hold (hopens (by simp [type])) fun _ hmem => ?_
    rw [active]
    exact hmem
  | other code type active minimized closing generation posted =>
    refine hold (hopens (by simp [type])) fun _ hmem => ?_
    rw [active]
    exact hmem

theorem keepsOpen_start (display : Display) : (start display).KeepsOpen :=
  fun _ _ hw => absurd hw not_since_nil

theorem KeepsOpen.step (hs : s.KeepsOpen) {t : Tick} {s' : Watch}
    (hstep : s.step .overlayService t = some s') :
    s'.KeepsOpen ∧ (s.display.closing = false → s'.display.closing = true →
      ∀ w, ¬ IsOpen w s.history) := by
  cases t with
  | event token e =>
    obtain rfl := Option.some.inj hstep
    cases hopen : s.display.closing with
    | true =>
      rw [Host.handle_of_closing _ _ hopen]
      refine ⟨fun hfalse => ?_, by simp⟩
      rw [hopen] at hfalse
      cases hfalse
    | false =>
      have hhandled := Host.overlayService.handle_handled s.display hopen token e
      refine ⟨fun _ w hw => keepsOpen_handled (hs hopen) hhandled hw, fun _ hclosing => ?_⟩
      rw [hhandled.closing_eq (by simp)] at hclosing
      cases hclosing
  | fire i =>
    obtain ⟨hhist, hactive, -, ⟨hclosing, hnone⟩ | ⟨hclosing, -⟩⟩ := fire_cases hstep
    · refine ⟨fun hopen => ?_, fun hopen _ w hw => ?_⟩
      · rw [hclosing] at hopen
        cases hopen
      · have hmem := hs hopen w hw
        rw [hnone] at hmem
        exact Finset.notMem_empty _ hmem
    · refine ⟨fun hopen => ?_, fun hopen hclose => ?_⟩
      · rw [hhist, hactive]
        exact hs (hclosing.symm.trans hopen)
      · rw [hclosing, hopen] at hclose
        cases hclose

end Watch

/-- While a launch token is set, the set holds exactly the open windows, up to closes of
minimised ones, and an empty set schedules the finish, if and only if every close that meets
the minimised flag is for a window that is minimised or is not in the set. -/
theorem tracks_iff_closesMinimized (host : Host) (display : Display) (ticks : List Tick) :
    Along (Watch.launchedStep host) (fun _ _ s => s.TracksWhileOpen) (.start display) ticks ↔
      Along (Watch.launchedStep host) (fun s t _ => s.ClosesMinimized t) (.start display) ticks :=
  along_iff_of_invariant (I := Watch.InStep) (fun _ _ _ hs hstep => (hs.step_iff hstep).1)
    (fun _ _ _ hs hstep hg => (hs.step_iff hstep).2 hg) (Watch.inStep_start display) ticks

/-- A display as it is created. -/
def newDisplay : Display where
  lastWindowId := 0
  windowMinimizedByCompositor := false
  customMinimized := false
  keepDisplayWhileBackgrounded := false
  activeWindowIds := ∅
  emptyWindowExitGeneration := 0
  closing := false
  posted := []

/-- Of two windows the second is minimised, and the first is closed. -/
def closeBehindMinimized : List Tick :=
  [.event true ⟨.opened, 1, by decide⟩, .event true ⟨.opened, 2, by decide⟩,
    .event true ⟨.minimized, 2, by decide⟩, .event true ⟨.closed, 1, by decide⟩]

/-- The close is ignored, although the window that closes was never minimised. -/
theorem closeBehindMinimized_not_tracked :
    ¬ Along (Watch.launchedStep .overlayService) (fun _ _ s => s.TracksWhileOpen)
      (.start newDisplay) closeBehindMinimized := by
  intro h
  have hlast := Along.at (closeBehindMinimized.take 3) h rfl rfl
  obtain ⟨w, hid, hw⟩ := (hlast rfl).1.only 1 (by decide)
  obtain rfl : w = ⟨1, by decide⟩ := Subtype.ext hid
  obtain ⟨-, hforce⟩ := (mayStay_append.mp hw).resolve_left (by decide)
  have hmin := (hforce (by decide)).exists
  exact absurd hmin (by decide)

/-- With any callbacks pending and running in any order, the overlay service closes only when
every window that was opened or restored has been closed since. -/
theorem closing_only_when_closed (display : Display) (ticks : List Tick) :
    Along (fun s t => Watch.step s .overlayService t)
      (fun s _ s' => s.display.closing = false → s'.display.closing = true →
        ∀ w, ¬ IsOpen w s.history) (.start display) ticks := by
  exact along_of_invariant (I := Watch.KeepsOpen) (fun _ _ _ hs h => (hs.step h).1)
    (fun _ _ _ hs h => (hs.step h).2) (Watch.keepsOpen_start display) ticks

end Android
end ACGlass
