import ACGlass.Android.Text
import ACGlass.Transition

/-!
# The launch threads of the overlay

A start intent makes an app the current one, and the next display-ready callback launches
it. The thread of a launch lives as long as the app, and writes to `launchRequested` and
`closing` at its end, whatever app is current then. `DisplayActivity` does the same with
`closingFromBack`.
-/

namespace ACGlass
namespace Android

open Transition

/-- A thread of `launchLinuxAppAfterDisplayReady` with the values that it captured. -/
structure Launch where
  launchContainer : Option Text
  launchCommand : Option Text
  launchAppId : Option Text
  ended : Bool
  deriving DecidableEq, Repr

/-- How `launchApp` ends: `stopRequested` is what `consumeStopRequested` returns in the
handler of the exception. -/
inductive Completion
  | normal
  | exception (stopRequested : Bool)
  deriving DecidableEq, Repr

def Completion.fails : Completion → Bool
  | .exception false => true
  | _ => false

/-- The fields of the service that a launch depends on. `closedByUser` is set by
`closeOverlay` alone, and `launches` counts those of the current app since it is current. -/
structure LaunchState where
  containerName : Option Text
  appCommand : Option Text
  appId : Option Text
  launchRequested : Bool
  launchStarted : Bool
  closing : Bool
  closedByUser : Bool
  launches : ℕ
  threads : List Launch
  deriving DecidableEq, Repr

inductive LaunchStep
  | startIntent (containerName appCommand appId : Option Text)
  | displayReady
  | completed (i : ℕ) (completion : Completion)
  | closeOverlay
  deriving DecidableEq, Repr

namespace LaunchState

variable (s : LaunchState)

def initial : LaunchState := ⟨none, none, none, false, false, false, false, 0, []⟩

def updateFromIntent (containerName appCommand nextAppId : Option Text) : LaunchState :=
  let s := { s with containerName, appCommand }
  let s :=
    if nextAppId ≠ none ∧ nextAppId ≠ s.appId then
      { s with launchRequested := true, launchStarted := false, launches := 0 }
    else s
  let s := { s with appId := nextAppId }
  if nextAppId = none then
    { s with launchRequested := false, launchStarted := false, launches := 0 }
  else s

def hasLaunchToken : Bool := present s.containerName && present s.appId && present s.appCommand

def launchLinuxAppAfterDisplayReady : LaunchState :=
  if !s.hasLaunchToken || !s.launchRequested || s.launchStarted || s.closing then s
  else
    { s with
      launchStarted := true
      launches := s.launches + 1
      threads := s.threads ++ [⟨s.containerName, s.appCommand, s.appId, false⟩] }

/-- The `catch` and the `finally` block of thread `i`. -/
def complete (i : ℕ) (launch : Launch) (completion : Completion) : LaunchState :=
  { s with
    closing := s.closing || completion.fails
    launchRequested := false
    threads := s.threads.set i { launch with ended := true } }

def closeOverlay : LaunchState :=
  if s.closing then s else { s with closing := true, closedByUser := true }

def step : LaunchStep → Option LaunchState
  | .startIntent containerName appCommand appId =>
    some (s.updateFromIntent containerName appCommand appId)
  | .displayReady => some s.launchLinuxAppAfterDisplayReady
  | .completed i completion =>
    s.threads[i]?.bind fun launch =>
      if launch.ended then none else some (s.complete i launch completion)
  | .closeOverlay => some s.closeOverlay

/-- What the launch of another app must leave alone. -/
def flags : Bool × Bool × Bool := (s.launchRequested, s.launchStarted, s.closing)

/-- A thread that ends changes a flag only if its app is the current one, and an app that can
be launched has been launched once behind a display-ready callback. -/
def Undisturbed (s : LaunchState) : LaunchStep → LaunchState → Prop
  | .completed i _, t => ∀ launch ∈ s.threads[i]?, t.flags ≠ s.flags → launch.launchAppId = s.appId
  | .displayReady, t => s.hasLaunchToken = true → s.closedByUser = false → t.launches = 1
  | _, _ => True

/-- A thread ends while its app is the current one and has been launched, or finds nothing
to change; and no app becomes current once a failed launch has set `closing`. -/
def Orderly : LaunchStep → Prop
  | .completed i completion => ∀ launch ∈ s.threads[i]?,
    launch.launchAppId = s.appId ∧ s.launchStarted = true ∨
      s.launchRequested = false ∧ (completion.fails = true → s.closing = true)
  | .startIntent _ _ appId =>
    appId ≠ none → appId ≠ s.appId → s.closing = true → s.closedByUser = true
  | _ => True

instance : ∀ e, Decidable (s.Orderly e)
  | .completed i completion => inferInstanceAs (Decidable (∀ launch ∈ s.threads[i]?,
      launch.launchAppId = s.appId ∧ s.launchStarted = true ∨
        s.launchRequested = false ∧ (completion.fails = true → s.closing = true)))
  | .startIntent _ _ appId => inferInstanceAs (Decidable (appId ≠ none → appId ≠ s.appId →
      s.closing = true → s.closedByUser = true))
  | .displayReady | .closeOverlay => isTrue trivial

/-- `launchStarted` counts the launches, and an app that waits for its launch is requested. -/
structure Awaiting : Prop where
  launches : s.appId ≠ none → s.launches = if s.launchStarted then 1 else 0
  requested : s.appId ≠ none → s.launchStarted = false → s.closedByUser = false →
    s.launchRequested = true ∧ s.closing = false

variable {s t : LaunchState}

theorem awaiting_initial : initial.Awaiting where
  launches := fun h => absurd rfl h
  requested := fun h => absurd rfl h

theorem appId_ne_none (h : s.hasLaunchToken = true) : s.appId ≠ none := by
  intro hnone
  simp [hasLaunchToken, hnone, present] at h

theorem Awaiting.updateFromIntent (h : s.Awaiting) {containerName appCommand appId : Option Text}
    (ho : s.Orderly (.startIntent containerName appCommand appId)) :
    (s.updateFromIntent containerName appCommand appId).Awaiting := by
  unfold LaunchState.updateFromIntent
  dsimp only
  by_cases hnone : appId = none
  · rw [if_pos hnone]
    exact ⟨fun hne => absurd hnone hne, fun hne => absurd hnone hne⟩
  rw [if_neg hnone]
  by_cases hnew : appId = s.appId
  · rw [if_neg (by simp [hnew]), hnew]
    exact ⟨h.launches, h.requested⟩
  · rw [if_pos ⟨hnone, hnew⟩]
    refine ⟨fun _ => rfl, fun _ _ huser => ⟨rfl, ?_⟩⟩
    by_contra hclosing
    have := ho hnone hnew (by simpa using hclosing)
    simp [this] at huser

/-- A launch that is due is made. -/
theorem launchLinuxApp_launches (h : s.Awaiting) (htoken : s.hasLaunchToken = true)
    (huser : s.closedByUser = false) : s.launchLinuxAppAfterDisplayReady.launches = 1 := by
  have hid := appId_ne_none htoken
  have hlaunches := h.launches hid
  unfold launchLinuxAppAfterDisplayReady
  cases hstarted : s.launchStarted with
  | true => simpa [hstarted] using hlaunches
  | false =>
    obtain ⟨hrequested, hclosing⟩ := h.requested hid hstarted huser
    simpa [htoken, hrequested, hclosing, hstarted] using hlaunches

theorem Awaiting.launchLinuxApp (h : s.Awaiting) :
    s.launchLinuxAppAfterDisplayReady.Awaiting := by
  unfold launchLinuxAppAfterDisplayReady
  split
  · exact h
  rename_i hlaunch
  have hstarted : s.launchStarted = false := by simp_all
  constructor
  · intro hid
    have := h.launches hid
    simpa [hstarted] using this
  · intro _ hno
    cases hno

theorem Awaiting.complete (h : s.Awaiting) {i : ℕ} {launch : Launch} {completion : Completion}
    (hl : s.threads[i]? = some launch) (ho : s.Orderly (.completed i completion)) :
    (s.complete i launch completion).Awaiting := by
  refine ⟨h.launches, fun hid hno huser => ?_⟩
  have hno : s.launchStarted = false := hno
  obtain ⟨hrequested, -⟩ := h.requested hid hno huser
  rcases ho launch hl with ⟨-, hstarted⟩ | ⟨hfalse, -⟩
  · simp [hstarted] at hno
  · simp [hrequested] at hfalse

theorem Awaiting.closeOverlay (h : s.Awaiting) : s.closeOverlay.Awaiting := by
  unfold LaunchState.closeOverlay
  split
  · exact h
  · exact ⟨h.launches, fun _ _ huser => by cases huser⟩

theorem Awaiting.step (h : s.Awaiting) {e : LaunchStep} (hs : s.step e = some t)
    (ho : s.Orderly e) : t.Awaiting ∧ s.Undisturbed e t := by
  cases e with
  | startIntent containerName appCommand appId =>
    obtain rfl := Option.some.inj hs
    exact ⟨h.updateFromIntent ho, trivial⟩
  | displayReady =>
    obtain rfl := Option.some.inj hs
    exact ⟨h.launchLinuxApp, launchLinuxApp_launches h⟩
  | completed i completion =>
    obtain ⟨launch, hl, hs⟩ := Option.bind_eq_some_iff.mp hs
    split at hs
    · cases hs
    obtain rfl := Option.some.inj hs
    refine ⟨h.complete hl ho, fun launch' hl' hflags => ?_⟩
    obtain rfl : launch = launch' := Option.some.inj (hl.symm.trans hl')
    rcases ho launch hl with ⟨hid, -⟩ | ⟨hrequested, hfails⟩
    · exact hid
    · refine absurd ?_ hflags
      cases hf : completion.fails with
      | false => simp [flags, LaunchState.complete, hrequested, hf]
      | true => simp [flags, LaunchState.complete, hrequested, hf, hfails hf]
  | closeOverlay =>
    obtain rfl := Option.some.inj hs
    exact ⟨h.closeOverlay, trivial⟩

/-- In an orderly run the launches of different apps do not disturb each other. -/
theorem undisturbed_of_orderly {es : List LaunchStep}
    (h : Along step (fun s e _ => s.Orderly e) initial es) : Along step Undisturbed initial es :=
  along_of_guard (I := Awaiting) (G := fun s e _ => s.Orderly e) (P := Undisturbed)
    (fun _ _ _ hs ht hg => hs.step ht hg) awaiting_initial h

def startApp (appId : Text) : LaunchStep := .startIntent (some ['c']) (some ['x']) (some appId)

/-- The first app ends before the second is started. -/
theorem undisturbed_oneAfterOther :
    Along step Undisturbed initial [startApp ['a'], .displayReady, .completed 0 .normal,
      startApp ['b'], .displayReady] :=
  undisturbed_of_orderly (by decide)

/-- The first app ends while the second waits for its display. -/
def endsInBetween : List LaunchStep :=
  [startApp ['a'], .displayReady, startApp ['b'], .completed 0 .normal]

theorem endsInBetween_not_undisturbed : ¬ Along step Undisturbed initial endsInBetween := by
  intro h
  have hlast := Along.at [startApp ['a'], .displayReady, startApp ['b']] h rfl rfl
  have hid := hlast _ rfl (by decide)
  revert hid
  decide

end LaunchState

end Android
end ACGlass
