import ACGlass.Transition

/-!
# Requests for the native display

`startDisplay`, `restartDisplay` and `stopDisplayAsync` count up `displayGeneration` on the UI
thread and leave the native calls to a new worker. A worker compares its generation before a
call, and the call comes later. `DisplayOverlayService` and `DisplayActivity` have the same
three functions.
-/

namespace ACGlass
namespace Android

open Transition

variable {σ : Type*}

inductive Request (σ : Type*)
  | startDisplay (surface : σ)
  | restartDisplay (surface : σ)
  | stopDisplayAsync
  deriving DecidableEq, Repr

/-- The surface that the native display should run on. -/
def Request.target : Request σ → Option σ
  | .startDisplay surface | .restartDisplay surface => some surface
  | .stopDisplayAsync => none

/-- What a worker does next: compare its generation, `nativeStop` of a restart, compare it
again, and the native call that fulfils the request. -/
inductive WorkerPc
  | comparing
  | stopping
  | recomparing
  | calling
  | finished
  deriving DecidableEq, Repr

structure Worker (σ : Type*) where
  request : Request σ
  generation : UInt32
  pc : WorkerPc
  deriving DecidableEq, Repr

namespace Worker

variable (w : Worker σ)

/-- A read of `displayGeneration`. -/
def read (displayGeneration : UInt32) : Option (Worker σ) :=
  match w.pc with
  | .comparing =>
    if w.generation = displayGeneration then
      match w.request with
      | .restartDisplay _ => some { w with pc := .stopping }
      | .startDisplay _ | .stopDisplayAsync => some { w with pc := .calling }
    else some { w with pc := .finished }
  | .recomparing =>
    if w.generation = displayGeneration then some { w with pc := .calling }
    else some { w with pc := .finished }
  | _ => none

/-- A `nativeStart` or `nativeStop`, with what the display then runs on. -/
def call : Option (Worker σ × Option σ) :=
  match w.pc with
  | .stopping => some ({ w with pc := .recomparing }, none)
  | .calling => some ({ w with pc := .finished }, w.request.target)
  | _ => none

end Worker

/-- `displayGeneration` is a Java `int`, of which only equality matters. `native` is the
surface of a native display that runs. -/
structure DisplayState (σ : Type*) where
  displayGeneration : UInt32
  native : Option σ
  workers : List (Worker σ)
  deriving DecidableEq, Repr

/-- A call on the UI thread, or an atomic step of worker `i`. -/
inductive DisplayStep (σ : Type*)
  | request (r : Request σ)
  | read (i : ℕ)
  | call (i : ℕ)
  deriving DecidableEq, Repr

namespace DisplayState

variable (s : DisplayState σ)

def initial : DisplayState σ := ⟨0, none, []⟩

def setWorker (i : ℕ) (w : Worker σ) : DisplayState σ := { s with workers := s.workers.set i w }

def step : DisplayStep σ → Option (DisplayState σ)
  | .request r =>
    let generation := s.displayGeneration + 1
    some { s with
      displayGeneration := generation
      workers := s.workers ++ [⟨r, generation, .comparing⟩] }
  | .read i => (s.workers[i]?.bind fun w => w.read s.displayGeneration).map (s.setWorker i)
  | .call i =>
    (s.workers[i]?.bind Worker.call).map fun (w, native) =>
      { s.setWorker i w with native := native }

/-- When every worker has finished, the display is as the last request wants it. -/
def LastWins : Prop :=
  (∀ w ∈ s.workers, w.pc = .finished) →
    ∀ w ∈ s.workers.getLast?, s.native = w.request.target

/-- A native call of a superseded worker comes before that of the newest one, or does the
same. -/
def InOrder : DisplayStep σ → Prop
  | .call i => ∀ newest ∈ s.workers.getLast?, newest.pc = .finished →
    i + 1 < s.workers.length →
      ∀ w ∈ s.workers[i]?, ∀ r ∈ w.call, r.2 = newest.request.target
  | _ => True

instance [DecidableEq σ] : ∀ e, Decidable (s.InOrder e)
  | .call i => inferInstanceAs (Decidable (∀ newest ∈ s.workers.getLast?, newest.pc = .finished →
      i + 1 < s.workers.length → ∀ w ∈ s.workers[i]?, ∀ r ∈ w.call, r.2 = newest.request.target))
  | .request _ | .read _ => isTrue trivial

/-- The newest worker has the current generation, and its native call is the last to count. -/
structure NewestFirst : Prop where
  generation : ∀ w ∈ s.workers.getLast?, w.generation = s.displayGeneration
  native : ∀ w ∈ s.workers.getLast?, w.pc = .finished → s.native = w.request.target

theorem getLast?_set_of_lt {α : Type*} {l : List α} {i : ℕ} (h : i + 1 < l.length) (a : α) :
    (l.set i a).getLast? = l.getLast? := by
  rw [List.getLast?_eq_getElem?, List.getLast?_eq_getElem?, List.length_set,
    List.getElem?_set_ne (by omega)]

theorem getLast?_set_last {α : Type*} {l : List α} {i : ℕ} (h : i + 1 = l.length) (a : α) :
    (l.set i a).getLast? = some a := by
  have hlast : l.length - 1 = i := by omega
  rw [List.getLast?_eq_getElem?, List.length_set, hlast, List.getElem?_set_self (by omega)]

/-- A worker keeps its request and its generation. -/
theorem read_fields {w w' : Worker σ} {displayGeneration : UInt32}
    (h : w.read displayGeneration = some w') :
    w'.request = w.request ∧ w'.generation = w.generation ∧
      (w.generation = displayGeneration → w'.pc ≠ .finished) := by
  unfold Worker.read at h
  split at h
  · split at h
    · split at h
      all_goals
        obtain rfl := Option.some.inj h
        simp
    · rename_i hne
      obtain rfl := Option.some.inj h
      simp [hne]
  · split at h
    · obtain rfl := Option.some.inj h
      simp
    · rename_i hne
      obtain rfl := Option.some.inj h
      simp [hne]
  · cases h

theorem call_fields {w w' : Worker σ} {native : Option σ} (h : w.call = some (w', native)) :
    w'.request = w.request ∧ w'.generation = w.generation ∧
      (w'.pc = .finished → native = w.request.target) := by
  unfold Worker.call at h
  split at h
  · obtain ⟨rfl, rfl⟩ := Prod.mk.inj (Option.some.inj h)
    simp
  · obtain ⟨rfl, rfl⟩ := Prod.mk.inj (Option.some.inj h)
    simp
  · cases h

variable {s s' : DisplayState σ}

theorem newestFirst_initial : (initial : DisplayState σ).NewestFirst where
  generation := by simp [initial]
  native := by simp [initial]

theorem NewestFirst.read (h : s.NewestFirst) {i : ℕ} {w w' : Worker σ}
    (hw : s.workers[i]? = some w) (hr : w.read s.displayGeneration = some w') :
    (s.setWorker i w').NewestFirst := by
  obtain ⟨hi, -⟩ := List.getElem?_eq_some_iff.mp hw
  obtain ⟨hrequest, hgeneration, hpc⟩ := read_fields hr
  by_cases hlast : i + 1 = s.workers.length
  · have hnewest : s.workers.getLast? = some w := by
      rwa [List.getLast?_eq_getElem?, show s.workers.length - 1 = i by omega]
    have hcurrent := h.generation w hnewest
    constructor
    · intro v hv
      obtain rfl : w' = v := by
        simpa [setWorker, getLast?_set_last hlast] using hv
      exact hgeneration.trans hcurrent
    · intro v hv hfinished
      obtain rfl : w' = v := by
        simpa [setWorker, getLast?_set_last hlast] using hv
      exact absurd hfinished (hpc hcurrent)
  · have hsame : (s.setWorker i w').workers.getLast? = s.workers.getLast? :=
      getLast?_set_of_lt (by omega) w'
    constructor
    · rw [hsame]
      exact h.generation
    · rw [hsame]
      exact h.native

theorem NewestFirst.call (h : s.NewestFirst) {i : ℕ} {w w' : Worker σ} {native : Option σ}
    (hw : s.workers[i]? = some w) (hc : w.call = some (w', native))
    (horder : s.InOrder (.call i)) :
    NewestFirst { s.setWorker i w' with native := native } := by
  obtain ⟨hi, -⟩ := List.getElem?_eq_some_iff.mp hw
  obtain ⟨hrequest, hgeneration, hnative⟩ := call_fields hc
  by_cases hlast : i + 1 = s.workers.length
  · have hnewest : s.workers.getLast? = some w := by
      rwa [List.getLast?_eq_getElem?, show s.workers.length - 1 = i by omega]
    constructor
    · intro v hv
      obtain rfl : w' = v := by
        simpa [setWorker, getLast?_set_last hlast] using hv
      exact hgeneration.trans (h.generation w hnewest)
    · intro v hv hfinished
      obtain rfl : w' = v := by
        simpa [setWorker, getLast?_set_last hlast] using hv
      rw [hrequest]
      exact hnative hfinished
  · have hlt : i + 1 < s.workers.length := by omega
    have hsame : (s.setWorker i w').workers.getLast? = s.workers.getLast? :=
      getLast?_set_of_lt hlt w'
    constructor
    · rw [hsame]
      exact h.generation
    · rw [hsame]
      exact fun newest hnewest hfinished =>
        horder newest hnewest hfinished hlt w hw (w', native) hc

theorem NewestFirst.step {e : DisplayStep σ} (h : s.NewestFirst) (hs : s.step e = some s')
    (horder : s.InOrder e) : s'.NewestFirst := by
  cases e with
  | request r =>
    obtain rfl := Option.some.inj hs
    constructor <;> simp
  | read i =>
    obtain ⟨w', hw', rfl⟩ := Option.map_eq_some_iff.mp hs
    obtain ⟨w, hw, hr⟩ := Option.bind_eq_some_iff.mp hw'
    exact h.read hw hr
  | call i =>
    obtain ⟨⟨w', native⟩, hw', rfl⟩ := Option.map_eq_some_iff.mp hs
    obtain ⟨w, hw, hc⟩ := Option.bind_eq_some_iff.mp hw'
    exact h.call hw hc horder

theorem NewestFirst.lastWins (h : s.NewestFirst) : s.LastWins := by
  intro hfinished w hw
  exact h.native w hw (hfinished w (List.mem_of_getLast? hw))

/-- In a run whose native calls come in order, the last request wins whenever all workers
have finished. -/
theorem lastWins_of_inOrder {es : List (DisplayStep σ)}
    (h : Along step (fun s e _ => s.InOrder e) initial es) : Always step LastWins initial es := by
  refine ⟨newestFirst_initial.lastWins, ?_⟩
  exact along_of_guard (I := NewestFirst) (G := fun s e _ => s.InOrder e)
    (P := fun _ _ t => t.LastWins)
    (fun s e t hs ht hg => ⟨hs.step ht hg, (hs.step ht hg).lastWins⟩) newestFirst_initial h

/-- The surface changes and is destroyed, and each worker runs to its end. -/
def changeThenDestroy : List (DisplayStep ℕ) :=
  [.request (.restartDisplay 7), .read 0, .call 0, .read 0, .call 0, .request .stopDisplayAsync,
    .read 1, .call 1]

theorem lastWins_changeThenDestroy : Always step LastWins initial changeThenDestroy :=
  lastWins_of_inOrder (by decide)

/-- A start that has compared its generation calls after the stop that superseded it. -/
def startAfterStop : List (DisplayStep ℕ) :=
  [.request (.startDisplay 7), .read 0, .request .stopDisplayAsync, .read 1, .call 1, .call 0]

theorem not_lastWins_startAfterStop : ¬ Always step LastWins initial startAfterStop := by
  intro h
  have hlast := h.exec (t := ⟨2, some 7, [⟨.startDisplay 7, 1, .finished⟩,
    ⟨.stopDisplayAsync, 2, .finished⟩]⟩) (by decide)
  have hstopped := hlast (by decide) ⟨.stopDisplayAsync, 2, .finished⟩ rfl
  cases hstopped

end DisplayState

end Android
end ACGlass
