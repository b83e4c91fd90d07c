import ACGlass.Anland.Handshake

/-!
# Who may draw into a buffer

A repaint is the backend's turn only between `select_dmabuf` and `refresh_done`. Nothing in
`anland_output_repaint` waits for that.
-/

namespace ACGlass
namespace Anland

open Transition

variable {φ ρ : Type*}

/-- The buffer-ready handler draws nothing. -/
theorem BufReadied.retains {b : Backend φ ρ} {bufs : List (φ × BufInfo)} {efd : φ}
    {r : Backend φ ρ × List (Effect φ ρ)} (h : BufReadied b bufs efd r) :
    ∀ x ∈ r.2, x.retains = true := by
  cases h with
  | again => simp [Effect.retains]
  | fell hf hempty heffs => exact heffs
  | first hcount heffs =>
    intro x hx
    rcases List.mem_cons.mp hx with rfl | hx
    · rfl
    · exact Effect.retains_of_aside (heffs x hx)

namespace State

/-- The backend draws only into the buffer that the consumer has handed over. -/
def Owned (s : State φ ρ) (_ : Label φ ρ) (s' : State φ ρ) : Prop :=
  ∀ idx ∈ s'.painted.drop s.painted.length, s.handed = some idx

/-- A repaint that gets past its guards comes while a buffer is pending; a library that has
entered fallback draws into buffer 0, so it has to be that one. -/
def InTurn (s : State φ ρ) : Label φ ρ → State φ ρ → Prop
  | .repaint _, _ => (s.backend.target s.shm).isSome →
      s.consumer.bufferPending = true ∧ (s.backend.display.fallback = true → s.shm = 0)
  | _, _ => True

instance (s : State φ ρ) (l : Label φ ρ) (s' : State φ ρ) : Decidable (s.Owned l s') :=
  inferInstanceAs (Decidable (∀ idx ∈ s'.painted.drop s.painted.length, s.handed = some idx))

variable {s s' : State φ ρ} {l : Label φ ρ} {bufs : List (φ × BufInfo)}

/-- In fallback the library knows no page and selects buffer 0. -/
theorem target_of_fallback {b : Backend φ ρ} (hempty : b.display.bufs = []) {shm : UInt32}
    {idx : ℕ} {rb : ρ} (ht : b.target shm = some (idx, rb)) : idx = 0 := by
  have hidx : b.display.getSelectedIdx shm = 0 := by
    simp [Producer.Ctx.getSelectedIdx, hempty]
  unfold Backend.target at ht
  rw [hidx] at ht
  split at ht
  · simp at ht
  dsimp only at ht
  split at ht
  · simp at ht
  · obtain ⟨rb', -, heq⟩ := Option.map_eq_some_iff.mp ht
    exact (congrArg Prod.fst heq).symm

theorem owned_of_painted (h : s'.painted = s.painted) : s.Owned l s' := by
  intro idx hidx
  simp [h] at hidx

variable [DecidableEq φ]

theorem owned_of_retains {r : Backend φ ρ × List (Effect φ ρ)}
    (h : ∀ x ∈ r.2, x.retains = true) : s.Owned l (s.afterBackend r) := by
  obtain ⟨bufReady, hst⟩ := foldl_observe_retains { s with backend := r.1 } h
  refine owned_of_painted ?_
  rw [afterBackend, hst]

theorem owned_of_aside {r : Backend φ ρ × List (Effect φ ρ)} (h : Aside s.backend r) :
    s.Owned l (s.afterBackend r) :=
  owned_of_retains fun x hx => Effect.retains_of_aside (h.effs x hx)

/-- A repaint past its guards draws one buffer. -/
theorem Inv.repaint_painted (h : s.Inv bufs) {idx : ℕ} {rb : ρ}
    (ht : s.backend.target s.shm = some (idx, rb)) (damage : Region) :
    (s.afterBackend (s.backend.outputRepaint damage s.shm)).painted = s.painted ++ [idx] := by
  obtain ⟨output, debt, next, -, hnext, hcase⟩ := outputRepaint_of_target h.backend ht damage
  rcases hcase with ⟨-, heq⟩ | ⟨-, hf, heq⟩
  · rw [heq]
    exact congrArg painted (observe_aside hnext)
  · rw [heq, (h.carries hf).refreshDoneEfd]
    simp only [afterBackend, Option.toList_some, List.map_cons, List.map_nil, List.cons_append,
      List.nil_append, List.foldl_cons, List.foldl_nil, observe_aside hnext]
    simp [observe]

theorem Inv.owned_repaint (h : s.Inv bufs) (damage : Region) :
    s.Owned l (s.afterBackend (s.backend.outputRepaint damage s.shm)) ↔
      s.InTurn (.repaint damage) s' := by
  cases ht : s.backend.target s.shm with
  | none =>
    have hnone : s.backend.outputRepaint damage s.shm = (s.backend, [.armFrameTimer]) := by
      unfold Backend.outputRepaint
      rw [ht]
    rw [hnone]
    exact iff_of_true (owned_of_retains (by simp [Effect.retains])) (by simp [InTurn, ht])
  | some found =>
    obtain ⟨idx, rb⟩ := found
    have howned : s.Owned l (s.afterBackend (s.backend.outputRepaint damage s.shm)) ↔
        s.handed = some idx := by
      simp [Owned, h.repaint_painted ht damage]
    have hturn : s.InTurn (.repaint damage) s' ↔ s.consumer.bufferPending = true ∧
        (s.backend.display.fallback = true → s.shm = 0) := by
      simp [InTurn, ht]
    rw [howned, hturn, h.handed]
    cases hp : s.consumer.bufferPending with
    | false => simp
    | true =>
      cases hf : s.backend.display.fallback with
      | false =>
        have hidx := (h.carries hf).target_eq (h.pending hp).2.1 ht
        simp [hidx]
      | true =>
        have hidx := target_of_fallback (h.emptied hf) ht
        have hshm : s.shm.toNat = 0 ↔ s.shm = 0 := by
          rw [← UInt32.toNat_inj]
          rfl
        simp [hidx, hshm]

theorem Inv.owned_iff (h : s.Inv bufs) (hs : s.step l = some s') :
    s.Owned l s' ↔ s.InTurn l s' := by
  cases l with
  | repaint damage =>
    obtain rfl := Option.some.inj hs
    exact h.owned_repaint damage
  | select idx msg calls =>
    rw [State.step] at hs
    split_ifs at hs
    obtain rfl := Option.some.inj hs
    exact iff_of_true (by simp [Owned, afterSelect]) trivial
  | refreshDone polls readOk calls =>
    rw [State.step] at hs
    split at hs
    · split_ifs at hs
      obtain ⟨out, -, rfl⟩ := Option.map_eq_some_iff.mp hs
      exact iff_of_true (owned_of_painted rfl) trivial
    · simp at hs
  | post =>
    rw [State.step] at hs
    split_ifs at hs
    obtain rfl := Option.some.inj hs
    exact iff_of_true (owned_of_painted rfl) trivial
  | bufReady pickup polls recvOk infosOk created =>
    rw [State.step] at hs
    split_ifs at hs
    obtain ⟨fd, hfd, hs⟩ := Option.bind_eq_some_iff.mp hs
    obtain ⟨r, hr, rfl⟩ := Option.map_eq_some_iff.mp hs
    have hf := h.backend.agree.symm.trans (h.backend.connected (.inl (by simp [hfd])))
    have hcase := bufReadyHandler_pushed h.backend hfd (h.carries hf) h.pushed h.bufs_le hr
    exact iff_of_true (owned_of_retains hcase.retains) trivial
  | finishFrame =>
    obtain rfl := Option.some.inj hs
    exact iff_of_true (owned_of_aside (aside_finishFrame s.backend)) trivial
  | inputFd rounds =>
    rw [State.step] at hs
    split_ifs at hs
    obtain rfl := Option.some.inj hs
    exact iff_of_true (owned_of_aside (aside_inputFd h.backend rounds)) trivial
  | reconnectTimer calls =>
    rw [State.step] at hs
    split_ifs at hs with hf
    obtain rfl := Option.some.inj hs
    exact iff_of_true
      (owned_of_aside (aside_reconnectTimer h.backend (by simpa using hf) calls)) trivial
  | windowEvent event sendOk =>
    obtain rfl := Option.some.inj hs
    exact iff_of_true (owned_of_aside (aside_sendWindowEvent h.backend event sendOk)) trivial

end State

/-- The backend draws into no buffer but the one it was handed if and only if every repaint
that gets past its guards comes in turn. -/
theorem owned_iff_inTurn [DecidableEq φ] (setup : Setup φ ρ) (ls : List (Label φ ρ)) :
    Along State.step State.Owned (.start setup) ls ↔
      Along State.step State.InTurn (.start setup) ls :=
  along_iff_of_invariant (I := fun s => s.Inv setup.consumer.stored)
    (fun _ _ _ h hs => h.owned_iff hs) (fun _ _ _ h hs _ => h.step hs) (State.inv_start setup) ls

section Posted

/-- A consumer that has connected and pushed two buffers. -/
def offering : Consumer.Ctx ℕ :=
  { (Consumer.Ctx.fresh : Consumer.Ctx ℕ) with
    ctrlFd := some 5, dataFd := some 3, bufReadyEfd := some 0, refreshDoneEfd := some 1
    shmFd := some 2, shmPtr := some 2, stored := [(10, ⟨4320, 1, 0, 0⟩), (11, ⟨4320, 1, 0, 0⟩)] }

/-- A backend that has just been created. -/
def created : Backend ℕ ℕ where
  display :=
    { Producer.Ctx.fresh 6 with
      dataFd := some 4, bufReadyEfd := some 0, refreshDoneEfd := some 1, shmFd := some 2
      shmPtr := some 2, screenW := 1080, screenH := 2400, pixelFormat := 1, refresh := 60000
      fallback := false, fallbackCb := true }
  refresh := 60000
  reconnectTimer := true
  bufReadySource := some 0
  inputFdSource := none
  consumerReady := false
  dmabufReceived := false
  inFallback := false
  output := .fresh 1080 2400 ∅

def twoBuffers : Setup ℕ ℕ where
  channel := ⟨0, 1, 2, by decide⟩
  consumer := offering
  backend := created
  offers := ⟨rfl, rfl, rfl, rfl, rfl, by simp [offering], by simp [offering, maxBufs]⟩
  fresh :=
    { agree := rfl
      idle := by simp [created]
      watching := fun _ => ⟨by simp [created], by simp [created], by simp [created]⟩
      fallbackCb := rfl
      connected := rfl
      bufReadyEfd := rfl
      refreshDoneEfd := rfl
      shmPtr := rfl
      bufs := rfl
      bufCount := rfl
      consumerReady := rfl
      dmabufReceived := rfl }

/-- The calls that succeed, where what they return is of no interest. -/
def noCalls : Consumer.FallbackCalls ℕ := ⟨none, none, ⟨none, false, false⟩, ⟨none, false⟩⟩

/-- One frame, after which a client's commit triggers another repaint. -/
def repaintAfterPost : List (Label ℕ ℕ) :=
  [.select 0 (some .fdsReady) ⟨true, true, noCalls⟩,
    .bufReady ⟨false, ⟨none, false⟩⟩ [.ready true false] true true [some 20, some 21],
    .repaint ∅, .refreshDone [.ready false true false] true noCalls, .post, .repaint ∅]

/-- The second repaint draws into the buffer that the consumer has posted. -/
theorem repaintAfterPost_not_owned :
    ¬ Along State.step State.Owned (.start twoBuffers) repaintAfterPost := by
  decide +kernel

end Posted

end Anland
end ACGlass
