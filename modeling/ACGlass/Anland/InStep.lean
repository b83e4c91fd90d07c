import ACGlass.Anland.Backend
import ACGlass.Producer.Outcome
import ACGlass.Transition

/-!
# The backend and the library stay in step

The event loop calls the handlers of the backend in any order. A source's handler runs
only while the source is registered: `wl_event_source_remove` takes effect at once.
-/

namespace ACGlass
namespace Anland

open Transition
open Producer (Ctx Out Outcome)

variable {φ ρ : Type*}

/-- What the event loop, the shell and the compositor call, with what their calls return. -/
inductive Call (φ ρ : Type*)
  | bufReady (calls : BufReadyCalls φ ρ)
  | inputFd (rounds : List InputRound)
  | reconnectTimer (calls : Producer.ReconnectCalls φ)
  | windowEvent (event : Bytes) (sendOk : Bool)
  | repaint (damage : Region) (shm : UInt32)
  | finishFrame

namespace Backend

variable (b : Backend φ ρ)

/-- One call from the event loop to its return. -/
def step (b : Backend φ ρ) : Call φ ρ → Option (Backend φ ρ)
  | .bufReady calls => b.bufReadySource.bind fun fd => (b.bufReadyHandler fd calls).map Prod.fst
  | .inputFd rounds => if b.inputFdSource.isSome then some (b.inputFdHandler rounds).1 else none
  | .reconnectTimer calls => some (b.reconnectTimerHandler calls).1
  | .windowEvent event sendOk => some (b.sendWindowEvent event sendOk).1
  | .repaint damage shm => some (b.outputRepaint damage shm).1
  | .finishFrame => some b

/-- Nothing is watched, and nothing is known of the consumer. -/
structure Idle : Prop where
  bufReadySource : b.bufReadySource = none
  inputFdSource : b.inputFdSource = none
  consumerReady : b.consumerReady = false
  dmabufReceived : b.dmabufReceived = false

/-- The sources are on the descriptors of the library's channel. -/
structure Watching : Prop where
  bufReadySource : ∀ fd ∈ b.bufReadySource, b.display.bufReadyEfd = some fd
  inputFdSource : ∀ fd ∈ b.inputFdSource, b.display.dataFd = some fd
  received : b.inputFdSource.isSome → b.dmabufReceived = true

/-- The two copies of the connection state agree. -/
structure InStep : Prop where
  agree : b.inFallback = b.display.fallback
  idle : b.inFallback = true → b.Idle
  watching : b.inFallback = false → b.Watching

/-- The backend is in step, and the library will call it back. -/
structure Inv : Prop extends b.InStep where
  fallbackCb : b.display.fallbackCb = true

variable {b} {out : Out φ}

section Returned

theorem returned_kept (hquiet : out.callsBack = false) :
    b.returned out = ({ b with display := out.ctx }, out.effs.map .lib) := by
  rw [returned, if_neg (by simpa [Out.callsBack] using hquiet)]

theorem returned_called (hcalled : out.callsBack = true) :
    b.returned out =
      (({ b with display := out.ctx } : Backend φ ρ).fallbackCb.1,
        out.effs.map .lib ++ ({ b with display := out.ctx } : Backend φ ρ).fallbackCb.2) := by
  rw [returned, if_pos (by simpa [Out.callsBack] using hcalled)]

theorem returned_display (b : Backend φ ρ) (out : Out φ) :
    (b.returned out).1.display = out.ctx := by
  unfold returned
  dsimp only
  split <;> rfl

/-- An operation that keeps the channel keeps the backend in step. -/
theorem Inv.keep (h : b.Inv) {ctx : Ctx φ} (same : Producer.SameChannel b.display ctx) :
    { b with display := ctx }.Inv where
  agree := h.agree.trans same.fallback.symm
  idle hf := ⟨(h.idle hf).bufReadySource, (h.idle hf).inputFdSource, (h.idle hf).consumerReady,
    (h.idle hf).dmabufReceived⟩
  watching hf := by
    obtain ⟨hefd, hfd, hrec⟩ := h.watching hf
    exact ⟨fun fd hfd' => same.bufReadyEfd.trans (hefd fd hfd'),
      fun fd hfd' => same.dataFd.trans (hfd fd hfd'), hrec⟩
  fallbackCb := same.fallbackCb.trans h.fallbackCb

/-- The callback brings the backend in step with a library that has entered fallback. -/
theorem inv_fallbackCb (hf : b.display.fallback = true) (hcb : b.display.fallbackCb = true) :
    b.fallbackCb.1.Inv where
  agree := hf.symm
  idle _ := ⟨rfl, rfl, rfl, rfl⟩
  watching hno := by simp [fallbackCb] at hno
  fallbackCb := hcb

theorem Inv.returned (h : b.Inv) (ho : Outcome b.display out) : (b.returned out).1.Inv := by
  cases ho with
  | kept same quiet =>
    rw [returned_kept quiet]
    exact h.keep same
  | fell held fallback fallbackCb called ret =>
    rw [returned_called (called.trans h.fallbackCb)]
    exact inv_fallbackCb fallback (fallbackCb.trans h.fallbackCb)

/-- The library is still connected after an operation that did not return `-1`. -/
theorem returned_of_ret (ho : Outcome b.display out) (hret : out.ret ≠ -1) :
    b.returned out = ({ b with display := out.ctx }, out.effs.map .lib) ∧
      Producer.SameChannel b.display out.ctx := by
  cases ho with
  | kept same quiet => exact ⟨returned_kept quiet, same⟩
  | fell held fallback fallbackCb called ret => exact absurd ret hret

end Returned

section Handlers

/-- The flag that a frame is owed matters only in fallback. -/
theorem Inv.withReady (h : b.Inv) {ready : Bool} (hready : ready = true → b.inFallback = false) :
    { b with consumerReady := ready }.Inv where
  agree := h.agree
  idle hf := ⟨(h.idle hf).bufReadySource, (h.idle hf).inputFdSource,
    by simpa [show b.inFallback = true from hf] using hready, (h.idle hf).dmabufReceived⟩
  watching hf := ⟨(h.watching hf).bufReadySource, (h.watching hf).inputFdSource,
    (h.watching hf).received⟩
  fallbackCb := h.fallbackCb

theorem Inv.withOutput (h : b.Inv) (output : Output ρ) : { b with output }.Inv where
  agree := h.agree
  idle hf := ⟨(h.idle hf).bufReadySource, (h.idle hf).inputFdSource, (h.idle hf).consumerReady,
    (h.idle hf).dmabufReceived⟩
  watching hf := ⟨(h.watching hf).bufReadySource, (h.watching hf).inputFdSource,
    (h.watching hf).received⟩
  fallbackCb := h.fallbackCb

/-- A registered source means that the backend is connected. -/
theorem Inv.connected (h : b.Inv) (hs : b.bufReadySource.isSome ∨ b.inputFdSource.isSome) :
    b.inFallback = false := by
  by_contra hf
  have hidle := h.idle (by simpa using hf)
  simp [hidle.bufReadySource, hidle.inputFdSource] at hs

/-- The first buffers bring the input source, on the descriptor of the data channel. -/
theorem Inv.firstBuffer (h : b.Inv) (hf : b.inFallback = false) (created : List (Option ρ)) :
    (b.firstBuffer created).1.Inv where
  agree := h.agree
  idle hf' := absurd (hf.symm.trans hf') (by simp)
  watching _ := by
    refine ⟨(h.watching hf).bufReadySource, ?_, fun _ => rfl⟩
    intro fd hfd
    rcases Option.or_eq_some_iff.mp hfd with hold | ⟨-, hnew⟩
    · exact (h.watching hf).inputFdSource fd hold
    · exact hnew
  fallbackCb := h.fallbackCb

theorem Inv.bufReady (h : b.Inv) {fd : φ} (hfd : b.bufReadySource = some fd)
    {calls : BufReadyCalls φ ρ} {r : Backend φ ρ × List (Effect φ ρ)}
    (hr : b.bufReadyHandler fd calls = some r) : r.1.Inv := by
  have hf : b.inFallback = false := h.connected (.inl (by simp [hfd]))
  unfold bufReadyHandler at hr
  split_ifs at hr with hrec
  · obtain rfl := Option.some.inj hr
    exact h.withReady fun _ => hf
  obtain ⟨out, hout, rfl⟩ := Option.map_eq_some_iff.mp hr
  have ho := b.display.waitBufferAsync_outcome (h.agree.symm.trans hf) hout
  have hinv := h.returned ho
  dsimp only
  split_ifs with hret
  · exact hinv
  · have hzero : out.ret = 0 := not_not.mp hret
    have hkept : (b.returned out).1.inFallback = false := by
      rw [(returned_of_ret ho (by omega)).1]
      exact hf
    exact (hinv.firstBuffer hkept calls.created).withReady fun _ => hkept

theorem Inv.sendWindowEvent (h : b.Inv) (event : Bytes) (sendOk : Bool) :
    (b.sendWindowEvent event sendOk).1.Inv :=
  h.returned (b.display.pushWindowEvent_outcome event sendOk)

theorem Inv.sendWindowEvents (h : b.Inv) (sends : List (Bytes × Bool)) :
    (b.sendWindowEvents sends).1.Inv := by
  induction sends generalizing b with
  | nil => exact h
  | cons send sends ih => exact ih (h.sendWindowEvent send.1 send.2)

/-- The callback may run inside any round, from the poll or from the shell. -/
theorem Inv.inputLoop (h : b.Inv) (rounds : List InputRound) : (b.inputLoop rounds).1.Inv := by
  induction rounds generalizing b with
  | nil => exact h
  | cons round rounds ih =>
    have hpoll := h.returned (b.display.pollDisplayEvent_outcome round.poll)
    unfold Backend.inputLoop
    dsimp only
    split
    · exact hpoll
    · exact ih (hpoll.sendWindowEvents round.sends)

theorem Inv.inputFd (h : b.Inv) (rounds : List InputRound) :
    (b.inputFdHandler rounds).1.Inv := by
  unfold inputFdHandler
  split_ifs
  · exact h
  · exact h.inputLoop rounds

theorem Inv.outputRepaint (h : b.Inv) (damage : Region) (shm : UInt32) :
    (b.outputRepaint damage shm).1.Inv := by
  unfold Backend.outputRepaint
  split
  · exact h
  · rename_i idx rb ht
    have hpaint : { b with output := (b.output.accumulate (damage ∪ b.output.region)).settle idx }.Inv :=
      h.withOutput _
    dsimp only
    by_cases hready : b.consumerReady = true
    · rw [if_pos hready]
      exact (hpaint.returned b.display.triggerRefresh_outcome).withReady (by simp)
    · rw [if_neg hready]
      exact hpaint

/-- The backend follows `try_reconnect` only when that succeeds. -/
theorem tryReconnect_cases (hf : b.display.fallback = true)
    (calls : Producer.ReconnectCalls φ) :
    (b.display.tryReconnect calls).ret < 0 ∧
        (b.tryReconnect calls).1 = { b with display := (b.display.tryReconnect calls).ctx } ∨
      0 ≤ (b.display.tryReconnect calls).ret ∧
        (b.tryReconnect calls).1 =
          { b with
            display := (b.display.tryReconnect calls).ctx, inFallback := false
            bufReadySource :=
              (b.display.tryReconnect calls).ctx.bufReadyEfd.or b.bufReadySource } := by
  have hquiet := (Ctx.tryReconnect_fallbackCb hf calls).1
  unfold Backend.tryReconnect
  dsimp only
  rw [returned_kept hquiet]
  split
  · rename_i hret
    exact .inl ⟨hret, rfl⟩
  · rename_i hret
    exact .inr ⟨not_lt.mp hret, rfl⟩

theorem Inv.tryReconnect (h : b.Inv) (hf : b.inFallback = true)
    (calls : Producer.ReconnectCalls φ) : (b.tryReconnect calls).1.Inv := by
  have hfb : b.display.fallback = true := h.agree.symm.trans hf
  have hidle := h.idle hf
  have hcb := (Ctx.tryReconnect_fallbackCb hfb calls).2.trans h.fallbackCb
  have hrec := Ctx.tryReconnect_reconnection hfb calls
  rcases tryReconnect_cases hfb calls with ⟨hret, heq⟩ | ⟨hret, heq⟩
  · rw [heq]
    cases hrec with
    | refused fallback ret =>
      refine ⟨⟨h.agree.trans fallback.symm, fun _ => ?_, fun hno => ?_⟩, hcb⟩
      · exact ⟨hidle.bufReadySource, hidle.inputFdSource, hidle.consumerReady,
          hidle.dmabufReceived⟩
      · exact absurd (hf.symm.trans hno) (by simp)
    | accepted efd refreshed dataFd shm hfb hefd hdone hdata hshm ret => omega
  · rw [heq]
    cases hrec with
    | refused fallback ret => omega
    | accepted efd refreshed dataFd shm hfb hefd hdone hdata hshm ret =>
      refine ⟨⟨hfb.symm, fun hno => absurd hno (by simp), fun _ => ⟨?_, ?_, ?_⟩⟩, hcb⟩
      · intro fd hfd
        simpa [hefd] using hfd
      · simp [hidle.inputFdSource]
      · simp [hidle.inputFdSource]

theorem Inv.reconnectTimer (h : b.Inv) (calls : Producer.ReconnectCalls φ) :
    (b.reconnectTimerHandler calls).1.Inv := by
  unfold reconnectTimerHandler
  split_ifs with hf
  · exact h
  · exact (h.withOutput _).tryReconnect (by simpa using hf) calls

theorem Inv.step {b' : Backend φ ρ} {call : Call φ ρ} (h : b.Inv) (hs : b.step call = some b') :
    b'.Inv := by
  cases call with
  | bufReady calls =>
    obtain ⟨fd, hfd, hs⟩ := Option.bind_eq_some_iff.mp hs
    obtain ⟨r, hr, rfl⟩ := Option.map_eq_some_iff.mp hs
    exact h.bufReady hfd hr
  | inputFd rounds =>
    rw [Backend.step] at hs
    split_ifs at hs
    obtain rfl := Option.some.inj hs
    exact h.inputFd rounds
  | reconnectTimer calls =>
    obtain rfl := Option.some.inj hs
    exact h.reconnectTimer calls
  | windowEvent event sendOk =>
    obtain rfl := Option.some.inj hs
    exact h.sendWindowEvent event sendOk
  | repaint damage shm =>
    obtain rfl := Option.some.inj hs
    exact h.outputRepaint damage shm
  | finishFrame =>
    obtain rfl := Option.some.inj hs
    exact h

end Handlers

end Backend

/-- What `anland_backend_create` returns is in step. -/
theorem backendCreate_inv {calls : Producer.ConnectCalls φ} {timer : Bool} {output : Output ρ}
    {b : Backend φ ρ} (h : backendCreate calls timer output = some b) : b.Inv := by
  obtain ⟨ctx, hctx, rfl⟩ := Option.map_eq_some_iff.mp h
  have hf := Producer.connectToDeamon_fallback hctx
  exact ⟨⟨hf.symm, fun hno => absurd hno (by simp),
    fun _ => ⟨fun fd hfd => hfd, by simp, by simp⟩⟩, rfl⟩

/-- After every sequence of calls the backend agrees with the library. -/
theorem inStep_of_calls {connect : Producer.ConnectCalls φ} {timer : Bool} {output : Output ρ}
    {b : Backend φ ρ} (hb : backendCreate connect timer output = some b)
    (calls : List (Call φ ρ)) : Always Backend.step Backend.InStep b calls :=
  always_of_invariant (fun _ _ _ h hs => h.step hs) (fun _ h => h.toInStep)
    (backendCreate_inv hb) calls

/-- The answers of a daemon that has a screen and a deposit. -/
def connected : Producer.ConnectCalls ℕ where
  connectUnix := some 6
  helloOk := true
  screen := some (⟨.screenInfo, screenInfoSize⟩, ⟨1080, 2400, 1, 60000⟩)
  pickup := ⟨true, ⟨some ⟨ctrlMsgSize, ⟨.fdsReady, 0⟩, [0, 1, 4, 2]⟩, true⟩⟩

/-- The consumer hangs up while the backend polls its input, and comes back. -/
theorem inStep_of_hangup : ∃ b, backendCreate connected true (.fresh 1080 2400 ∅) = some b ∧
    Always Backend.step Backend.InStep (b : Backend ℕ ℕ)
      [.windowEvent [] false,
        .reconnectTimer ⟨true, true, ⟨some ⟨ctrlMsgSize, ⟨.fdsReady, 0⟩, [7, 8, 9, 10]⟩, true⟩⟩] := by
  obtain ⟨b, hb⟩ : ∃ b, backendCreate connected true (.fresh 1080 2400 ∅ : Output ℕ) = some b :=
    ⟨_, rfl⟩
  exact ⟨b, hb, inStep_of_calls hb _⟩

end Anland
end ACGlass
