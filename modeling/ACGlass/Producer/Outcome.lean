import ACGlass.Producer.Library

/-!
# What an operation does to the channel

An operation on a context either keeps its channel or gives it up, and the callback runs
exactly when it gives it up. The one way to a new channel is an answer of the daemon.
-/

namespace ACGlass
namespace Producer

variable {φ : Type*}

/-- Both contexts hold the same end of the same channel, or none. -/
structure SameChannel (ctx ctx' : Ctx φ) : Prop where
  fallback : ctx'.fallback = ctx.fallback
  dataFd : ctx'.dataFd = ctx.dataFd
  bufReadyEfd : ctx'.bufReadyEfd = ctx.bufReadyEfd
  refreshDoneEfd : ctx'.refreshDoneEfd = ctx.refreshDoneEfd
  shmPtr : ctx'.shmPtr = ctx.shmPtr
  fallbackCb : ctx'.fallbackCb = ctx.fallbackCb

theorem SameChannel.refl (ctx : Ctx φ) : SameChannel ctx ctx := ⟨rfl, rfl, rfl, rfl, rfl, rfl⟩

/-- The operation runs the callback. -/
def Out.callsBack (out : Out φ) : Bool := out.effs.any Effect.isFallbackCb

inductive Outcome (ctx : Ctx φ) (out : Out φ) : Prop
  | kept (same : SameChannel ctx out.ctx) (quiet : out.callsBack = false)
  | fell (held : ctx.fallback = false) (fallback : out.ctx.fallback = true)
      (fallbackCb : out.ctx.fallbackCb = ctx.fallbackCb) (called : out.callsBack = ctx.fallbackCb)
      (ret : out.ret = -1)

@[simp] theorem any_closeIf (fd : Option φ) : (closeIf fd).any Effect.isFallbackCb = false := by
  cases fd <;> rfl

@[simp] theorem any_munmapIf (shm : Option φ) : (munmapIf shm).any Effect.isFallbackCb = false := by
  cases shm <;> rfl

@[simp] theorem any_map_close (fds : List φ) :
    (fds.map Effect.close).any Effect.isFallbackCb = false := by
  simp [Effect.isFallbackCb]

def Effect.isEventfd : Effect φ → Bool
  | .eventfdRead _ | .eventfdWrite _ => true
  | _ => false

/-- What an operation does before and after does not change what it does to the channel. -/
theorem Outcome.around {ctx : Ctx φ} {out : Out φ} (h : Outcome ctx out)
    {effs : List (Effect φ)} (heffs : effs.any Effect.isFallbackCb = false) (pending : Bool) :
    Outcome ctx
      { out with ctx := { out.ctx with asyncPending := pending }, effs := effs ++ out.effs } := by
  have hcalls : Out.callsBack
      { out with ctx := { out.ctx with asyncPending := pending }, effs := effs ++ out.effs } =
        out.callsBack := by
    rw [Out.callsBack, List.any_append, heffs, Bool.false_or]
    rfl
  cases h with
  | kept same quiet =>
    exact .kept ⟨same.fallback, same.dataFd, same.bufReadyEfd, same.refreshDoneEfd, same.shmPtr,
      same.fallbackCb⟩ (hcalls.trans quiet)
  | fell held fallback fallbackCb called ret =>
    exact .fell held fallback fallbackCb (hcalls.trans called) ret

namespace Ctx

variable (ctx : Ctx φ)

theorem any_callFallbackCb : ctx.callFallbackCb.any Effect.isFallbackCb = ctx.fallbackCb := by
  cases h : ctx.fallbackCb <;> simp [callFallbackCb, h, Effect.isFallbackCb]

theorem any_closeBufs : ctx.closeBufs.any Effect.isFallbackCb = false := by
  simp [closeBufs, Effect.isFallbackCb]

theorem failWith_outcome {effs : List (Effect φ)}
    (heffs : effs.any Effect.isFallbackCb = false) : Outcome ctx (ctx.failWith effs) := by
  cases hf : ctx.fallback with
  | true =>
    have hout : ctx.failWith effs = ⟨ctx, effs, -1⟩ := by simp [failWith, enterFallback, hf]
    rw [hout]
    exact .kept (.refl ctx) heffs
  | false =>
    refine .fell hf ?_ ?_ ?_ rfl
    · simp [failWith, enterFallback, hf]
    · simp [failWith, enterFallback, hf]
    · simp only [Out.callsBack, failWith, enterFallback, hf, Bool.false_eq_true, if_false,
        List.any_append, heffs, any_closeBufs, any_closeIf, any_munmapIf, any_callFallbackCb,
        Bool.false_or]

theorem receiveDmabufs_outcome (calls : BufsCalls φ) :
    Outcome ctx (ctx.receiveDmabufs calls) := by
  unfold receiveDmabufs
  split_ifs with hheld
  · exact .kept (.refl ctx) rfl
  split
  · exact ctx.failWith_outcome rfl
  · rename_i m hm
    dsimp only
    split_ifs with hshort htype hcount
    · exact ctx.failWith_outcome rfl
    · exact .kept (.refl ctx) (by simp [Out.callsBack, Effect.isFallbackCb])
    · exact .kept (.refl ctx) (by simp [Out.callsBack, Effect.isFallbackCb])
    · split
      · exact ctx.failWith_outcome (by simp [Effect.isFallbackCb])
      · exact .kept ⟨rfl, rfl, rfl, rfl, rfl, rfl⟩ rfl

theorem awaitBuffer_outcome {polls : List BufferPoll} {bufs : BufsCalls φ} {out : Out φ}
    (h : ctx.awaitBuffer polls bufs = some out) : Outcome ctx out := by
  unfold awaitBuffer at h
  split_ifs at h with hpending
  · obtain rfl := Option.some.inj h
    exact .kept (.refl ctx) rfl
  obtain ⟨readable, -, rfl⟩ := Option.map_eq_some_iff.mp h
  dsimp only
  split_ifs with hr
  · have hread : (ctx.bufReadyEfd.toList.map Effect.eventfdRead).any Effect.isFallbackCb = false := by
      cases ctx.bufReadyEfd <;> rfl
    exact (ctx.receiveDmabufs_outcome bufs).around hread false
  · have hfail : Outcome ctx (ctx.failWith []) := ctx.failWith_outcome rfl
    exact hfail.around (by rfl : ([] : List (Effect φ)).any Effect.isFallbackCb = false) false

theorem waitBufferAsyncResult_outcome (hf : ctx.fallback = false) {pickup : PickupCalls φ}
    {polls : List BufferPoll} {bufs : BufsCalls φ} {out : Out φ}
    (h : ctx.waitBufferAsyncResult pickup polls bufs = some out) : Outcome ctx out := by
  rw [waitBufferAsyncResult, if_neg (by simp [hf])] at h
  exact ctx.awaitBuffer_outcome h

/-- `wait_buffer_async` and its result. -/
theorem waitBufferAsync_outcome (hf : ctx.fallback = false) {pickup : PickupCalls φ}
    {polls : List BufferPoll} {bufs : BufsCalls φ} {out : Out φ}
    (h : ctx.waitBufferAsync.ctx.waitBufferAsyncResult pickup polls bufs = some out) :
    Outcome ctx out := by
  cases ctx.waitBufferAsync.ctx.waitBufferAsyncResult_outcome hf h with
  | kept same quiet =>
    exact .kept ⟨same.fallback, same.dataFd, same.bufReadyEfd, same.refreshDoneEfd, same.shmPtr,
      same.fallbackCb⟩ quiet
  | fell held fallback fallbackCb called ret => exact .fell held fallback fallbackCb called ret

theorem triggerRefresh_outcome : Outcome ctx ctx.triggerRefresh := by
  unfold triggerRefresh
  split_ifs
  · exact .kept (.refl ctx) rfl
  · refine .kept (.refl ctx) ?_
    cases ctx.refreshDoneEfd <;> rfl

theorem takeMessage_outcome (size : ℕ) (ret : Int) (hdr : DataMsg) (payload : Option Bytes) :
    Outcome ctx (ctx.takeMessage size ret hdr payload).1 := by
  unfold takeMessage
  split_ifs
  · exact ctx.failWith_outcome rfl
  · cases payload with
    | none => exact .kept (.refl ctx) rfl
    | some event => exact .kept (.refl ctx) rfl

theorem pollDisplayEvent_outcome (poll : DisplayPoll) :
    Outcome ctx (ctx.pollDisplayEvent poll).1 := by
  unfold pollDisplayEvent
  split_ifs
  · exact .kept (.refl ctx) rfl
  cases poll with
  | idle | short => exact .kept (.refl ctx) rfl
  | hangup => exact ctx.failWith_outcome rfl
  | peeked hdr payload =>
    dsimp only
    split
    · exact ctx.takeMessage_outcome ..
    · exact ctx.takeMessage_outcome ..
    · split_ifs
      · exact ctx.failWith_outcome rfl
      · cases payload with
        | none => exact .kept (.refl ctx) rfl
        | some bytes => exact .kept (.refl ctx) rfl

theorem pushWindowEvent_outcome (event : Bytes) (sendOk : Bool) :
    Outcome ctx (ctx.pushWindowEvent event sendOk) := by
  unfold pushWindowEvent
  split
  · exact .kept (.refl ctx) rfl
  split
  · exact ctx.failWith_outcome rfl
  split
  · exact .kept (.refl ctx) rfl
  · exact ctx.failWith_outcome rfl

/-- The operation has no part in the handshake: it leaves the context as it is or enters
fallback, and does not touch an eventfd. -/
structure Aside (ctx : Ctx φ) (out : Out φ) : Prop where
  ctx_eq : out.ctx = ctx ∨ out.ctx = ctx.enterFallback.1
  effs : out.effs.any Effect.isEventfd = false

theorem enterFallback_of_fallback (hf : ctx.fallback = true) : ctx.enterFallback = (ctx, []) := by
  rw [enterFallback, if_pos hf]

theorem enterFallback_bufs (hf : ctx.fallback = false) : ctx.enterFallback.1.bufs = [] := by
  rw [enterFallback, if_neg (by simp [hf])]

theorem any_enterFallback : ctx.enterFallback.2.any Effect.isEventfd = false := by
  have hclose : ∀ fd : Option φ, (closeIf fd).any Effect.isEventfd = false := by
    intro fd
    cases fd <;> rfl
  have hunmap : (munmapIf ctx.shmPtr).any Effect.isEventfd = false := by
    cases ctx.shmPtr <;> rfl
  have hbufs : ctx.closeBufs.any Effect.isEventfd = false := by
    simp [closeBufs, Effect.isEventfd]
  have hcb : ctx.callFallbackCb.any Effect.isEventfd = false := by
    unfold callFallbackCb
    split <;> rfl
  unfold enterFallback
  split
  · rfl
  · simp only [List.any_append, hclose, hunmap, hbufs, hcb, Bool.false_or]

/-- Receiving buffers does not touch an eventfd. -/
theorem receiveDmabufs_effs (calls : BufsCalls φ) :
    (ctx.receiveDmabufs calls).effs.any Effect.isEventfd = false := by
  have hfail : ∀ effs : List (Effect φ), effs.any Effect.isEventfd = false →
      (ctx.failWith effs).effs.any Effect.isEventfd = false := by
    intro effs heffs
    simp only [failWith, List.any_append, heffs, any_enterFallback, Bool.or_false]
  have hclose : ∀ fds : List φ,
      (Effect.received fds :: fds.map Effect.close).any Effect.isEventfd = false := by
    simp [Effect.isEventfd]
  unfold receiveDmabufs
  split
  · rfl
  split
  · exact hfail [] rfl
  dsimp only
  split
  · exact hfail _ rfl
  split
  · exact hclose _
  split
  · exact hclose _
  split
  · exact hfail _ (hclose _)
  · rfl

/-- The wait for a buffer reads its eventfd and writes none. -/
theorem awaitBuffer_effs {polls : List BufferPoll} {bufs : BufsCalls φ} {out : Out φ}
    (h : ctx.awaitBuffer polls bufs = some out) :
    ∀ x ∈ out.effs, x.isEventfd = true → ∃ efd, x = .eventfdRead efd := by
  intro x hx hefd
  unfold awaitBuffer at h
  split at h
  · obtain rfl := Option.some.inj h
    simp at hx
  obtain ⟨readable, -, rfl⟩ := Option.map_eq_some_iff.mp h
  dsimp only at hx
  split at hx
  · rcases List.mem_append.mp hx with hx | hx
    · obtain ⟨efd, -, rfl⟩ := List.mem_map.mp hx
      exact ⟨efd, rfl⟩
    · exact absurd hefd (List.any_eq_false.mp (ctx.receiveDmabufs_effs bufs) x hx)
  · exact absurd hefd (List.any_eq_false.mp ctx.any_enterFallback x hx)

theorem failWith_aside : Aside ctx (ctx.failWith []) := ⟨.inr rfl, ctx.any_enterFallback⟩

theorem takeMessage_aside (size : ℕ) (ret : Int) (hdr : DataMsg) (payload : Option Bytes) :
    Aside ctx (ctx.takeMessage size ret hdr payload).1 := by
  unfold takeMessage
  split
  · exact ctx.failWith_aside
  · cases payload <;> exact ⟨.inl rfl, rfl⟩

theorem pollDisplayEvent_aside (poll : DisplayPoll) : Aside ctx (ctx.pollDisplayEvent poll).1 := by
  unfold pollDisplayEvent
  split
  · exact ⟨.inl rfl, rfl⟩
  cases poll with
  | idle | short => exact ⟨.inl rfl, rfl⟩
  | hangup => exact ctx.failWith_aside
  | peeked hdr payload =>
    dsimp only
    split
    · exact ctx.takeMessage_aside ..
    · exact ctx.takeMessage_aside ..
    · split
      · exact ctx.failWith_aside
      · cases payload <;> exact ⟨.inl rfl, rfl⟩

theorem pushWindowEvent_aside (event : Bytes) (sendOk : Bool) :
    Aside ctx (ctx.pushWindowEvent event sendOk) := by
  unfold pushWindowEvent
  split
  · exact ⟨.inl rfl, rfl⟩
  split
  · exact ctx.failWith_aside
  split
  · exact ⟨.inl rfl, rfl⟩
  · exact ctx.failWith_aside

/-- What `try_reconnect` can lead to. -/
inductive Reconnection (ctx : Ctx φ) (out : Out φ) : Prop
  | refused (fallback : out.ctx.fallback = ctx.fallback) (ret : out.ret = -1)
  | accepted (efd refreshed dataFd shm : φ) (fallback : out.ctx.fallback = false)
      (bufReadyEfd : out.ctx.bufReadyEfd = some efd)
      (refreshDoneEfd : out.ctx.refreshDoneEfd = some refreshed)
      (dataFd_eq : out.ctx.dataFd = some dataFd) (shmPtr : out.ctx.shmPtr = some shm)
      (ret : out.ret = 0)

theorem takeFds_reconnection (calls : AnswerCalls φ) : Reconnection ctx (ctx.takeFds calls) := by
  unfold takeFds
  split
  · exact .refused rfl rfl
  split
  · rename_i efd refreshed dataFd shm _ _
    split_ifs
    · exact .accepted efd refreshed dataFd shm rfl rfl rfl rfl rfl rfl
    · exact .refused rfl rfl
  · exact .refused rfl rfl

@[simp] theorem takeFds_fallbackCb (calls : AnswerCalls φ) :
    (ctx.takeFds calls).ctx.fallbackCb = ctx.fallbackCb := by
  unfold takeFds
  split
  · rfl
  split
  · split_ifs <;> rfl
  · rfl

@[simp] theorem takeFds_callsBack (calls : AnswerCalls φ) :
    (ctx.takeFds calls).callsBack = false := by
  unfold takeFds
  split
  · rfl
  split
  · split_ifs <;> rfl
  · rfl

@[simp] theorem takeFds_bufs (calls : AnswerCalls φ) :
    (ctx.takeFds calls).ctx.bufs = ctx.bufs := by
  unfold takeFds
  split
  · rfl
  split
  · split_ifs <;> rfl
  · rfl

theorem pickupFds_bufs (calls : PickupCalls φ) : (ctx.pickupFds calls).ctx.bufs = ctx.bufs := by
  unfold pickupFds
  split_ifs
  · rfl
  · exact ctx.takeFds_bufs calls.answer

/-- A new channel starts without buffers. -/
theorem takeReconnect_bufs {calls : AnswerCalls φ} (h : 0 ≤ (ctx.takeReconnect calls).ret) :
    (ctx.takeReconnect calls).ctx.bufs = [] := by
  by_cases hneg : (ctx.takeFds calls).ret < 0
  · rw [takeReconnect, if_pos hneg] at h
    omega
  · rw [takeReconnect, if_neg hneg]

theorem takeReconnect_reconnection (calls : AnswerCalls φ) :
    Reconnection ctx (ctx.takeReconnect calls) := by
  have htake := ctx.takeFds_reconnection calls
  unfold takeReconnect
  dsimp only
  split
  · exact htake
  · cases htake with
    | refused fallback ret => exact .refused fallback ret
    | accepted efd refreshed dataFd shm hfb hefd hdone hdata hshm hret =>
      exact .accepted efd refreshed dataFd shm hfb hefd hdone hdata hshm hret

@[simp] theorem takeReconnect_fallbackCb (calls : AnswerCalls φ) :
    (ctx.takeReconnect calls).ctx.fallbackCb = ctx.fallbackCb := by
  unfold takeReconnect
  dsimp only
  split
  · exact ctx.takeFds_fallbackCb calls
  · exact ctx.takeFds_fallbackCb calls

@[simp] theorem takeReconnect_callsBack (calls : AnswerCalls φ) :
    (ctx.takeReconnect calls).callsBack = false := by
  unfold takeReconnect
  dsimp only
  split
  · exact ctx.takeFds_callsBack calls
  · exact ctx.takeFds_callsBack calls

section TryReconnect

variable {ctx : Ctx φ} (hf : ctx.fallback = true) (calls : ReconnectCalls φ)

include hf

/-- In fallback, `try_reconnect` gives up or takes an answer. -/
theorem tryReconnect_cases :
    (ctx.tryReconnect calls).ctx = ctx ∧ (ctx.tryReconnect calls).ret = -1 ∧
        (ctx.tryReconnect calls).callsBack = false ∨
      (ctx.tryReconnect calls).ctx = (ctx.takeReconnect calls.answer).ctx ∧
        (ctx.tryReconnect calls).ret = (ctx.takeReconnect calls.answer).ret ∧
        (ctx.tryReconnect calls).callsBack = (ctx.takeReconnect calls.answer).callsBack := by
  unfold tryReconnect
  rw [if_neg (by simp [hf])]
  split
  · exact .inl ⟨rfl, rfl, rfl⟩
  split
  · exact .inl ⟨rfl, rfl, rfl⟩
  · exact .inr ⟨rfl, rfl, rfl⟩

theorem tryReconnect_reconnection : Reconnection ctx (ctx.tryReconnect calls) := by
  rcases tryReconnect_cases hf calls with ⟨hctx, hret, -⟩ | ⟨hctx, hret, -⟩
  · exact .refused (congrArg _ hctx) hret
  · cases ctx.takeReconnect_reconnection calls.answer with
    | refused fallback ret => exact .refused (by rw [hctx, fallback]) (hret.trans ret)
    | accepted efd refreshed dataFd shm hfb hefd hdone hdata hshm ret =>
      rw [← hctx] at hfb hefd hdone hdata hshm
      exact .accepted efd refreshed dataFd shm hfb hefd hdone hdata hshm (hret.trans ret)

/-- It does not call back, and leaves the callback in place. -/
theorem tryReconnect_fallbackCb :
    (ctx.tryReconnect calls).callsBack = false ∧
      (ctx.tryReconnect calls).ctx.fallbackCb = ctx.fallbackCb := by
  rcases tryReconnect_cases hf calls with ⟨hctx, -, hquiet⟩ | ⟨hctx, -, hquiet⟩
  · exact ⟨hquiet, congrArg _ hctx⟩
  · exact ⟨hquiet.trans (ctx.takeReconnect_callsBack calls.answer),
      (congrArg _ hctx).trans (ctx.takeReconnect_fallbackCb calls.answer)⟩

theorem tryReconnect_bufs (h : 0 ≤ (ctx.tryReconnect calls).ret) :
    (ctx.tryReconnect calls).ctx.bufs = [] := by
  rcases tryReconnect_cases hf calls with ⟨-, hret, -⟩ | ⟨hctx, hret, -⟩
  · omega
  · rw [hctx]
    exact ctx.takeReconnect_bufs (hret ▸ h)

end TryReconnect

theorem pickupFds_reconnection (calls : PickupCalls φ) :
    Reconnection ctx (ctx.pickupFds calls) := by
  unfold pickupFds
  split_ifs
  · exact .refused rfl rfl
  · cases ctx.takeFds_reconnection calls.answer with
    | refused fallback ret => exact .refused fallback ret
    | accepted efd refreshed dataFd shm hfb hefd hdone hdata hshm hret =>
      exact .accepted efd refreshed dataFd shm hfb hefd hdone hdata hshm hret

end Ctx

/-- A context that `connect_to_deamon` returns holds a channel. -/
theorem connectToDeamon_reconnection {calls : ConnectCalls φ} {ctx : Ctx φ}
    (h : (connectToDeamon calls).1 = some ctx) :
    ∃ (fd : φ) (out : Out φ) (si : ScreenInfo), out.ctx = ctx ∧
      out = ((Ctx.fresh fd).setScreen si).pickupFds calls.pickup ∧ 0 ≤ out.ret := by
  unfold connectToDeamon at h
  split at h
  · simp at h
  rename_i fd hfd
  split at h
  · simp at h
  split at h
  · simp at h
  rename_i hdr si hscreen
  split at h
  · simp at h
  dsimp only at h
  split at h
  · simp at h
  rename_i hret
  exact ⟨fd, _, si, Option.some.inj h, rfl, not_lt.mp hret⟩

theorem connectToDeamon_fallback {calls : ConnectCalls φ} {ctx : Ctx φ}
    (h : (connectToDeamon calls).1 = some ctx) : ctx.fallback = false := by
  obtain ⟨fd, out, si, rfl, rfl, hret⟩ := connectToDeamon_reconnection h
  cases ((Ctx.fresh fd).setScreen si).pickupFds_reconnection calls.pickup with
  | refused fallback ret => omega
  | accepted efd refreshed dataFd shm hfb => exact hfb

end Producer
end ACGlass
