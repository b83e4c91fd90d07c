import ACGlass.Consumer.Library

/-!
# One frame of the consumer

What `select_dmabuf` and `refresh_done`, the two calls that the render thread makes for a
frame, do to the context.
-/

namespace ACGlass
namespace Consumer

variable {φ : Type*}

def Effect.isPush : Effect φ → Bool
  | .sendBufsReady .. => true
  | _ => false

@[simp] theorem any_closeIf (fd : Option φ) : (closeIf fd).any Effect.isPush = false := by
  cases fd <;> rfl

@[simp] theorem any_munmapIf (shm : Option φ) : (munmapIf shm).any Effect.isPush = false := by
  cases shm <;> rfl

/-- `select_dmabuf` finds no `FDS_READY`, loses the channel while it pushes the buffers,
refuses the index, or hands the buffer over. `pushes` is the message that it may send. -/
inductive Selection (ctx : Ctx φ) (idx : Int) (msg : Option CtrlType) : Out φ → Prop
  | waits (hf : ctx.fallback = true) (hm : msg ≠ some .fdsReady) : Selection ctx idx msg ⟨ctx, [], 0⟩
  | fell {out : Out φ} (hm : msg = some .fdsReady) (hf : out.ctx.fallback = true)
      (hp : out.ctx.bufferPending = false)
      (hpush : out.effs.any Effect.isPush = false) (hret : out.ret = 0) :
      Selection ctx idx msg out
  | refused (pushes : List (Effect φ))
      (hpush : ∀ x ∈ pushes, ∃ fd, x = .sendBufsReady fd ctx.stored) :
      Selection ctx idx msg ⟨{ ctx with fallback := false }, pushes, -1⟩
  | handedOver (pushes : List (Effect φ))
      (hpush : ∀ x ∈ pushes, ∃ fd, x = .sendBufsReady fd ctx.stored)
      (hidx : 0 ≤ idx) (hlt : idx < ctx.stored.length) :
      Selection ctx idx msg
        ⟨{ ctx with fallback := false, bufferPending := true },
          pushes ++ .shmWrite ctx.shmPtr (UInt32.ofNat idx.toNat) ::
            ctx.bufReadyEfd.toList.map .eventfdWrite, 0⟩

/-- `refresh_done` returns at once, has read the eventfd, or loses the channel. -/
inductive Refresh (ctx : Ctx φ) (polls : List RefreshPoll) : Out φ → Prop
  | nothingPending (hp : ctx.bufferPending = false) : Refresh ctx polls ⟨ctx, [], 0⟩
  | refreshed (hp : ctx.bufferPending = true) (hread : Ctx.waitRefresh polls = some true) :
      Refresh ctx polls ⟨{ ctx with bufferPending := false }, [], 0⟩
  | fell {out : Out φ} (hf : out.ctx.fallback = true) (hp : ctx.bufferPending = true)
      (hp' : ctx.fallback = false → out.ctx.bufferPending = false) (hret : out.ret = -1) :
      Refresh ctx polls out

namespace Ctx

variable (ctx : Ctx φ)

@[simp] theorem createShm_fallback (calls : ShmCalls φ) :
    (ctx.createShm calls).ctx.fallback = ctx.fallback ∧
      (ctx.createShm calls).ctx.bufferPending = ctx.bufferPending := by
  unfold createShm
  split
  · exact ⟨rfl, rfl⟩
  split
  · exact ⟨rfl, rfl⟩
  split <;> exact ⟨rfl, rfl⟩

@[simp] theorem sendHelloFds_fallback (calls : HelloCalls φ) :
    (ctx.sendHelloFds calls).ctx.fallback = ctx.fallback ∧
      (ctx.sendHelloFds calls).ctx.bufferPending = ctx.bufferPending := by
  unfold sendHelloFds
  split
  · exact ⟨rfl, rfl⟩
  dsimp only
  split
  · split <;> exact ⟨rfl, rfl⟩
  · exact ⟨rfl, rfl⟩

/-- A context in fallback has no buffer pending. -/
theorem enterFallback_pending (calls : FallbackCalls φ) :
    (ctx.enterFallback calls).1.fallback = true ∧
      (ctx.fallback = false → (ctx.enterFallback calls).1.bufferPending = false) := by
  unfold enterFallback
  split
  · rename_i hf
    exact ⟨hf, fun hno => absurd (hf.symm.trans hno) (by simp)⟩
  dsimp only
  split
  · exact ⟨((ctx.renewEfds calls).createShm_fallback calls.shm).1,
      fun _ => ((ctx.renewEfds calls).createShm_fallback calls.shm).2⟩
  · have hshm := (ctx.renewEfds calls).createShm_fallback calls.shm
    have hhello :=
      ((ctx.renewEfds calls).createShm calls.shm).ctx.sendHelloFds_fallback calls.hello
    exact ⟨hhello.1.trans hshm.1, fun _ => hhello.2.trans hshm.2⟩

theorem any_callFallbackCb : ctx.callFallbackCb.any Effect.isPush = false := by
  unfold callFallbackCb
  split <;> rfl

theorem any_createShm (calls : ShmCalls φ) :
    (ctx.createShm calls).effs.any Effect.isPush = false := by
  unfold createShm
  split
  · rfl
  · split_ifs <;> rfl

theorem any_sendHelloFds (calls : HelloCalls φ) :
    (ctx.sendHelloFds calls).effs.any Effect.isPush = false := by
  unfold sendHelloFds
  split
  · rfl
  dsimp only
  split
  · split <;> rfl
  · rfl

/-- What is sent on the way into fallback is no push. -/
theorem any_enterFallback (calls : FallbackCalls φ) :
    (ctx.enterFallback calls).2.any Effect.isPush = false := by
  unfold enterFallback
  split
  · rfl
  dsimp only
  split
  · simp [closeChannel, any_createShm, any_callFallbackCb]
  · simp [closeChannel, any_createShm, any_sendHelloFds, any_callFallbackCb]

/-- A push sends the stored buffers or loses the channel. -/
theorem pushDmabufsInternal_cases (hf : ctx.fallback = false) (calls : PushCalls φ) :
    (ctx.pushDmabufsInternal calls).ctx = ctx ∧
        (∀ x ∈ (ctx.pushDmabufsInternal calls).effs, ∃ fd, x = .sendBufsReady fd ctx.stored) ∨
      (ctx.pushDmabufsInternal calls).ctx.fallback = true ∧
        (ctx.pushDmabufsInternal calls).ctx.bufferPending = false ∧
        (ctx.pushDmabufsInternal calls).effs.any Effect.isPush = false := by
  have hfail : (ctx.failWith [] calls.fallback).ctx.fallback = true ∧
      (ctx.failWith [] calls.fallback).ctx.bufferPending = false ∧
      (ctx.failWith [] calls.fallback).effs.any Effect.isPush = false :=
    ⟨(ctx.enterFallback_pending calls.fallback).1,
      (ctx.enterFallback_pending calls.fallback).2 hf, ctx.any_enterFallback calls.fallback⟩
  unfold pushDmabufsInternal
  split
  · exact .inl ⟨rfl, by simp⟩
  split
  · exact .inr hfail
  split
  · exact .inr hfail
  split
  · exact .inr hfail
  · exact .inl ⟨rfl, by simp⟩

theorem handOver_selection (idx : Int) (msg : Option CtrlType) {pushes : List (Effect φ)}
    (hpush : ∀ x ∈ pushes, ∃ fd, x = .sendBufsReady fd ctx.stored) :
    Selection ctx idx msg
      { ({ ctx with fallback := false } : Ctx φ).handOver idx with
        effs := pushes ++ (({ ctx with fallback := false } : Ctx φ).handOver idx).effs } := by
  unfold handOver
  split_ifs with hidx
  · rw [List.append_nil]
    exact .refused pushes hpush
  · obtain ⟨h0, hlt⟩ := not_or.mp hidx
    exact .handedOver pushes hpush (not_lt.mp h0) (not_le.mp hlt)

theorem selectDmabuf_selection (idx : Int) (msg : Option CtrlType) (calls : PushCalls φ) :
    Selection ctx idx msg (ctx.selectDmabuf idx msg calls) := by
  cases hf : ctx.fallback with
  | false =>
    have hctx : { ctx with fallback := false } = ctx := by rw [← hf]
    have hsel := ctx.handOver_selection idx msg (List.forall_mem_nil _)
    rw [hctx] at hsel
    simpa [selectDmabuf, hf] using hsel
  | true =>
    unfold selectDmabuf tryExitFallback
    rw [if_pos hf]
    by_cases hm : msg = some .fdsReady
    · rw [if_pos hm]
      dsimp only
      have hpush := ({ ctx with fallback := false } : Ctx φ).pushDmabufsInternal_cases rfl calls
      rcases hpush with ⟨hctx, hsent⟩ | ⟨hfb, hpend, hquiet⟩
      · rw [hctx, if_neg (by simp)]
        exact ctx.handOver_selection idx msg hsent
      · rw [if_pos hfb]
        exact .fell hm hfb hpend hquiet rfl
    · rw [if_neg hm]
      dsimp only
      rw [if_pos hf]
      exact .waits hf hm

theorem refreshDone_refresh {polls : List RefreshPoll} {readOk : Bool} {calls : FallbackCalls φ}
    {out : Out φ} (h : ctx.refreshDone polls readOk calls = some out) : Refresh ctx polls out := by
  unfold refreshDone at h
  split at h
  · obtain rfl := Option.some.inj h
    exact .nothingPending (by simpa using ‹(!ctx.bufferPending) = true›)
  rename_i hp
  obtain ⟨readable, hread, rfl⟩ := Option.map_eq_some_iff.mp h
  split
  · rename_i hok
    obtain ⟨rfl, -⟩ : readable = true ∧ readOk = true := by simpa using hok
    exact .refreshed (by simpa using hp) hread
  · exact .fell (ctx.enterFallback_pending calls).1 (by simpa using hp)
      (ctx.enterFallback_pending calls).2 rfl

end Ctx

end Consumer
end ACGlass
