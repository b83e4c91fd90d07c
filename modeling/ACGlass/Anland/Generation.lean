import ACGlass.Anland.InStep
import ACGlass.Consumer.Library

/-!
# One generation of the connection

The consumer's render thread and the backend's event loop share two eventfds, a page and
the data channel. The consumer leaves the generation when it enters fallback, the backend
when the library does; nothing connects them after that.
-/

namespace ACGlass
namespace Anland

variable {φ ρ : Type*}

/-- The descriptors of one `CONSUMER_HELLO` that the handshake is about. -/
structure Channel (φ : Type*) where
  bufReadyEfd : φ
  refreshDoneEfd : φ
  shm : φ
  efds_ne : bufReadyEfd ≠ refreshDoneEfd

/-- The consumer has sent its hello, holds buffers and waits for `FDS_READY`. -/
structure Offers (ch : Channel φ) (ctx : Consumer.Ctx φ) : Prop where
  fallback : ctx.fallback = true
  bufReadyEfd : ctx.bufReadyEfd = some ch.bufReadyEfd
  refreshDoneEfd : ctx.refreshDoneEfd = some ch.refreshDoneEfd
  shmPtr : ctx.shmPtr = some ch.shm
  bufferPending : ctx.bufferPending = false
  stored : ctx.stored ≠ []
  stored_le : ctx.stored.length ≤ maxBufs

/-- The backend has taken the channel and has not been told of a buffer yet. -/
structure Fresh (ch : Channel φ) (b : Backend φ ρ) : Prop extends b.Inv where
  connected : b.inFallback = false
  bufReadyEfd : b.display.bufReadyEfd = some ch.bufReadyEfd
  refreshDoneEfd : b.display.refreshDoneEfd = some ch.refreshDoneEfd
  shmPtr : b.display.shmPtr = some ch.shm
  bufs : b.display.bufs = []
  bufCount : b.output.bufCount = 0
  consumerReady : b.consumerReady = false
  dmabufReceived : b.dmabufReceived = false

/-- Both parties at the start of a generation. -/
structure Setup (φ ρ : Type*) where
  channel : Channel φ
  consumer : Consumer.Ctx φ
  backend : Backend φ ρ
  offers : Offers channel consumer
  fresh : Fresh channel backend

/-- Where `render_thread_func` is: it locks a buffer and selects it, waits for the refresh,
posts the buffer. -/
inductive RenderPhase
  | locking
  | selected (idx : ℕ)
  | done
  deriving DecidableEq, Repr

/-- The counters of the eventfds, the shared page and the channel, with both parties.
`handed` is the buffer of a `select_dmabuf` that has not been matched, `painted` what
`repaint_output` drew into since the last `select_dmabuf`. -/
structure State (φ ρ : Type*) where
  channel : Channel φ
  consumer : Consumer.Ctx φ
  backend : Backend φ ρ
  shm : UInt32
  bufReady : ℕ
  refreshDone : ℕ
  pushed : Option (List (φ × BufInfo))
  phase : RenderPhase
  gone : Bool
  handed : Option ℕ
  painted : List ℕ

/-- A call of the render thread, or of the event loop of the backend. `msg` is what the
consumer finds on its control connection. The data channel delivers what was pushed, or a
call on it fails. -/
inductive Label (φ ρ : Type*)
  | select (idx : Int) (msg : Option CtrlType) (calls : Consumer.PushCalls φ)
  | refreshDone (polls : List Consumer.RefreshPoll) (readOk : Bool)
      (calls : Consumer.FallbackCalls φ)
  | post
  | bufReady (pickup : Producer.PickupCalls φ) (polls : List Producer.BufferPoll)
      (recvOk infosOk : Bool) (created : List (Option ρ))
  | repaint (damage : Region)
  | finishFrame
  | inputFd (rounds : List InputRound)
  | reconnectTimer (calls : Producer.ReconnectCalls φ)
  | windowEvent (event : Bytes) (sendOk : Bool)

/-- The `BUFS_READY` message with its descriptors, and the array behind it. -/
def pushedCalls (pushed : Option (List (φ × BufInfo))) (recvOk infosOk : Bool) :
    Producer.BufsCalls φ where
  msg :=
    if recvOk then
      pushed.map fun bufs => ⟨dataMsgSize, ⟨.bufsReady, bufs.length * bufInfoSize⟩, bufs.map Prod.fst⟩
    else none
  infos := if infosOk then pushed.map (List.map Prod.snd) else none

section Effects

variable [DecidableEq φ]

/-- The value of the shared page after some calls of the consumer. -/
def shmAfter (shm : φ) (value : UInt32) (effs : List (Consumer.Effect φ)) : UInt32 :=
  effs.foldl (fun value eff =>
    match eff with
    | .shmWrite (some page) new => if page = shm then new else value
    | _ => value) value

/-- What the consumer has pushed into the channel after some calls. -/
def pushedAfter (pushed : Option (List (φ × BufInfo))) (effs : List (Consumer.Effect φ)) :
    Option (List (φ × BufInfo)) :=
  effs.foldl (fun pushed eff =>
    match eff with
    | .sendBufsReady _ bufs => some bufs
    | _ => pushed) pushed

end Effects

def State.start (setup : Setup φ ρ) : State φ ρ where
  channel := setup.channel
  consumer := setup.consumer
  backend := setup.backend
  shm := 0
  bufReady := 0
  refreshDone := 0
  pushed := none
  phase := .locking
  gone := false
  handed := none
  painted := []

namespace State

variable [DecidableEq φ] (s : State φ ρ)

/-- `select_dmabuf` hands the buffer over unless it fails or the consumer is in fallback. -/
def afterSelect (idx : Int) (msg : Option CtrlType) (out : Consumer.Out φ) : State φ ρ :=
  { s with
    consumer := out.ctx
    shm := shmAfter s.channel.shm s.shm out.effs
    bufReady := s.bufReady + out.effs.count (.eventfdWrite s.channel.bufReadyEfd)
    pushed := pushedAfter s.pushed out.effs
    phase := if out.ret < 0 then .done else .selected idx.toNat
    gone := out.ctx.fallback && (!s.consumer.fallback || msg == some .fdsReady)
    handed := if out.ret < 0 ∨ out.ctx.fallback then none else some idx.toNat
    painted := [] }

/-- A successful `refresh_done` has read the eventfd if a buffer was pending. -/
def afterRefresh (out : Consumer.Out φ) : State φ ρ :=
  { s with
    consumer := out.ctx
    refreshDone := if s.consumer.bufferPending && out.ret = 0 then 0 else s.refreshDone
    phase := .done
    gone := out.ctx.fallback && !s.consumer.fallback
    handed := none }

/-- What a call of the backend changes outside it. -/
def observe (s : State φ ρ) : Effect φ ρ → State φ ρ
  | .lib (.eventfdRead fd) => if fd = s.channel.bufReadyEfd then { s with bufReady := 0 } else s
  | .lib (.eventfdWrite fd) =>
    if fd = s.channel.refreshDoneEfd then { s with refreshDone := s.refreshDone + 1 } else s
  | .repaintOutput idx _ _ => { s with painted := s.painted ++ [idx] }
  | _ => s

def afterBackend (r : Backend φ ρ × List (Effect φ ρ)) : State φ ρ :=
  r.2.foldl observe { s with backend := r.1 }

/-- An eventfd is readable while its counter is not zero. -/
def step (s : State φ ρ) : Label φ ρ → Option (State φ ρ)
  | .select idx msg calls =>
    if s.phase = .locking ∧ s.gone = false then
      some (s.afterSelect idx msg (s.consumer.selectDmabuf idx msg calls))
    else none
  | .refreshDone polls readOk calls =>
    match s.phase with
    | .selected _ =>
      if s.gone = false ∧
          (Consumer.Ctx.waitRefresh polls = some true → 0 < s.refreshDone) then
        (s.consumer.refreshDone polls readOk calls).map s.afterRefresh
      else none
    | _ => none
  | .post => if s.phase = .done then some { s with phase := .locking } else none
  | .bufReady pickup polls recvOk infosOk created =>
    if 0 < s.bufReady then
      s.backend.bufReadySource.bind fun fd =>
        (s.backend.bufReadyHandler fd
          ⟨pickup, polls, pushedCalls s.pushed recvOk infosOk, created⟩).map s.afterBackend
    else none
  | .repaint damage => some (s.afterBackend (s.backend.outputRepaint damage s.shm))
  | .finishFrame => some (s.afterBackend (s.backend, s.backend.finishFrameHandler))
  | .inputFd rounds =>
    if s.backend.inputFdSource.isSome then
      some (s.afterBackend (s.backend.inputFdHandler rounds))
    else none
  | .reconnectTimer calls =>
    if s.backend.display.fallback then none
    else some (s.afterBackend (s.backend.reconnectTimerHandler calls))
  | .windowEvent event sendOk => some (s.afterBackend (s.backend.sendWindowEvent event sendOk))

end State

section Starts

/-- A channel of these four descriptors. -/
structure Channel.Of (ch : Channel φ) (efd refreshed shm : φ) : Prop where
  bufReadyEfd : ch.bufReadyEfd = efd
  refreshDoneEfd : ch.refreshDoneEfd = refreshed
  shm : ch.shm = shm

/-- A backend that was just created is at the start of a generation. -/
theorem backendCreate_fresh {calls : Producer.ConnectCalls φ} {timer : Bool} {width height : ℕ}
    {region : Region} {b : Backend φ ρ}
    (h : backendCreate calls timer (.fresh width height region) = some b) :
    ∃ efd refreshed shm, ∀ ch : Channel φ, ch.Of efd refreshed shm → Fresh ch b := by
  have hinv := backendCreate_inv h
  obtain ⟨ctx, hctx, rfl⟩ := Option.map_eq_some_iff.mp h
  obtain ⟨fd, out, si, rfl, rfl, hret⟩ := Producer.connectToDeamon_reconnection hctx
  cases ((Producer.Ctx.fresh fd).setScreen si).pickupFds_reconnection calls.pickup with
  | refused fallback ret => omega
  | accepted efd refreshed dataFd shm hfb hefd hdone hdata hshm =>
    refine ⟨efd, refreshed, shm, fun ch hch => ⟨hinv, rfl, ?_, ?_, ?_, ?_, rfl, rfl, rfl⟩⟩
    · rw [hch.bufReadyEfd]
      exact hefd
    · rw [hch.refreshDoneEfd]
      exact hdone
    · rw [hch.shm]
      exact hshm
    · exact Producer.Ctx.pickupFds_bufs ..

/-- A reconnection is the start of another generation. -/
theorem reconnectTimer_fresh {b : Backend φ ρ} (h : b.Inv) (hf : b.inFallback = true)
    {calls : Producer.ReconnectCalls φ}
    (hc : (b.reconnectTimerHandler calls).1.inFallback = false) :
    ∃ efd refreshed shm, ∀ ch : Channel φ, ch.Of efd refreshed shm →
      Fresh ch (b.reconnectTimerHandler calls).1 := by
  have hinv := h.reconnectTimer calls
  have hfb : b.dropRenderbuffers.display.fallback = true := h.agree.symm.trans hf
  have hidle := h.idle hf
  have heq : (b.reconnectTimerHandler calls).1 = (b.dropRenderbuffers.tryReconnect calls).1 := by
    rw [Backend.reconnectTimerHandler, if_neg (by simp [hf])]
  rw [heq] at hc hinv ⊢
  rcases Backend.tryReconnect_cases hfb calls with ⟨hret, hout⟩ | ⟨hret, hout⟩
  · rw [hout] at hc
    exact absurd (hf.symm.trans hc) (by simp)
  rw [hout] at hinv ⊢
  cases Producer.Ctx.tryReconnect_reconnection hfb calls with
  | refused fallback ret => omega
  | accepted efd refreshed dataFd shm hfb' hefd hdone hdata hshm ret =>
    refine ⟨efd, refreshed, shm, fun ch hch => ⟨hinv, rfl, ?_, ?_, ?_, ?_, rfl, ?_, ?_⟩⟩
    · rw [hch.bufReadyEfd]
      exact hefd
    · rw [hch.refreshDoneEfd]
      exact hdone
    · rw [hch.shm]
      exact hshm
    · exact Producer.Ctx.tryReconnect_bufs hfb calls hret
    · exact hidle.consumerReady
    · exact hidle.dmabufReceived

/-- `create_shm` and `send_hello_fds` set up nothing but the new channel. -/
theorem createShm_ret {ctx : Consumer.Ctx φ} {calls : Consumer.ShmCalls φ}
    (h : 0 ≤ (ctx.createShm calls).ret) :
    ∃ shm, (ctx.createShm calls).ctx = { ctx with shmFd := some shm, shmPtr := some shm } := by
  unfold Consumer.Ctx.createShm at h ⊢
  split at h
  · simp at h
  split at h
  · simp at h
  split at h
  · simp at h
  rename_i fd hfd htrunc hmmap
  exact ⟨fd, by simp [htrunc, hmmap]⟩

theorem sendHelloFds_ctx (ctx : Consumer.Ctx φ) (calls : Consumer.HelloCalls φ) :
    ∃ dataFd, (ctx.sendHelloFds calls).ctx = { ctx with dataFd } := by
  unfold Consumer.Ctx.sendHelloFds
  split
  · exact ⟨ctx.dataFd, rfl⟩
  rename_i sv0 sv1 hpair
  refine ⟨some sv0, ?_⟩
  dsimp only
  split
  · split <;> rfl
  · rfl

/-- The context whose eventfds were just made, once its page and its hello are made too. -/
theorem offers_of_hello {ctx : Consumer.Ctx φ} {shm : Consumer.ShmCalls φ}
    {hello : Consumer.HelloCalls φ} {efd refreshed : φ} (hf : ctx.fallback = true)
    (hefd : ctx.bufReadyEfd = some efd) (hdone : ctx.refreshDoneEfd = some refreshed)
    (hpend : ctx.bufferPending = false) (hbufs : ctx.stored ≠ [])
    (hle : ctx.stored.length ≤ maxBufs) (hret : 0 ≤ (ctx.createShm shm).ret) :
    ∃ page, ∀ ch : Channel φ, ch.Of efd refreshed page →
      Offers ch ((ctx.createShm shm).ctx.sendHelloFds hello).ctx := by
  obtain ⟨page, hpage⟩ := createShm_ret hret
  obtain ⟨dataFd, hdata⟩ := sendHelloFds_ctx (ctx.createShm shm).ctx hello
  refine ⟨page, fun ch hch => ?_⟩
  rw [hdata, hpage]
  refine ⟨hf, ?_, ?_, ?_, hpend, hbufs, hle⟩
  · rw [hch.bufReadyEfd]
    exact hefd
  · rw [hch.refreshDoneEfd]
    exact hdone
  · rw [hch.shm]

/-- A consumer that enters fallback offers its buffers on a new channel, unless the calls
that make the channel fail. -/
theorem enterFallback_offers {ctx : Consumer.Ctx φ} {calls : Consumer.FallbackCalls φ}
    {efd refreshed : φ} (hf : ctx.fallback = false) (hefd : calls.bufReadyEfd = some efd)
    (hdone : calls.refreshDoneEfd = some refreshed) (hbufs : ctx.stored ≠ [])
    (hle : ctx.stored.length ≤ maxBufs)
    (hret : 0 ≤ ((ctx.renewEfds calls).createShm calls.shm).ret) :
    ∃ page, ∀ ch : Channel φ, ch.Of efd refreshed page →
      Offers ch (ctx.enterFallback calls).1 := by
  have heq : (ctx.enterFallback calls).1 =
      (((ctx.renewEfds calls).createShm calls.shm).ctx.sendHelloFds calls.hello).ctx := by
    rw [Consumer.Ctx.enterFallback, if_neg (by simp [hf])]
    dsimp only
    rw [if_neg (by omega)]
  rw [heq]
  exact offers_of_hello rfl hefd hdone rfl hbufs hle hret

/-- So does a consumer that has connected and pushed its buffers. -/
theorem connectToDeamon_offers {ctrlFd : Option φ} {calls : Consumer.FallbackCalls φ}
    {ctx : Consumer.Ctx φ} (h : (Consumer.connectToDeamon ctrlFd calls).1 = some ctx)
    {bufs : List (φ × BufInfo)} (hbufs : bufs ≠ []) (hle : bufs.length ≤ maxBufs)
    (push : Consumer.PushCalls φ) :
    ∃ efd refreshed page, ∀ ch : Channel φ, ch.Of efd refreshed page →
      Offers ch (ctx.pushDmabufs bufs push).ctx := by
  unfold Consumer.connectToDeamon at h
  split at h
  · simp at h
  rename_i fd
  dsimp only at h
  split at h
  · simp at h
  rename_i hefds
  split at h
  · simp at h
  rename_i hshm
  split at h
  · simp at h
  obtain rfl := Option.some.inj h
  obtain ⟨page, hpage⟩ := createShm_ret (not_lt.mp hshm)
  obtain ⟨dataFd, hdata⟩ := sendHelloFds_ctx
    ((Consumer.Ctx.withEfds fd calls).createShm calls.shm).ctx calls.hello
  obtain ⟨hefd, hdone⟩ : calls.bufReadyEfd.isSome ∧ calls.refreshDoneEfd.isSome := by
    simpa [Option.isNone_iff_eq_none, Option.isSome_iff_ne_none] using hefds
  obtain ⟨efd, hefd⟩ := Option.isSome_iff_exists.mp hefd
  obtain ⟨refreshed, hdone⟩ := Option.isSome_iff_exists.mp hdone
  have hcount : ¬ (bufs.length = 0 ∨ maxBufs < bufs.length) := by
    simp [hbufs, hle]
  have hfb : (Consumer.Ctx.withEfds fd calls).fallback = true := rfl
  refine ⟨efd, refreshed, page, fun ch hch => ?_⟩
  rw [hdata, hpage, Consumer.Ctx.pushDmabufs, if_neg hcount]
  dsimp only
  rw [if_pos hfb]
  refine ⟨hfb, ?_, ?_, ?_, rfl, hbufs, hle⟩
  · rw [hch.bufReadyEfd]
    exact hefd
  · rw [hch.refreshDoneEfd]
    exact hdone
  · rw [hch.shm]

end Starts

end Anland
end ACGlass
