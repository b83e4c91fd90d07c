import ACGlass.Protocol
import Mathlib.Tactic

/-!
# The producer library

`display_producer.c` as functions on its context, in the manner of the consumer
library: a descriptor that is `-1` is `none`, and what the system calls of an operation
return is its argument.
-/

namespace ACGlass
namespace Producer

variable {φ : Type*}

/-- `struct display_ctx`. `bufs` is `dmabuf_fds` and `dmabuf_infos` up to `buf_count`; of
the callback only its presence is kept. -/
structure Ctx (φ : Type*) where
  ctrlFd : Option φ
  dataFd : Option φ
  bufReadyEfd : Option φ
  refreshDoneEfd : Option φ
  shmFd : Option φ
  shmPtr : Option φ
  screenW : UInt32
  screenH : UInt32
  pixelFormat : UInt32
  refresh : UInt32
  fallback : Bool
  asyncPending : Bool
  bufs : List (φ × BufInfo)
  fallbackCb : Bool
  deriving DecidableEq, Repr

/-- Messages sent, descriptors received, pages mapped and all releases; `recvAll` is the
length of a read into a buffer of the caller's. -/
inductive Effect (φ : Type*)
  | sendCtrl (type : CtrlType)
  | sendData (dataFd : φ) (type : DataType) (payload : Bytes)
  | received (fds : List φ)
  | recvAll (len : ℕ)
  | eventfdRead (efd : φ)
  | eventfdWrite (efd : φ)
  | close (fd : φ)
  | mmap (shm : φ)
  | munmap (shm : φ)
  | fallbackCb
  deriving DecidableEq, Repr

def Effect.isFallbackCb : Effect φ → Bool
  | .fallbackCb => true
  | _ => false

/-- What an operation leaves behind. -/
structure Out (φ : Type*) where
  ctx : Ctx φ
  effs : List (Effect φ)
  ret : Int
  deriving DecidableEq, Repr

/-- An answer of the daemon, and whether its page can be mapped. -/
structure AnswerCalls (φ : Type*) where
  msg : Option (Recvmsg CtrlMsg φ)
  mmapOk : Bool
  deriving DecidableEq, Repr

structure PickupCalls (φ : Type*) where
  sendOk : Bool
  answer : AnswerCalls φ
  deriving DecidableEq, Repr

/-- `polled`: `poll` reports something to read. -/
structure ReconnectCalls (φ : Type*) where
  sendOk : Bool
  polled : Bool
  answer : AnswerCalls φ
  deriving DecidableEq, Repr

/-- `screen` is the message that `recv_all` reads, if it succeeds. -/
structure ConnectCalls (φ : Type*) where
  connectUnix : Option φ
  helloOk : Bool
  screen : Option (CtrlMsg × ScreenInfo)
  pickup : PickupCalls φ
  deriving DecidableEq, Repr

/-- `infos` is the array after a `recv_all` that succeeds. -/
structure BufsCalls (φ : Type*) where
  msg : Option (Recvmsg DataMsg φ)
  infos : Option (List BufInfo)
  deriving DecidableEq, Repr

/-- One return of `poll` in `wait_buffer_async_result`. -/
inductive BufferPoll
  | error (eintr : Bool)
  | timeout
  | ready (efdIn dataError : Bool)
  deriving DecidableEq, Repr

/-- What `poll_display_event` reads: `poll`, the peeked header, the payload behind it. -/
inductive DisplayPoll
  | idle
  | hangup
  | short
  | peeked (hdr : DataMsg) (payload : Option Bytes)
  deriving DecidableEq, Repr

def closeIf (fd : Option φ) : List (Effect φ) := fd.toList.map .close

def munmapIf (shm : Option φ) : List (Effect φ) := shm.toList.map .munmap

namespace Ctx

variable (ctx : Ctx φ)

def callFallbackCb : List (Effect φ) := if ctx.fallbackCb then [.fallbackCb] else []

def closeBufs : List (Effect φ) := ctx.bufs.map fun b => .close b.1

def enterFallback : Ctx φ × List (Effect φ) :=
  if ctx.fallback then (ctx, [])
  else
    ({ ctx with
        fallback := true, bufs := [], dataFd := none, bufReadyEfd := none
        refreshDoneEfd := none, shmPtr := none, shmFd := none },
      ctx.closeBufs ++ closeIf ctx.dataFd ++ closeIf ctx.bufReadyEfd ++
        closeIf ctx.refreshDoneEfd ++ munmapIf ctx.shmPtr ++ closeIf ctx.shmFd ++
        ctx.callFallbackCb)

theorem enterFallback_fallback : ctx.enterFallback.1.fallback = true := by
  unfold enterFallback
  split
  · assumption
  · rfl

/-- `enter_fallback(ctx); return -1;` -/
def failWith (effs : List (Effect φ)) : Out φ :=
  let (ctx, entered) := ctx.enterFallback
  ⟨ctx, effs ++ entered, -1⟩

/-- The part of `pickup_fds` and of `try_reconnect` from `recv_fds` on. Descriptors of an
answer that is refused stay open. -/
def takeFds (calls : AnswerCalls φ) : Out φ :=
  match recvFds 4 calls.msg with
  | none => ⟨ctx, [], -1⟩
  | some m =>
    match m.hdr.type, m.fds with
    | .fdsReady, [bufReadyEfd, refreshDoneEfd, dataFd, shmFd] =>
      let ctx :=
        { ctx with
          bufReadyEfd := some bufReadyEfd, refreshDoneEfd := some refreshDoneEfd
          dataFd := some dataFd, shmFd := some shmFd }
      if calls.mmapOk then
        ⟨{ ctx with shmPtr := some shmFd, fallback := false },
          [.received m.fds, .mmap shmFd], 0⟩
      else ⟨{ ctx with shmPtr := none }, [.received m.fds], -1⟩
    | _, fds => ⟨ctx, [.received fds], -1⟩

def pickupFds (calls : PickupCalls φ) : Out φ :=
  if !calls.sendOk then ⟨ctx, [], -1⟩
  else
    let out := ctx.takeFds calls.answer
    { out with effs := .sendCtrl .pickupFds :: out.effs }

/-- The part of `try_reconnect` past `poll`. -/
def takeReconnect (calls : AnswerCalls φ) : Out φ :=
  let out := ctx.takeFds calls
  if out.ret < 0 then out else { out with ctx := { out.ctx with bufs := [] } }

def tryReconnect (calls : ReconnectCalls φ) : Out φ :=
  if !ctx.fallback then ⟨ctx, [], 0⟩
  else if !calls.sendOk then ⟨ctx, [], -1⟩
  else if !calls.polled then ⟨ctx, [.sendCtrl .pickupFds], -1⟩
  else
    let out := ctx.takeReconnect calls.answer
    { out with effs := .sendCtrl .pickupFds :: out.effs }

def setScreen (si : ScreenInfo) : Ctx φ :=
  { ctx with
    screenW := si.width, screenH := si.height, pixelFormat := si.format, refresh := si.refresh }

/-- What the `fail` label of `connect_to_deamon` releases. -/
def release : List (Effect φ) :=
  munmapIf ctx.shmPtr ++ closeIf ctx.shmFd ++ closeIf ctx.ctrlFd ++ closeIf ctx.dataFd ++
    closeIf ctx.bufReadyEfd ++ closeIf ctx.refreshDoneEfd

def disconnect : List (Effect φ) := ctx.closeBufs ++ ctx.release

def getScreenInfo : ScreenInfo := ⟨ctx.screenW, ctx.screenH, ctx.pixelFormat, ctx.refresh⟩

def waitBufferAsync : Out φ := ⟨{ ctx with asyncPending := true }, [], 0⟩

def receiveDmabufs (calls : BufsCalls φ) : Out φ :=
  if 0 < ctx.bufs.length then ⟨ctx, [], 0⟩
  else
    match recvFds maxBufs calls.msg with
    | none => ctx.failWith []
    | some m =>
      if m.n < dataMsgSize ∨ m.fds.length < 1 then ctx.failWith [.received m.fds]
      else if m.hdr.type ≠ .bufsReady then ⟨ctx, .received m.fds :: m.fds.map .close, -1⟩
      else
        let count := m.hdr.size / bufInfoSize
        if count ≠ m.fds.length ∨ maxBufs < count then
          ⟨ctx, .received m.fds :: m.fds.map .close, -1⟩
        else
          match calls.infos with
          | none => ctx.failWith (.received m.fds :: m.fds.map .close)
          | some infos =>
            ⟨{ ctx with bufs := m.fds.zip infos }, [.received m.fds, .recvAll m.hdr.size], 0⟩

/-- The loop of `wait_buffer_async_result` on the results of its polls: `none` while it
is still waiting, else whether the eventfd became readable. -/
def waitBuffer : List BufferPoll → Option Bool
  | [] => none
  | .error eintr :: polls => if eintr then waitBuffer polls else some false
  | .timeout :: polls => waitBuffer polls
  | .ready efdIn dataError :: polls =>
    if dataError then some false
    else if efdIn then some true
    else waitBuffer polls

/-- The part of `wait_buffer_async_result` past the fallback check. -/
def awaitBuffer (polls : List BufferPoll) (bufs : BufsCalls φ) : Option (Out φ) :=
  if !ctx.asyncPending then some ⟨ctx, [], -1⟩
  else
    (waitBuffer polls).map fun readable =>
      let out :=
        if readable then
          let out := ctx.receiveDmabufs bufs
          { out with effs := ctx.bufReadyEfd.toList.map .eventfdRead ++ out.effs }
        else ctx.failWith []
      { out with ctx := { out.ctx with asyncPending := false } }

/-- `none` is a call that has not returned. -/
def waitBufferAsyncResult (pickup : PickupCalls φ) (polls : List BufferPoll)
    (bufs : BufsCalls φ) : Option (Out φ) :=
  if ctx.fallback then
    let out := { ctx with asyncPending := false }.pickupFds pickup
    if out.ret < 0 then some out
    else
      (out.ctx.awaitBuffer polls bufs).map fun next => { next with effs := out.effs ++ next.effs }
  else ctx.awaitBuffer polls bufs

def triggerRefresh : Out φ :=
  if ctx.fallback then ⟨ctx, [], 0⟩
  else ⟨ctx, ctx.refreshDoneEfd.toList.map .eventfdWrite, 0⟩

/-- The `DATA_MSG_*` values that `poll_display_event` returns. -/
def inputEventRet : Int := 102

def windowCommandRet : Int := 301

/-- A message of a known type must have exactly its size. -/
def takeMessage (size : ℕ) (ret : Int) (hdr : DataMsg) (payload : Option Bytes) :
    Out φ × Option Bytes :=
  if hdr.size ≠ size then (ctx.failWith [], none)
  else
    match payload with
    | none => (⟨ctx, [], -1⟩, none)
    | some event => (⟨ctx, [.recvAll (dataMsgSize + size)], ret⟩, some event)

def pollDisplayEvent (poll : DisplayPoll) : Out φ × Option Bytes :=
  if ctx.fallback then (⟨ctx, [], 0⟩, none)
  else
    match poll with
    | .idle | .short => (⟨ctx, [], 0⟩, none)
    | .hangup => (ctx.failWith [], none)
    | .peeked hdr payload =>
      match hdr.type with
      | .inputEvent => ctx.takeMessage inputEventSize inputEventRet hdr payload
      | .windowCommand => ctx.takeMessage windowCommandSize windowCommandRet hdr payload
      | _ =>
        if 4096 < hdr.size then (ctx.failWith [], none)
        else
          match payload with
          | none => (⟨ctx, [], -1⟩, none)
          | some _ => (⟨ctx, [.recvAll (dataMsgSize + hdr.size)], 0⟩, none)

def pollInputEvent (poll : DisplayPoll) : Out φ × Option Bytes :=
  let (out, event) := ctx.pollDisplayEvent poll
  if out.ret = inputEventRet then ({ out with ret := 1 }, event)
  else ({ out with ret := if out.ret < 0 then out.ret else 0 }, none)

def pushWindowEvent (event : Bytes) (sendOk : Bool) : Out φ :=
  if ctx.fallback then ⟨ctx, [], 0⟩
  else
    match ctx.dataFd with
    | none => ctx.failWith []
    | some fd =>
      if sendOk then ⟨ctx, [.sendData fd .windowEvent event], 1⟩ else ctx.failWith []

def setFallbackCallback (present : Bool) : Out φ :=
  ⟨{ ctx with fallbackCb := present }, [], 0⟩

/-- `shm` is the value of `*shm_ptr`. -/
def getSelectedIdx (shm : UInt32) : ℕ :=
  if ctx.shmPtr.isNone then 0
  else if shm.toNat < ctx.bufs.length then shm.toNat
  else 0

end Ctx

/-- The context of `connect_to_deamon` once `connect_unix` returned `ctrlFd`. -/
def Ctx.fresh (ctrlFd : φ) : Ctx φ where
  ctrlFd := some ctrlFd
  dataFd := none
  bufReadyEfd := none
  refreshDoneEfd := none
  shmFd := none
  shmPtr := none
  screenW := 0
  screenH := 0
  pixelFormat := 0
  refresh := 0
  fallback := true
  asyncPending := false
  bufs := []
  fallbackCb := false

def connectToDeamon (calls : ConnectCalls φ) : Option (Ctx φ) × List (Effect φ) :=
  match calls.connectUnix with
  | none => (none, [])
  | some fd =>
    let ctx := Ctx.fresh fd
    if !calls.helloOk then (none, ctx.release)
    else
      match calls.screen with
      | none => (none, .sendCtrl .producerHello :: ctx.release)
      | some (hdr, si) =>
        if hdr.type ≠ .screenInfo ∨ hdr.size ≠ screenInfoSize then
          (none, .sendCtrl .producerHello :: ctx.release)
        else
          let out := (ctx.setScreen si).pickupFds calls.pickup
          if out.ret < 0 then (none, .sendCtrl .producerHello :: out.effs ++ out.ctx.release)
          else (some out.ctx, .sendCtrl .producerHello :: out.effs)

end Producer
end ACGlass
