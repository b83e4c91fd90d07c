import ACGlass.Protocol
import Mathlib.Tactic

/-!
# The consumer library

`display_consumer.c` as functions on its context. A descriptor that is `-1` in the
source is `none` here, and descriptors stand for open file descriptions. What the
system calls of an operation return is its last argument; an operation returns the
new context, the calls that others can observe in order, and its return value.
-/

namespace ACGlass
namespace Consumer

variable {φ : Type*}

/-- `struct display_ctx`. `stored` is `stored_fds` and `stored_infos` up to
`stored_count`; of the callback only its presence is kept. -/
structure Ctx (φ : Type*) where
  ctrlFd : Option φ
  dataFd : Option φ
  bufReadyEfd : Option φ
  refreshDoneEfd : Option φ
  shmFd : Option φ
  shmPtr : Option φ
  screenW : UInt32
  screenH : UInt32
  pixelFormat : UInt32
  fallback : Bool
  bufferPending : Bool
  stored : List (φ × BufInfo)
  fallbackCb : Bool
  deriving DecidableEq, Repr

/-- Calls on the control connection and the data channel that succeeded, writes through
`shm_ptr` (`none` is a write through `NULL`) and to the eventfds, releases, and the
callback. -/
inductive Effect (φ : Type*)
  | sendHello (fds : List φ)
  | sendScreenInfo (si : ScreenInfo)
  | sendBufsReady (dataFd : φ) (bufs : List (φ × BufInfo))
  | sendData (dataFd : φ) (type : DataType) (payload : Bytes)
  | shmWrite (shm : Option φ) (value : UInt32)
  | eventfdWrite (efd : φ)
  | close (fd : φ)
  | munmap (shm : φ)
  | fallbackCb
  deriving DecidableEq, Repr

/-- What an operation leaves behind. -/
structure Out (φ : Type*) where
  ctx : Ctx φ
  effs : List (Effect φ)
  ret : Int

structure ShmCalls (φ : Type*) where
  memfd : Option φ
  ftruncateOk : Bool
  mmapOk : Bool
  deriving DecidableEq, Repr

structure HelloCalls (φ : Type*) where
  socketpair : Option (φ × φ)
  sendOk : Bool
  deriving DecidableEq, Repr

structure FallbackCalls (φ : Type*) where
  bufReadyEfd : Option φ
  refreshDoneEfd : Option φ
  shm : ShmCalls φ
  hello : HelloCalls φ
  deriving DecidableEq, Repr

/-- `send_fds` and `send_all` of `push_dmabufs_internal`; `fallback` for the branch that
a failure takes. -/
structure PushCalls (φ : Type*) where
  sendFdsOk : Bool
  sendAllOk : Bool
  fallback : FallbackCalls φ
  deriving DecidableEq, Repr

/-- One return of `poll` in `refresh_done`. -/
inductive RefreshPoll
  | error (eintr : Bool)
  | timeout
  | ready (efdError efdIn dataError : Bool)
  deriving DecidableEq, Repr

/-- What `poll_window_event` reads: `poll`, the peeked header, the whole message. -/
inductive WindowPoll
  | idle
  | hangup
  | short
  | peeked (hdr : DataMsg) (event : Option Bytes)
  deriving DecidableEq, Repr

def closeIf (fd : Option φ) : List (Effect φ) := fd.toList.map .close

def munmapIf (shm : Option φ) : List (Effect φ) := shm.toList.map .munmap

namespace Ctx

variable (ctx : Ctx φ)

def createShm (calls : ShmCalls φ) : Out φ :=
  match calls.memfd with
  | none => ⟨{ ctx with shmFd := none }, [], -1⟩
  | some fd =>
    if !calls.ftruncateOk then ⟨{ ctx with shmFd := none }, [.close fd], -1⟩
    else if !calls.mmapOk then ⟨{ ctx with shmPtr := none, shmFd := none }, [.close fd], -1⟩
    else ⟨{ ctx with shmFd := some fd, shmPtr := some fd }, [.shmWrite (some fd) 0], 0⟩

/-- `sendmsg` fails when one of the four descriptors is `-1`. -/
def sendHelloFds (calls : HelloCalls φ) : Out φ :=
  match calls.socketpair with
  | none => ⟨ctx, [], -1⟩
  | some (sv0, sv1) =>
    let ctx := { ctx with dataFd := some sv0 }
    match ctx.bufReadyEfd, ctx.refreshDoneEfd, ctx.shmFd with
    | some e, some r, some m =>
      if calls.sendOk then ⟨ctx, [.sendHello [e, r, sv1, m], .close sv1], 0⟩
      else ⟨ctx, [.close sv1], -1⟩
    | _, _, _ => ⟨ctx, [.close sv1], -1⟩

def callFallbackCb : List (Effect φ) := if ctx.fallbackCb then [.fallbackCb] else []

/-- The channel that `enter_fallback` gives up. -/
def closeChannel : List (Effect φ) :=
  closeIf ctx.dataFd ++ closeIf ctx.bufReadyEfd ++ closeIf ctx.refreshDoneEfd ++
    munmapIf ctx.shmPtr ++ closeIf ctx.shmFd

/-- The context once that channel is closed and the two `eventfd` calls are made. -/
def renewEfds (calls : FallbackCalls φ) : Ctx φ :=
  { ctx with
    fallback := true, bufferPending := false, dataFd := none, shmPtr := none, shmFd := none,
    bufReadyEfd := calls.bufReadyEfd, refreshDoneEfd := calls.refreshDoneEfd }

def enterFallback (calls : FallbackCalls φ) : Ctx φ × List (Effect φ) :=
  if ctx.fallback then (ctx, [])
  else
    let closed := ctx.closeChannel
    let shm := (ctx.renewEfds calls).createShm calls.shm
    if shm.ret < 0 then (shm.ctx, closed ++ shm.effs ++ shm.ctx.callFallbackCb)
    else
      let hello := shm.ctx.sendHelloFds calls.hello
      (hello.ctx, closed ++ shm.effs ++ hello.effs ++ hello.ctx.callFallbackCb)

/-- `enter_fallback(ctx); return -1;` -/
def failWith (effs : List (Effect φ)) (calls : FallbackCalls φ) : Out φ :=
  let (ctx, entered) := ctx.enterFallback calls
  ⟨ctx, effs ++ entered, -1⟩

/-- On a socket that is `-1` the sends fail. -/
def pushDmabufsInternal (calls : PushCalls φ) : Out φ :=
  if ctx.stored = [] then ⟨ctx, [], 0⟩
  else
    match ctx.dataFd with
    | none => ctx.failWith [] calls.fallback
    | some fd =>
      if !calls.sendFdsOk then ctx.failWith [] calls.fallback
      else if !calls.sendAllOk then ctx.failWith [] calls.fallback
      else ⟨ctx, [.sendBufsReady fd ctx.stored], 0⟩

/-- `msg` is the header read from `ctrl_fd`, if `poll` reports one. -/
def tryExitFallback (msg : Option CtrlType) (calls : PushCalls φ) : Ctx φ × List (Effect φ) :=
  if msg = some .fdsReady then
    let push := { ctx with fallback := false }.pushDmabufsInternal calls
    (push.ctx, push.effs)
  else (ctx, [])

def setScreenInfo (si : ScreenInfo) (sendOk : Bool) : Out φ :=
  let ctx := { ctx with screenW := si.width, screenH := si.height, pixelFormat := si.format }
  if sendOk then ⟨ctx, [.sendScreenInfo si], 0⟩ else ⟨ctx, [], -1⟩

def pushDmabufs (bufs : List (φ × BufInfo)) (calls : PushCalls φ) : Out φ :=
  if bufs.length = 0 ∨ maxBufs < bufs.length then ⟨ctx, [], -1⟩
  else
    let ctx := { ctx with stored := bufs }
    if ctx.fallback then ⟨ctx, [], 0⟩ else ctx.pushDmabufsInternal calls

/-- The part of `select_dmabuf` past the fallback check. -/
def handOver (idx : Int) : Out φ :=
  if idx < 0 ∨ (ctx.stored.length : Int) ≤ idx then ⟨ctx, [], -1⟩
  else
    ⟨{ ctx with bufferPending := true },
      .shmWrite ctx.shmPtr (UInt32.ofNat idx.toNat) ::
        ctx.bufReadyEfd.toList.map .eventfdWrite, 0⟩

def selectDmabuf (idx : Int) (msg : Option CtrlType) (calls : PushCalls φ) : Out φ :=
  if ctx.fallback then
    let (ctx, effs) := ctx.tryExitFallback msg calls
    if ctx.fallback then ⟨ctx, effs, 0⟩
    else
      let out := ctx.handOver idx
      { out with effs := effs ++ out.effs }
  else ctx.handOver idx

/-- The loop of `refresh_done` on the results of its polls: `none` while it is still
waiting, else whether the eventfd became readable. -/
def waitRefresh : List RefreshPoll → Option Bool
  | [] => none
  | .error eintr :: polls => if eintr then waitRefresh polls else some false
  | .timeout :: polls => waitRefresh polls
  | .ready efdError efdIn dataError :: polls =>
    if efdError || dataError then some false
    else if efdIn then some true
    else waitRefresh polls

/-- `none` is a call that has not returned. -/
def refreshDone (polls : List RefreshPoll) (readOk : Bool) (calls : FallbackCalls φ) :
    Option (Out φ) :=
  if !ctx.bufferPending then some ⟨ctx, [], 0⟩
  else
    (waitRefresh polls).map fun readable =>
      if readable && readOk then ⟨{ ctx with bufferPending := false }, [], 0⟩
      else ctx.failWith [] calls

def pushInputEvent (event : Bytes) (sendOk : Bool) (calls : FallbackCalls φ) : Out φ :=
  if ctx.fallback then ⟨ctx, [], 0⟩
  else
    match ctx.dataFd with
    | none => ctx.failWith [] calls
    | some fd =>
      if sendOk then ⟨ctx, [.sendData fd .inputEvent event], 0⟩ else ctx.failWith [] calls

def pollWindowEvent (poll : WindowPoll) (calls : FallbackCalls φ) : Out φ × Option Bytes :=
  if ctx.fallback then (⟨ctx, [], 0⟩, none)
  else
    match poll with
    | .idle | .short => (⟨ctx, [], 0⟩, none)
    | .hangup => (ctx.failWith [] calls, none)
    | .peeked hdr event =>
      if hdr.type ≠ .windowEvent then (⟨ctx, [], 0⟩, none)
      else if hdr.size ≠ windowEventSize then (ctx.failWith [] calls, none)
      else
        match event with
        | none => (ctx.failWith [] calls, none)
        | some event => (⟨ctx, [], 1⟩, some event)

def pushWindowCommand (command : Bytes) (sendOk : Bool) (calls : FallbackCalls φ) : Out φ :=
  if ctx.fallback then ⟨ctx, [], 0⟩
  else
    match ctx.dataFd with
    | none => ctx.failWith [] calls
    | some fd =>
      if sendOk then ⟨ctx, [.sendData fd .windowCommand command], 1⟩ else ctx.failWith [] calls

def wakeDisplayConsumer : Out φ :=
  ⟨ctx, ctx.refreshDoneEfd.toList.map .eventfdWrite ++ ctx.bufReadyEfd.toList.map .eventfdWrite, 0⟩

def setFallbackCallback (present : Bool) : Out φ :=
  ⟨{ ctx with fallbackCb := present }, [], 0⟩

/-- What `disconnect` and the `fail` label of `connect_to_deamon` release. -/
def release : List (Effect φ) :=
  munmapIf ctx.shmPtr ++ closeIf ctx.shmFd ++ closeIf ctx.ctrlFd ++ closeIf ctx.dataFd ++
    closeIf ctx.bufReadyEfd ++ closeIf ctx.refreshDoneEfd

end Ctx

/-- The context as `connect_to_deamon` sets it up. -/
def Ctx.fresh : Ctx φ where
  ctrlFd := none
  dataFd := none
  bufReadyEfd := none
  refreshDoneEfd := none
  shmFd := none
  shmPtr := none
  screenW := 0
  screenH := 0
  pixelFormat := 0
  fallback := true
  bufferPending := false
  stored := []
  fallbackCb := false

/-- The context once `connect_unix` and the two `eventfd` calls are made. -/
def Ctx.withEfds (ctrlFd : φ) (calls : FallbackCalls φ) : Ctx φ :=
  { Ctx.fresh with
    ctrlFd := some ctrlFd, bufReadyEfd := calls.bufReadyEfd
    refreshDoneEfd := calls.refreshDoneEfd }

/-- `connect_to_deamon`; `ctrlFd` is the result of `connect_unix`. -/
def connectToDeamon (ctrlFd : Option φ) (calls : FallbackCalls φ) :
    Option (Ctx φ) × List (Effect φ) :=
  match ctrlFd with
  | none => (none, [])
  | some fd =>
    let ctx := Ctx.withEfds fd calls
    if calls.bufReadyEfd.isNone || calls.refreshDoneEfd.isNone then (none, ctx.release)
    else
      let shm := ctx.createShm calls.shm
      if shm.ret < 0 then (none, shm.effs ++ shm.ctx.release)
      else
        let hello := shm.ctx.sendHelloFds calls.hello
        if hello.ret < 0 then (none, shm.effs ++ hello.effs ++ hello.ctx.release)
        else (some hello.ctx, shm.effs ++ hello.effs)

/-- A call of the library with what its system calls return. `polled` says whether
`try_exit_fallback` finds a message on the control connection. -/
inductive Op (φ : Type*)
  | setScreenInfo (si : ScreenInfo) (sendOk : Bool)
  | pushDmabufs (bufs : List (φ × BufInfo)) (calls : PushCalls φ)
  | selectDmabuf (idx : Int) (polled : Bool) (calls : PushCalls φ)
  | refreshDone (polls : List RefreshPoll) (readOk : Bool) (calls : FallbackCalls φ)
  | pushInputEvent (event : Bytes) (sendOk : Bool) (calls : FallbackCalls φ)
  | pollWindowEvent (poll : WindowPoll) (calls : FallbackCalls φ)
  | pushWindowCommand (command : Bytes) (sendOk : Bool) (calls : FallbackCalls φ)
  | wakeDisplayConsumer
  | setFallbackCallback (present : Bool)
  deriving DecidableEq, Repr

/-- The call on a context; `msg` is the first message on the control connection. -/
def Op.run (msg : Option CtrlType) (ctx : Ctx φ) : Op φ → Option (Out φ)
  | .setScreenInfo si sendOk => some (ctx.setScreenInfo si sendOk)
  | .pushDmabufs bufs calls => some (ctx.pushDmabufs bufs calls)
  | .selectDmabuf idx polled calls =>
    some (ctx.selectDmabuf idx (if polled then msg else none) calls)
  | .refreshDone polls readOk calls => ctx.refreshDone polls readOk calls
  | .pushInputEvent event sendOk calls => some (ctx.pushInputEvent event sendOk calls)
  | .pollWindowEvent poll calls => some (ctx.pollWindowEvent poll calls).1
  | .pushWindowCommand command sendOk calls => some (ctx.pushWindowCommand command sendOk calls)
  | .wakeDisplayConsumer => some ctx.wakeDisplayConsumer
  | .setFallbackCallback present => some (ctx.setFallbackCallback present)

/-- The call reads a message from the control connection. -/
def Op.reads (ctx : Ctx φ) : Op φ → Bool
  | .selectDmabuf _ polled _ => ctx.fallback && polled
  | _ => false

/-- The calls that `enter_fallback` makes, should the operation get there. -/
def Op.fallbackCalls : Op φ → Option (FallbackCalls φ)
  | .pushDmabufs _ calls | .selectDmabuf _ _ calls => some calls.fallback
  | .refreshDone _ _ calls | .pushInputEvent _ _ calls | .pollWindowEvent _ calls
  | .pushWindowCommand _ _ calls => some calls
  | _ => none

end Consumer
end ACGlass
