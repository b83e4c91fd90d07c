import ACGlass.Protocol

/-!
# The handlers of the display daemon

`daemon.c` as functions on its static variables. A handler returns the new
variables and, in order, the system calls that other parties can observe. What
the kernel answers (the message that `recv_fds` reads, whether `recv_all` and
`send_fds` succeed) is an argument.

A client is known by the connection behind its `ctrl_fd`: every accepted
connection has a number of its own, so equal clients are equal pointers.
-/

namespace ACGlass
namespace Daemon

variable {φ : Type*}

/-- `MAX_FDS` -/
def maxFds : ℕ := 4

structure Client where
  ctrlFd : ℕ
  isConsumer : Bool
  deriving DecidableEq, Repr

/-- The static variables of `daemon.c`. `depositedFds` is the array
`deposited_fds[0..deposited_fd_count)`. -/
structure Globals (φ : Type*) where
  consumer : Option Client
  producer : Option Client
  storedScreen : ScreenInfo
  hasScreenInfo : Bool
  depositedFds : List φ
  producerWaitingScreen : Bool
  producerWaitingFds : Bool
  deriving DecidableEq, Repr

def Globals.initial : Globals φ where
  consumer := none
  producer := none
  storedScreen := ⟨0, 0, 0, 0⟩
  hasScreenInfo := false
  depositedFds := []
  producerWaitingScreen := false
  producerWaitingFds := false

/-- The observable calls. `deposit` is the `memcpy` into `deposited_fds` of what
client `c` sent; `sendFds` is a `send_fds` that succeeded; the results of the
other sends are ignored by the daemon. -/
inductive Effect (φ : Type*)
  | sendScreenInfo (ctrlFd : ℕ) (si : ScreenInfo)
  | sendFds (ctrlFd : ℕ) (fds : List φ)
  | sendCtrl (ctrlFd : ℕ) (type : CtrlType)
  | deposit (c : Client) (fds : List φ)
  | closeFd (fd : φ)
  | closeConn (ctrlFd : ℕ)
  | epollAdd (c : Client)
  | clientFree (c : Client)
  deriving DecidableEq, Repr

/-- What the calls made while reading one message return. `payload` is the payload
buffer after `recv_all`, viewed as a `struct screen_info`. -/
structure Input (φ : Type*) where
  msg : Option (Recvmsg CtrlMsg φ)
  payloadOk : Bool
  payload : ScreenInfo
  sendOk : Bool
  deriving DecidableEq, Repr

def closeReceivedFds (fds : List φ) : List (Effect φ) := fds.map .closeFd

namespace Globals

variable (d : Globals φ)

def clearDepositedFds : Globals φ × List (Effect φ) :=
  ({ d with depositedFds := [] }, d.depositedFds.map .closeFd)

def resetProducerForScreenChange : Globals φ × List (Effect φ) :=
  match d.producer with
  | none => (d, [])
  | some p =>
    ({ d with producer := none, producerWaitingScreen := false, producerWaitingFds := false },
      [.clientFree p])

def sendScreenInfoMsg (ctrlFd : ℕ) : List (Effect φ) := [.sendScreenInfo ctrlFd d.storedScreen]

def tryDeliverFds (sendOk : Bool) : Globals φ × List (Effect φ) :=
  match d.producer with
  | none => ({ d with producerWaitingFds := true }, [])
  | some p =>
    if d.depositedFds.length < 4 then ({ d with producerWaitingFds := true }, [])
    else if !sendOk then ({ d with producerWaitingFds := true }, [])
    else
      ({ d with depositedFds := [], producerWaitingFds := false },
        .sendFds p.ctrlFd d.depositedFds ::
          (d.consumer.toList.map fun c => .sendCtrl c.ctrlFd .fdsReady) ++
            d.depositedFds.map .closeFd)

def handleDisconnect (c : Client) : Globals φ × List (Effect φ) :=
  if d.consumer = some c then ({ d with consumer := none }, [.clientFree c])
  else if d.producer = some c then
    ({ d with producer := none, producerWaitingScreen := false, producerWaitingFds := false },
      [.clientFree c])
  else (d, [])

/-- `clear_deposited_fds` and the `memcpy`, then the delivery to a waiting producer. -/
def replaceDeposit (c : Client) (fds : List φ) (sendOk : Bool) : Globals φ × List (Effect φ) :=
  let (d, closed) := d.clearDepositedFds
  let d := { d with depositedFds := fds }
  let (d, sent) := if d.producerWaitingFds then d.tryDeliverFds sendOk else (d, [])
  (d, closed ++ .deposit c fds :: sent)

/-- The `CTRL_MSG_SCREEN_INFO` branch for a well-formed message of the consumer. -/
def updateScreenInfo (si : ScreenInfo) : Globals φ × List (Effect φ) :=
  let (d, reset) :=
    if d.hasScreenInfo then
      if si ≠ d.storedScreen then { d with storedScreen := si }.resetProducerForScreenChange
      else (d, [])
    else ({ d with storedScreen := si, hasScreenInfo := true }, [])
  match d.producer with
  | some p =>
    if d.producerWaitingScreen then
      ({ d with producerWaitingScreen := false }, reset ++ d.sendScreenInfoMsg p.ctrlFd)
    else (d, reset)
  | none => (d, reset)

def handleClientData (c : Client) (i : Input φ) : Globals φ × List (Effect φ) :=
  match recvFds maxFds i.msg with
  | none => d.handleDisconnect c
  | some m =>
    if 0 < m.hdr.size ∧ (screenInfoSize < m.hdr.size ∨ i.payloadOk = false) then
      d.handleDisconnect c
    else
      match m.hdr.type with
      | .consumerHello =>
        if d.consumer = some c ∧ 3 ≤ m.fds.length then d.replaceDeposit c m.fds i.sendOk
        else (d, closeReceivedFds m.fds)
      | .screenInfo =>
        if d.consumer = some c ∧ m.hdr.size = screenInfoSize then
          let (d, effs) := d.updateScreenInfo i.payload
          (d, closeReceivedFds m.fds ++ effs)
        else (d, closeReceivedFds m.fds)
      | .pickupFds =>
        if d.producer = some c then
          let (d, effs) := d.tryDeliverFds i.sendOk
          (d, closeReceivedFds m.fds ++ effs)
        else (d, closeReceivedFds m.fds)
      | _ => (d, closeReceivedFds m.fds)

/-- `clientFd` is the connection that `accept` returned. -/
def handleNewConnection (clientFd : Option ℕ) (i : Input φ) : Globals φ × List (Effect φ) :=
  match clientFd with
  | none => (d, [])
  | some fd =>
    match recvFds maxFds i.msg with
    | none => (d, [.closeConn fd])
    | some m =>
      if m.n < ctrlMsgSize then (d, [.closeConn fd])
      else
        match m.hdr.type with
        | .consumerHello =>
          let c : Client := ⟨fd, true⟩
          let freed := d.consumer.toList.map .clientFree
          let (d, effs) := { d with consumer := some c }.replaceDeposit c m.fds i.sendOk
          (d, freed ++ effs ++ [.epollAdd c])
        | .producerHello =>
          let c : Client := ⟨fd, false⟩
          let freed := d.producer.toList.map .clientFree
          let d :=
            { d with
              producer := some c, producerWaitingScreen := false, producerWaitingFds := false }
          if d.hasScreenInfo then (d, freed ++ d.sendScreenInfoMsg fd ++ [.epollAdd c])
          else ({ d with producerWaitingScreen := true }, freed ++ [.epollAdd c])
        | _ => (d, closeReceivedFds m.fds ++ [.closeConn fd])

end Globals

/-- One entry of the array that `epoll_wait` fills: the listening socket, or a
client whose events do or do not include `EPOLLHUP | EPOLLERR`. -/
inductive Event (φ : Type*)
  | listen (accepted : Bool) (i : Input φ)
  | hangup (c : Client)
  | readable (c : Client) (i : Input φ)
  deriving DecidableEq, Repr

/-- `events[i].data.ptr` -/
def Event.client : Event φ → Option Client
  | .listen .. => none
  | .hangup c => some c
  | .readable c _ => some c

/-- The loop body of `main`. `clientFd` is the number of the next connection, for an
`accept` that succeeds. -/
def Globals.dispatch (d : Globals φ) (clientFd : ℕ) : Event φ → Globals φ × List (Effect φ)
  | .listen accepted i => d.handleNewConnection (if accepted then some clientFd else none) i
  | .hangup c => d.handleDisconnect c
  | .readable c i => d.handleClientData c i

end Daemon
end ACGlass
