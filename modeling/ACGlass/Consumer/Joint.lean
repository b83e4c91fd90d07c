import ACGlass.Consumer.Channel
import ACGlass.Daemon.Handover

/-!
# A consumer and the daemon

One consumer context and the daemon over a FIFO control connection, among any other
connections, none of which is a consumer's. What the consumer sends waits in `up`
until the daemon reads it; an `FDS_READY` waits in `down` until the consumer reads
it. The label of a step says who acts and what the system calls return.
-/

namespace ACGlass
namespace Consumer

open Transition

inductive UpMsg
  | hello (fds : List ℕ)
  | screen (si : ScreenInfo)
  deriving DecidableEq, Repr

/-- The message as the daemon reads it. -/
def UpMsg.input (sendOk : Bool) : UpMsg → Daemon.Input ℕ
  | .hello fds => { Daemon.Input.ofType .consumerHello fds with sendOk }
  | .screen si => { Daemon.Input.ofScreen si with sendOk }

def UpMsg.fds : UpMsg → Option (List ℕ)
  | .hello fds => some fds
  | .screen _ => none

/-- What a call sends on the control connection. -/
def upMsgOf : Effect ℕ → Option UpMsg
  | .sendHello fds => some (.hello fds)
  | .sendScreenInfo si => some (.screen si)
  | _ => none

/-- An `FDS_READY` in `down` carries, for the proofs only, the deposit whose delivery
it announces. -/
structure Joint where
  daemon : Daemon.World ℕ
  ctx : Option (Ctx ℕ)
  started : Bool
  conn : Option ℕ
  up : List UpMsg
  down : List (List ℕ)
  nextFd : ℕ
  deriving DecidableEq, Repr

/-- The deliveries that the daemon announces on connection `conn`. -/
def notices (conn : Option ℕ) (effs : List (Daemon.Effect ℕ)) : List (List ℕ) :=
  match conn with
  | none => []
  | some n => if .sendCtrl n .fdsReady ∈ effs then effs.filterMap Daemon.sentFds else []

/-- Events of connections that are not the consumer's. -/
def ofProducer {φ : Type*} : Daemon.Event φ → Bool
  | .listen _ i =>
    match recvFds Daemon.maxFds i.msg with
    | some m => m.hdr.type ≠ .consumerHello
    | none => true
  | .hangup c | .readable c _ => !c.isConsumer

/-- `accept` and `read`: the daemon takes the consumer's next message. `drop`: it gives
the connection up. `other`: it handles another connection. -/
inductive Label
  | connect (ctrlFd : Option ℕ) (calls : FallbackCalls ℕ)
  | call (op : Op ℕ)
  | disconnect
  | accept (sendOk : Bool)
  | read (sendOk : Bool)
  | drop
  | other (e : Daemon.Event ℕ)
  deriving DecidableEq, Repr

namespace Joint

variable (s : Joint)

def initial : Joint where
  daemon := .initial
  ctx := none
  started := false
  conn := none
  up := []
  down := []
  nextFd := 0

/-- The first message on the consumer's control connection. -/
def msg : Option CtrlType := s.down.head?.map fun _ => .fdsReady

def daemonStep (e : Daemon.Event ℕ) : Option Joint :=
  (s.daemon.step e).map fun daemon =>
    { s with daemon, down := s.down ++ notices s.conn (s.daemon.effects e) }

/-- The descriptors of a fallback are new. -/
def Fresh (op : Op ℕ) : Prop := ∀ calls ∈ op.fallbackCalls, calls.From s.nextFd

instance (op : Op ℕ) : Decidable (s.Fresh op) :=
  match h : op.fallbackCalls with
  | none => isTrue (by simp [Fresh, h])
  | some calls => decidable_of_iff (calls.From s.nextFd) (by simp [Fresh, h])

def step : Label → Option Joint
  | .connect ctrlFd calls =>
    if s.started = false ∧ calls.From s.nextFd then
      let (ctx, effs) := connectToDeamon ctrlFd calls
      some { s with
        ctx, started := ctx.isSome, up := effs.filterMap upMsgOf, nextFd := s.nextFd + 5 }
    else none
  | .call op =>
    s.ctx.bind fun ctx =>
      if s.Fresh op ∧ (op.reads ctx = true → s.down ≠ []) then
        (op.run s.msg ctx).map fun out =>
          { s with
            ctx := some out.ctx, up := s.up ++ out.effs.filterMap upMsgOf
            down := if op.reads ctx then s.down.tail else s.down, nextFd := s.nextFd + 5 }
      else none
  | .disconnect => s.ctx.map fun _ => { s with ctx := none }
  | .accept sendOk =>
    match s.started, s.conn, s.up with
    | true, none, m :: up =>
      { s with conn := some s.daemon.accepted, up }.daemonStep (.listen true (m.input sendOk))
    | _, _, _ => none
  | .read sendOk =>
    match s.conn, s.up with
    | some n, m :: up => { s with up }.daemonStep (.readable ⟨n, true⟩ (m.input sendOk))
    | _, _ => none
  | .drop => s.conn.bind fun n => s.daemonStep (.hangup ⟨n, true⟩)
  | .other e => if ofProducer e then s.daemonStep e else none

end Joint

end Consumer
end ACGlass
