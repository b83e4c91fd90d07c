import ACGlass.Producer.Library
import ACGlass.Daemon.World

/-!
# A producer and the daemon

One producer context and the daemon over a FIFO control connection. Consumers take
part through the events of their connections, which may come at any time. What the
producer sends waits in `up` until the daemon reads it, and what it is sent waits in
`down`. The calls that wait for the daemon, `connect_to_deamon` and `try_reconnect`,
are split where they wait.
-/

namespace ACGlass
namespace Producer

open Transition

inductive DownMsg
  | screen (si : ScreenInfo)
  | fdsReady (fds : List ℕ)
  deriving DecidableEq, Repr

def DownMsg.isAnswer : DownMsg → Bool
  | .screen _ => false
  | .fdsReady _ => true

/-- The message as `recv_fds` reads it. -/
def DownMsg.recvmsg : DownMsg → Recvmsg CtrlMsg ℕ
  | .screen _ => ⟨ctrlMsgSize, ⟨.screenInfo, screenInfoSize⟩, []⟩
  | .fdsReady fds => ⟨ctrlMsgSize, ⟨.fdsReady, 0⟩, fds⟩

/-- What is sent on connection `n`. -/
def downMsgOf (n : ℕ) : Daemon.Effect ℕ → Option DownMsg
  | .sendScreenInfo m si => if m = n then some (.screen si) else none
  | .sendFds m fds => if m = n then some (.fdsReady fds) else none
  | _ => none

def toProducer (conn : Option ℕ) (effs : List (Daemon.Effect ℕ)) : List DownMsg :=
  match conn with
  | none => []
  | some n => effs.filterMap (downMsgOf n)

/-- Events of connections that are not a producer's. -/
def ofConsumer {φ : Type*} : Daemon.Event φ → Bool
  | .listen _ i =>
    match recvFds Daemon.maxFds i.msg with
    | some m => m.hdr.type ≠ .producerHello
    | none => true
  | .hangup c | .readable c _ => c.isConsumer

/-- Where the producer is: `connecting` and `pickingUp` are the two reads of
`connect_to_deamon`, `reconnecting` is the wait of `try_reconnect`. -/
inductive Phase
  | absent
  | connecting (ctx : Ctx ℕ)
  | pickingUp (ctx : Ctx ℕ)
  | idle (ctx : Ctx ℕ)
  | reconnecting (ctx : Ctx ℕ)
  | gone
  deriving DecidableEq, Repr

def Phase.ctx : Phase → Option (Ctx ℕ)
  | .absent | .gone => none
  | .connecting ctx | .pickingUp ctx | .idle ctx | .reconnecting ctx => some ctx

/-- The producer has sent `PICKUP_FDS` and waits for the answer. -/
def Phase.reading : Phase → Bool
  | .pickingUp _ | .reconnecting _ => true
  | _ => false

/-- `asked` and `answered` count the `PICKUP_FDS` sent and the answers read;
`overlapped` records that one was sent while an earlier one had no answer. -/
structure Joint where
  daemon : Daemon.World ℕ
  phase : Phase
  conn : Option ℕ
  up : List CtrlType
  down : List DownMsg
  asked : ℕ
  answered : ℕ
  overlapped : Bool
  deriving DecidableEq, Repr

/-- `accept`, `read` and `drop` are the daemon's on this connection. `giveUp` is `poll`
in `try_reconnect` returning without a message, `fail` the end of file in
`connect_to_deamon`. -/
inductive Label
  | connect (ctrlFd : ℕ)
  | readScreen
  | pickup (mmapOk : Bool)
  | fail
  | enterFallback
  | request
  | answer (mmapOk : Bool)
  | giveUp
  | disconnect
  | accept (readOk : Bool)
  | read (sendOk : Bool)
  | drop
  | consumer (e : Daemon.Event ℕ)
  deriving DecidableEq, Repr

/-- A first message that cannot be read. -/
def unreadable : Daemon.Input ℕ where
  msg := none
  payloadOk := true
  payload := ⟨0, 0, 0, 0⟩
  sendOk := true

namespace Joint

variable (s : Joint)

def initial : Joint where
  daemon := .initial
  phase := .absent
  conn := none
  up := []
  down := []
  asked := 0
  answered := 0
  overlapped := false

/-- The daemon's producer is connection `n`. -/
def Linked (n : ℕ) : Prop := s.daemon.globals.producer = some ⟨n, false⟩

instance (n : ℕ) : Decidable (s.Linked n) := inferInstanceAs (Decidable (_ = _))

/-- The daemon has not closed the connection, so that a send succeeds. -/
def Open : Prop := ∀ n ∈ s.conn, s.Linked n

instance : Decidable s.Open := inferInstanceAs (Decidable (∀ n ∈ s.conn, s.Linked n))

def daemonStep (e : Daemon.Event ℕ) : Option Joint :=
  (s.daemon.step e).map fun daemon =>
    { s with daemon, down := s.down ++ toProducer s.conn (s.daemon.effects e) }

/-- A `PICKUP_FDS` is sent. -/
def ask (phase : Phase) : Joint :=
  { s with
    phase, up := s.up ++ [.pickupFds], asked := s.asked + 1
    overlapped := s.overlapped || s.asked ≠ s.answered }

def step : Label → Option Joint
  | .connect ctrlFd =>
    match s.phase with
    | .absent => some { s with phase := .connecting (.fresh ctrlFd), up := [.producerHello] }
    | _ => none
  | .readScreen =>
    match s.phase, s.down with
    | .connecting ctx, .screen si :: down =>
      let s := { s with down }
      some (if s.Open then s.ask (.pickingUp (ctx.setScreen si)) else { s with phase := .gone })
    | _, _ => none
  | .pickup mmapOk =>
    match s.phase, s.down with
    | .pickingUp ctx, m :: down =>
      let out := ctx.takeFds ⟨some m.recvmsg, mmapOk⟩
      some { s with
        phase := if out.ret < 0 then .gone else .idle out.ctx, down, answered := s.answered + 1 }
    | _, _ => none
  | .fail =>
    match s.phase, s.down with
    | .connecting _, [] | .pickingUp _, [] =>
      if s.Open then none else some { s with phase := .gone }
    | _, _ => none
  | .enterFallback =>
    match s.phase with
    | .idle ctx => some { s with phase := .idle ctx.enterFallback.1 }
    | _ => none
  | .request =>
    match s.phase with
    | .idle ctx =>
      if ctx.fallback then some (if s.Open then s.ask (.reconnecting ctx) else s) else none
    | _ => none
  | .answer mmapOk =>
    match s.phase, s.down with
    | .reconnecting ctx, m :: down =>
      let out := ctx.takeReconnect ⟨some m.recvmsg, mmapOk⟩
      some { s with phase := .idle out.ctx, down, answered := s.answered + 1 }
    | _, _ => none
  | .giveUp =>
    match s.phase with
    | .reconnecting ctx => some { s with phase := .idle ctx }
    | _ => none
  | .disconnect =>
    match s.phase with
    | .idle _ => some { s with phase := .gone }
    | _ => none
  | .accept readOk =>
    match s.conn, s.up with
    | none, .producerHello :: up =>
      { s with conn := some s.daemon.accepted, up }.daemonStep
        (.listen true (if readOk then .ofType .producerHello [] else unreadable))
    | _, _ => none
  | .read sendOk =>
    match s.conn, s.up with
    | some n, t :: up =>
      { s with up }.daemonStep (.readable ⟨n, false⟩ { Daemon.Input.ofType t [] with sendOk })
    | _, _ => none
  | .drop => s.conn.bind fun n => s.daemonStep (.hangup ⟨n, false⟩)
  | .consumer e => if ofConsumer e then s.daemonStep e else none

/-- What a step does, with what has to hold before it. -/
inductive Step (s : Joint) : Label → Joint → Prop
  | connect (hphase : s.phase = .absent) (ctrlFd : ℕ) :
    Step s (.connect ctrlFd)
      { s with phase := .connecting (.fresh ctrlFd), up := [.producerHello] }
  | readScreen {ctx si down} (hphase : s.phase = .connecting ctx)
      (hdown : s.down = .screen si :: down) :
    Step s .readScreen
      (if { s with down }.Open then { s with down }.ask (.pickingUp (ctx.setScreen si))
        else { s with down, phase := .gone })
  | pickup {ctx m down} (hphase : s.phase = .pickingUp ctx) (hdown : s.down = m :: down)
      (mmapOk : Bool) :
    Step s (.pickup mmapOk) { s with
      phase := if (ctx.takeFds ⟨some m.recvmsg, mmapOk⟩).ret < 0 then .gone
        else .idle (ctx.takeFds ⟨some m.recvmsg, mmapOk⟩).ctx
      down, answered := s.answered + 1 }
  | fail (hopen : ¬ s.Open) : Step s .fail { s with phase := .gone }
  | enterFallback {ctx} (hphase : s.phase = .idle ctx) :
    Step s .enterFallback { s with phase := .idle ctx.enterFallback.1 }
  | request {ctx} (hphase : s.phase = .idle ctx) (hfb : ctx.fallback = true) :
    Step s .request (if s.Open then s.ask (.reconnecting ctx) else s)
  | answer {ctx m down} (hphase : s.phase = .reconnecting ctx) (hdown : s.down = m :: down)
      (mmapOk : Bool) :
    Step s (.answer mmapOk) { s with
      phase := .idle (ctx.takeReconnect ⟨some m.recvmsg, mmapOk⟩).ctx
      down, answered := s.answered + 1 }
  | giveUp {ctx} (hphase : s.phase = .reconnecting ctx) :
    Step s .giveUp { s with phase := .idle ctx }
  | disconnect {ctx} (hphase : s.phase = .idle ctx) : Step s .disconnect { s with phase := .gone }
  | accept {s' up} {readOk : Bool} (hconn : s.conn = none) (hup : s.up = .producerHello :: up)
      (hs : { s with conn := some s.daemon.accepted, up }.daemonStep
        (.listen true (if readOk then .ofType .producerHello [] else unreadable)) = some s') :
    Step s (.accept readOk) s'
  | read {s' n t up} {sendOk : Bool} (hconn : s.conn = some n) (hup : s.up = t :: up)
      (hs : { s with up }.daemonStep
        (.readable ⟨n, false⟩ { Daemon.Input.ofType t [] with sendOk }) = some s') :
    Step s (.read sendOk) s'
  | drop {s' n} (hconn : s.conn = some n) (hs : s.daemonStep (.hangup ⟨n, false⟩) = some s') :
    Step s .drop s'
  | consumer {s' e} (he : ofConsumer e = true) (hs : s.daemonStep e = some s') :
    Step s (.consumer e) s'

theorem step_cases {s s' : Joint} {l : Label} (hs : s.step l = some s') : Step s l s' := by
  cases l with
  | connect ctrlFd =>
    simp only [step] at hs
    split at hs
    · cases hs
      exact .connect ‹_› ctrlFd
    · cases hs
  | readScreen =>
    simp only [step] at hs
    split at hs
    · cases hs
      exact .readScreen ‹_› ‹_›
    · cases hs
  | pickup mmapOk =>
    simp only [step] at hs
    split at hs
    · cases hs
      exact .pickup ‹_› ‹_› mmapOk
    · cases hs
  | fail =>
    simp only [step] at hs
    split at hs
    · split_ifs at hs with hopen
      cases hs
      exact .fail hopen
    · split_ifs at hs with hopen
      cases hs
      exact .fail hopen
    · cases hs
  | enterFallback =>
    simp only [step] at hs
    split at hs
    · cases hs
      exact .enterFallback ‹_›
    · cases hs
  | request =>
    simp only [step] at hs
    split at hs
    · rename_i ctx hphase
      by_cases hfb : ctx.fallback = true
      · rw [if_pos hfb] at hs
        cases hs
        exact .request hphase hfb
      · rw [if_neg hfb] at hs
        cases hs
    · cases hs
  | answer mmapOk =>
    simp only [step] at hs
    split at hs
    · cases hs
      exact .answer ‹_› ‹_› mmapOk
    · cases hs
  | giveUp =>
    simp only [step] at hs
    split at hs
    · cases hs
      exact .giveUp ‹_›
    · cases hs
  | disconnect =>
    simp only [step] at hs
    split at hs
    · cases hs
      exact .disconnect ‹_›
    · cases hs
  | accept readOk =>
    simp only [step] at hs
    split at hs
    · exact .accept ‹_› ‹_› hs
    · cases hs
  | read sendOk =>
    simp only [step] at hs
    split at hs
    · exact .read ‹_› ‹_› hs
    · cases hs
  | drop =>
    obtain ⟨n, hconn, hs⟩ := Option.bind_eq_some_iff.mp hs
    exact .drop hconn hs
  | consumer e =>
    simp only [step] at hs
    split_ifs at hs with he
    exact .consumer he hs

end Joint

end Producer
end ACGlass
