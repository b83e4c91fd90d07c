import ACGlass.Producer.Requests
import ACGlass.Consumer.Latest

/-!
# What the producer has read

All deliveries go to the one producer, over its control connection. Those that it has
read come before those that it has not, and a connected producer holds the last one that
it has read.
-/

namespace ACGlass

namespace Daemon

variable {φ : Type*} {d d' : Globals φ} {effs : List (Effect φ)} {m : ℕ} {fds : List φ}

theorem Delivery.sends_to {ok : Bool} (h : Delivery d ok (d', effs))
    (hx : Effect.sendFds m fds ∈ effs) : ∃ p, d.producer = some p ∧ p.ctrlFd = m := by
  cases h with
  | deferred h => simp at hx
  | delivered p hp h =>
    have hx : m = p.ctrlFd ∧ fds = d.depositedFds := by simpa using hx
    exact ⟨p, hp, hx.1.symm⟩

theorem Deposited.sends_to {c : Client} {ok : Bool} {fds' : List φ}
    (h : Deposited d c fds' ok (d', effs)) (hx : Effect.sendFds m fds ∈ effs) :
    ∃ p, d.producer = some p ∧ p.ctrlFd = m := by
  cases h with
  | kept hw => simp at hx
  | offered hw h => exact h.sends_to (by simpa using hx)

/-- Descriptors only go to the producer that the daemon knows. -/
theorem Reaction.sends_to {fd : ℕ} {e : Event φ} (hr : Reaction d fd e (d', effs))
    (hx : Effect.sendFds m fds ∈ effs) : ∃ p, d.producer = some p ∧ p.ctrlFd = m := by
  cases hr with
  | ignored hi hclose => simpa using hclose _ hx
  | newConsumer hm hn ht hdep => exact hdep.sends_to (by simpa using hx)
  | redeposited hm hd ht hc h3 hdep => exact hdep.sends_to hx
  | pickedUp hm hd ht hp hdel => exact hdel.sends_to (by simpa using hx)
  | _ => simp at hx

end Daemon

namespace Producer

open Transition
open Daemon (deliveries)

def DownMsg.fds : DownMsg → Option (List ℕ)
  | .screen _ => none
  | .fdsReady fds => some fds

/-- The channel in the context is the one of these descriptors. -/
def Ctx.Holds (ctx : Ctx ℕ) (fds : List ℕ) : Prop :=
  ∃ e r d m rest, ctx.bufReadyEfd = some e ∧ ctx.refreshDoneEfd = some r ∧
    ctx.dataFd = some d ∧ ctx.shmFd = some m ∧ ctx.shmPtr = some m ∧
    fds = e :: r :: d :: m :: rest

namespace Joint

variable (s : Joint)

/-- The deliveries that the producer has not read. -/
def unread : List (List ℕ) := s.down.filterMap DownMsg.fds

/-- A connected producer holds the last delivery that it has read. -/
def Reads : Prop :=
  ∃ read, deliveries s.daemon.trace = read ++ s.unread ∧
    ∀ ctx ∈ s.phase.ctx, ctx.fallback = false → ∃ fds, read.getLast? = some fds ∧ ctx.Holds fds

end Joint

section Library

theorem Ctx.takeFds_holds (ctx : Ctx ℕ) {fds : List ℕ} (hfour : 4 ≤ fds.length) :
    (ctx.takeFds ⟨some (DownMsg.fdsReady fds).recvmsg, true⟩).ctx.Holds fds := by
  match fds, hfour with
  | e :: r :: d :: m :: rest, _ =>
    have htake : (ctx.takeFds ⟨some (DownMsg.fdsReady (e :: r :: d :: m :: rest)).recvmsg,
        true⟩).ctx = { ctx with
          bufReadyEfd := some e, refreshDoneEfd := some r, dataFd := some d, shmFd := some m
          shmPtr := some m, fallback := false } := by
      simp [takeFds, DownMsg.recvmsg, recvFds, ctrlMsgSize]
    rw [htake]
    exact ⟨e, r, d, m, rest, rfl, rfl, rfl, rfl, rfl, rfl⟩

/-- A producer that is connected after reading an answer holds it. -/
theorem Ctx.holds_of_takeFds (ctx : Ctx ℕ) {fds : List ℕ} (hfour : 4 ≤ fds.length)
    (hfb : ctx.fallback = true) {mmapOk : Bool}
    (h : (ctx.takeFds ⟨some (DownMsg.fdsReady fds).recvmsg, mmapOk⟩).ctx.fallback = false) :
    (ctx.takeFds ⟨some (DownMsg.fdsReady fds).recvmsg, mmapOk⟩).ctx.Holds fds := by
  cases mmapOk with
  | true => exact ctx.takeFds_holds hfour
  | false =>
    obtain ⟨-, -, -, hkept⟩ := ctx.takeFds_fdsReady hfour
    rw [hkept, hfb] at h
    cases h

theorem Ctx.holds_of_takeReconnect (ctx : Ctx ℕ) {fds : List ℕ} (hfour : 4 ≤ fds.length)
    (hfb : ctx.fallback = true) {mmapOk : Bool}
    (h : (ctx.takeReconnect ⟨some (DownMsg.fdsReady fds).recvmsg, mmapOk⟩).ctx.fallback = false) :
    (ctx.takeReconnect ⟨some (DownMsg.fdsReady fds).recvmsg, mmapOk⟩).ctx.Holds fds := by
  unfold takeReconnect at h ⊢
  dsimp only at h ⊢
  split_ifs at h ⊢
  · exact ctx.holds_of_takeFds hfour hfb h
  · exact ctx.holds_of_takeFds hfour hfb h

/-- With one producer, what is sent to it is all that is sent. -/
theorem deliveries_eq_toProducer {conn : Option ℕ} {effs : List (Daemon.Effect ℕ)}
    (h : ∀ m fds, Daemon.Effect.sendFds m fds ∈ effs → conn = some m) :
    deliveries effs = (toProducer conn effs).filterMap DownMsg.fds := by
  induction effs with
  | nil => cases conn <;> rfl
  | cons x effs ih =>
    have ih := ih fun m fds hx => h m fds (List.mem_cons_of_mem x hx)
    have hx : ∀ m fds, x = .sendFds m fds → conn = some m := by
      rintro m fds rfl
      exact h m fds List.mem_cons_self
    cases conn with
    | none =>
      have hnone : Daemon.sentFds x = none := by
        cases x with
        | sendFds m fds => exact absurd (hx m fds rfl) (by simp)
        | _ => rfl
      rw [deliveries, List.filterMap_cons_none hnone]
      exact ih
    | some n =>
      have hone : Daemon.sentFds x = (downMsgOf n x).bind DownMsg.fds := by
        cases x with
        | sendFds m fds =>
          obtain rfl : n = m := Option.some.inj (hx m fds rfl)
          simp [Daemon.sentFds, downMsgOf, DownMsg.fds]
        | sendScreenInfo m si =>
          simp only [Daemon.sentFds, downMsgOf]
          split <;> rfl
        | _ => rfl
      rw [toProducer, List.filterMap_filterMap, deliveries, List.filterMap_cons,
        List.filterMap_cons, hone, ← List.filterMap_filterMap]
      have ih : effs.filterMap Daemon.sentFds = (effs.filterMap (downMsgOf n)).filterMap _ := ih
      rw [ih]

end Library

namespace Joint

variable {s s' : Joint}

theorem reads_initial : initial.Reads := ⟨[], rfl, by simp [initial, Phase.ctx]⟩

theorem length_unread (s : Joint) : s.unread.length = s.answers := by
  unfold unread answers
  induction s.down with
  | nil => rfl
  | cons m down ih =>
    cases m with
    | screen si =>
      rw [List.filterMap_cons_none rfl, List.countP_cons_of_neg (by simp [DownMsg.isAnswer])]
      exact ih
    | fdsReady fds =>
      have hfds : (DownMsg.fdsReady fds).fds = some fds := rfl
      rw [List.filterMap_cons_some hfds, List.countP_cons_of_pos rfl, List.length_cons, ih]

/-- The daemon acts, and what it sends the producer waits to be read. -/
theorem Reads.daemonStep {e : Daemon.Event ℕ} {conn : Option ℕ} {up : List CtrlType}
    (h : s.Reads) (hothers : ∀ c, s.daemon.globals.producer = some c → conn = some c.ctrlFd)
    (hs : { s with conn, up }.daemonStep e = some s') : s'.Reads := by
  obtain ⟨-, rfl⟩ := daemonStep_eq_some.mp hs
  obtain ⟨read, hread, hheld⟩ := h
  obtain ⟨d', effs, hr, -, heffs⟩ := s.daemon.next_reaction e
  have hsends : ∀ m fds, Daemon.Effect.sendFds m fds ∈ effs → conn = some m := by
    intro m fds hx
    obtain ⟨p, hp, rfl⟩ := hr.sends_to hx
    exact hothers p hp
  refine ⟨read, ?_, hheld⟩
  change deliveries (s.daemon.trace ++ s.daemon.effects e) =
    read ++ (s.down ++ toProducer conn (s.daemon.effects e)).filterMap DownMsg.fds
  rw [Daemon.deliveries_append, hread, heffs, deliveries_eq_toProducer hsends,
    List.filterMap_append, List.append_assoc]
  rfl

/-- Another phase, in which a channel that is held was held before. -/
theorem Reads.withPhase (h : s.Reads) {phase : Phase}
    (hphase : ∀ ctx ∈ phase.ctx, ctx.fallback = false → ctx ∈ s.phase.ctx) :
    { s with phase }.Reads := by
  obtain ⟨read, hread, hheld⟩ := h
  exact ⟨read, hread, fun ctx hctx hfb => hheld ctx (hphase ctx hctx hfb) hfb⟩

theorem Reads.ask (h : s.Reads) {phase : Phase}
    (hphase : ∀ ctx ∈ phase.ctx, ctx.fallback = true) : (s.ask phase).Reads := by
  obtain ⟨read, hread, -⟩ := h
  refine ⟨read, hread, fun ctx hctx hfb => ?_⟩
  simp [hphase ctx hctx] at hfb

/-- Reading the screen leaves the deliveries as they are. -/
theorem Reads.popScreen (h : s.Reads) {si : ScreenInfo} {down : List DownMsg}
    (hdown : s.down = .screen si :: down) : { s with down }.Reads := by
  obtain ⟨read, hread, hheld⟩ := h
  refine ⟨read, ?_, hheld⟩
  rw [hread, unread, hdown]
  rfl

/-- An answer is read. -/
theorem Reads.popAnswer (h : s.Reads) {fds : List ℕ} {down : List DownMsg} {phase : Phase}
    {answered : ℕ} (hdown : s.down = .fdsReady fds :: down)
    (hphase : ∀ ctx ∈ phase.ctx, ctx.fallback = false → ctx.Holds fds) :
    { s with phase, down, answered }.Reads := by
  obtain ⟨read, hread, -⟩ := h
  refine ⟨read ++ [fds], ?_, fun ctx hctx hfb => ⟨fds, by simp, hphase ctx hctx hfb⟩⟩
  rw [hread, unread, hdown]
  simp [unread, DownMsg.fds]

theorem Inv.answer_fds (h : s.Inv) (hr : s.phase.reading = true) {m : DownMsg}
    {down : List DownMsg} (hdown : s.down = m :: down) :
    ∃ fds, m = .fdsReady fds ∧ 4 ≤ fds.length :=
  (h.stage.served hr).1.answers m (by simp [hdown])

theorem Reads.step {l : Label} (h : s.Reads) (hinv : s.Inv) (hs : s.step l = some s') :
    s'.Reads := by
  cases step_cases hs with
  | connect hphase ctrlFd =>
    obtain ⟨read, hread, -⟩ := h
    refine ⟨read, hread, ?_⟩
    rintro _ ⟨⟩ hfb
    cases hfb
  | @readScreen ctx si down hphase hdown =>
    obtain ⟨hfb, -⟩ := Stage.of_connecting (hphase ▸ hinv.stage)
    have hpop := h.popScreen hdown
    split_ifs with hopen
    · apply hpop.ask
      rintro _ ⟨⟩
      exact hfb
    · exact hpop.withPhase (by simp [Phase.ctx])
  | @pickup ctx m down hphase hdown mmapOk =>
    have hr : s.phase.reading = true := by rw [hphase]; rfl
    obtain ⟨fds, rfl, hfour⟩ := hinv.answer_fds hr hdown
    have hfb := (hinv.stage.served hr).2.1 ctx (by rw [hphase]; rfl)
    refine h.popAnswer hdown fun ctx' hctx' hfb' => ?_
    split_ifs at hctx' with hret
    · cases hctx'
    · obtain rfl := Option.some.inj hctx'
      exact ctx.holds_of_takeFds hfour hfb hfb'
  | fail hopen => exact h.withPhase (by simp [Phase.ctx])
  | @enterFallback ctx hphase =>
    apply h.withPhase
    rintro _ ⟨⟩ hfb
    rw [ctx.enterFallback_fallback] at hfb
    cases hfb
  | @request ctx hphase hfb =>
    split_ifs with hopen
    · apply h.ask
      rintro _ ⟨⟩
      exact hfb
    · exact h
  | @answer ctx m down hphase hdown mmapOk =>
    have hr : s.phase.reading = true := by rw [hphase]; rfl
    obtain ⟨fds, rfl, hfour⟩ := hinv.answer_fds hr hdown
    have hfb := (hinv.stage.served hr).2.1 ctx (by rw [hphase]; rfl)
    refine h.popAnswer hdown ?_
    rintro _ ⟨⟩ hfb'
    exact ctx.holds_of_takeReconnect hfour hfb hfb'
  | giveUp hphase => exact h.withPhase fun ctx hctx _ => by rw [hphase]; exact hctx
  | disconnect hphase => exact h.withPhase (by simp [Phase.ctx])
  | accept hconn hup hs =>
    refine h.daemonStep (fun c hc => ?_) hs
    simp [hinv.producer_eq_none hconn] at hc
  | read hconn hup hs => exact h.daemonStep hinv.others hs
  | drop hconn hs => exact h.daemonStep hinv.others hs
  | consumer he hs => exact h.daemonStep hinv.others hs

end Joint

end Producer
end ACGlass
