import ACGlass.Producer.Requests

/-!
# The way out of fallback

A producer in fallback finds back to a channel exactly when it can still reach the
daemon: `try_reconnect` asks on the connection that `connect_to_deamon` opened and
opens no other.
-/

namespace ACGlass
namespace Producer

open Transition
open Daemon (Globals Client Delivery Deposited)

namespace Joint

variable (s : Joint)

/-- The context holds a channel. -/
def Connected : Prop := ∃ ctx ∈ s.phase.ctx, ctx.fallback = false

/-- The context is in fallback, and there is a consumer. -/
def WaitsForConsumer : Prop :=
  (∃ ctx ∈ s.phase.ctx, ctx.fallback = true) ∧ s.daemon.globals.consumer.isSome

/-- Some continuation ends the fallback. -/
def Recovers : Prop := ∃ t, Reaches Joint.step s t ∧ t.Connected

/-- The daemon has the producer's connection, or an answer that it sent before it closed
the connection has not been read yet. -/
def InTouch : Prop := s.Open ∨ s.phase.reading = true ∧ s.down ≠ []

instance : Decidable s.WaitsForConsumer :=
  inferInstanceAs (Decidable ((∃ ctx ∈ s.phase.ctx, ctx.fallback = true) ∧ _))

instance : Decidable s.InTouch := inferInstanceAs (Decidable (_ ∨ _))

end Joint

/-- A deposit that a consumer can make. -/
def fourFds : List ℕ := [0, 1, 2, 3]

section Dispatch

variable {d d' : Globals ℕ} {n : ℕ} {effs : List (Daemon.Effect ℕ)}

/-- The linked producer gets a complete deposit. -/
theorem filterMap_delivered (hd : Delivery d true (d', effs))
    (hlinked : d.producer = some ⟨n, false⟩) (hfour : 4 ≤ d.depositedFds.length) :
    effs.filterMap (downMsgOf n) = [.fdsReady d.depositedFds] := by
  cases hd with
  | deferred hno => exact absurd ⟨by simp [hlinked], hfour, rfl⟩ hno
  | delivered p hp hyes =>
    obtain rfl : p = ⟨n, false⟩ := Option.some.inj (hp.symm.trans hlinked)
    exact filterMap_handover d n

/-- A consumer connects anew, with a complete deposit. -/
def helloEvent : Daemon.Event ℕ := .listen true (.ofType .consumerHello fourFds)

theorem dispatch_helloEvent (d : Globals ℕ) (fd : ℕ) :
    ∃ d' effs, Deposited { d with consumer := some ⟨fd, true⟩ } ⟨fd, true⟩ fourFds true (d', effs) ∧
      d.dispatch fd helloEvent =
        (d', d.consumer.toList.map .clientFree ++ effs ++ [.epollAdd ⟨fd, true⟩]) := by
  have hdep := Globals.replaceDeposit_deposited { d with consumer := some ⟨fd, true⟩ } ⟨fd, true⟩
    fourFds true
  exact ⟨_, _, hdep, rfl⟩

/-- The new deposit goes to a producer that waits for it, or waits for the producer. -/
theorem dispatch_helloEvent_linked (fd : ℕ) (hlinked : d.producer = some ⟨n, false⟩) :
    (d.dispatch fd helloEvent).1.consumer = some ⟨fd, true⟩ ∧
      (d.dispatch fd helloEvent).1.producer = some ⟨n, false⟩ ∧
      ((d.dispatch fd helloEvent).2.filterMap (downMsgOf n) = [.fdsReady fourFds] ∨
        (d.dispatch fd helloEvent).2.filterMap (downMsgOf n) = [] ∧
          (d.dispatch fd helloEvent).1.depositedFds = fourFds ∧
          (d.dispatch fd helloEvent).1.producerWaitingFds = false) := by
  obtain ⟨d', effs, hdep, heq⟩ := dispatch_helloEvent d fd
  have hf := hdep.frame
  have hmsgs : (d.consumer.toList.map Daemon.Effect.clientFree ++ effs ++
      [Daemon.Effect.epollAdd ⟨fd, true⟩]).filterMap (downMsgOf n) =
        effs.filterMap (downMsgOf n) := by
    have hadd : [Daemon.Effect.epollAdd ⟨fd, true⟩].filterMap (downMsgOf n) = [] := rfl
    rw [List.filterMap_append, List.filterMap_append, hadd, List.append_nil,
      filterMap_downMsgOf_of_kind (by simp), List.nil_append]
  rw [heq]
  refine ⟨hf.consumer, hf.producer.trans hlinked, ?_⟩
  rw [hmsgs]
  cases hdep with
  | kept hw => exact .inr ⟨filterMap_downMsgOf_of_kind (by simp [or_imp, forall_and]), rfl, hw⟩
  | offered hw hdel =>
    rw [List.append_cons, List.filterMap_append,
      filterMap_downMsgOf_of_kind (by simp [or_imp, forall_and]), List.nil_append]
    exact .inl (filterMap_delivered hdel hlinked le_rfl)

/-- A consumer announces its screen. -/
def screenEvent (m : ℕ) : Daemon.Event ℕ := .readable ⟨m, true⟩ (.ofScreen ⟨1080, 2400, 1, 60⟩)

/-- The first screen goes to the producer that waits for it. -/
theorem dispatch_screenEvent {m : ℕ} (fd : ℕ) (hc : d.consumer = some ⟨m, true⟩)
    (hlinked : d.producer = some ⟨n, false⟩) (hw : d.producerWaitingScreen = true)
    (hno : d.hasScreenInfo = false) :
    (d.dispatch fd (screenEvent m)).2 = [.sendScreenInfo n ⟨1080, 2400, 1, 60⟩] ∧
      (d.dispatch fd (screenEvent m)).1.producer = some ⟨n, false⟩ := by
  simp [Globals.dispatch, Globals.handleClientData, screenEvent, Daemon.Input.ofScreen, recvFds,
    ctrlMsgSize, screenInfoSize, Globals.updateScreenInfo, Globals.sendScreenInfoMsg,
    Daemon.closeReceivedFds, hc, hlinked, hw, hno]

end Dispatch

namespace Joint

variable {s s' : Joint} {n : ℕ}

section DeadEnd

/-- The daemon has closed connection `n`, and nothing from it is left to read. -/
structure Dead (s : Joint) (n : ℕ) : Prop where
  conn : s.conn = some n
  apart : ¬ s.Linked n
  drained : s.phase.reading = true → s.down = []
  fallback : ∀ ctx ∈ s.phase.ctx, ctx.fallback = true

theorem Dead.not_open (h : s.Dead n) : ¬ s.Open := fun hopen => h.apart (hopen n h.conn)

/-- Another phase in which nothing is read. -/
theorem Dead.withPhase (h : s.Dead n) {phase : Phase} {down : List DownMsg}
    (hr : phase.reading = false) (hfb : ∀ ctx ∈ phase.ctx, ctx.fallback = true) :
    { s with phase, down }.Dead n :=
  ⟨h.conn, h.apart, fun hr' => by simp [hr] at hr', hfb⟩

/-- An event of the daemon brings nothing and does not bring the connection back. -/
theorem Dead.link (h : s.Dead n) {w : Daemon.World ℕ} {msgs : List DownMsg}
    (hl : Link n s.daemon.globals w.globals msgs) :
    { s with daemon := w, down := s.down ++ msgs }.Dead n := by
  refine ⟨h.conn, fun hlinked => h.apart (hl.linked hlinked), ?_, h.fallback⟩
  intro hr
  cases hl with
  | apart => simpa using h.drained hr
  | quiet hlinked | informed _ hlinked | delivered _ hlinked => exact absurd hlinked h.apart

theorem Dead.step {l : Label} (h : s.Dead n) (hinv : s.Inv) (hs : s.step l = some s') :
    s'.Dead n := by
  have hread : ∀ m down, s.phase.reading = true → s.down ≠ m :: down := by
    intro m down hr hdown
    simp [h.drained hr] at hdown
  cases step_cases hs with
  | connect hphase ctrlFd =>
    have hstage := hinv.stage
    rw [hphase] at hstage
    cases hstage with
    | absent hconn => simp [h.conn] at hconn
    | reading hr => cases hr
  | @readScreen ctx si down hphase hdown =>
    have hno : ¬ { s with down }.Open := h.not_open
    rw [if_neg hno]
    exact h.withPhase rfl (by simp [Phase.ctx])
  | pickup hphase hdown mmapOk => exact absurd hdown (hread _ _ (by simp [hphase, Phase.reading]))
  | fail hopen => exact h.withPhase rfl (by simp [Phase.ctx])
  | enterFallback hphase =>
    exact h.withPhase rfl (by simp [Phase.ctx, Ctx.enterFallback_fallback])
  | request hphase hfb =>
    rw [if_neg h.not_open]
    exact h
  | answer hphase hdown mmapOk => exact absurd hdown (hread _ _ (by simp [hphase, Phase.reading]))
  | giveUp hphase =>
    refine h.withPhase rfl ?_
    have hfallback := h.fallback
    simpa [hphase, Phase.ctx] using hfallback
  | disconnect hphase => exact h.withPhase rfl (by simp [Phase.ctx])
  | accept hconn hup hs => simp [h.conn] at hconn
  | @read s' m t up sendOk hconn hup hs =>
    obtain rfl : m = n := Option.some.inj (hconn.symm.trans h.conn)
    obtain ⟨henabled, -⟩ := daemonStep_eq_some.mp hs
    obtain rfl : t = .pickupFds := hinv.requests (by simp [hconn]) t (by simp [hup])
    exact absurd (hinv.linked_of_enabled henabled) h.apart
  | @drop s' m hconn hs =>
    obtain rfl : m = n := Option.some.inj (hconn.symm.trans h.conn)
    obtain ⟨-, rfl⟩ := daemonStep_eq_some.mp hs
    rw [toProducer_of_conn hconn]
    apply h.link
    apply link_hangup
    intro hc
    simpa using hinv.daemon.consumer_role _ hc
  | @consumer s' e he hs =>
    obtain ⟨-, rfl⟩ := daemonStep_eq_some.mp hs
    obtain ⟨d', effs, hr, hd, heffs⟩ := s.daemon.next_reaction e
    rw [toProducer_of_conn h.conn, heffs]
    apply h.link
    exact hd ▸ link_reaction hr hinv.daemon.producer_role he

theorem Dead.not_recovers (h : s.Dead n) (hinv : s.Inv) : ¬ s.Recovers := by
  rintro ⟨t, hreach, ctx, hctx, hfb⟩
  have hkept : t.Inv ∧ t.Dead n :=
    hreach.invariant (I := fun s => s.Inv ∧ s.Dead n)
      (fun _ _ _ hi hs => ⟨hi.1.step hs, hi.2.step hi.1 hs⟩) ⟨hinv, h⟩
  simp [hkept.2.fallback ctx hctx] at hfb

theorem exists_dead (hlost : ¬ s.InTouch) (hfb : ∀ ctx ∈ s.phase.ctx, ctx.fallback = true) :
    ∃ n, s.Dead n := by
  obtain ⟨hopen, hdown⟩ := not_or.mp hlost
  obtain ⟨n, hconn⟩ := Option.isSome_iff_exists.mp (conn_of_not_open hopen)
  refine ⟨n, hconn, ?_, ?_, hfb⟩
  · intro hlinked
    refine hopen fun m hm => ?_
    obtain rfl : m = n := Option.some.inj (hm.symm.trans hconn)
    exact hlinked
  · intro hr
    by_contra hne
    exact hdown ⟨hr, hne⟩

end DeadEnd

section WayOut

theorem Recovers.of_step {l : Label} (hs : s.step l = some s') (h : s'.Recovers) :
    s.Recovers := by
  obtain ⟨t, hreach, ht⟩ := h
  exact ⟨t, (Reaches.single hs).trans hreach, ht⟩

/-- An answer is there to be read. -/
theorem Inv.recovers_of_down (h : s.Inv) (hr : s.phase.reading = true) (hdown : s.down ≠ []) :
    s.Recovers := by
  obtain ⟨m, down, hdown⟩ := List.exists_cons_of_ne_nil hdown
  obtain ⟨hserved, -⟩ := h.stage.served hr
  obtain ⟨fds, rfl, hfour⟩ := hserved.answers m (by simp [hdown])
  cases hphase : s.phase with
  | pickingUp ctx =>
    obtain ⟨hret, hfb, -⟩ := ctx.takeFds_fdsReady hfour
    have hs : s.step (.pickup true) = some { s with
        phase := .idle (ctx.takeFds ⟨some (DownMsg.fdsReady fds).recvmsg, true⟩).ctx, down
        answered := s.answered + 1 } := by
      simp [Joint.step, hphase, hdown, hret]
    exact ⟨_, Reaches.single hs, _, rfl, hfb⟩
  | reconnecting ctx =>
    obtain ⟨hret, hfb, -⟩ := ctx.takeFds_fdsReady hfour
    have hs : s.step (.answer true) = some { s with
        phase := .idle (ctx.takeReconnect ⟨some (DownMsg.fdsReady fds).recvmsg, true⟩).ctx, down
        answered := s.answered + 1 } := by
      simp [Joint.step, hphase, hdown]
    refine ⟨_, Reaches.single hs, _, rfl, ?_⟩
    rw [Ctx.takeReconnect, if_neg (by simp [hret])]
    exact hfb
  | absent | connecting | idle | gone => simp [hphase, Phase.reading] at hr

/-- The request is on its way, and a deposit is there. -/
theorem Inv.recovers_of_deposit (h : s.Inv) (hr : s.phase.reading = true)
    (hconn : s.conn = some n) (hlinked : s.Linked n) (hup : s.up ≠ [])
    (hfour : 4 ≤ s.daemon.globals.depositedFds.length) : s.Recovers := by
  obtain ⟨t, up, hup⟩ := List.exists_cons_of_ne_nil hup
  obtain rfl : t = .pickupFds := h.requests (by simp [hconn]) t (by simp [hup])
  have henabled : s.daemon.Enabled (pickupEvent n true) := by
    rintro c ⟨⟩
    exact (h.daemon.live_iff _).mpr (.inr hlinked)
  have hs : s.step (.read true) = some { s with
      up, daemon := s.daemon.next (pickupEvent n true)
      down := s.down ++ toProducer s.conn (s.daemon.effects (pickupEvent n true)) } := by
    have hread : s.step (.read true) = { s with up }.daemonStep (pickupEvent n true) := by
      simp only [Joint.step, hconn, hup]
      rfl
    rw [hread]
    exact daemonStep_eq_some.mpr ⟨henabled, rfl⟩
  refine Recovers.of_step hs ((h.step hs).recovers_of_down hr ?_)
  have hmsgs := filterMap_delivered (h.delivery_of_pickup henabled) hlinked hfour
  rw [toProducer_of_conn hconn, hmsgs]
  simp

/-- A consumer's hello as a step. -/
theorem step_hello (s : Joint) :
    s.step (.consumer helloEvent) = some { s with
      daemon := s.daemon.next helloEvent
      down := s.down ++ toProducer s.conn (s.daemon.effects helloEvent) } := by
  have he : ofConsumer helloEvent = true := by decide
  simp only [Joint.step, he, if_true]
  exact daemonStep_eq_some.mpr ⟨fun c hc => (by cases hc), rfl⟩

/-- With the request on its way or remembered, a deposit is all that is missing. -/
theorem Inv.recovers_of_reading (h : s.Inv) (hr : s.phase.reading = true)
    (hconn : s.conn = some n) (hlinked : s.Linked n) : s.Recovers := by
  by_cases hdown : s.down = []
  swap
  · exact h.recovers_of_down hr hdown
  have hhello := step_hello s
  have h₁ := h.step hhello
  obtain ⟨-, hlinked₁, hmsgs⟩ := dispatch_helloEvent_linked s.daemon.accepted hlinked
  refine Recovers.of_step hhello ?_
  rcases hmsgs with hmsgs | ⟨hmsgs, hfds, hw⟩
  · refine h₁.recovers_of_down hr ?_
    change s.down ++ toProducer s.conn (s.daemon.globals.dispatch _ helloEvent).2 ≠ []
    rw [toProducer_of_conn hconn, hmsgs]
    simp
  -- nothing is remembered, so that the request has not been read yet
  · have hdown₁ : s.down ++ toProducer s.conn (s.daemon.effects helloEvent) = [] := by
      rw [toProducer_of_conn hconn, hdown]
      exact hmsgs
    rw [hdown₁] at h₁ ⊢
    obtain ⟨-, -, hout⟩ := h₁.stage.served hr
    have hcount := hout n hconn hlinked₁
    have hwaits := waits_of_conn
      (s := { s with daemon := s.daemon.next helloEvent, down := [] }) hconn
    rw [if_neg (fun hboth => by simpa [hw] using hboth.2.symm.trans hw)] at hwaits
    refine h₁.recovers_of_deposit hr hconn hlinked₁ ?_ ?_
    · intro hup
      have hup : s.up = [] := hup
      rw [outstanding, hwaits] at hcount
      change 1 ≤ s.up.count CtrlType.pickupFds + 0 + 0 at hcount
      simp [hup] at hcount
    · exact le_of_eq (congrArg List.length hfds).symm

theorem Inv.recovers_of_idle (h : s.Inv) {ctx : Ctx ℕ} (hphase : s.phase = .idle ctx)
    (hfb : ctx.fallback = true) (hopen : s.Open) : s.Recovers := by
  obtain ⟨hserved, -⟩ := Stage.of_idle (hphase ▸ h.stage)
  obtain ⟨n, hconn⟩ := Option.isSome_iff_exists.mp hserved.conn
  have hs : s.step .request = some (s.ask (.reconnecting ctx)) := by
    simp only [Joint.step, hphase]
    rw [if_pos hfb, if_pos hopen]
  exact Recovers.of_step hs ((h.step hs).recovers_of_reading rfl hconn (hopen n hconn))

/-- `SCREEN_INFO` is there to be read. -/
theorem Inv.recovers_of_screen (h : s.Inv) {ctx : Ctx ℕ} (hphase : s.phase = .connecting ctx)
    (hconn : s.conn = some n) (hlinked : s.Linked n) (hdown : s.down ≠ []) : s.Recovers := by
  obtain ⟨-, -, -, hg⟩ := Stage.of_connecting (hphase ▸ h.stage)
  cases hg with
  | pending _ _ hnil | waiting _ _ _ hnil => exact absurd hnil hdown
  | informed m si _ _ hsi =>
    have hopen : { s with down := [] }.Open := by
      intro m hm
      obtain rfl : m = n := Option.some.inj (hm.symm.trans hconn)
      exact hlinked
    have hs : s.step .readScreen =
        some ({ s with down := [] }.ask (.pickingUp (ctx.setScreen si))) := by
      simp only [Joint.step, hphase, hsi]
      exact congrArg some (if_pos hopen)
    exact Recovers.of_step hs ((h.step hs).recovers_of_reading rfl hconn hlinked)

theorem Inv.recovers_of_connecting (h : s.Inv) {ctx : Ctx ℕ} (hphase : s.phase = .connecting ctx)
    (hconn : s.conn = some n) (hlinked : s.Linked n) : s.Recovers := by
  have hhello := step_hello s
  have h₁ := h.step hhello
  obtain ⟨hc, hlinked₁, -⟩ := dispatch_helloEvent_linked s.daemon.accepted hlinked
  refine Recovers.of_step hhello ?_
  generalize hs₁ : ({ s with
      daemon := s.daemon.next helloEvent
      down := s.down ++ toProducer s.conn (s.daemon.effects helloEvent) } : Joint) = s₁ at h₁ ⊢
  have hphase₁ : s₁.phase = .connecting ctx := by rw [← hs₁]; exact hphase
  have hconn₁ : s₁.conn = some n := by rw [← hs₁]; exact hconn
  have hlinked₁ : s₁.Linked n := by rw [← hs₁]; exact hlinked₁
  have hc : s₁.daemon.globals.consumer = some ⟨s.daemon.accepted, true⟩ := by rw [← hs₁]; exact hc
  clear hs₁
  by_cases hdown : s₁.down = []
  swap
  · exact h₁.recovers_of_screen hphase₁ hconn₁ hlinked₁ hdown
  obtain ⟨-, -, -, hg⟩ := Stage.of_connecting (hphase₁ ▸ h₁.stage)
  cases hg with
  | pending hnone => simp [hconn₁] at hnone
  | informed _ _ _ _ hsi => simp [hdown] at hsi
  | waiting m hm _ _ hscreen =>
    obtain rfl : m = n := Option.some.inj (hm.symm.trans hconn₁)
    obtain ⟨hw, hno⟩ := hscreen hlinked₁
    have hs : s₁.step (.consumer (screenEvent s.daemon.accepted)) = some { s₁ with
        daemon := s₁.daemon.next (screenEvent s.daemon.accepted)
        down := s₁.down ++
          toProducer s₁.conn (s₁.daemon.effects (screenEvent s.daemon.accepted)) } := by
      have he : ofConsumer (screenEvent s.daemon.accepted) = true := rfl
      simp only [Joint.step, he, if_true]
      refine daemonStep_eq_some.mpr ⟨?_, rfl⟩
      rintro c ⟨⟩
      exact (h₁.daemon.live_iff _).mpr (.inl hc)
    obtain ⟨hmsgs, hlinked₂⟩ := dispatch_screenEvent s₁.daemon.accepted hc hlinked₁ hw hno
    refine Recovers.of_step hs ((h₁.step hs).recovers_of_screen hphase₁ hconn₁ hlinked₂ ?_)
    change s₁.down ++ toProducer s₁.conn (s₁.daemon.globals.dispatch _ _).2 ≠ []
    rw [toProducer_of_conn hconn₁, hmsgs]
    simp [downMsgOf]

theorem Inv.recovers_of_pending (h : s.Inv) {ctx : Ctx ℕ} (hphase : s.phase = .connecting ctx)
    (hconn : s.conn = none) : s.Recovers := by
  obtain ⟨-, -, -, hg⟩ := Stage.of_connecting (hphase ▸ h.stage)
  cases hg with
  | waiting _ hsome | informed _ _ hsome => simp [hconn] at hsome
  | pending _ hup hdown =>
    have hd := dispatch_producerHello s.daemon.accepted (h.producer_eq_none hconn)
    have hs : s.step (.accept true) = { s with
        conn := some s.daemon.accepted, up := [] }.daemonStep
          (.listen true (.ofType .producerHello [])) := by
      simp only [Joint.step, hconn, hup]
      rfl
    rw [daemonStep_eq_some.mpr ⟨fun c hc => (by cases hc), rfl⟩] at hs
    refine Recovers.of_step hs ((h.step hs).recovers_of_connecting hphase rfl ?_)
    exact congrArg (fun r => r.1.producer) hd

/-- The producer that can still reach the daemon has a way out of fallback. -/
theorem Inv.recovers (h : s.Inv) (htouch : s.InTouch) {ctx : Ctx ℕ} (hctx : ctx ∈ s.phase.ctx)
    (hfb : ctx.fallback = true) : s.Recovers := by
  rcases htouch with hopen | ⟨hr, hdown⟩
  swap
  · exact h.recovers_of_down hr hdown
  cases hphase : s.phase with
  | absent | gone => simp [hphase, Phase.ctx] at hctx
  | connecting ctx' =>
    cases hconn : s.conn with
    | none => exact h.recovers_of_pending hphase hconn
    | some n => exact h.recovers_of_connecting hphase hconn (hopen n hconn)
  | idle ctx' =>
    obtain rfl : ctx' = ctx := by simpa [hphase, Phase.ctx] using hctx
    exact h.recovers_of_idle hphase hfb hopen
  | pickingUp ctx' | reconnecting ctx' =>
    have hr : s.phase.reading = true := by rw [hphase]; rfl
    obtain ⟨n, hconn⟩ := Option.isSome_iff_exists.mp (h.stage.served hr).1.conn
    exact h.recovers_of_reading hr hconn (hopen n hconn)

/-- A state without a dead end. -/
def NoDeadEnd (s : Joint) : Prop := s.WaitsForConsumer → s.Recovers

/-- In a run, a producer that waits has a way out exactly while it can reach the daemon. -/
theorem Inv.recovers_iff (h : s.Inv) :
    s.WaitsForConsumer → (s.Recovers ↔ s.InTouch) := by
  rintro ⟨⟨ctx, hctx, hfb⟩, -⟩
  constructor
  · intro hrec
    by_contra hlost
    obtain ⟨n, hdead⟩ := exists_dead hlost fun ctx' hctx' => by
      obtain rfl : ctx' = ctx := Option.some.inj (hctx'.symm.trans hctx)
      exact hfb
    exact hdead.not_recovers h hrec
  · intro htouch
    exact h.recovers htouch hctx hfb

end WayOut

end Joint

/-- The producer is connected when the consumer announces another screen. -/
def screenChange : List Label :=
  [.consumer (.listen true (.ofType .consumerHello [0, 1, 2, 3])),
    .consumer (.readable ⟨0, true⟩ (.ofScreen ⟨1080, 2400, 1, 60⟩)),
    .connect 100, .accept true, .readScreen, .read true, .pickup true,
    .consumer (.readable ⟨0, true⟩ (.ofScreen ⟨2400, 1080, 1, 60⟩)), .enterFallback]

end Producer
end ACGlass
