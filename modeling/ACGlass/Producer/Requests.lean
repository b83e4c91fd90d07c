import ACGlass.Producer.Link

/-!
# Requests and answers

Every `PICKUP_FDS` of the producer is on its way to the daemon, remembered in
`producer_waiting_fds`, on its way back as an `FDS_READY`, answered, or lost with the
connection. `Inv` keeps count of them next to what `connect_to_deamon` and
`try_reconnect` have reached.
-/

namespace ACGlass
namespace Producer

open Transition
open Daemon (Globals Client Reaction)

namespace Joint

variable (s : Joint)

/-- The request that `producer_waiting_fds` stands for. -/
def waits : ℕ :=
  match s.conn with
  | none => 0
  | some n => if s.Linked n ∧ s.daemon.globals.producerWaitingFds = true then 1 else 0

def answers : ℕ := s.down.countP DownMsg.isAnswer

/-- The requests that an `FDS_READY` has been or may still be sent for. -/
def outstanding : ℕ := s.up.count .pickupFds + s.waits + s.answers

/-- The control connection past the first message of the daemon. -/
structure Served : Prop where
  conn : s.conn.isSome
  screen : ∀ n ∈ s.conn, s.Linked n → s.daemon.globals.producerWaitingScreen = false
  answers : ∀ m ∈ s.down, ∃ fds, m = .fdsReady fds ∧ 4 ≤ fds.length

/-- The wait for `SCREEN_INFO`. -/
inductive Greeting : Prop
  | pending (hconn : s.conn = none) (hup : s.up = [.producerHello]) (hdown : s.down = [])
  | waiting (n : ℕ) (hconn : s.conn = some n) (hup : s.up = []) (hdown : s.down = [])
      (h : s.Linked n →
        s.daemon.globals.producerWaitingScreen = true ∧ s.daemon.globals.hasScreenInfo = false)
  | informed (n : ℕ) (si : ScreenInfo) (hconn : s.conn = some n) (hup : s.up = [])
      (hdown : s.down = [.screen si])
      (h : s.Linked n → s.daemon.globals.producerWaitingScreen = false)

/-- What is known in each phase. -/
inductive Stage : Phase → Prop
  | absent (hconn : s.conn = none) (hup : s.up = []) (hdown : s.down = []) (hasked : s.asked = 0)
      (hanswered : s.answered = 0) : Stage .absent
  | connecting {ctx : Ctx ℕ} (hfb : ctx.fallback = true) (hasked : s.asked = 0)
      (hanswered : s.answered = 0) (h : s.Greeting) : Stage (.connecting ctx)
  | reading {phase : Phase} (hr : phase.reading = true)
      (hfb : ∀ ctx, phase.ctx = some ctx → ctx.fallback = true) (h : s.Served)
      (hout : ∀ n ∈ s.conn, s.Linked n → 1 ≤ s.outstanding) : Stage phase
  | idle {ctx : Ctx ℕ} (h : s.Served)
      (hcur : ctx.fallback = false → s.overlapped = false → s.asked = s.answered) :
      Stage (.idle ctx)
  | gone (hconn : s.conn.isSome) : Stage .gone

/-- What holds in every phase. -/
structure Core : Prop where
  daemon : s.daemon.Inv
  others : ∀ c, s.daemon.globals.producer = some c → s.conn = some c.ctrlFd
  numbered : ∀ n ∈ s.conn, n < s.daemon.accepted
  requests : s.conn.isSome → ∀ t ∈ s.up, t = .pickupFds
  count : s.outstanding + s.answered ≤ s.asked
  overlap : s.overlapped = false → s.asked ≤ s.answered + 1

structure Inv : Prop extends s.Core where
  stage : s.Stage s.phase

end Joint

section Library

/-- A complete answer ends the fallback when its page can be mapped. -/
theorem Ctx.takeFds_fdsReady (ctx : Ctx ℕ) {fds : List ℕ} (hfour : 4 ≤ fds.length) :
    (ctx.takeFds ⟨some (DownMsg.fdsReady fds).recvmsg, true⟩).ret = 0 ∧
      (ctx.takeFds ⟨some (DownMsg.fdsReady fds).recvmsg, true⟩).ctx.fallback = false ∧
      (ctx.takeFds ⟨some (DownMsg.fdsReady fds).recvmsg, false⟩).ret = -1 ∧
      (ctx.takeFds ⟨some (DownMsg.fdsReady fds).recvmsg, false⟩).ctx.fallback = ctx.fallback := by
  match fds, hfour with
  | a :: b :: c :: d :: _, _ =>
    simp [takeFds, DownMsg.recvmsg, recvFds, ctrlMsgSize]

end Library

namespace Joint

variable {s s' : Joint} {n : ℕ}

theorem inv_initial : initial.Inv where
  daemon := Daemon.World.inv_initial
  others := by simp [initial, Daemon.World.initial, Globals.initial]
  numbered := by simp [initial]
  requests := by simp [initial]
  count := le_rfl
  overlap := fun _ => Nat.zero_le _
  stage := .absent rfl rfl rfl rfl rfl

section Library

/-- Another phase, and no message read. -/
theorem Core.withPhase (h : s.Core) (phase : Phase) : { s with phase }.Core :=
  ⟨h.daemon, h.others, h.numbered, h.requests, h.count, h.overlap⟩

/-- A `SCREEN_INFO` is read. -/
theorem Core.popScreen (h : s.Core) {si : ScreenInfo} {down : List DownMsg}
    (hdown : s.down = .screen si :: down) : { s with down }.Core := by
  have hcount : s.answers = down.countP DownMsg.isAnswer := by
    rw [answers, hdown, List.countP_cons_of_neg (by simp [DownMsg.isAnswer])]
  refine ⟨h.daemon, h.others, h.numbered, h.requests, ?_, h.overlap⟩
  have := h.count
  rw [outstanding, hcount] at this
  exact this

/-- An `FDS_READY` is read. -/
theorem Core.popAnswer (h : s.Core) (phase : Phase) {m : DownMsg} {down : List DownMsg}
    (hdown : s.down = m :: down) (hm : m.isAnswer = true) :
    { s with phase, down, answered := s.answered + 1 }.Core := by
  have hcount : s.answers = down.countP DownMsg.isAnswer + 1 := by
    rw [answers, hdown, List.countP_cons_of_pos hm]
  refine ⟨h.daemon, h.others, h.numbered, h.requests, ?_, ?_⟩
  · have := h.count
    rw [outstanding, hcount] at this
    change s.up.count .pickupFds + s.waits + down.countP DownMsg.isAnswer + (s.answered + 1) ≤
      s.asked
    omega
  · intro hov
    have := h.overlap hov
    change s.asked ≤ s.answered + 1 + 1
    omega

theorem Core.ask (h : s.Core) (hconn : s.conn.isSome) (phase : Phase) : (s.ask phase).Core := by
  refine ⟨h.daemon, h.others, h.numbered, ?_, ?_, ?_⟩
  · intro _ t ht
    rcases List.mem_append.mp ht with ht | ht
    · exact h.requests hconn t ht
    · exact List.mem_singleton.mp ht
  · have := h.count
    have hup : (s.up ++ [CtrlType.pickupFds]).count .pickupFds = s.up.count .pickupFds + 1 := by
      simp
    rw [outstanding] at this
    change (s.up ++ [CtrlType.pickupFds]).count .pickupFds + s.waits + s.answers + s.answered ≤
      s.asked + 1
    omega
  · intro hov
    obtain ⟨-, heq⟩ : s.overlapped = false ∧ s.asked = s.answered := by
      simpa [Joint.ask] using hov
    change s.asked + 1 ≤ s.answered + 1
    omega

theorem Served.ask (h : s.Served) (phase : Phase) : (s.ask phase).Served :=
  ⟨h.conn, h.screen, h.answers⟩

/-- A request has been sent, and the wait for its answer begins. -/
theorem Core.ask_inv (h : s.Core) (hserved : s.Served) {phase : Phase}
    (hr : phase.reading = true) (hfb : ∀ ctx, phase.ctx = some ctx → ctx.fallback = true) :
    (s.ask phase).Inv := by
  refine ⟨h.ask hserved.conn phase, .reading hr hfb (hserved.ask phase) ?_⟩
  intro n _ _
  change 1 ≤ (s.up ++ [CtrlType.pickupFds]).count .pickupFds + s.waits + s.answers
  simp
  omega

/-- An answer is read, and the library returns to its caller. -/
theorem Inv.popAnswer (h : s.Inv) (hserved : s.Served) {m : DownMsg} {down : List DownMsg}
    {phase : Phase} (hdown : s.down = m :: down)
    (hphase : phase = .gone ∨ ∃ ctx, phase = .idle ctx) :
    { s with phase, down, answered := s.answered + 1 }.Inv := by
  obtain ⟨fds, rfl, -⟩ := hserved.answers m (by simp [hdown])
  have hcore := h.toCore.popAnswer phase hdown rfl
  refine ⟨hcore, ?_⟩
  rcases hphase with rfl | ⟨ctx, rfl⟩
  · exact .gone hserved.conn
  · refine .idle ⟨hserved.conn, hserved.screen, ?_⟩ ?_
    · intro m hm
      exact hserved.answers m (by simp [hdown, hm])
    · intro _ hov
      have hle : s.answered + 1 ≤ s.asked := le_trans (Nat.le_add_left _ _) hcore.count
      exact le_antisymm (h.overlap hov) hle

end Library

section DaemonSteps

variable {w : Daemon.World ℕ} {msgs : List DownMsg} {effs : List (Daemon.Effect ℕ)}

theorem waits_of_conn (hconn : s.conn = some n) :
    s.waits = if s.Linked n ∧ s.daemon.globals.producerWaitingFds = true then 1 else 0 := by
  simp [waits, hconn]

/-- Events of others lose requests only with the connection. -/
theorem outstanding_link (hconn : s.conn = some n)
    (hl : Link n s.daemon.globals w.globals msgs) :
    { s with daemon := w, down := s.down ++ msgs }.outstanding ≤ s.outstanding ∧
      (w.globals.producer = some ⟨n, false⟩ →
        { s with daemon := w, down := s.down ++ msgs }.outstanding = s.outstanding) := by
  have hwaits := waits_of_conn hconn
  have hwaits' := waits_of_conn (s := { s with daemon := w, down := s.down ++ msgs }) hconn
  have hanswers : { s with daemon := w, down := s.down ++ msgs }.answers =
      s.answers + msgs.countP DownMsg.isAnswer := List.countP_append
  simp only [outstanding, hanswers, hwaits, hwaits']
  simp only [Linked]
  cases hl with
  | apart h' => simp [h']
  | quiet h h' hw => simp [h, h', hw]
  | informed si h h' hw => simp [h, h', hw, DownMsg.isAnswer]
  | delivered fds h h' hw hw' =>
    simp [h, h', hw, hw', DownMsg.isAnswer]
    omega

theorem Served.link (h : s.Served) (hconn : s.conn = some n)
    (hl : Link n s.daemon.globals w.globals msgs) :
    { s with daemon := w, down := s.down ++ msgs }.Served := by
  refine ⟨h.conn, ?_, ?_⟩
  · intro m hm hlinked
    obtain rfl : m = n := Option.some.inj (hm.symm.trans hconn)
    have hold := h.screen m hm (hl.linked hlinked)
    cases hl with
    | apart h' => exact absurd hlinked h'
    | quiet _ _ _ hs => exact hs.trans hold
    | informed _ _ _ _ _ hs' => exact hs'
    | delivered _ _ _ _ _ hs => exact hs.trans hold
  · intro m hm
    rcases List.mem_append.mp hm with hm | hm
    · exact h.answers m hm
    · cases hl with
      | apart | quiet => cases hm
      | informed si hlinked _ _ hs => simp [h.screen n hconn hlinked] at hs
      | delivered fds _ _ _ _ _ _ hfour => exact ⟨fds, List.mem_singleton.mp hm, hfour⟩

/-- While nothing has been asked for, nothing is delivered. -/
theorem Core.not_waiting (h : s.Core) (hasked : s.asked = 0) (hconn : s.conn = some n)
    (hlinked : s.Linked n) : s.daemon.globals.producerWaitingFds = false := by
  by_contra hw
  have hcount := h.count
  have hwaits := waits_of_conn hconn
  rw [if_pos ⟨hlinked, by simpa using hw⟩] at hwaits
  rw [outstanding] at hcount
  omega

theorem Greeting.link (h : s.Greeting) (hcore : s.Core) (hasked : s.asked = 0)
    (hl : ∀ n ∈ s.conn, Link n s.daemon.globals w.globals msgs)
    (hnone : s.conn = none → msgs = []) :
    { s with daemon := w, down := s.down ++ msgs }.Greeting := by
  cases h with
  | pending hconn hup hdown => exact .pending hconn hup (by simp [hdown, hnone hconn])
  | waiting n hconn hup hdown hs =>
    cases hl n hconn with
    | apart h' => exact .waiting n hconn hup (by simp [hdown]) fun hlinked => absurd hlinked h'
    | quiet hlinked _ _ hs' hi =>
      obtain ⟨hs, hno⟩ := hs hlinked
      exact .waiting n hconn hup (by simp [hdown]) fun _ => ⟨hs'.trans hs, (hi hs).trans hno⟩
    | informed si _ _ _ _ hs' => exact .informed n si hconn hup (by simp [hdown]) fun _ => hs'
    | delivered fds hlinked _ hw =>
      simp [hcore.not_waiting hasked hconn hlinked] at hw
  | informed n si hconn hup hdown hs =>
    cases hl n hconn with
    | apart h' => exact .informed n si hconn hup (by simp [hdown]) fun hlinked => absurd hlinked h'
    | quiet hlinked _ _ hs' =>
      exact .informed n si hconn hup (by simp [hdown]) fun _ => hs'.trans (hs hlinked)
    | informed _ hlinked _ _ hs' => simp [hs hlinked] at hs'
    | delivered fds hlinked _ hw =>
      simp [hcore.not_waiting hasked hconn hlinked] at hw

theorem Stage.link {phase : Phase} (h : s.Stage phase) (hcore : s.Core)
    (hlinked : ∀ n, w.globals.producer = some ⟨n, false⟩ → s.Linked n)
    (hl : ∀ n ∈ s.conn, Link n s.daemon.globals w.globals msgs)
    (hnone : s.conn = none → msgs = []) :
    { s with daemon := w, down := s.down ++ msgs }.Stage phase := by
  cases h with
  | absent hconn hup hdown hasked hanswered =>
    exact .absent hconn hup (by simp [hdown, hnone hconn]) hasked hanswered
  | connecting hfb hasked hanswered hg =>
    exact .connecting hfb hasked hanswered (hg.link hcore hasked hl hnone)
  | reading hr hfb hserved hout =>
    obtain ⟨n, hconn⟩ := Option.isSome_iff_exists.mp hserved.conn
    refine .reading hr hfb (hserved.link hconn (hl n hconn)) ?_
    intro m hm hlinked'
    obtain rfl : m = n := Option.some.inj (hm.symm.trans hconn)
    rw [(outstanding_link hconn (hl m hconn)).2 hlinked']
    exact hout m hm (hlinked m hlinked')
  | idle hserved hcur =>
    obtain ⟨n, hconn⟩ := Option.isSome_iff_exists.mp hserved.conn
    exact .idle (hserved.link hconn (hl n hconn)) hcur
  | gone hconn => exact .gone hconn

/-- An event of the daemon that is not about a message of the producer. -/
theorem Inv.link (h : s.Inv) (hw : w.Inv) (hacc : s.daemon.accepted ≤ w.accepted)
    (hlinked : ∀ n, w.globals.producer = some ⟨n, false⟩ → s.Linked n)
    (hl : ∀ n ∈ s.conn, Link n s.daemon.globals w.globals msgs)
    (hnone : s.conn = none → msgs = []) :
    { s with daemon := w, down := s.down ++ msgs }.Inv := by
  refine ⟨⟨hw, ?_, ?_, h.requests, ?_, h.overlap⟩, h.stage.link h.toCore hlinked hl hnone⟩
  · intro c hc
    obtain ⟨n, b⟩ := c
    obtain rfl : b = false := hw.producer_role _ hc
    exact h.others _ (hlinked n hc)
  · intro n hn
    exact lt_of_lt_of_le (h.numbered n hn) hacc
  · refine le_trans (Nat.add_le_add_right ?_ _) h.count
    rcases Option.eq_none_or_eq_some s.conn with hconn | ⟨n, hconn⟩
    · simp [outstanding, waits, answers, hconn, hnone hconn]
    · exact (outstanding_link hconn (hl n hconn)).1

theorem daemonStep_eq_some {e : Daemon.Event ℕ} :
    s.daemonStep e = some s' ↔ s.daemon.Enabled e ∧
      { s with
        daemon := s.daemon.next e
        down := s.down ++ toProducer s.conn (s.daemon.effects e) } = s' := by
  simp [daemonStep, Daemon.World.step]

theorem toProducer_of_conn (hconn : s.conn = some n) (effs : List (Daemon.Effect ℕ)) :
    toProducer s.conn effs = effs.filterMap (downMsgOf n) := by
  rw [hconn]
  rfl

theorem toProducer_of_none (hconn : s.conn = none) (effs : List (Daemon.Effect ℕ)) :
    toProducer s.conn effs = [] := by
  rw [hconn]
  rfl

theorem Inv.consumer (h : s.Inv) {e : Daemon.Event ℕ} (he : ofConsumer e = true)
    (hs : s.daemonStep e = some s') : s'.Inv := by
  obtain ⟨-, rfl⟩ := daemonStep_eq_some.mp hs
  obtain ⟨d', effs, hr, hd, heffs⟩ := s.daemon.next_reaction e
  have hlink : ∀ n, Link n s.daemon.globals (s.daemon.next e).globals
      (effs.filterMap (downMsgOf n)) := fun n => hd ▸ link_reaction hr h.daemon.producer_role he
  rw [heffs]
  apply h.link (h.daemon.next e) (s.daemon.accepted_le_next e)
  · intro n hn
    exact (hlink n).linked hn
  · intro n hn
    rw [toProducer_of_conn hn]
    exact hlink n
  · intro hnone
    exact toProducer_of_none hnone effs

theorem Inv.drop (h : s.Inv) (hconn : s.conn = some n)
    (hs : s.daemonStep (.hangup ⟨n, false⟩) = some s') : s'.Inv := by
  obtain ⟨-, rfl⟩ := daemonStep_eq_some.mp hs
  have hcons : s.daemon.globals.consumer ≠ some ⟨n, false⟩ := by
    intro hc
    simpa using h.daemon.consumer_role _ hc
  apply h.link (h.daemon.next _) (s.daemon.accepted_le_next _)
  · intro m hm
    obtain ⟨d', effs, hr, hd, -⟩ := s.daemon.next_reaction (.hangup ⟨n, false⟩)
    rcases (hr.roles ⟨m, false⟩).2 (hd ▸ hm) with hold | ⟨-, i, hi⟩
    · exact hold
    · cases hi
  · intro m hm
    obtain rfl : m = n := Option.some.inj (hm.symm.trans hconn)
    rw [toProducer_of_conn hm]
    exact link_hangup s.daemon.accepted hcons
  · intro hnone
    exact toProducer_of_none hnone _

/-- A `PICKUP_FDS` that is read is remembered or answered. -/
theorem outstanding_readPickup (hconn : s.conn = some n) (hlinked : s.Linked n)
    {up : List CtrlType} (hup : s.up = .pickupFds :: up) {ok : Bool}
    (hd : Daemon.Delivery s.daemon.globals ok (w.globals, effs)) :
    { s with daemon := w, up, down := s.down ++ effs.filterMap (downMsgOf n) }.outstanding ≤
        s.outstanding ∧
      1 ≤ { s with
        daemon := w, up, down := s.down ++ effs.filterMap (downMsgOf n) }.outstanding := by
  have hwaits := waits_of_conn
    (s := { s with daemon := w, up, down := s.down ++ effs.filterMap (downMsgOf n) }) hconn
  have hanswers : { s with
      daemon := w, up, down := s.down ++ effs.filterMap (downMsgOf n) }.answers =
      s.answers + (effs.filterMap (downMsgOf n)).countP DownMsg.isAnswer := List.countP_append
  have hrequests : s.up.count .pickupFds = up.count .pickupFds + 1 := by
    rw [hup, List.count_cons_self]
  have hlinked' : w.globals.producer = some ⟨n, false⟩ := hd.frame.producer.trans hlinked
  simp only [outstanding, hanswers, hwaits, hrequests]
  rcases link_delivery hd hlinked with ⟨hnil, hw⟩ | ⟨fds, hfds, -, hw⟩
  · rw [hnil, if_pos ⟨hlinked', hw⟩, List.countP_nil]
    omega
  · rw [hfds, if_neg (by simp [hw])]
    simp [DownMsg.isAnswer]
    omega

theorem Served.readPickup (h : s.Served) (hconn : s.conn = some n) (hlinked : s.Linked n)
    {up : List CtrlType} {ok : Bool}
    (hd : Daemon.Delivery s.daemon.globals ok (w.globals, effs)) :
    { s with daemon := w, up, down := s.down ++ effs.filterMap (downMsgOf n) }.Served := by
  refine ⟨h.conn, ?_, ?_⟩
  · intro m hm _
    obtain rfl : m = n := Option.some.inj (hm.symm.trans hconn)
    exact hd.frame.producerWaitingScreen.trans (h.screen m hm hlinked)
  · intro m hm
    rcases List.mem_append.mp hm with hm | hm
    · exact h.answers m hm
    · rcases link_delivery hd hlinked with ⟨hnil, -⟩ | ⟨fds, hfds, hfour, -⟩
      · simp [hnil] at hm
      · exact ⟨fds, by simpa [hfds] using hm, hfour⟩

theorem Stage.readPickup {phase : Phase} (h : s.Stage phase) (hconn : s.conn = some n)
    (hlinked : s.Linked n) {up : List CtrlType} (hup : s.up = .pickupFds :: up) {ok : Bool}
    (hd : Daemon.Delivery s.daemon.globals ok (w.globals, effs)) :
    { s with daemon := w, up, down := s.down ++ effs.filterMap (downMsgOf n) }.Stage phase := by
  cases h with
  | absent hconn' => simp [hconn] at hconn'
  | connecting hfb hasked hanswered hg =>
    exfalso
    cases hg with
    | pending hconn' => simp [hconn] at hconn'
    | waiting _ _ hup' | informed _ _ _ hup' => simp [hup] at hup'
  | reading hr hfb hserved hout =>
    exact .reading hr hfb (hserved.readPickup hconn hlinked hd) fun _ _ _ =>
      (outstanding_readPickup hconn hlinked hup hd).2
  | idle hserved hcur => exact .idle (hserved.readPickup hconn hlinked hd) hcur
  | gone hconn => exact .gone hconn

/-- Only a message of the daemon's producer is read. -/
theorem Inv.linked_of_enabled (h : s.Inv) {ok : Bool}
    (henabled : s.daemon.Enabled (pickupEvent n ok)) : s.Linked n := by
  rcases (h.daemon.live_iff _).mp (henabled _ rfl) with hc | hp
  · simpa using h.daemon.consumer_role _ hc
  · exact hp

theorem Inv.delivery_of_pickup (h : s.Inv) {ok : Bool}
    (henabled : s.daemon.Enabled (pickupEvent n ok)) :
    Daemon.Delivery s.daemon.globals ok
      ((s.daemon.next (pickupEvent n ok)).globals, s.daemon.effects (pickupEvent n ok)) := by
  have hd := s.daemon.globals.tryDeliverFds_delivery ok
  rwa [← dispatch_pickupEvent s.daemon.accepted ok (h.linked_of_enabled henabled)] at hd

theorem Inv.readPickup (h : s.Inv) {up : List CtrlType} (hconn : s.conn = some n)
    (hup : s.up = .pickupFds :: up) {ok : Bool}
    (hs : { s with up }.daemonStep (pickupEvent n ok) = some s') : s'.Inv := by
  obtain ⟨henabled, rfl⟩ := daemonStep_eq_some.mp hs
  have hlinked := h.linked_of_enabled henabled
  have hd := h.delivery_of_pickup henabled
  have hw := h.daemon.next (pickupEvent n ok)
  have hacc := s.daemon.accepted_le_next (pickupEvent n ok)
  generalize s.daemon.next (pickupEvent n ok) = w at hd hw hacc ⊢
  dsimp only
  rw [toProducer_of_conn hconn]
  generalize s.daemon.effects _ = effs at hd ⊢
  refine ⟨⟨hw, ?_, ?_, ?_, ?_, h.overlap⟩, h.stage.readPickup hconn hlinked hup hd⟩
  · intro c hc
    exact h.others c (hd.frame.producer ▸ hc)
  · intro m hm
    exact lt_of_lt_of_le (h.numbered m hm) hacc
  · intro hsome t ht
    exact h.requests hsome t (by rw [hup]; exact List.mem_cons_of_mem _ ht)
  · exact le_trans (Nat.add_le_add_right (outstanding_readPickup hconn hlinked hup hd).1 _) h.count

/-- Before its connection is accepted, the producer is `absent` or has sent its hello. -/
theorem Stage.pending {phase : Phase} (h : s.Stage phase) (hconn : s.conn = none)
    (hup : s.up ≠ []) : ∃ ctx, phase = .connecting ctx ∧ ctx.fallback = true ∧ s.asked = 0 ∧
      s.answered = 0 ∧ s.up = [.producerHello] ∧ s.down = [] := by
  cases h with
  | absent _ hup' => exact absurd hup' hup
  | @connecting ctx hfb hasked hanswered hg =>
    cases hg with
    | pending _ hup hdown => exact ⟨ctx, rfl, hfb, hasked, hanswered, hup, hdown⟩
    | waiting _ hconn' | informed _ _ hconn' => simp [hconn] at hconn'
  | reading _ _ hserved | idle hserved =>
    have := hserved.conn
    simp [hconn] at this
  | gone hsome => simp [hconn] at hsome

/-- The state once the connection has its number. -/
theorem Core.accepted (h : s.Core) {down : List DownMsg} (hw : w.Inv)
    (hacc : s.daemon.accepted < w.accepted)
    (hothers : ∀ c, w.globals.producer = some c → c.ctrlFd = s.daemon.accepted)
    (hwait : w.globals.producer.isSome → w.globals.producerWaitingFds = false)
    (hdown : down.countP DownMsg.isAnswer = 0) :
    { s with daemon := w, conn := some s.daemon.accepted, up := [], down }.Core := by
  refine ⟨hw, ?_, ?_, ?_, ?_, h.overlap⟩
  · intro c hc
    rw [hothers c hc]
  · rintro n ⟨⟩
    exact hacc
  · intro _ t ht
    cases ht
  · have hwaits : { s with
        daemon := w, conn := some s.daemon.accepted, up := [], down }.waits = 0 := by
      rw [waits_of_conn rfl]
      apply if_neg
      rintro ⟨hlinked, hw⟩
      change w.globals.producer = _ at hlinked
      change w.globals.producerWaitingFds = true at hw
      simp [hwait (by simp [hlinked])] at hw
    refine le_trans ?_ h.count
    rw [outstanding, hwaits]
    change 0 + 0 + down.countP DownMsg.isAnswer + s.answered ≤ _
    omega

theorem Greeting.stage (h : s.Greeting) {phase : Phase} {ctx : Ctx ℕ}
    (hphase : phase = .connecting ctx) (hfb : ctx.fallback = true) (hasked : s.asked = 0)
    (hanswered : s.answered = 0) : s.Stage phase := by
  subst hphase
  exact .connecting hfb hasked hanswered h

theorem Inv.producer_eq_none (h : s.Inv) (hconn : s.conn = none) :
    s.daemon.globals.producer = none := by
  cases hp : s.daemon.globals.producer with
  | none => rfl
  | some c => simpa [hconn] using h.others c hp

/-- The connection gets its number, and is the daemon's producer or was closed at once. -/
theorem Inv.accept (h : s.Inv) {up : List CtrlType} (hconn : s.conn = none)
    (hup : s.up = .producerHello :: up) {readOk : Bool}
    (hs : { s with conn := some s.daemon.accepted, up }.daemonStep
      (.listen true (if readOk then .ofType .producerHello [] else unreadable)) = some s') :
    s'.Inv := by
  obtain ⟨-, rfl⟩ := daemonStep_eq_some.mp hs
  obtain ⟨ctx, hphase, hfb, hasked, hanswered, hup', hdown⟩ :=
    h.stage.pending hconn (by simp [hup])
  obtain rfl : up = [] := by simpa [hup] using hup'
  have hnone := h.producer_eq_none hconn
  cases readOk with
  | false =>
    have hw := h.daemon.next (.listen true unreadable)
    have hno : (s.daemon.next (.listen true unreadable)).globals.producer = none := hnone
    have hdown' : s.down ++ toProducer (some s.daemon.accepted)
        (s.daemon.effects (.listen true unreadable)) = [] := by
      rw [hdown]
      rfl
    simp only [Bool.false_eq_true, if_false]
    rw [hdown']
    refine ⟨h.toCore.accepted hw (Nat.lt_succ_self _) (by simp [hno]) (by simp [hno]) rfl, ?_⟩
    refine Greeting.stage ?_ hphase hfb hasked hanswered
    exact .waiting _ rfl rfl rfl fun hlinked => by simp [Linked, hno] at hlinked
  | true =>
    have hw := h.daemon.next (.listen true (.ofType .producerHello []))
    have hd := dispatch_producerHello s.daemon.accepted hnone
    have hglobals : (s.daemon.next (.listen true (.ofType .producerHello []))).globals =
        { s.daemon.globals with
          producer := some ⟨s.daemon.accepted, false⟩
          producerWaitingScreen := !s.daemon.globals.hasScreenInfo
          producerWaitingFds := false } := congrArg Prod.fst hd
    have heffs : s.daemon.effects (.listen true (.ofType .producerHello [])) = _ :=
      congrArg Prod.snd hd
    have hcore : ∀ down : List DownMsg, down.countP DownMsg.isAnswer = 0 → _ :=
      fun down => h.toCore.accepted hw (Nat.lt_succ_self _) (by simp [hglobals]) (by simp [hglobals])
    simp only [if_true, heffs, hdown, List.nil_append]
    cases hs : s.daemon.globals.hasScreenInfo with
    | false =>
      refine ⟨hcore _ rfl, Greeting.stage ?_ hphase hfb hasked hanswered⟩
      exact .waiting _ rfl rfl rfl fun _ => by simp [hglobals, hs]
    | true =>
      have hmsg : toProducer (some s.daemon.accepted)
          ([.sendScreenInfo s.daemon.accepted s.daemon.globals.storedScreen] ++
            [.epollAdd ⟨s.daemon.accepted, false⟩]) =
          [.screen s.daemon.globals.storedScreen] := by simp [toProducer, downMsgOf]
      rw [if_pos rfl, hmsg]
      refine ⟨hcore _ rfl, Greeting.stage ?_ hphase hfb hasked hanswered⟩
      exact .informed _ _ rfl rfl rfl fun _ => by simp [hglobals, hs]

end DaemonSteps

section Steps

variable {phase : Phase} {ctx : Ctx ℕ}

theorem Stage.served (h : s.Stage phase) (hr : phase.reading = true) :
    s.Served ∧ (∀ ctx, phase.ctx = some ctx → ctx.fallback = true) ∧
      ∀ n ∈ s.conn, s.Linked n → 1 ≤ s.outstanding := by
  cases h with
  | reading _ hfb hserved hout => exact ⟨hserved, hfb, hout⟩
  | _ => cases hr

theorem Stage.of_idle (h : s.Stage (.idle ctx)) :
    s.Served ∧ (ctx.fallback = false → s.overlapped = false → s.asked = s.answered) := by
  cases h with
  | reading hr => cases hr
  | idle hserved hcur => exact ⟨hserved, hcur⟩

theorem Stage.of_connecting (h : s.Stage (.connecting ctx)) :
    ctx.fallback = true ∧ s.asked = 0 ∧ s.answered = 0 ∧ s.Greeting := by
  cases h with
  | connecting hfb hasked hanswered hg => exact ⟨hfb, hasked, hanswered, hg⟩
  | reading hr => cases hr

theorem conn_of_not_open (h : ¬ s.Open) : s.conn.isSome := by
  cases hconn : s.conn with
  | none => exact absurd (by simp [Open, hconn]) h
  | some n => rfl

theorem Inv.connect (h : s.Inv) (hphase : s.phase = .absent) (ctrlFd : ℕ) :
    { s with phase := .connecting (.fresh ctrlFd), up := [.producerHello] }.Inv := by
  have hstage := h.stage
  rw [hphase] at hstage
  cases hstage with
  | reading hr => cases hr
  | absent hconn hup hdown hasked hanswered =>
    refine ⟨⟨h.daemon, h.others, h.numbered, ?_, ?_, h.overlap⟩, ?_⟩
    · intro hsome
      simp [hconn] at hsome
    · have hcount := h.count
      rw [outstanding, hup] at hcount
      exact hcount
    · exact .connecting rfl hasked hanswered (.pending hconn rfl hdown)

theorem Inv.readScreen (h : s.Inv) (hphase : s.phase = .connecting ctx) {si : ScreenInfo}
    {down : List DownMsg} (hdown : s.down = .screen si :: down) :
    (if { s with down }.Open then { s with down }.ask (.pickingUp (ctx.setScreen si))
      else { s with down, phase := .gone }).Inv := by
  have hcore := h.toCore.popScreen hdown
  obtain ⟨hfb, -, -, hg⟩ := Stage.of_connecting (hphase ▸ h.stage)
  split_ifs with hopen
  · cases hg with
    | pending _ _ hdown' | waiting _ _ _ hdown' => simp [hdown] at hdown'
    | informed n si' hconn hup hdown' hscreen =>
      obtain rfl : down = [] := by
        rw [hdown] at hdown'
        exact (List.cons.inj hdown').2
      refine hcore.ask_inv ⟨by simp [hconn], ?_, by simp⟩ rfl ?_
      · intro m hm
        obtain rfl : m = n := Option.some.inj (hm.symm.trans hconn)
        exact hscreen
      · rintro _ ⟨⟩
        exact hfb
  · exact ⟨hcore.withPhase .gone, .gone (conn_of_not_open hopen)⟩

theorem Inv.step {l : Label} (h : s.Inv) (hs : s.step l = some s') : s'.Inv := by
  cases step_cases hs with
  | connect hphase ctrlFd => exact h.connect hphase ctrlFd
  | readScreen hphase hdown => exact h.readScreen hphase hdown
  | pickup hphase hdown mmapOk =>
    refine h.popAnswer (Stage.served (hphase ▸ h.stage) rfl).1 hdown ?_
    split_ifs
    · exact .inl rfl
    · exact .inr ⟨_, rfl⟩
  | fail hopen => exact ⟨h.toCore.withPhase .gone, .gone (conn_of_not_open hopen)⟩
  | @enterFallback ctx hphase =>
    obtain ⟨hserved, -⟩ := Stage.of_idle (hphase ▸ h.stage)
    refine ⟨h.toCore.withPhase _, .idle ⟨hserved.conn, hserved.screen, hserved.answers⟩ ?_⟩
    simp [ctx.enterFallback_fallback]
  | request hphase hfb =>
    split_ifs with hopen
    · refine h.toCore.ask_inv (Stage.of_idle (hphase ▸ h.stage)).1 rfl ?_
      rintro _ ⟨⟩
      exact hfb
    · exact h
  | answer hphase hdown mmapOk =>
    exact h.popAnswer (Stage.served (hphase ▸ h.stage) rfl).1 hdown (.inr ⟨_, rfl⟩)
  | @giveUp ctx hphase =>
    obtain ⟨hserved, hfb, -⟩ := Stage.served (hphase ▸ h.stage) rfl
    refine ⟨h.toCore.withPhase _, .idle ⟨hserved.conn, hserved.screen, hserved.answers⟩ ?_⟩
    simp [hfb ctx rfl]
  | disconnect hphase =>
    obtain ⟨hserved, -⟩ := Stage.of_idle (hphase ▸ h.stage)
    exact ⟨h.toCore.withPhase .gone, .gone hserved.conn⟩
  | accept hconn hup hs => exact h.accept hconn hup hs
  | @read s' n t up sendOk hconn hup hs =>
    obtain rfl : t = .pickupFds := h.requests (by simp [hconn]) t (by simp [hup])
    exact h.readPickup hconn hup hs
  | drop hconn hs => exact h.drop hconn hs
  | consumer he hs => exact h.consumer he hs

end Steps

end Joint

end Producer
end ACGlass
