import ACGlass.Consumer.Latest

/-!
# The way out of fallback

A consumer in fallback waits for the `FDS_READY` about the one deposit that it made when it
entered. It makes no second one, so it finds back to a channel exactly when that deposit is
still under way and the daemon can still tell it.
-/

namespace ACGlass
namespace Daemon

variable {φ : Type*} {d d' : Globals φ} {effs : List (Effect φ)} {c : Client} {m : ℕ} {fds : List φ}

theorem Delivery.tells {ok : Bool} (h : Delivery d ok (d', effs)) (hc : d'.consumer = some c)
    (hx : Effect.sendFds m fds ∈ effs) : .sendCtrl c.ctrlFd .fdsReady ∈ effs := by
  cases h with
  | deferred h => simp at hx
  | delivered p hp h =>
    have hc : d.consumer = some c := hc
    simp [hc]

theorem Deposited.tells {c' : Client} {ok : Bool} {fds' : List φ}
    (h : Deposited d c' fds' ok (d', effs)) (hc : d'.consumer = some c)
    (hx : Effect.sendFds m fds ∈ effs) : .sendCtrl c.ctrlFd .fdsReady ∈ effs := by
  cases h with
  | kept hw => simp at hx
  | offered hw h =>
    have htold := h.tells hc (by simpa using hx)
    simp [htold]

/-- A connected consumer is told of every delivery. -/
theorem Reaction.tells {fd : ℕ} {e : Event φ} (hr : Reaction d fd e (d', effs))
    (hc : d'.consumer = some c) (hx : Effect.sendFds m fds ∈ effs) :
    .sendCtrl c.ctrlFd .fdsReady ∈ effs := by
  cases hr with
  | ignored hi hclose => simpa using hclose _ hx
  | newConsumer hm hn ht hdep =>
    have htold := hdep.tells hc (by simpa using hx)
    simp [htold]
  | redeposited hm hd ht hc' h3 hdep => exact hdep.tells hc hx
  | pickedUp hm hd ht hp hdel =>
    have htold := hdel.tells hc (by simpa using hx)
    simp [htold]
  | _ => simp at hx

/-- Only a hangup, a broken message or another hello ends a consumer's connection. -/
theorem Reaction.consumer_stays {fd : ℕ} {e : Event φ} (hr : Reaction d fd e (d', effs))
    (hc : d.consumer = some c) (hquiet : e.client = some c → e.disconnects = false)
    (hnew : ∀ i m, e = .listen true i → recvFds maxFds i.msg = some m →
      m.hdr.type ≠ .consumerHello) : d'.consumer = some c := by
  cases hr with
  | consumerGone he hd hc' =>
    rw [hc] at hc'
    rw [hquiet (hc' ▸ he)] at hd
    cases hd
  | newConsumer hm hn ht hdep => exact absurd ht (hnew _ _ rfl hm)
  | redeposited hm hd ht hc' h3 hdep => rw [hdep.frame.consumer, hc]
  | screenChanged => rw [Globals.resetProducer_consumer, hc]
  | pickedUp hm hd ht hp hdel => rw [hdel.frame.consumer, hc]
  | _ => exact hc

end Daemon

namespace Consumer

open Transition
open Daemon (Globals Client Delivery Deposited Reaction)

namespace Joint

variable (s : Joint)

/-- The context holds a channel. -/
def Connected : Prop := ∃ ctx ∈ s.ctx, ctx.fallback = false

/-- Some continuation ends the fallback. -/
def Recovers : Prop := ∃ t, Reaches Joint.step s t ∧ t.Connected

/-- The daemon has not given the connection up. -/
def Open : Prop := ∀ n ∈ s.conn, s.daemon.globals.consumer = some ⟨n, true⟩

/-- A notice is there to be read, or a deposit is on its way and the daemon can tell of it. -/
def InTouch : Prop := s.down ≠ [] ∨ s.live ≠ 0 ∧ s.Open

/-- Until the connection is accepted, the hello is the first message on it. -/
def Pending : Prop :=
  s.conn = none → s.started = true →
    (∃ fds up, s.up = .hello fds :: up) ∧ Daemon.slotOf s.daemon.globals.depositedFds = 0

variable {s} {s' : Joint} {n : ℕ} {ctx : Ctx ℕ}

section Pending

theorem pending_initial : initial.Pending := by
  intro _ hst
  cases hst

theorem filterMap_upMsgOf {effs : List (Effect ℕ)}
    (h : ∀ si, Effect.sendScreenInfo si ∉ effs) :
    effs.filterMap upMsgOf = (hellos effs).map .hello := by
  induction effs with
  | nil => rfl
  | cons x effs ih =>
    have ih := ih fun si hmem => h si (List.mem_cons_of_mem x hmem)
    cases x with
    | sendHello fds => exact congrArg (UpMsg.hello fds :: ·) ih
    | sendScreenInfo si => exact absurd List.mem_cons_self (h si)
    | _ => exact ih

/-- No screen is announced before the connection is made. -/
theorem not_screen_connect (ctrlFd : Option ℕ) (calls : FallbackCalls ℕ) (si : ScreenInfo) :
    Effect.sendScreenInfo si ∉ (connectToDeamon ctrlFd calls).2 := by
  have hrelease : ∀ ctx : Ctx ℕ, Effect.sendScreenInfo si ∉ ctx.release := by
    simp [Ctx.release, closeIf, munmapIf]
  have hshm : ∀ ctx : Ctx ℕ, Effect.sendScreenInfo si ∉ (ctx.createShm calls.shm).effs := by
    intro ctx
    unfold Ctx.createShm
    split
    · simp
    · split_ifs <;> simp
  have hhello : ∀ ctx : Ctx ℕ, Effect.sendScreenInfo si ∉ (ctx.sendHelloFds calls.hello).effs := by
    intro ctx
    unfold Ctx.sendHelloFds
    split
    · simp
    · dsimp only
      split
      · split_ifs <;> simp
      · simp
  unfold connectToDeamon
  split
  · simp
  · dsimp only
    split_ifs <;> simp [hrelease, hshm, hhello]

theorem pending_connect {ctrlFd : Option ℕ} {calls : FallbackCalls ℕ} (hinv : s.Inv)
    (hs : s.step (.connect ctrlFd calls) = some s') : s'.Pending := by
  obtain ⟨⟨hst, hf⟩, rfl⟩ := connect_eq_some.mp hs
  obtain ⟨hlive, -⟩ := underway_eq_zero (hinv.unstarted hst).2.2
  obtain ⟨-, hslot⟩ := add_eq_zero.mp hlive
  intro _ hst'
  refine ⟨?_, hslot⟩
  change ∃ fds up, (connectToDeamon ctrlFd calls).2.filterMap upMsgOf = .hello fds :: up
  rw [filterMap_upMsgOf (not_screen_connect ctrlFd calls)]
  rcases connectToDeamon_cases ctrlFd hf with ⟨hnone, -⟩ | ⟨ctx, -, -, -, hhello⟩
  · change (connectToDeamon ctrlFd calls).1.isSome = true at hst'
    simp [hnone] at hst'
  · exact ⟨_, [], by rw [hhello]; rfl⟩

/-- The daemon only fills its slot from the consumer's connection. -/
theorem Pending.step {l : Label} (h : s.Pending) (hinv : s.Inv) (hs : s.step l = some s') :
    s'.Pending := by
  cases l with
  | connect ctrlFd calls => exact pending_connect hinv hs
  | call op =>
    obtain ⟨ctx, out, hctx, -, -, -, rfl⟩ := call_eq_some.mp hs
    intro hconn hst
    obtain ⟨⟨fds, up, hup⟩, hslot⟩ := h hconn hst
    exact ⟨⟨fds, up ++ out.effs.filterMap upMsgOf, by rw [hup]; rfl⟩, hslot⟩
  | disconnect =>
    obtain ⟨_, -, rfl⟩ := Option.map_eq_some_iff.mp hs
    exact h
  | accept sendOk =>
    simp only [Joint.step] at hs
    split at hs
    · obtain ⟨_, -, rfl⟩ := Option.map_eq_some_iff.mp hs
      intro hconn
      cases hconn
    · cases hs
  | read sendOk =>
    simp only [Joint.step] at hs
    split at hs
    · rename_i hconn' hup
      obtain ⟨_, -, rfl⟩ := Option.map_eq_some_iff.mp hs
      intro hconn
      simp [hconn'] at hconn
    · cases hs
  | drop =>
    obtain ⟨n, hconn', hs⟩ := Option.bind_eq_some_iff.mp hs
    obtain ⟨_, -, rfl⟩ := Option.map_eq_some_iff.mp hs
    intro hconn
    simp [hconn'] at hconn
  | other e =>
    simp only [Joint.step] at hs
    split_ifs at hs with he
    obtain ⟨w, hw, rfl⟩ := Option.map_eq_some_iff.mp hs
    obtain ⟨-, rfl⟩ := Daemon.World.step_eq_some.mp hw
    intro hconn hst
    obtain ⟨hup, hslot⟩ := h hconn hst
    refine ⟨hup, ?_⟩
    obtain ⟨d', effs, hr, hd, -⟩ := s.daemon.next_reaction e
    rw [show (s.daemon.next e).globals = d' from hd]
    rcases hr.slot_add_sent with heq | ⟨fds, hfds, -⟩
    · rw [hslot] at heq
      exact (add_eq_zero.mp heq).1
    · rw [incoming_ofProducer hinv.daemon.consumer_role he] at hfds
      cases hfds

end Pending

section DeadEnd

/-- In fallback, and no notice can come: nothing is under way, or the daemon has given the
connection up. -/
structure Dead (s : Joint) : Prop where
  started : s.started = true
  fallback : ∀ ctx ∈ s.ctx, ctx.fallback = true
  down : s.down = []
  lost : s.live = 0 ∨ ∃ n, s.conn = some n ∧ s.daemon.globals.consumer ≠ some ⟨n, true⟩

/-- Without a deposit that can be delivered, the daemon has nothing to tell. -/
theorem Dead.daemonPart (h : s.Dead) (hlive : s.live = 0) {effs : List (Daemon.Effect ℕ)}
    (hd : DaemonPart s s' effs) : s'.Dead := by
  have hsent : Daemon.sent effs = 0 := le_zero_iff.mp (hlive ▸ hd.sends)
  obtain ⟨conn, hdown⟩ := hd.down
  refine ⟨hd.started.trans h.started, ?_, ?_, .inl ?_⟩
  · rw [hd.ctx]
    exact h.fallback
  · have hnil : notices conn effs = [] :=
      Multiset.coe_eq_zero _ |>.mp (le_zero_iff.mp (hsent ▸ notices_le conn effs))
    rw [hdown, h.down, hnil, List.append_nil]
  · have hmoves := hd.moves
    have hkept : s'.delivered = s.delivered := by
      rw [delivered, hd.trace, Daemon.sent_append, hsent, add_zero]
      rfl
    rw [hlive, hkept, zero_add] at hmoves
    exact le_zero_iff.mp (by simpa using hmoves)

/-- The daemon does not tell a connection that it has given up. -/
theorem Dead.lostStep (h : s.Dead) {n : ℕ} (hconn : s.conn = some n) (up : List UpMsg)
    {e : Daemon.Event ℕ} (hs : { s with up }.daemonStep e = some s')
    (hlost : (s.daemon.next e).globals.consumer ≠ some ⟨n, true⟩)
    (hrole : ∀ c, (s.daemon.next e).globals.consumer = some c → c.isConsumer = true) :
    s'.Dead := by
  obtain ⟨w, hw, rfl⟩ := Option.map_eq_some_iff.mp hs
  obtain ⟨-, rfl⟩ := Daemon.World.step_eq_some.mp hw
  refine ⟨h.started, h.fallback, ?_, .inr ⟨n, hconn, hlost⟩⟩
  obtain ⟨d', effs, hr, hd, heffs⟩ := s.daemon.next_reaction e
  have hnil : notices s.conn (s.daemon.effects e) = [] := by
    rw [heffs, hconn, notices, if_neg]
    intro htold
    obtain ⟨c, hc, rfl⟩ := hr.told htold
    have hc : (s.daemon.next e).globals.consumer = some c := hd ▸ hc
    apply hlost
    rw [hc, ← hrole c hc]
  change s.down ++ notices s.conn (s.daemon.effects e) = []
  rw [hnil, h.down]
  rfl

theorem Dead.daemonStep {l : Label} (h : s.Dead) (hinv : s.Inv) (hs : s.step l = some s')
    (hconnect : ∀ ctrlFd calls, l ≠ .connect ctrlFd calls) (hcall : ∀ op, l ≠ .call op)
    (hdisconnect : l ≠ .disconnect) : s'.Dead := by
  rcases h.lost with hlive | ⟨n, hconn, hlost⟩
  · obtain ⟨effs, hd⟩ := hinv.daemonPart hs hconnect hcall hdisconnect
    exact h.daemonPart hlive hd
  have hrole : ∀ e c, (s.daemon.next e).globals.consumer = some c → c.isConsumer = true :=
    fun e => (hinv.daemon.next e).consumer_role
  have hclient : ∀ {e : Daemon.Event ℕ} {c : Client}, e.client = some c →
      (s.daemon.next e).globals.consumer ≠ some ⟨n, true⟩ := by
    intro e c he hc
    obtain ⟨d', effs, hr, hd, -⟩ := s.daemon.next_reaction e
    rcases (hr.roles _).1 (hd ▸ hc) with hold | ⟨-, i, rfl⟩
    · exact hlost hold
    · cases he
  cases l with
  | connect ctrlFd calls => exact absurd rfl (hconnect ctrlFd calls)
  | call op => exact absurd rfl (hcall op)
  | disconnect => exact absurd rfl hdisconnect
  | accept sendOk =>
    simp only [Joint.step] at hs
    split at hs
    · rename_i hconn' _
      simp [hconn] at hconn'
    · cases hs
  | read sendOk =>
    simp only [Joint.step] at hs
    split at hs
    · exact h.lostStep hconn _ hs (hclient rfl) (hrole _)
    · cases hs
  | drop =>
    obtain ⟨m, -, hs⟩ := Option.bind_eq_some_iff.mp hs
    exact h.lostStep hconn s.up hs (hclient rfl) (hrole _)
  | other e =>
    simp only [Joint.step] at hs
    split_ifs at hs with he
    refine h.lostStep hconn s.up hs ?_ (hrole _)
    intro hc
    obtain ⟨d', effs, hr, hd, -⟩ := s.daemon.next_reaction e
    exact hlost (consumer_ofProducer hr he (hd ▸ hc))

theorem Dead.step {l : Label} (h : s.Dead) (hinv : s.Inv) (hs : s.step l = some s') :
    s'.Dead := by
  cases l with
  | connect ctrlFd calls =>
    obtain ⟨⟨hst, -⟩, -⟩ := connect_eq_some.mp hs
    simp [h.started] at hst
  | call op =>
    obtain ⟨ctx, out, hctx, hfresh, hdown, hrun, rfl⟩ := call_eq_some.mp hs
    have hfb := h.fallback ctx hctx
    have hread : op.reads ctx = false := by
      by_contra hread
      exact hdown (by simpa using hread) h.down
    -- in fallback a call deposits nothing
    cases op.run_step hfresh (hinv.usable ctx hctx) hread hrun with
    | lost hopen | renewed hopen => simp [hfb] at hopen
    | kept hsame hsends =>
      have hlive : helloIn (s.up ++ out.effs.filterMap upMsgOf) +
          Daemon.slotOf s.daemon.globals.depositedFds = s.live := by
        rw [helloIn_append, helloIn_upMsgs, hsends.hellos, Multiset.coe_nil, add_zero, live]
      refine ⟨h.started, ?_, by simp [hread, h.down], ?_⟩
      · rintro _ ⟨⟩
        exact hsame.fallback.trans hfb
      · rcases h.lost with hzero | hlost
        · exact .inl (hlive.trans hzero)
        · exact .inr hlost
  | disconnect =>
    obtain ⟨_, -, rfl⟩ := Option.map_eq_some_iff.mp hs
    exact ⟨h.started, by simp, h.down, h.lost⟩
  | accept | read | drop | other =>
    exact h.daemonStep hinv hs (by simp) (by simp) (by simp)

theorem Dead.not_recovers (h : s.Dead) (hinv : s.Inv) : ¬ s.Recovers := by
  rintro ⟨t, hreach, ctx, hctx, hfb⟩
  have hkept : t.Inv ∧ t.Dead :=
    hreach.invariant (I := fun s => s.Inv ∧ s.Dead)
      (fun _ _ _ hi hs => ⟨hi.1.step hs, hi.2.step hi.1 hs⟩) ⟨hinv, h⟩
  simp [hkept.2.fallback ctx hctx] at hfb

theorem Inv.dead (hinv : s.Inv) (hctx : ctx ∈ s.ctx) (hfb : ctx.fallback = true)
    (hlost : ¬ s.InTouch) : s.Dead := by
  obtain ⟨hdown, hrest⟩ := not_or.mp hlost
  refine ⟨hinv.started_of_ctx hctx, ?_, by simpa using hdown, ?_⟩
  · intro ctx' hctx'
    obtain rfl : ctx = ctx' := Option.some.inj (hctx.symm.trans hctx')
    exact hfb
  · by_cases hlive : s.live = 0
    · exact .inl hlive
    · have hopen : ¬ s.Open := fun hopen => hrest ⟨hlive, hopen⟩
      simpa [Open] using Or.inr hopen

end DeadEnd

section WayOut

/-- Calls of a fallback that succeed. -/
def okCalls (n : ℕ) : FallbackCalls ℕ where
  bufReadyEfd := some n
  refreshDoneEfd := some (n + 1)
  shm := ⟨some (n + 2), true, true⟩
  hello := ⟨some (n + 3, n + 4), true⟩

theorem okCalls_from (n : ℕ) : (okCalls n).From n := by simp [okCalls, FallbackCalls.From]

theorem Recovers.of_reaches {t : Joint} (hs : Reaches Joint.step s t) (h : t.Recovers) :
    s.Recovers := by
  obtain ⟨u, hreach, hu⟩ := h
  exact ⟨u, hs.trans hreach, hu⟩

/-- A consumer that is told selects its next buffer, and is connected. -/
theorem Inv.recovers_of_notice (hinv : s.Inv) (hctx : ctx ∈ s.ctx) (hfb : ctx.fallback = true)
    (hdown : s.down ≠ []) : s.Recovers := by
  obtain ⟨fds, heq, -, -, hold⟩ := hinv.notice hctx hdown
  obtain ⟨fd, hfd⟩ := Option.isSome_iff_exists.mp hold.isOpen.dataFd
  have hmsg : s.msg = some .fdsReady := by simp [msg, heq]
  have hpush : ({ ctx with fallback := false }.pushDmabufsInternal
      ⟨true, true, okCalls s.nextFd⟩).ctx = { ctx with fallback := false } := by
    unfold Ctx.pushDmabufsInternal
    split
    · rfl
    · simp [hfd]
  have hconn : ((Op.selectDmabuf 0 true ⟨true, true, okCalls s.nextFd⟩).run s.msg ctx).elim False
      (fun out => out.ctx.fallback = false) := by
    simp only [Op.run, Ctx.selectDmabuf, Ctx.tryExitFallback, hfb, hmsg, if_true, hpush,
      Bool.false_eq_true, if_false, Ctx.handOver, Option.elim_some]
    split <;> rfl
  obtain ⟨out, hrun⟩ : ∃ out, (Op.selectDmabuf 0 true ⟨true, true, okCalls s.nextFd⟩).run
      s.msg ctx = some out := ⟨_, rfl⟩
  rw [hrun] at hconn
  have hfresh : s.Fresh (.selectDmabuf 0 true ⟨true, true, okCalls s.nextFd⟩) := by
    rintro calls ⟨⟩
    exact okCalls_from s.nextFd
  exact ⟨_, .single (call_eq_some.mpr ⟨ctx, out, hctx, hfresh, fun _ => hdown, hrun, rfl⟩),
    _, rfl, hconn⟩

/-- A connected consumer is told of what the daemon sends. -/
theorem notices_eq {d d' : Globals ℕ} {fd : ℕ} {e : Daemon.Event ℕ}
    {effs : List (Daemon.Effect ℕ)} (hr : Reaction d fd e (d', effs))
    (hc : d'.consumer = some ⟨n, true⟩) :
    (↑(notices (some n) effs) : Multiset (List ℕ)) = Daemon.sent effs := by
  unfold notices
  dsimp only
  split_ifs with htold
  · rfl
  · have hnil : effs.filterMap Daemon.sentFds = [] := by
      refine List.filterMap_eq_nil_iff.mpr fun x hx => ?_
      cases x with
      | sendFds m fds => exact absurd (hr.tells hc hx) htold
      | _ => rfl
    simp [Daemon.sent, hnil]

/-- While the daemon can tell the consumer, what it takes from the control connection stays
under way. -/
theorem underway_daemonStep {e : Daemon.Event ℕ} {up : List UpMsg}
    {extra : Multiset (List ℕ)} (hs : { s with up, conn := some n }.daemonStep e = some s')
    (hup : helloIn s.up = extra + helloIn up)
    (hslot : ∀ d' effs, Reaction s.daemon.globals s.daemon.accepted e (d', effs) →
      Daemon.slotOf d'.depositedFds + Daemon.sent effs =
        extra + Daemon.slotOf s.daemon.globals.depositedFds)
    (hc : s'.daemon.globals.consumer = some ⟨n, true⟩) : s'.underway = s.underway := by
  obtain ⟨w, hw, rfl⟩ := Option.map_eq_some_iff.mp hs
  obtain ⟨-, rfl⟩ := Daemon.World.step_eq_some.mp hw
  obtain ⟨d', effs, hr, hd, heffs⟩ := s.daemon.next_reaction e
  have hslot := hslot d' effs hr
  have htold := notices_eq hr (hd ▸ hc)
  change helloIn up + Daemon.slotOf (s.daemon.next e).globals.depositedFds +
    ↑(s.down ++ notices (some n) (s.daemon.effects e)) = s.underway
  rw [hd, heffs, ← Multiset.coe_add, htold, underway, live, hup]
  calc helloIn up + Daemon.slotOf d'.depositedFds + (↑s.down + Daemon.sent effs)
      = helloIn up + (Daemon.slotOf d'.depositedFds + Daemon.sent effs) + ↑s.down := by abel
    _ = helloIn up + (extra + Daemon.slotOf s.daemon.globals.depositedFds) + ↑s.down := by
      rw [hslot]
    _ = extra + helloIn up + Daemon.slotOf s.daemon.globals.depositedFds + ↑s.down := by abel

/-- An event that brings no deposit. -/
theorem slot_of_incoming_none {d d' : Globals ℕ} {fd : ℕ} {e : Daemon.Event ℕ}
    {effs : List (Daemon.Effect ℕ)} (hr : Reaction d fd e (d', effs)) (hin : d.incoming e = none) :
    Daemon.slotOf d'.depositedFds + Daemon.sent effs = 0 + Daemon.slotOf d.depositedFds := by
  rw [zero_add]
  rcases hr.slot_add_sent with h | ⟨fds, hfds, -⟩
  · exact h
  · rw [hin] at hfds
    cases hfds

/-- A message of the consumer as the daemon reads it. -/
theorem recvFds_input (m : UpMsg) (ok : Bool) (hfour : ∀ fds, m.fds = some fds → fds.length = 4) :
    ∃ r, recvFds Daemon.maxFds (m.input ok).msg = some r ∧ ctrlMsgSize ≤ r.n ∧
      (m.input ok).readFails = false ∧
      match m with
      | .hello fds => r.hdr.type = .consumerHello ∧ r.fds = fds
      | .screen _ => r.hdr.type = .screenInfo := by
  cases m with
  | hello fds =>
    have htake : fds.take Daemon.maxFds = fds :=
      List.take_of_length_le (by simp [hfour fds rfl, Daemon.maxFds])
    simp [UpMsg.input, Daemon.Input.ofType, recvFds, ctrlMsgSize, Daemon.Input.readFails, htake]
  | screen si =>
    simp [UpMsg.input, Daemon.Input.ofScreen, recvFds, ctrlMsgSize, Daemon.Input.readFails]

/-- A hello of the consumer is put into the slot. -/
theorem slot_hello {d d' : Globals ℕ} {fd : ℕ} {e : Daemon.Event ℕ} {fds : List ℕ} {ok : Bool}
    {effs : List (Daemon.Effect ℕ)} (hr : Reaction d fd e (d', effs)) (hfour : fds.length = 4)
    (he : e = .listen true ((UpMsg.hello fds).input ok) ∨
      ∃ c, d.consumer = some c ∧ e = .readable c ((UpMsg.hello fds).input ok)) :
    Daemon.slotOf d'.depositedFds + Daemon.sent effs = Daemon.slotOf fds := by
  obtain ⟨r, hread, hn, hfails, htype, hfds⟩ := recvFds_input (.hello fds) ok
    (by rintro _ ⟨⟩; exact hfour)
  generalize (UpMsg.hello fds).input ok = i at he hread hfails
  rcases he with rfl | ⟨c, hc, rfl⟩
  · cases hr with
    | ignored hi => exact absurd htype (hi.connection i r rfl hread hn).1
    | consumerGone he | producerGone he => cases he
    | newConsumer hm hn' ht hdep =>
      obtain rfl := Option.some.inj (hm.symm.trans hread)
      have hadd : Daemon.sent [.epollAdd ⟨fd, true⟩] = (0 : Multiset (List ℕ)) :=
        Daemon.sent_of_kind (by simp)
      rw [Daemon.sent_append, Daemon.sent_append, Daemon.sent_of_kind (by simp), zero_add, hadd,
        add_zero, ← hfds]
      exact hdep.slot_add_sent
    | newProducerInformed hm hn' ht | newProducerWaiting hm hn' ht =>
      obtain rfl := Option.some.inj (hm.symm.trans hread)
      simp [htype] at ht
  · cases hr with
    | ignored hi =>
      have hthree := (hi.message c i r rfl hread hfails).1 htype hc
      rw [hfds, hfour] at hthree
      omega
    | consumerGone he hd | producerGone he hd =>
      rw [Daemon.Event.disconnects, hfails] at hd
      cases hd
    | redeposited hm hd ht hc' h3 hdep =>
      obtain rfl := Option.some.inj (hm.symm.trans hread)
      rw [← hfds]
      exact hdep.slot_add_sent
    | screenChanged hm ht | screenForwarded hm ht | screenStored hm ht | pickedUp hm hd ht =>
      obtain rfl := Option.some.inj (hm.symm.trans hread)
      simp [htype] at ht

/-- The daemon can tell the consumer, over the connection that it has accepted. -/
structure Told (s : Joint) (n : ℕ) : Prop where
  conn : s.conn = some n
  consumer : s.daemon.globals.consumer = some ⟨n, true⟩

/-- With one deposit under way, the slot is empty while the hello has not been read. -/
theorem slot_of_hello {fds : List ℕ} {up : List UpMsg} (hcard : s.underway.card ≤ 1)
    (hup : s.up = .hello fds :: up) : Daemon.slotOf s.daemon.globals.depositedFds = 0 := by
  have hone : helloIn s.up = {fds} + helloIn up := by
    rw [hup, helloIn_cons]
    rfl
  rw [underway, live, hone] at hcard
  simp only [Multiset.card_add, Multiset.card_singleton] at hcard
  apply Multiset.card_eq_zero.mp
  omega

/-- What reading `m` puts into the slot. -/
theorem slot_read {e : Daemon.Event ℕ} {m : UpMsg} {up : List UpMsg} {ok : Bool}
    (hinv : s.Inv) (hcard : s.underway.card ≤ 1) (hup : s.up = m :: up)
    (he : e = .listen true (m.input ok) ∨
      ∃ c, s.daemon.globals.consumer = some c ∧ e = .readable c (m.input ok))
    {d' : Globals ℕ} {effs : List (Daemon.Effect ℕ)}
    (hr : Reaction s.daemon.globals s.daemon.accepted e (d', effs)) :
    Daemon.slotOf d'.depositedFds + Daemon.sent effs =
      helloIn [m] + Daemon.slotOf s.daemon.globals.depositedFds := by
  cases m with
  | hello fds =>
    have hfour : fds.length = 4 := hinv.four fds (by rw [hup]; simp [helloIn, UpMsg.fds])
    have hone : helloIn [.hello fds] = Daemon.slotOf fds := by
      rw [Daemon.slotOf_of_ne_nil (List.ne_nil_of_length_pos (by omega))]
      rfl
    rw [slot_of_hello hcard hup, add_zero, hone]
    exact slot_hello hr hfour he
  | screen si =>
    have hnone : s.daemon.globals.incoming e = none := by
      rcases he with rfl | ⟨c, -, rfl⟩ <;>
        simp [Globals.incoming, UpMsg.input, Daemon.Input.ofScreen, recvFds, ctrlMsgSize]
    exact slot_of_incoming_none hr hnone

/-- The daemon takes `extra` from the control connection and can still tell the consumer. -/
theorem told_of_daemonStep {l : Label} {e : Daemon.Event ℕ} {up : List UpMsg}
    {extra : Multiset (List ℕ)} (hl : s.step l = { s with up, conn := some n }.daemonStep e)
    (henabled : s.daemon.Enabled e) (hup : helloIn s.up = extra + helloIn up)
    (hslot : ∀ d' effs, Reaction s.daemon.globals s.daemon.accepted e (d', effs) →
      Daemon.slotOf d'.depositedFds + Daemon.sent effs =
        extra + Daemon.slotOf s.daemon.globals.depositedFds)
    (hc : (s.daemon.next e).globals.consumer = some ⟨n, true⟩) :
    ∃ t, s.step l = some t ∧ t.Told n ∧ t.up = up ∧ t.ctx = s.ctx ∧ t.underway = s.underway ∧
      t.daemon = s.daemon.next e := by
  have hs : ({ s with up, conn := some n } : Joint).daemonStep e = some { s with
      up, conn := some n, daemon := s.daemon.next e
      down := s.down ++ notices (some n) (s.daemon.effects e) } := by
    simp [Joint.daemonStep, Daemon.World.step, henabled]
  exact ⟨_, hl.trans hs, ⟨rfl, hc⟩, rfl, rfl, underway_daemonStep hs hup hslot hc, rfl⟩

/-- The daemon reads the next message of the consumer. -/
theorem Told.read (h : s.Told n) (hinv : s.Inv) (hcard : s.underway.card ≤ 1) {m : UpMsg}
    {up : List UpMsg} (hup : s.up = m :: up) :
    ∃ t, s.step (.read true) = some t ∧ t.Told n ∧ t.up = up ∧ t.ctx = s.ctx ∧
      t.underway = s.underway := by
  have hsplit : helloIn s.up = helloIn [m] + helloIn up := by rw [hup, helloIn_cons]
  have hfour : ∀ fds, m.fds = some fds → fds.length = 4 := by
    intro fds hfds
    apply hinv.four
    rw [hup]
    simp [helloIn, hfds]
  have hl : s.step (.read true) =
      { s with up, conn := some n }.daemonStep (.readable ⟨n, true⟩ (m.input true)) := by
    simp only [Joint.step, h.conn, hup]
  obtain ⟨d', effs, hr, hd, -⟩ :=
    s.daemon.next_reaction (.readable ⟨n, true⟩ (m.input true))
  obtain ⟨-, -, -, hfails, -⟩ := recvFds_input m true hfour
  have hc : d'.consumer = some ⟨n, true⟩ :=
    hr.consumer_stays h.consumer (fun _ => hfails) fun i m hi => by cases hi
  have henabled : s.daemon.Enabled (.readable ⟨n, true⟩ (m.input true)) := by
    rintro c ⟨⟩
    exact (hinv.daemon.live_iff _).mpr (.inl h.consumer)
  obtain ⟨t, hs, htold, hup', hctx, hunder, -⟩ := told_of_daemonStep hl henabled hsplit
    (fun _ _ hr => slot_read hinv hcard hup (.inr ⟨_, h.consumer, rfl⟩) hr) (hd ▸ hc)
  exact ⟨t, hs, htold, hup', hctx, hunder⟩

/-- The daemon accepts the connection of a consumer that has sent its hello. -/
theorem Pending.accept (h : s.Pending) (hinv : s.Inv) (hcard : s.underway.card ≤ 1)
    (hconn : s.conn = none) (hst : s.started = true) :
    ∃ t, s.step (.accept true) = some t ∧ t.Told s.daemon.accepted ∧ t.ctx = s.ctx ∧
      t.underway = s.underway := by
  obtain ⟨⟨fds, up, hup⟩, -⟩ := h hconn hst
  have hsplit : helloIn s.up = helloIn [.hello fds] + helloIn up := by rw [hup, helloIn_cons]
  have hfour : fds.length = 4 := hinv.four fds (by rw [hup]; simp [helloIn, UpMsg.fds])
  have hl : s.step (.accept true) = { s with up, conn := some s.daemon.accepted }.daemonStep
      (.listen true ((UpMsg.hello fds).input true)) := by
    simp only [Joint.step, hst, hconn, hup]
  obtain ⟨d', effs, hr, hd, -⟩ :=
    s.daemon.next_reaction (.listen true ((UpMsg.hello fds).input true))
  obtain ⟨r, hread, hn, -, htype, -⟩ := recvFds_input (.hello fds) true
    (by rintro _ ⟨⟩; exact hfour)
  have hc : d'.consumer = some ⟨s.daemon.accepted, true⟩ := by
    cases hr with
    | ignored hi => exact absurd htype (hi.connection _ r rfl hread hn).1
    | consumerGone he | producerGone he => cases he
    | newConsumer hm hn' ht hdep => exact hdep.frame.consumer
    | newProducerInformed hm hn' ht | newProducerWaiting hm hn' ht =>
      obtain rfl := Option.some.inj (hm.symm.trans hread)
      simp [htype] at ht
  obtain ⟨t, hs, htold, -, hctx, hunder, -⟩ := told_of_daemonStep hl (by rintro c ⟨⟩) hsplit
    (fun _ _ hr => slot_read hinv hcard hup (.inl rfl) hr) (hd ▸ hc)
  exact ⟨t, hs, htold, hctx, hunder⟩

/-- The daemon reads all that the consumer has sent. -/
theorem Told.drain (h : s.Told n) (hinv : s.Inv) (hcard : s.underway.card ≤ 1) :
    ∃ t, Reaches Joint.step s t ∧ t.Told n ∧ t.up = [] ∧ t.ctx = s.ctx ∧
      t.underway = s.underway := by
  induction hup : s.up generalizing s with
  | nil => exact ⟨s, .refl s, h, hup, rfl, rfl⟩
  | cons m up ih =>
    obtain ⟨u, hs, htold, hup', hctx, hunder⟩ := h.read hinv hcard hup
    obtain ⟨t, hreach, htold', hdone, hctx', hunder'⟩ :=
      ih htold (hinv.step hs) (hunder ▸ hcard) hup'
    exact ⟨t, (Reaches.single hs).trans hreach, htold', hdone, hctx'.trans hctx,
      hunder'.trans hunder⟩

/-- Another connection brings in nothing and leaves the consumer alone. -/
theorem Told.other (h : s.Told n) (hinv : s.Inv) {e : Daemon.Event ℕ}
    (he : ofProducer e = true) (henabled : s.daemon.Enabled e) :
    ∃ t, s.step (.other e) = some t ∧ t.Told n ∧ t.up = s.up ∧ t.ctx = s.ctx ∧
      t.underway = s.underway ∧ t.daemon = s.daemon.next e := by
  have hsame : ({ s with up := s.up, conn := some n } : Joint) = s := by rw [← h.conn]
  have hl : s.step (.other e) = { s with up := s.up, conn := some n }.daemonStep e := by
    rw [hsame]
    simp only [Joint.step, he, if_true]
  have hnone := incoming_ofProducer (d := s.daemon.globals) hinv.daemon.consumer_role he
  obtain ⟨d', effs, hr, hd, -⟩ := s.daemon.next_reaction e
  have hc : d'.consumer = some ⟨n, true⟩ := by
    refine hr.consumer_stays h.consumer (fun hclient => ?_) ?_
    · cases e with
      | listen => cases hclient
      | hangup c | readable c =>
        obtain rfl := Option.some.inj hclient
        simp [ofProducer] at he
    · rintro i m rfl hm ht
      simp [ofProducer, hm, ht] at he
  exact told_of_daemonStep hl henabled (zero_add _).symm
    (fun _ _ hr => slot_of_incoming_none hr hnone) (hd ▸ hc)

/-- A producer connects anew. -/
def producerEvent : Daemon.Event ℕ := .listen true (.ofType .producerHello [])

theorem dispatch_producerEvent (d : Globals ℕ) (fd : ℕ) :
    (d.dispatch fd producerEvent).1.producer = some ⟨fd, false⟩ ∧
      (d.dispatch fd producerEvent).1.depositedFds = d.depositedFds := by
  cases hs : d.hasScreenInfo <;>
    simp [Globals.dispatch, Globals.handleNewConnection, producerEvent, Daemon.Input.ofType,
      recvFds, ctrlMsgSize, hs]

/-- It asks for the deposit. -/
theorem dispatch_pickup {d : Globals ℕ} {c : Client} (fd : ℕ) (hp : d.producer = some c)
    (hfour : d.depositedFds.length = 4) :
    (d.dispatch fd (.readable c (.ofType .pickupFds []))).1.depositedFds = [] := by
  simp [Globals.dispatch, Globals.handleClientData, Daemon.Input.ofType, recvFds, ctrlMsgSize,
    Globals.tryDeliverFds, hp, hfour]

/-- A producer takes what is deposited. -/
theorem Told.collect (h : s.Told n) (hinv : s.Inv) (hmade : s.Made) (hup : s.up = []) :
    ∃ t, Reaches Joint.step s t ∧ t.live = 0 ∧ t.ctx = s.ctx ∧ t.underway = s.underway := by
  by_cases hempty : s.daemon.globals.depositedFds = []
  · refine ⟨s, .refl s, ?_, rfl, rfl⟩
    rw [live, hup, hempty]
    rfl
  have hslot := Daemon.slotOf_of_ne_nil hempty
  obtain ⟨k, hk⟩ := hmade s.daemon.globals.depositedFds (by simp [live, hslot])
  obtain ⟨u, hs, htold, hup', hctx, hunder, hdaemon⟩ :=
    h.other hinv (e := producerEvent) rfl (by rintro c ⟨⟩)
  obtain ⟨hprod, hdep⟩ := dispatch_producerEvent s.daemon.globals s.daemon.accepted
  have hprod' : u.daemon.globals.producer = some ⟨s.daemon.accepted, false⟩ := hdaemon ▸ hprod
  have hdep' : u.daemon.globals.depositedFds = depositFrom k := hdaemon ▸ hdep.trans hk
  obtain ⟨t, hs', -, hup'', hctx', hunder', hdaemon'⟩ :=
    htold.other (hinv.step hs)
      (e := .readable ⟨s.daemon.accepted, false⟩ (.ofType .pickupFds [])) rfl (by
        rintro c ⟨⟩
        exact ((hinv.step hs).daemon.live_iff _).mpr (.inr hprod'))
  have hgone : t.daemon.globals.depositedFds = [] := by
    rw [hdaemon']
    exact dispatch_pickup u.daemon.accepted hprod' (by rw [hdep']; rfl)
  refine ⟨t, (Reaches.single hs).trans (.single hs'), ?_, hctx'.trans hctx, hunder'.trans hunder⟩
  rw [live, hgone, hup'', hup', hup]
  rfl

/-- The deposit is accepted, read, taken by a producer, and the consumer is told. -/
theorem Pending.recovers (h : s.Pending) (hinv : s.Inv) (hmade : s.Made) (hctx : ctx ∈ s.ctx)
    (hfb : ctx.fallback = true) (htouch : s.InTouch) : s.Recovers := by
  rcases htouch with hdown | ⟨hlive, hopen⟩
  · exact hinv.recovers_of_notice hctx hfb hdown
  have hcard := hinv.single ctx hctx
  have hinvs : ∀ {t}, Reaches Joint.step s t → t.Inv ∧ t.Made := fun hreach =>
    hreach.invariant (I := fun s => s.Inv ∧ s.Made)
      (fun _ _ _ hi hs => ⟨hi.1.step hs, hi.2.step hi.1 hs⟩) ⟨hinv, hmade⟩
  obtain ⟨u, hreach, n, htold, hctx', hunder⟩ : ∃ u, Reaches Joint.step s u ∧ ∃ n, u.Told n ∧
      u.ctx = s.ctx ∧ u.underway = s.underway := by
    cases hconn : s.conn with
    | none =>
      obtain ⟨u, hs, htold, hctx', hunder⟩ := h.accept hinv hcard hconn (hinv.started_of_ctx hctx)
      exact ⟨u, .single hs, _, htold, hctx', hunder⟩
    | some n => exact ⟨s, .refl s, n, ⟨hconn, hopen n hconn⟩, rfl, rfl⟩
  obtain ⟨v, hreach', htold', hup, hctx'', hunder'⟩ :=
    htold.drain (hinvs hreach).1 (hunder ▸ hcard)
  have hreach' := hreach.trans hreach'
  obtain ⟨t, hreach'', hzero, hctx₃, hunder''⟩ :=
    htold'.collect (hinvs hreach').1 (hinvs hreach').2 hup
  have hreach'' := hreach'.trans hreach''
  apply Recovers.of_reaches hreach''
  have hmem : ctx ∈ t.ctx := by
    rw [hctx₃, hctx'', hctx']
    exact hctx
  refine (hinvs hreach'').1.recovers_of_notice hmem hfb ?_
  intro hdown
  have hall := (hunder''.trans hunder').trans hunder
  rw [underway, hzero, hdown, underway] at hall
  have hzero : s.live + ↑s.down = 0 := hall.symm
  exact hlive (add_eq_zero.mp hzero).1

end WayOut

end Joint

/-- In a run, a consumer in fallback has a way out exactly while it is in touch with the
daemon. -/
theorem recovers_iff_inTouch (ls : List Label) :
    Always Joint.step (fun s => ∀ ctx ∈ s.ctx, ctx.fallback = true → (s.Recovers ↔ s.InTouch))
      .initial ls := by
  apply always_of_invariant (I := fun s => s.Inv ∧ s.Made ∧ s.Pending)
  · rintro s l s' ⟨hinv, hmade, hpending⟩ hs
    exact ⟨hinv.step hs, hmade.step hinv hs, hpending.step hinv hs⟩
  · rintro s ⟨hinv, hmade, hpending⟩ ctx hctx hfb
    constructor
    · intro hrec
      by_contra hlost
      exact (hinv.dead hctx hfb hlost).not_recovers hinv hrec
    · exact hpending.recovers hinv hmade hctx hfb
  · exact ⟨Joint.inv_initial, Joint.made_initial, Joint.pending_initial⟩

end Consumer
end ACGlass
