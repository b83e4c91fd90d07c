import ACGlass.Consumer.Joint

/-!
# One generation at a time

`FDS_READY` carries no number. It is still about the generation that the consumer
holds, because outside of fallback nothing of the consumer is under way, and in
fallback at most one deposit is: in the control connection, in the daemon's slot, or
delivered with its notice not yet read.
-/

namespace ACGlass
namespace Consumer

open Transition

/-- What holds of every step. -/
structure GenerationLaw (s : Joint) (l : Label) (s' : Joint) : Prop where
  /-- A deposit goes to one producer at most. -/
  once : (Daemon.sent s'.daemon.trace).Nodup
  /-- A notice that ends a fallback is about the generation held in the context. -/
  current : ∀ ctx op, s.ctx = some ctx → l = .call op → op.reads ctx = true →
    ∃ fds, s.down.head? = some fds ∧ fds ∈ Daemon.sent s.daemon.trace ∧ ctx.Holds fds
  /-- Nothing else ends a fallback. -/
  clears : ∀ ctx ctx', s.ctx = some ctx → s'.ctx = some ctx' → ctx.fallback = true →
    ctx'.fallback = false → ∃ op, l = .call op ∧ op.reads ctx = true
  usable : ∀ ctx, s'.ctx = some ctx → ctx.fallback = false → ctx.Open
  noNullWrite : ∀ ctx op out, s.ctx = some ctx → l = .call op → op.run s.msg ctx = some out →
    NoNullWrite out.effs

/-- Deposits on their way to the daemon. -/
def helloIn (up : List UpMsg) : Multiset (List ℕ) := ↑(up.filterMap UpMsg.fds)

namespace Joint

/-- Deposits that can still be delivered. -/
def live (s : Joint) : Multiset (List ℕ) :=
  helloIn s.up + Daemon.slotOf s.daemon.globals.depositedFds

def delivered (s : Joint) : Multiset (List ℕ) := Daemon.sent s.daemon.trace

/-- All of the consumer's deposits that are under way. -/
def underway (s : Joint) : Multiset (List ℕ) := s.live + ↑s.down

structure Inv (s : Joint) : Prop where
  daemon : s.daemon.Inv
  owner : ∀ c, s.daemon.globals.consumer = some c → s.conn = some c.ctrlFd
  unstarted : s.started = false → s.ctx = none ∧ s.conn = none ∧ s.underway = 0
  four : ∀ fds ∈ helloIn s.up, fds.length = 4
  single : ∀ ctx, s.ctx = some ctx → s.underway.card ≤ 1
  held : ∀ ctx, s.ctx = some ctx → ∀ fds ∈ s.underway, ctx.Holds fds
  idle : ∀ ctx, s.ctx = some ctx → ctx.fallback = false → s.underway = 0
  usable : ∀ ctx, s.ctx = some ctx → ctx.fallback = false → ctx.Open
  once : (s.live + s.delivered).Nodup
  old : ∀ fds ∈ s.live + s.delivered, ∀ fd ∈ fds, fd < s.nextFd
  told : ∀ fds ∈ s.down, fds ∈ s.delivered

end Joint

section Messages

theorem helloIn_append (up up' : List UpMsg) :
    helloIn (up ++ up') = helloIn up + helloIn up' := by
  rw [helloIn, List.filterMap_append, ← Multiset.coe_add]
  rfl

theorem helloIn_cons (m : UpMsg) (up : List UpMsg) :
    helloIn (m :: up) = helloIn [m] + helloIn up :=
  helloIn_append [m] up

/-- What a call sends to the daemon are its hellos. -/
theorem helloIn_upMsgs (effs : List (Effect ℕ)) :
    helloIn (effs.filterMap upMsgOf) = ↑(hellos effs) := by
  have hcomp : (fun x => (upMsgOf x).bind UpMsg.fds) = (helloOf : Effect ℕ → _) := by
    funext x
    cases x <;> rfl
  simp only [helloIn, hellos, List.filterMap_filterMap, hcomp]

theorem notices_le (conn : Option ℕ) (effs : List (Daemon.Effect ℕ)) :
    (↑(notices conn effs) : Multiset (List ℕ)) ≤ Daemon.sent effs := by
  unfold notices
  split
  · exact Multiset.zero_le _
  · split_ifs
    · exact le_rfl
    · exact Multiset.zero_le _

/-- Reading a message brings in the deposit that it carries, and no other. -/
theorem incoming_input {d : Daemon.Globals ℕ} {m : UpMsg} {ok : Bool} {e : Daemon.Event ℕ}
    (he : e = .listen true (m.input ok) ∨ ∃ c, e = .readable c (m.input ok))
    (hfour : ∀ fds ∈ helloIn [m], fds.length = 4) (fds : List ℕ) (h : d.incoming e = some fds) :
    Daemon.slotOf fds ≤ helloIn [m] := by
  cases m with
  | hello fds' =>
    have hlen : fds'.length = 4 := hfour fds' (by simp [helloIn, UpMsg.fds])
    have hfds : fds = fds' := by
      have htake : fds'.take Daemon.maxFds = fds' :=
        List.take_of_length_le (by simp [hlen, Daemon.maxFds])
      rcases he with rfl | ⟨c, rfl⟩
      · simpa [Daemon.Globals.incoming, UpMsg.input, Daemon.Input.ofType, recvFds, ctrlMsgSize,
          htake, eq_comm] using h
      · simp [Daemon.Globals.incoming, UpMsg.input, Daemon.Input.ofType, recvFds, ctrlMsgSize,
          htake] at h
        exact h.2.symm
    subst hfds
    rw [Daemon.slotOf_of_ne_nil (List.ne_nil_of_length_pos (by omega))]
    simp [helloIn, UpMsg.fds]
  | screen si =>
    rcases he with rfl | ⟨c, rfl⟩ <;>
      simp [Daemon.Globals.incoming, UpMsg.input, Daemon.Input.ofScreen, recvFds, ctrlMsgSize] at h

/-- Another connection brings in no deposit. -/
theorem incoming_ofProducer {d : Daemon.Globals ℕ} {e : Daemon.Event ℕ}
    (hrole : ∀ c, d.consumer = some c → c.isConsumer = true) (he : ofProducer e = true) :
    d.incoming e = none := by
  cases e with
  | listen accepted i =>
    cases accepted with
    | false => rfl
    | true =>
      simp only [ofProducer] at he
      simp only [Daemon.Globals.incoming]
      cases hm : recvFds Daemon.maxFds i.msg with
      | none => rfl
      | some m => simp_all
  | hangup c => rfl
  | readable c i =>
    have hc : d.consumer ≠ some c := by
      intro hc
      simp [ofProducer, hrole c hc] at he
    simp only [Daemon.Globals.incoming, hc, and_false, if_false]
    split <;> rfl

/-- Another connection does not become the consumer. -/
theorem consumer_ofProducer {d d' : Daemon.Globals ℕ} {fd : ℕ} {e : Daemon.Event ℕ}
    {effs : List (Daemon.Effect ℕ)} (hr : Daemon.Reaction d fd e (d', effs))
    (he : ofProducer e = true) {c : Daemon.Client} (hc : d'.consumer = some c) :
    d.consumer = some c := by
  cases hr with
  | newConsumer hm hn ht hdep => simp [ofProducer, hm, ht] at he
  | consumerGone => simp at hc
  | redeposited hm hd ht hc' h3 hdep => rwa [hdep.frame.consumer] at hc
  | screenChanged => rwa [Daemon.Globals.resetProducer_consumer] at hc
  | pickedUp hm hd ht hp hdel => rwa [hdel.frame.consumer] at hc
  | _ => exact hc

end Messages

namespace Joint

variable {s s' : Joint}

theorem inv_initial : initial.Inv where
  daemon := Daemon.World.inv_initial
  owner := by simp [initial, Daemon.World.initial, Daemon.Globals.initial]
  unstarted := fun _ => ⟨rfl, rfl, rfl⟩
  four := by simp [initial, helloIn]
  single := by simp [initial]
  held := by simp [initial]
  idle := by simp [initial]
  usable := by simp [initial]
  once := Multiset.nodup_zero
  old := fun fds h => absurd h (Multiset.notMem_zero fds)
  told := by simp [initial]

/-- Without a context, what is left to show is about the deposits. -/
theorem Inv.of_noCtx (hctx : s.ctx = none) (daemon : s.daemon.Inv)
    (owner : ∀ c, s.daemon.globals.consumer = some c → s.conn = some c.ctrlFd)
    (unstarted : s.started = false → s.ctx = none ∧ s.conn = none ∧ s.underway = 0)
    (four : ∀ fds ∈ helloIn s.up, fds.length = 4) (once : (s.live + s.delivered).Nodup)
    (old : ∀ fds ∈ s.live + s.delivered, ∀ fd ∈ fds, fd < s.nextFd)
    (told : ∀ fds ∈ s.down, fds ∈ s.delivered) : s.Inv where
  daemon := daemon
  owner := owner
  unstarted := unstarted
  four := four
  single := by simp [hctx]
  held := by simp [hctx]
  idle := by simp [hctx]
  usable := by simp [hctx]
  once := once
  old := old
  told := told

/-- A step of the daemon that takes `extra` from the control connection moves deposits
on and makes no new ones. -/
theorem daemonStep_counts {e : Daemon.Event ℕ} {extra : Multiset (List ℕ)}
    (hs : s.daemonStep e = some s')
    (hin : ∀ fds, s.daemon.globals.incoming e = some fds → Daemon.slotOf fds ≤ extra) :
    s'.live + s'.delivered ≤ extra + (s.live + s.delivered) ∧
      s'.underway ≤ extra + s.underway ∧
      ∀ fds ∈ s'.down, fds ∈ s.down ∨ fds ∈ s'.delivered := by
  obtain ⟨w, hw, rfl⟩ := Option.map_eq_some_iff.mp hs
  obtain ⟨-, rfl⟩ := Daemon.World.step_eq_some.mp hw
  obtain ⟨d', effs, hr, hd, heffs⟩ := s.daemon.next_reaction e
  have hslot : Daemon.slotOf d'.depositedFds + Daemon.sent effs ≤
      extra + Daemon.slotOf s.daemon.globals.depositedFds := by
    rcases hr.slot_add_sent with h | ⟨fds, hfds, h⟩
    · rw [h]
      exact Multiset.le_add_left _ _
    · rw [h]
      exact (hin fds hfds).trans (Multiset.le_add_right _ _)
  have htrace : Daemon.sent (s.daemon.next e).trace =
      Daemon.sent s.daemon.trace + Daemon.sent effs := by
    rw [← heffs, ← Daemon.sent_append]
    rfl
  have hnote := notices_le s.conn effs
  have hdown : (↑(s.down ++ notices s.conn (s.daemon.effects e)) : Multiset (List ℕ)) =
      ↑s.down + ↑(notices s.conn effs) := by
    rw [heffs, ← Multiset.coe_add]
  simp only [live, delivered, underway, hd, htrace, hdown]
  generalize Daemon.slotOf d'.depositedFds = slot' at hslot ⊢
  generalize Daemon.slotOf s.daemon.globals.depositedFds = slot at hslot ⊢
  generalize Daemon.sent effs = now at hslot hnote htrace ⊢
  generalize (↑(notices s.conn effs) : Multiset (List ℕ)) = notes at hnote hdown ⊢
  refine ⟨?_, ?_, ?_⟩
  · calc helloIn s.up + slot' + (Daemon.sent s.daemon.trace + now)
        = (helloIn s.up + Daemon.sent s.daemon.trace) + (slot' + now) := by abel
      _ ≤ (helloIn s.up + Daemon.sent s.daemon.trace) + (extra + slot) := by gcongr
      _ = extra + (helloIn s.up + slot + Daemon.sent s.daemon.trace) := by abel
  · calc helloIn s.up + slot' + (↑s.down + notes)
        = (helloIn s.up + ↑s.down) + (slot' + notes) := by abel
      _ ≤ (helloIn s.up + ↑s.down) + (slot' + now) := by gcongr
      _ ≤ (helloIn s.up + ↑s.down) + (extra + slot) := by gcongr
      _ = extra + (helloIn s.up + slot + ↑s.down) := by abel
  · intro fds hfds
    have hmem : fds ∈ (↑s.down : Multiset (List ℕ)) + notes := by
      rw [← hdown]
      exact hfds
    rcases Multiset.mem_add.mp hmem with h | h
    · exact .inl h
    · exact .inr (Multiset.mem_add.mpr (.inr (Multiset.mem_of_le hnote h)))

/-- The daemon reads `extra` from the control connection, and leaves `up`. -/
theorem Inv.daemonStep {up : List UpMsg} {conn : Option ℕ} {e : Daemon.Event ℕ}
    {extra : Multiset (List ℕ)} (h : s.Inv) (hs : { s with up, conn }.daemonStep e = some s')
    (hup : helloIn s.up = extra + helloIn up) (hstarted : s.started = false → conn = none)
    (hin : ∀ fds, s.daemon.globals.incoming e = some fds → Daemon.slotOf fds ≤ extra)
    (howner : ∀ c, s'.daemon.globals.consumer = some c → conn = some c.ctrlFd) : s'.Inv := by
  obtain ⟨hlive, hunder, htold⟩ := daemonStep_counts hs hin
  have hlive' : s'.live + s'.delivered ≤ s.live + s.delivered := by
    refine hlive.trans (le_of_eq ?_)
    simp only [live, delivered, hup]
    abel
  have hunder' : s'.underway ≤ s.underway := by
    refine hunder.trans (le_of_eq ?_)
    simp only [live, underway, hup]
    abel
  obtain ⟨w, hw, rfl⟩ := Option.map_eq_some_iff.mp hs
  refine ⟨h.daemon.step hw, howner, ?_, ?_, ?_, ?_, ?_, h.usable, ?_, ?_, ?_⟩
  · intro hst
    obtain ⟨hctx, -, hzero⟩ := h.unstarted hst
    exact ⟨hctx, hstarted hst, le_zero_iff.mp (hzero ▸ hunder')⟩
  · intro fds hfds
    exact h.four fds (by rw [hup]; exact Multiset.mem_add.mpr (.inr hfds))
  · intro ctx hctx
    exact (Multiset.card_le_card hunder').trans (h.single ctx hctx)
  · intro ctx hctx fds hfds
    exact h.held ctx hctx fds (Multiset.mem_of_le hunder' hfds)
  · intro ctx hctx hfb
    exact le_zero_iff.mp (h.idle ctx hctx hfb ▸ hunder')
  · exact Multiset.nodup_of_le hlive' h.once
  · intro fds hfds
    exact h.old fds (Multiset.mem_of_le hlive' hfds)
  · intro fds hfds
    rcases htold fds hfds with hold | hnew
    · have hmem := h.told fds hold
      have hgrow : s.delivered ≤ _ := Daemon.sent_le_of_step hw
      exact Multiset.mem_of_le hgrow hmem
    · exact hnew

theorem underway_eq_zero (h : s.underway = 0) :
    s.live = 0 ∧ s.down = [] ∧ helloIn s.up = 0 := by
  obtain ⟨hlive, hdown⟩ := add_eq_zero.mp h
  obtain ⟨hup, -⟩ := add_eq_zero.mp hlive
  exact ⟨hlive, Multiset.coe_eq_zero _ |>.mp hdown, hup⟩

theorem lt_of_mem_depositFrom {n fd : ℕ} (h : fd ∈ depositFrom n) : fd < n + 5 := by
  simp [depositFrom] at h
  omega

theorem Inv.started_of_ctx (h : s.Inv) {ctx : Ctx ℕ} (hctx : s.ctx = some ctx) :
    s.started = true := by
  by_contra hst
  simp [(h.unstarted (by simpa using hst)).1] at hctx

/-- Without a new deposit the channel stays, or it is lost while nothing is under way. -/
theorem Inv.quiet (h : s.Inv) {ctx ctx' : Ctx ℕ} (hctx : s.ctx = some ctx) {up : List UpMsg}
    (hup : helloIn up = helloIn s.up)
    (hch : SameChannel ctx ctx' ∨ ctx.fallback = false ∧ ctx'.fallback = true) :
    { s with ctx := some ctx', up, nextFd := s.nextFd + 5 }.Inv := by
  have hlive : helloIn up + Daemon.slotOf s.daemon.globals.depositedFds = s.live := by
    rw [hup, live]
  have hunder : helloIn up + Daemon.slotOf s.daemon.globals.depositedFds + ↑s.down =
      s.underway := by
    rw [hlive, underway]
  refine ⟨h.daemon, h.owner, ?_, ?_, ?_, ?_, ?_, ?_, ?_, ?_, h.told⟩
  · intro hst
    have hst' : s.started = true := h.started_of_ctx hctx
    simp [hst'] at hst
  · intro fds hfds
    exact h.four fds (hup ▸ hfds)
  · rintro _ ⟨⟩
    exact le_of_eq_of_le (congrArg Multiset.card hunder) (h.single ctx hctx)
  · rintro _ ⟨⟩ fds hfds
    have hfds : fds ∈ s.underway := hunder ▸ hfds
    rcases hch with hsame | ⟨hfb, -⟩
    · exact hsame.holds (h.held ctx hctx fds hfds)
    · rw [h.idle ctx hctx hfb] at hfds
      exact absurd hfds (Multiset.notMem_zero fds)
  · rintro _ ⟨⟩ hfb
    refine hunder.trans ?_
    rcases hch with hsame | ⟨hfb', -⟩
    · exact h.idle ctx hctx (hsame.fallback ▸ hfb)
    · exact h.idle ctx hctx hfb'
  · rintro _ ⟨⟩ hfb
    rcases hch with hsame | ⟨-, hfb'⟩
    · exact hsame.isOpen (h.usable ctx hctx (hsame.fallback ▸ hfb))
    · simp [hfb'] at hfb
  · change (helloIn up + _ + s.delivered).Nodup
    rw [hlive]
    exact h.once
  · intro fds hfds fd hfd
    have hfds : fds ∈ s.live + s.delivered := hlive ▸ hfds
    have := h.old fds hfds fd hfd
    change fd < s.nextFd + 5
    omega

/-- A deposit of new descriptors is made while no other is under way. -/
theorem Inv.deposit (h : s.Inv) (hzero : s.underway = 0) {ctx : Ctx ℕ} {up : List UpMsg}
    (hup : helloIn up = {depositFrom s.nextFd}) (hfb : ctx.fallback = true)
    (hold : ctx.Holds (depositFrom s.nextFd)) :
    { s with ctx := some ctx, started := true, up, nextFd := s.nextFd + 5 }.Inv := by
  obtain ⟨hl, hdown, -⟩ := underway_eq_zero hzero
  obtain ⟨-, hslot⟩ := add_eq_zero.mp hl
  have hlive : helloIn up + Daemon.slotOf s.daemon.globals.depositedFds =
      {depositFrom s.nextFd} := by
    rw [hup, hslot, add_zero]
  have hunder : helloIn up + Daemon.slotOf s.daemon.globals.depositedFds + ↑s.down =
      {depositFrom s.nextFd} := by
    rw [hlive, hdown, Multiset.coe_nil, add_zero]
  have hnew : depositFrom s.nextFd ∉ s.delivered := by
    intro hmem
    have := h.old _ (Multiset.mem_add.mpr (.inr hmem)) s.nextFd (by simp [depositFrom])
    omega
  refine ⟨h.daemon, h.owner, by simp, ?_, ?_, ?_, ?_, ?_, ?_, ?_, h.told⟩
  · intro fds hfds
    obtain rfl := Multiset.mem_singleton.mp (hup ▸ hfds)
    rfl
  · rintro _ ⟨⟩
    exact le_of_eq (congrArg Multiset.card hunder)
  · rintro _ ⟨⟩ fds hfds
    have hfds : fds ∈ ({depositFrom s.nextFd} : Multiset (List ℕ)) := hunder ▸ hfds
    obtain rfl := Multiset.mem_singleton.mp hfds
    exact hold
  · rintro _ ⟨⟩ hfb'
    simp [hfb] at hfb'
  · rintro _ ⟨⟩ hfb'
    simp [hfb] at hfb'
  · change (helloIn up + _ + s.delivered).Nodup
    rw [hlive, Multiset.singleton_add, Multiset.nodup_cons]
    exact ⟨hnew, Multiset.nodup_of_le (Multiset.le_add_left _ _) h.once⟩
  · intro fds hfds fd hfd
    change fd < s.nextFd + 5
    have hfds : fds ∈ {depositFrom s.nextFd} + s.delivered := hlive ▸ hfds
    rcases Multiset.mem_add.mp hfds with hfds | hfds
    · obtain rfl := Multiset.mem_singleton.mp hfds
      exact lt_of_mem_depositFrom hfd
    · have := h.old fds (Multiset.mem_add.mpr (.inr hfds)) fd hfd
      omega

theorem Inv.channelStep (h : s.Inv) {ctx ctx' : Ctx ℕ} {effs : List (Effect ℕ)}
    (hctx : s.ctx = some ctx) (hstep : ChannelStep s.nextFd ctx ctx' effs) :
    { s with
      ctx := some ctx', up := s.up ++ effs.filterMap upMsgOf, nextFd := s.nextFd + 5 }.Inv := by
  have hup : helloIn (s.up ++ effs.filterMap upMsgOf) = helloIn s.up + ↑(hellos effs) := by
    rw [helloIn_append, helloIn_upMsgs]
  cases hstep with
  | kept hsame hs =>
    rw [hs.hellos, Multiset.coe_nil, add_zero] at hup
    exact h.quiet hctx hup (.inl hsame)
  | lost hfb hfb' hs =>
    rw [hs.hellos, Multiset.coe_nil, add_zero] at hup
    exact h.quiet hctx hup (.inr ⟨hfb, hfb'⟩)
  | renewed hfb hfb' hs hold =>
    have hzero := h.idle ctx hctx hfb
    rw [hs.hellos, Multiset.coe_singleton, (underway_eq_zero hzero).2.2, zero_add] at hup
    have hst := h.started_of_ctx hctx
    have := h.deposit hzero hup hfb' hold
    rwa [← hst] at this

/-- The notice at the head of `down` is the only deposit under way, and the context
holds it. -/
theorem Inv.notice (h : s.Inv) {ctx : Ctx ℕ} (hctx : s.ctx = some ctx)
    (hdown : s.down ≠ []) :
    ∃ fds, s.down = [fds] ∧ s.live = 0 ∧ fds ∈ s.delivered ∧ ctx.Holds fds := by
  obtain ⟨fds, rest, heq⟩ := List.exists_cons_of_ne_nil hdown
  have hcard := h.single ctx hctx
  rw [underway, heq, Multiset.card_add, Multiset.coe_card, List.length_cons] at hcard
  have hrest : rest = [] := List.eq_nil_of_length_eq_zero (by omega)
  have hlive : s.live = 0 := Multiset.card_eq_zero.mp (by omega)
  have hmem : fds ∈ s.underway := by
    rw [underway, heq]
    simp
  exact ⟨fds, by rw [heq, hrest], hlive, h.told fds (by simp [heq]), h.held ctx hctx fds hmem⟩

/-- Reading the notice leaves nothing under way, and a channel that can be used. -/
theorem Inv.readNotice (h : s.Inv) {ctx : Ctx ℕ} (hctx : s.ctx = some ctx)
    (hdown : s.down ≠ []) :
    { s with ctx := some { ctx with fallback := false }, down := s.down.tail }.Inv := by
  obtain ⟨fds, heq, hlive, -, hold⟩ := h.notice hctx hdown
  have hopen := hold.isOpen
  have hzero : ({ s with
      ctx := some { ctx with fallback := false }, down := s.down.tail } : Joint).underway = 0 := by
    change s.live + ↑s.down.tail = 0
    rw [hlive, heq]
    rfl
  refine ⟨h.daemon, h.owner, ?_, h.four, ?_, ?_, ?_, ?_, h.once, h.old, ?_⟩
  · intro hst
    simp [h.started_of_ctx hctx] at hst
  · intro c _
    simp [hzero]
  · intro c _ fds hfds
    rw [hzero] at hfds
    exact absurd hfds (Multiset.notMem_zero fds)
  · intro c _ _
    exact hzero
  · rintro _ ⟨⟩ -
    exact ⟨hopen.shmPtr, hopen.dataFd, hopen.bufReadyEfd, hopen.refreshDoneEfd⟩
  · simp [heq]

theorem call_eq_some {op : Op ℕ} :
    s.step (.call op) = some s' ↔ ∃ ctx out, s.ctx = some ctx ∧ s.Fresh op ∧
      (op.reads ctx = true → s.down ≠ []) ∧ op.run s.msg ctx = some out ∧
      { s with
        ctx := some out.ctx, up := s.up ++ out.effs.filterMap upMsgOf
        down := if op.reads ctx then s.down.tail else s.down, nextFd := s.nextFd + 5 } = s' := by
  simp only [Joint.step, Option.bind_eq_some_iff, Option.ite_none_right_eq_some,
    Option.map_eq_some_iff]
  constructor
  · rintro ⟨ctx, hctx, ⟨hfresh, hdown⟩, out, hrun, hs⟩
    exact ⟨ctx, out, hctx, hfresh, hdown, hrun, hs⟩
  · rintro ⟨ctx, out, hctx, hfresh, hdown, hrun, hs⟩
    exact ⟨ctx, hctx, ⟨hfresh, hdown⟩, out, hrun, hs⟩

theorem Inv.call (h : s.Inv) {op : Op ℕ} (hs : s.step (.call op) = some s') : s'.Inv := by
  obtain ⟨ctx, out, hctx, hfresh, hdown, hrun, rfl⟩ := call_eq_some.mp hs
  cases hread : op.reads ctx with
  | false =>
    have hstep := op.run_step hfresh (h.usable ctx hctx) hread hrun
    simpa [hread] using h.channelStep hctx hstep
  | true =>
    obtain ⟨fds, heq, -, -, hold⟩ := h.notice hctx (hdown hread)
    have hmsg : s.msg = some .fdsReady := by simp [msg, heq]
    have hstep := op.run_step_of_reads hfresh hold.isOpen hread (hmsg ▸ hrun)
    simpa [hread] using (h.readNotice hctx (hdown hread)).channelStep rfl hstep

theorem Inv.connect (h : s.Inv) {ctrlFd : Option ℕ} {calls : FallbackCalls ℕ}
    (hs : s.step (.connect ctrlFd calls) = some s') : s'.Inv := by
  simp only [step] at hs
  split_ifs at hs with hguard
  obtain ⟨hst, hf⟩ := hguard
  obtain ⟨-, hconn, hzero⟩ := h.unstarted hst
  obtain ⟨hl, hdown, hup⟩ := underway_eq_zero hzero
  obtain ⟨-, hslot⟩ := add_eq_zero.mp hl
  rcases connectToDeamon_cases ctrlFd hf with
    ⟨hnone, hno⟩ | ⟨ctx, hsome, hfb, hold, hhello⟩
  · have hno' : helloIn ((connectToDeamon ctrlFd calls).2.filterMap upMsgOf) = 0 := by
      rw [helloIn_upMsgs, hno]
      rfl
    have hlive : helloIn ((connectToDeamon ctrlFd calls).2.filterMap upMsgOf) +
        Daemon.slotOf s.daemon.globals.depositedFds = s.live := by
      rw [hno', hslot, hl]
      rfl
    cases hs
    rw [hnone]
    apply Inv.of_noCtx rfl
    · exact h.daemon
    · exact h.owner
    · intro _
      refine ⟨rfl, hconn, ?_⟩
      change helloIn _ + _ + (↑s.down : Multiset (List ℕ)) = 0
      rw [hlive, hl, hdown]
      rfl
    · intro fds hfds
      rw [hno'] at hfds
      exact absurd hfds (Multiset.notMem_zero fds)
    · change (helloIn _ + _ + s.delivered).Nodup
      rw [hlive]
      exact h.once
    · intro fds hfds fd hfd
      have hfds : fds ∈ s.live + s.delivered := hlive ▸ hfds
      have := h.old fds hfds fd hfd
      change fd < s.nextFd + 5
      omega
    · exact h.told
  · have hhello' : helloIn ((connectToDeamon ctrlFd calls).2.filterMap upMsgOf) =
        {depositFrom s.nextFd} := by
      rw [helloIn_upMsgs, hhello]
      rfl
    cases hs
    rw [hsome]
    exact h.deposit hzero hhello' hfb hold

/-- An event of a client makes no other client the consumer. -/
theorem consumer_of_client {w w' : Daemon.World ℕ} {e : Daemon.Event ℕ} {c c' : Daemon.Client}
    (hw : w.step e = some w') (he : e.client = some c) (hc : w'.globals.consumer = some c') :
    w.globals.consumer = some c' := by
  obtain ⟨-, rfl⟩ := Daemon.World.step_eq_some.mp hw
  obtain ⟨d', effs, hr, hd, -⟩ := w.next_reaction e
  rcases (hr.roles c').1 (hd ▸ hc) with hold | ⟨-, i, rfl⟩
  · exact hold
  · cases he

theorem Inv.disconnect (h : s.Inv) (hs : s.step .disconnect = some s') : s'.Inv := by
  obtain ⟨ctx, hctx, rfl⟩ := Option.map_eq_some_iff.mp hs
  apply Inv.of_noCtx rfl
  · exact h.daemon
  · exact h.owner
  · intro hst
    exact ⟨rfl, (h.unstarted hst).2⟩
  · exact h.four
  · exact h.once
  · exact h.old
  · exact h.told

/-- The daemon accepts the connection with the first hello on it. -/
theorem Inv.accept {sendOk : Bool} (h : s.Inv) (hs : s.step (.accept sendOk) = some s') :
    s'.Inv := by
  simp only [Joint.step] at hs
  split at hs
  · rename_i m up hst hconn hup
    have hup' : helloIn s.up = helloIn [m] + helloIn up := by rw [hup, helloIn_cons]
    refine h.daemonStep hs hup' (by simp [hst]) (incoming_input (.inl rfl) ?_) ?_
    · intro fds hfds
      exact h.four fds (by rw [hup']; exact Multiset.mem_add.mpr (.inl hfds))
    intro c hc
    obtain ⟨w, hw, rfl⟩ := Option.map_eq_some_iff.mp hs
    obtain ⟨-, rfl⟩ := Daemon.World.step_eq_some.mp hw
    obtain ⟨d', effs, hr, hd, -⟩ := s.daemon.next_reaction (.listen true (m.input sendOk))
    rcases (hr.roles c).1 (hd ▸ hc) with hold | ⟨rfl, -⟩
    · simp [h.owner c hold] at hconn
    · rfl
  · cases hs

theorem Inv.read {sendOk : Bool} (h : s.Inv) (hs : s.step (.read sendOk) = some s') : s'.Inv := by
  simp only [Joint.step] at hs
  split at hs
  · rename_i n m up hconn hup
    have hup' : helloIn s.up = helloIn [m] + helloIn up := by rw [hup, helloIn_cons]
    refine h.daemonStep hs hup' ?_ (incoming_input (.inr ⟨_, rfl⟩) ?_) ?_
    · intro hst
      exact (h.unstarted hst).2.1
    · intro fds hfds
      exact h.four fds (by rw [hup']; exact Multiset.mem_add.mpr (.inl hfds))
    · intro c hc
      obtain ⟨w, hw, rfl⟩ := Option.map_eq_some_iff.mp hs
      exact h.owner c (consumer_of_client hw rfl hc)
  · cases hs

/-- The daemon finds that the connection is gone. -/
theorem Inv.drop (h : s.Inv) (hs : s.step .drop = some s') : s'.Inv := by
  obtain ⟨n, hconn, hs⟩ := Option.bind_eq_some_iff.mp hs
  have hup : helloIn s.up = 0 + helloIn s.up := (zero_add _).symm
  refine h.daemonStep hs hup ?_ ?_ ?_
  · intro hst
    exact (h.unstarted hst).2.1
  · intro fds hfds
    cases hfds
  · intro c hc
    obtain ⟨w, hw, rfl⟩ := Option.map_eq_some_iff.mp hs
    exact h.owner c (consumer_of_client hw rfl hc)

/-- An event of another connection. -/
theorem Inv.other {e : Daemon.Event ℕ} (h : s.Inv) (hs : s.step (.other e) = some s') :
    s'.Inv := by
  simp only [Joint.step] at hs
  split_ifs at hs with he
  have hup : helloIn s.up = 0 + helloIn s.up := (zero_add _).symm
  refine h.daemonStep hs hup ?_ ?_ ?_
  · intro hst
    exact (h.unstarted hst).2.1
  · intro fds hfds
    rw [incoming_ofProducer h.daemon.consumer_role he] at hfds
    cases hfds
  · intro c hc
    obtain ⟨w, hw, rfl⟩ := Option.map_eq_some_iff.mp hs
    obtain ⟨-, rfl⟩ := Daemon.World.step_eq_some.mp hw
    obtain ⟨d', effs, hr, hd, -⟩ := s.daemon.next_reaction e
    exact h.owner c (consumer_ofProducer hr he (hd ▸ hc))

theorem Inv.step {l : Label} (h : s.Inv) (hs : s.step l = some s') : s'.Inv := by
  cases l with
  | connect ctrlFd calls => exact h.connect hs
  | call op => exact h.call hs
  | disconnect => exact h.disconnect hs
  | accept sendOk => exact h.accept hs
  | read sendOk => exact h.read hs
  | drop => exact h.drop hs
  | other e => exact h.other hs

theorem ctx_daemonStep {e : Daemon.Event ℕ} (hs : s.daemonStep e = some s') :
    s'.ctx = s.ctx := by
  obtain ⟨w, -, rfl⟩ := Option.map_eq_some_iff.mp hs
  rfl

/-- Steps of the others leave the context as it is. -/
theorem ctx_step {l : Label} {ctx ctx' : Ctx ℕ} (h : s.Inv) (hs : s.step l = some s')
    (hctx : s.ctx = some ctx) (hctx' : s'.ctx = some ctx') (hl : ∀ op, l ≠ .call op) :
    ctx' = ctx := by
  suffices hsame : s'.ctx = s.ctx by
    rw [hsame, hctx] at hctx'
    exact (Option.some.inj hctx').symm
  cases l with
  | connect ctrlFd calls =>
    simp only [Joint.step] at hs
    split_ifs at hs with hguard
    simp [(h.unstarted hguard.1).1] at hctx
  | call op => exact absurd rfl (hl op)
  | disconnect =>
    obtain ⟨_, -, rfl⟩ := Option.map_eq_some_iff.mp hs
    cases hctx'
  | accept sendOk =>
    simp only [Joint.step] at hs
    split at hs
    · have := ctx_daemonStep hs
      exact this
    · cases hs
  | read sendOk =>
    simp only [Joint.step] at hs
    split at hs
    · have := ctx_daemonStep hs
      exact this
    · cases hs
  | drop =>
    obtain ⟨n, -, hs⟩ := Option.bind_eq_some_iff.mp hs
    exact ctx_daemonStep hs
  | other e =>
    simp only [Joint.step] at hs
    split_ifs at hs
    exact ctx_daemonStep hs

theorem Inv.call_noNullWrite (h : s.Inv) {op : Op ℕ} {ctx : Ctx ℕ} {out : Out ℕ}
    (hctx : s.ctx = some ctx) (hfresh : s.Fresh op)
    (hdown : op.reads ctx = true → s.down ≠ []) (hrun : op.run s.msg ctx = some out) :
    NoNullWrite out.effs := by
  cases hread : op.reads ctx with
  | false => exact (op.run_step hfresh (h.usable ctx hctx) hread hrun).noNullWrite
  | true =>
    obtain ⟨fds, heq, -, -, hold⟩ := h.notice hctx (hdown hread)
    have hmsg : s.msg = some .fdsReady := by simp [msg, heq]
    exact (op.run_step_of_reads hfresh hold.isOpen hread (hmsg ▸ hrun)).noNullWrite

theorem Inv.law {l : Label} (h : s.Inv) (hs : s.step l = some s') : GenerationLaw s l s' := by
  have h' := h.step hs
  refine ⟨Multiset.nodup_of_le (Multiset.le_add_left _ _) h'.once, ?_, ?_, h'.usable, ?_⟩
  · rintro ctx op hctx rfl hread
    obtain ⟨_, out, hctx', -, hdown, -⟩ := call_eq_some.mp hs
    obtain rfl : ctx = _ := Option.some.inj (hctx.symm.trans hctx')
    obtain ⟨fds, heq, -, hmem, hold⟩ := h.notice hctx (hdown hread)
    exact ⟨fds, by simp [heq], hmem, hold⟩
  · intro ctx ctx' hctx hctx' hfb hfb'
    by_contra hno
    by_cases hl : ∃ op, l = .call op
    · obtain ⟨op, rfl⟩ := hl
      have hread : op.reads ctx = false := by
        by_contra hread
        exact hno ⟨op, rfl, by simpa using hread⟩
      obtain ⟨_, out, hctx₁, hfresh, hdown, hrun, rfl⟩ := call_eq_some.mp hs
      obtain rfl : ctx = _ := Option.some.inj (hctx.symm.trans hctx₁)
      cases hctx'
      cases op.run_step hfresh (h.usable ctx hctx) hread hrun with
      | kept hsame => simp [hsame.fallback, hfb] at hfb'
      | lost hopen => simp [hfb] at hopen
      | renewed hopen => simp [hfb] at hopen
    · obtain rfl := ctx_step h hs hctx hctx' fun op hop => hl ⟨op, hop⟩
      simp [hfb] at hfb'
  · rintro ctx op out hctx rfl hrun
    obtain ⟨_, _, hctx₁, hfresh, hdown, -⟩ := call_eq_some.mp hs
    obtain rfl : ctx = _ := Option.some.inj (hctx.symm.trans hctx₁)
    exact h.call_noNullWrite hctx hfresh hdown hrun

end Joint

/-- Every step of every run obeys the law. -/
theorem generationLaw_of_run (ls : List Label) :
    Along Joint.step GenerationLaw Joint.initial ls :=
  along_of_invariant (fun _ _ _ h hs => h.step hs) (fun _ _ _ h hs => h.law hs)
    Joint.inv_initial ls

end Consumer
end ACGlass
