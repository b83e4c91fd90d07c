import ACGlass.Consumer.Generations

/-!
# The latest delivery

The deliveries of the daemon in the order in which it made them. The channel of a
connected consumer is the one that was delivered last, and so is the one that an unread
notice is about. Every deposit has the four descriptors that one fallback opened.
-/

namespace ACGlass

namespace Daemon

variable {φ : Type*}

/-- The deposits that went to a producer, in order. -/
def deliveries (effs : List (Effect φ)) : List (List φ) := effs.filterMap sentFds

theorem deliveries_append (effs effs' : List (Effect φ)) :
    deliveries (effs ++ effs') = deliveries effs ++ deliveries effs' :=
  List.filterMap_append

theorem deliveries_eq_nil {effs : List (Effect φ)} (h : sent effs = 0) : deliveries effs = [] :=
  Multiset.coe_eq_zero _ |>.mp h

end Daemon

namespace Consumer

open Transition
open Daemon (deliveries)

namespace Joint

/-- The consumer's channel and its notices are about the latest delivery. -/
structure Latest (s : Joint) : Prop where
  held : ∀ ctx ∈ s.ctx, ctx.fallback = false →
    ∃ fds, (deliveries s.daemon.trace).getLast? = some fds ∧ ctx.Holds fds
  notified : s.ctx.isSome → ∀ fds ∈ s.down, (deliveries s.daemon.trace).getLast? = some fds

/-- Every deposit was made by a fallback. -/
def Made (s : Joint) : Prop := ∀ fds ∈ s.live + s.delivered, ∃ n, fds = depositFrom n

variable {s s' : Joint}

theorem latest_initial : initial.Latest where
  held := by simp [initial]
  notified := by simp [initial]

theorem made_initial : initial.Made := fun fds h => absurd h (Multiset.notMem_zero fds)

/-- What a step of the daemon does to the rest of the state. -/
structure DaemonPart (s s' : Joint) (effs : List (Daemon.Effect ℕ)) : Prop where
  ctx : s'.ctx = s.ctx
  started : s'.started = s.started
  trace : s'.daemon.trace = s.daemon.trace ++ effs
  down : ∃ conn, s'.down = s.down ++ notices conn effs
  sends : Daemon.sent effs ≤ s.live
  moves : s'.live + s'.delivered ≤ s.live + s.delivered

/-- The daemon reads `extra` from the control connection, and leaves `up`. -/
theorem daemonPart_of_daemonStep {up : List UpMsg} {conn : Option ℕ} {e : Daemon.Event ℕ}
    {extra : Multiset (List ℕ)} (hs : { s with up, conn }.daemonStep e = some s')
    (hup : helloIn s.up = extra + helloIn up)
    (hin : ∀ fds, s.daemon.globals.incoming e = some fds → Daemon.slotOf fds ≤ extra) :
    DaemonPart s s' (s.daemon.effects e) := by
  have hmoves := (daemonStep_counts hs hin).1
  obtain ⟨w, hw, rfl⟩ := Option.map_eq_some_iff.mp hs
  obtain ⟨-, rfl⟩ := Daemon.World.step_eq_some.mp hw
  refine ⟨rfl, rfl, rfl, ⟨conn, rfl⟩, ?_, ?_⟩
  · obtain ⟨d', effs, hr, -, heffs⟩ := s.daemon.next_reaction e
    have hsent : Daemon.sent effs ≤ extra + Daemon.slotOf s.daemon.globals.depositedFds := by
      rcases hr.slot_add_sent with h | ⟨fds, hfds, h⟩
      · exact (h ▸ Multiset.le_add_left _ _ :
          Daemon.sent effs ≤ Daemon.slotOf s.daemon.globals.depositedFds).trans
            (Multiset.le_add_left _ _)
      · exact ((h ▸ Multiset.le_add_left _ _ : Daemon.sent effs ≤ Daemon.slotOf fds).trans
          (hin fds hfds)).trans (Multiset.le_add_right _ _)
    rw [heffs]
    calc Daemon.sent effs ≤ extra + Daemon.slotOf s.daemon.globals.depositedFds := hsent
      _ ≤ helloIn s.up + Daemon.slotOf s.daemon.globals.depositedFds := by
        rw [hup]
        gcongr
        exact Multiset.le_add_right _ _
  · refine hmoves.trans (le_of_eq ?_)
    simp only [live, delivered, hup]
    abel

/-- Steps of the others are steps of the daemon. -/
theorem Inv.daemonPart {l : Label} (h : s.Inv) (hs : s.step l = some s')
    (hconnect : ∀ ctrlFd calls, l ≠ .connect ctrlFd calls) (hcall : ∀ op, l ≠ .call op)
    (hdisconnect : l ≠ .disconnect) : ∃ effs, DaemonPart s s' effs := by
  have hnothing : helloIn s.up = 0 + helloIn s.up := (zero_add _).symm
  have hread : ∀ m up, s.up = m :: up → helloIn s.up = helloIn [m] + helloIn up ∧
      ∀ fds ∈ helloIn [m], fds.length = 4 := by
    intro m up hup
    have hsplit : helloIn s.up = helloIn [m] + helloIn up := by rw [hup, helloIn_cons]
    refine ⟨hsplit, fun fds hfds => h.four fds ?_⟩
    rw [hsplit]
    exact Multiset.mem_add.mpr (.inl hfds)
  cases l with
  | connect ctrlFd calls => exact absurd rfl (hconnect ctrlFd calls)
  | call op => exact absurd rfl (hcall op)
  | disconnect => exact absurd rfl hdisconnect
  | accept sendOk =>
    simp only [Joint.step] at hs
    split at hs
    · rename_i m up hst hconn hup
      obtain ⟨hsplit, hfour⟩ := hread m up hup
      exact ⟨_, daemonPart_of_daemonStep hs hsplit (incoming_input (.inl rfl) hfour)⟩
    · cases hs
  | read sendOk =>
    simp only [Joint.step] at hs
    split at hs
    · rename_i n m up hconn hup
      obtain ⟨hsplit, hfour⟩ := hread m up hup
      exact ⟨_, daemonPart_of_daemonStep hs hsplit (incoming_input (.inr ⟨_, rfl⟩) hfour)⟩
    · cases hs
  | drop =>
    obtain ⟨n, -, hs⟩ := Option.bind_eq_some_iff.mp hs
    exact ⟨_, daemonPart_of_daemonStep hs hnothing fun fds hfds => by cases hfds⟩
  | other e =>
    simp only [Joint.step] at hs
    split_ifs at hs with he
    refine ⟨_, daemonPart_of_daemonStep hs hnothing fun fds hfds => ?_⟩
    rw [incoming_ofProducer h.daemon.consumer_role he] at hfds
    cases hfds

/-- A delivery is announced while no other announcement is unread. -/
theorem Latest.daemonPart (h : s.Latest) (hinv : s.Inv) (hinv' : s'.Inv)
    {effs : List (Daemon.Effect ℕ)} (hd : DaemonPart s s' effs) : s'.Latest := by
  have hquiet : s.live = 0 → deliveries s'.daemon.trace = deliveries s.daemon.trace := by
    intro hlive
    have hnil : deliveries effs = [] :=
      Daemon.deliveries_eq_nil (le_zero_iff.mp (hlive ▸ hd.sends))
    rw [hd.trace, Daemon.deliveries_append, hnil, List.append_nil]
  constructor
  · intro ctx hctx hfb
    have hctx : s.ctx = some ctx := hd.ctx ▸ hctx
    rw [hquiet (underway_eq_zero (hinv.idle ctx hctx hfb)).1]
    exact h.held ctx hctx hfb
  · intro hsome fds hfds
    have hsome : s.ctx.isSome := hd.ctx ▸ hsome
    obtain ⟨ctx, hctx⟩ := Option.isSome_iff_exists.mp hsome
    obtain ⟨conn, hdown⟩ := hd.down
    by_cases hempty : s.down = []
    -- the announcement is new, and about the only deposit under way
    · have hnotices : fds ∈ notices conn effs := by simpa [hdown, hempty] using hfds
      have hle : s'.down.length ≤ 1 := by
        have hcard := hinv'.single ctx (hd.ctx.trans hctx)
        rw [underway, Multiset.card_add, Multiset.coe_card] at hcard
        omega
      have hall : notices conn effs = deliveries effs := by
        unfold notices at hnotices ⊢
        split at hnotices
        · cases hnotices
        · split_ifs at hnotices ⊢
          · rfl
          · cases hnotices
      rw [hdown, hempty, List.nil_append, hall] at hle
      obtain ⟨fds', hone⟩ := List.length_eq_one_iff.mp
        (le_antisymm hle (List.length_pos_of_mem (hall ▸ hnotices)))
      obtain rfl : fds = fds' := by simpa [hall, hone] using hnotices
      rw [hd.trace, Daemon.deliveries_append, hone]
      simp
    · obtain ⟨fds', heq, hlive, -⟩ := hinv.notice hctx hempty
      have hnil : notices conn effs = [] := by
        have hle := (notices_le conn effs).trans hd.sends
        rw [hlive] at hle
        exact Multiset.coe_eq_zero _ |>.mp (le_zero_iff.mp hle)
      rw [hquiet hlive]
      apply h.notified hsome
      simpa [hdown, hnil] using hfds

theorem Latest.call (h : s.Latest) (hinv : s.Inv) {op : Op ℕ}
    (hs : s.step (.call op) = some s') : s'.Latest := by
  obtain ⟨ctx, out, hctx, hfresh, hdown, hrun, rfl⟩ := call_eq_some.mp hs
  cases hread : op.reads ctx with
  | false =>
    have hstep := op.run_step hfresh (hinv.usable ctx hctx) hread hrun
    constructor
    · rintro _ ⟨⟩ hfb
      obtain ⟨hsame, -⟩ := hstep.same_of_fallback hfb
      obtain ⟨fds, hlast, hold⟩ := h.held ctx hctx (hsame.fallback ▸ hfb)
      exact ⟨fds, hlast, hsame.holds hold⟩
    · intro _ fds hfds
      exact h.notified (by simp [hctx]) fds (by simpa [hread] using hfds)
  | true =>
    obtain ⟨fds, heq, -, -, hold⟩ := hinv.notice hctx (hdown hread)
    have hlast := h.notified (by simp [hctx]) fds (by simp [heq])
    have hmsg : s.msg = some .fdsReady := by simp [msg, heq]
    have hstep := op.run_step_of_reads hfresh hold.isOpen hread (hmsg ▸ hrun)
    constructor
    · rintro _ ⟨⟩ hfb
      obtain ⟨hsame, -⟩ := hstep.same_of_fallback hfb
      exact ⟨fds, hlast, hsame.holds hold⟩
    · intro _ fds hfds
      simp [heq] at hfds

theorem connect_eq_some {ctrlFd : Option ℕ} {calls : FallbackCalls ℕ} :
    s.step (.connect ctrlFd calls) = some s' ↔ (s.started = false ∧ calls.From s.nextFd) ∧
      { s with
        ctx := (connectToDeamon ctrlFd calls).1
        started := (connectToDeamon ctrlFd calls).1.isSome
        up := (connectToDeamon ctrlFd calls).2.filterMap upMsgOf
        nextFd := s.nextFd + 5 } = s' := by
  simp only [Joint.step, Option.ite_none_right_eq_some, Option.some.injEq]

/-- A new context is in fallback, and nothing is left from before. -/
theorem Inv.latest_connect (hinv : s.Inv) {ctrlFd : Option ℕ}
    {calls : FallbackCalls ℕ} (hs : s.step (.connect ctrlFd calls) = some s') : s'.Latest := by
  obtain ⟨⟨hst, hf⟩, rfl⟩ := connect_eq_some.mp hs
  obtain ⟨-, hdown, -⟩ := underway_eq_zero (hinv.unstarted hst).2.2
  constructor
  · rintro ctx hctx hfb
    rcases connectToDeamon_cases ctrlFd hf with ⟨hnone, -⟩ | ⟨ctx', hsome, hfb', -⟩
    · simp [hnone] at hctx
    · obtain rfl : ctx = ctx' := by simpa [hsome, eq_comm] using hctx
      simp [hfb'] at hfb
  · intro _ fds hfds
    simp [hdown] at hfds

/-- A call deposits at most what its fallback opens. -/
theorem Inv.live_call (h : s.Inv) {op : Op ℕ} (hs : s.step (.call op) = some s') :
    s'.live + s'.delivered ≤ {depositFrom s.nextFd} + (s.live + s.delivered) := by
  obtain ⟨ctx, out, hctx, hfresh, hdown, hrun, rfl⟩ := call_eq_some.mp hs
  have hstep : ∃ ctx₀, ChannelStep s.nextFd ctx₀ out.ctx out.effs := by
    cases hread : op.reads ctx with
    | false => exact ⟨ctx, op.run_step hfresh (h.usable ctx hctx) hread hrun⟩
    | true =>
      obtain ⟨fds, heq, -, -, hold⟩ := h.notice hctx (hdown hread)
      have hmsg : s.msg = some .fdsReady := by simp [msg, heq]
      exact ⟨_, op.run_step_of_reads hfresh hold.isOpen hread (hmsg ▸ hrun)⟩
  obtain ⟨ctx₀, hstep⟩ := hstep
  have hhellos : (↑(hellos out.effs) : Multiset (List ℕ)) ≤ {depositFrom s.nextFd} := by
    cases hstep with
    | kept _ hs | lost _ _ hs => simp [hs.hellos]
    | renewed _ _ hs => simp [hs.hellos]
  simp only [live, delivered, helloIn_append, helloIn_upMsgs]
  calc helloIn s.up + ↑(hellos out.effs) + Daemon.slotOf s.daemon.globals.depositedFds +
          Daemon.sent s.daemon.trace
      = ↑(hellos out.effs) + (helloIn s.up + Daemon.slotOf s.daemon.globals.depositedFds +
          Daemon.sent s.daemon.trace) := by abel
    _ ≤ _ := by gcongr

theorem Inv.live_connect (h : s.Inv) {ctrlFd : Option ℕ} {calls : FallbackCalls ℕ}
    (hs : s.step (.connect ctrlFd calls) = some s') :
    s'.live + s'.delivered ≤ {depositFrom s.nextFd} + (s.live + s.delivered) := by
  obtain ⟨⟨hst, hf⟩, rfl⟩ := connect_eq_some.mp hs
  obtain ⟨hlive, -⟩ := underway_eq_zero (h.unstarted hst).2.2
  obtain ⟨-, hslot⟩ := add_eq_zero.mp hlive
  have hhellos : (↑(hellos (connectToDeamon ctrlFd calls).2) : Multiset (List ℕ)) ≤
      {depositFrom s.nextFd} := by
    rcases connectToDeamon_cases ctrlFd hf with ⟨-, hno⟩ | ⟨ctx, -, -, -, hhello⟩
    · simp [hno]
    · simp [hhello]
  rw [hlive, zero_add]
  simp only [live, delivered, helloIn_upMsgs, hslot, add_zero]
  gcongr

theorem Inv.live_step {l : Label} (h : s.Inv) (hs : s.step l = some s') :
    s'.live + s'.delivered ≤ {depositFrom s.nextFd} + (s.live + s.delivered) := by
  cases l with
  | connect ctrlFd calls => exact h.live_connect hs
  | call op => exact h.live_call hs
  | disconnect =>
    obtain ⟨_, -, rfl⟩ := Option.map_eq_some_iff.mp hs
    exact Multiset.le_add_left _ _
  | accept | read | drop | other =>
    obtain ⟨effs, hd⟩ := h.daemonPart hs (by simp) (by simp) (by simp)
    exact hd.moves.trans (Multiset.le_add_left _ _)

theorem Made.step {l : Label} (h : s.Made) (hinv : s.Inv) (hs : s.step l = some s') :
    s'.Made := by
  intro fds hfds
  rcases Multiset.mem_add.mp (Multiset.mem_of_le (hinv.live_step hs) hfds) with hnew | hold
  · exact ⟨s.nextFd, Multiset.mem_singleton.mp hnew⟩
  · exact h fds hold

theorem Latest.step {l : Label} (h : s.Latest) (hinv : s.Inv) (hs : s.step l = some s') :
    s'.Latest := by
  cases l with
  | connect ctrlFd calls => exact hinv.latest_connect hs
  | call op => exact h.call hinv hs
  | disconnect =>
    obtain ⟨_, -, rfl⟩ := Option.map_eq_some_iff.mp hs
    exact ⟨by simp, by simp⟩
  | accept | read | drop | other =>
    obtain ⟨effs, hd⟩ := hinv.daemonPart hs (by simp) (by simp) (by simp)
    exact h.daemonPart hinv (hinv.step hs) hd

end Joint

end Consumer
end ACGlass
