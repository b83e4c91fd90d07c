import ACGlass.Daemon.Handover
import ACGlass.Producer.Requests

/-!
# Deliveries answer requests

The daemon remembers that the producer waits and not for how many requests, and a
`try_reconnect` that gives up takes nothing back. A delivery still answers a request
that is open, and comes while the producer is in fallback unless it has asked again
before it was answered.
-/

namespace ACGlass
namespace Producer

open Transition

namespace Joint

/-- The daemon's calls of a step. -/
def news (s s' : Joint) : List (Daemon.Effect ℕ) := s'.daemon.trace.drop s.daemon.trace.length

/-- The daemon sends descriptors. -/
def Delivers (s s' : Joint) : Prop := ∃ x ∈ s.news s', x.kind = .fds

instance (s s' : Joint) : Decidable (s.Delivers s') :=
  inferInstanceAs (Decidable (∃ x ∈ s.news s', x.kind = .fds))

/-- The context, if there is one, waits for descriptors. -/
def InFallback (s : Joint) : Prop := ∀ ctx ∈ s.phase.ctx, ctx.fallback = true

instance (s : Joint) : Decidable s.InFallback :=
  inferInstanceAs (Decidable (∀ ctx ∈ s.phase.ctx, ctx.fallback = true))

end Joint

/-- Nothing is delivered to a producer outside of fallback. -/
def OnlyInFallback (s : Joint) (_ : Label) (s' : Joint) : Prop := s.Delivers s' → s.InFallback

instance (s : Joint) (l : Label) (s' : Joint) : Decidable (OnlyInFallback s l s') :=
  inferInstanceAs (Decidable (_ → _))

/-- What holds of every step. The `FDS_READY` sent so far are those read and those in
`down`. -/
structure SolicitedLaw (s : Joint) (l : Label) (s' : Joint) : Prop where
  solicited : s.Delivers s' → s.answered + s.answers < s.asked
  target : ∀ p fds, .sendFds p fds ∈ s.news s' → s.conn = some p
  told : ∀ c, .sendCtrl c .fdsReady ∈ s.news s' → s.Delivers s'
  asks : s.asked < s'.asked → s.InFallback
  inFallback : s.overlapped = false → OnlyInFallback s l s'

/-- Steps of the producer's. -/
def Label.ofLibrary : Label → Bool
  | .accept _ | .read _ | .drop | .consumer _ => false
  | _ => true

namespace Joint

variable {s s' : Joint} {n : ℕ} {l : Label}

theorem news_of_daemon (h : s'.daemon = s.daemon) : s.news s' = [] := by
  rw [news, h, List.drop_length]

theorem news_of_daemonStep {e : Daemon.Event ℕ} (hs : s.daemonStep e = some s') :
    s.news s' = s.daemon.effects e := by
  obtain ⟨-, rfl⟩ := daemonStep_eq_some.mp hs
  exact List.drop_left

theorem effects_hangup (w : Daemon.World ℕ) (c : Daemon.Client) :
    ∀ x ∈ w.effects (.hangup c), x.kind ≠ .fds := by
  intro x hx
  change x ∈ (w.globals.handleDisconnect c).2 at hx
  unfold Daemon.Globals.handleDisconnect at hx
  split_ifs at hx <;> simp_all

/-- A delivery on a consumer's event is to the producer that waits. -/
theorem Inv.sends_of_consumer (h : s.Inv) {e : Daemon.Event ℕ} (he : ofConsumer e = true)
    {p : ℕ} {fds : List ℕ} (hx : .sendFds p fds ∈ s.daemon.effects e) :
    s.conn = some p ∧ 1 ≤ s.waits := by
  obtain ⟨d', effs, hr, -, heffs⟩ := s.daemon.next_reaction e
  have hmem : DownMsg.fdsReady fds ∈ effs.filterMap (downMsgOf p) :=
    List.mem_filterMap.mpr ⟨_, heffs ▸ hx, by simp [downMsgOf]⟩
  have hlink := link_reaction (n := p) hr h.daemon.producer_role he
  generalize effs.filterMap (downMsgOf p) = msgs at hlink hmem
  cases hlink with
  | apart | quiet => cases hmem
  | informed => simp at hmem
  | delivered fds' hlinked _ hw =>
    have hconn : s.conn = some p := h.others _ hlinked
    exact ⟨hconn, by rw [waits_of_conn hconn, if_pos ⟨hlinked, hw⟩]⟩

/-- A delivery on a `PICKUP_FDS` is to the producer that sent it. -/
theorem Inv.sends_of_pickup (h : s.Inv) {ok : Bool}
    (henabled : s.daemon.Enabled (pickupEvent n ok)) {p : ℕ} {fds : List ℕ}
    (hx : .sendFds p fds ∈ s.daemon.effects (pickupEvent n ok)) : s.Linked p := by
  by_contra hapart
  have hmem : DownMsg.fdsReady fds ∈
      (s.daemon.effects (pickupEvent n ok)).filterMap (downMsgOf p) :=
    List.mem_filterMap.mpr ⟨_, hx, by simp [downMsgOf]⟩
  rw [filterMap_delivery (h.delivery_of_pickup henabled) h.daemon.producer_role hapart] at hmem
  cases hmem

/-- A step of the library leaves the daemon alone. -/
theorem daemon_of_library (hl : l.ofLibrary = true) (hs : s.step l = some s') :
    s'.daemon = s.daemon := by
  cases step_cases hs with
  | accept | read | drop | consumer => cases hl
  | readScreen | request => split <;> rfl
  | connect | pickup | fail | enterFallback | answer | giveUp | disconnect => rfl

/-- A step of the daemon is one event, and no `PICKUP_FDS` is sent. -/
theorem event_of_daemon (hl : l.ofLibrary = false) (hs : s.step l = some s') :
    (∃ e, s.news s' = s.daemon.effects e) ∧ s'.asked = s.asked := by
  have hevent : ∀ {s₀ : Joint} {e : Daemon.Event ℕ}, s₀.daemonStep e = some s' →
      s₀.daemon = s.daemon → s₀.asked = s.asked →
      (∃ e, s.news s' = s.daemon.effects e) ∧ s'.asked = s.asked := by
    intro s₀ e hs hd ha
    have hnews : s.news s' = s.daemon.effects e := by
      rw [news, ← hd]
      exact news_of_daemonStep hs
    obtain ⟨-, rfl⟩ := daemonStep_eq_some.mp hs
    exact ⟨⟨e, hnews⟩, ha⟩
  cases step_cases hs with
  | accept hconn hup hs => exact hevent hs rfl rfl
  | read hconn hup hs => exact hevent hs rfl rfl
  | drop hconn hs => exact hevent hs rfl rfl
  | consumer he hs => exact hevent hs rfl rfl
  | _ => cases hl

theorem Inv.sends (h : s.Inv) (hs : s.step l = some s') {p : ℕ} {fds : List ℕ}
    (hx : .sendFds p fds ∈ s.news s') :
    s.conn = some p ∧ 1 ≤ s.up.count .pickupFds + s.waits := by
  cases hl : l.ofLibrary with
  | true =>
    rw [news_of_daemon (daemon_of_library hl hs)] at hx
    cases hx
  | false =>
    cases step_cases hs with
    | @accept s' up readOk hconn hup hs =>
      have hnews := news_of_daemonStep hs
      change s.news s' = s.daemon.effects _ at hnews
      rw [hnews] at hx
      cases readOk with
      | false => simp [Daemon.World.effects, dispatch_unreadable] at hx
      | true =>
        simp only [Daemon.World.effects, if_true,
          dispatch_producerHello _ (h.producer_eq_none hconn)] at hx
        split_ifs at hx <;> simp at hx
    | @read s' n t up sendOk hconn hup hs =>
      obtain rfl : t = .pickupFds := h.requests (by simp [hconn]) t (by simp [hup])
      have hnews := news_of_daemonStep hs
      change s.news s' = s.daemon.effects (pickupEvent n sendOk) at hnews
      rw [hnews] at hx
      have hlinked := h.sends_of_pickup (daemonStep_eq_some.mp hs).1 hx
      exact ⟨h.others _ hlinked, by rw [hup, List.count_cons_self]; omega⟩
    | drop hconn hs =>
      rw [news_of_daemonStep hs] at hx
      exact absurd rfl (effects_hangup _ _ _ hx)
    | consumer he hs =>
      rw [news_of_daemonStep hs] at hx
      obtain ⟨hconn, hw⟩ := h.sends_of_consumer he hx
      exact ⟨hconn, le_add_left hw⟩
    | _ => cases hl

/-- Outside of fallback the only open requests are repeated ones. -/
theorem Inv.inFallback (h : s.Inv) (hopen : s.answered < s.asked) (hov : s.overlapped = false) :
    s.InFallback := by
  intro ctx hctx
  have hstage := h.stage
  generalize s.phase = phase at hctx hstage
  cases hstage with
  | absent | gone => cases hctx
  | connecting hfb =>
    cases hctx
    exact hfb
  | reading _ hfb => exact hfb ctx hctx
  | idle _ hcur =>
    cases hctx
    by_contra hfb
    have := hcur (by simpa using hfb) hov
    omega

/-- `PICKUP_FDS` is sent in fallback only. -/
theorem Inv.asks (h : s.Inv) (hs : s.step l = some s') (hasked : s.asked < s'.asked) :
    s.InFallback := by
  cases hl : l.ofLibrary with
  | false =>
    obtain ⟨-, hsame⟩ := event_of_daemon hl hs
    omega
  | true =>
    cases step_cases hs with
    | accept | read | drop | consumer => cases hl
    | @readScreen ctx si down hphase hdown =>
      intro ctx' hctx'
      obtain rfl : ctx = ctx' := by simpa [hphase, Phase.ctx] using hctx'
      exact (Stage.of_connecting (hphase ▸ h.stage)).1
    | @request ctx hphase hfb =>
      intro ctx' hctx'
      obtain rfl : ctx = ctx' := by simpa [hphase, Phase.ctx] using hctx'
      exact hfb
    | connect | pickup | fail | enterFallback | answer | giveUp | disconnect =>
      exact absurd hasked (lt_irrefl _)

theorem Inv.law (h : s.Inv) (hs : s.step l = some s') : SolicitedLaw s l s' := by
  have hsolicited : s.Delivers s' → s.answered + s.answers < s.asked := by
    rintro ⟨x, hx, hk⟩
    cases x with
    | sendFds p fds =>
      have hsends := (h.sends hs hx).2
      have hcount := h.count
      rw [outstanding] at hcount
      omega
    | _ => cases hk
  refine ⟨hsolicited, fun p fds hx => (h.sends hs hx).1, ?_, h.asks hs, ?_⟩
  · intro c hx
    cases hl : l.ofLibrary with
    | true =>
      rw [news_of_daemon (daemon_of_library hl hs)] at hx
      cases hx
    | false =>
      obtain ⟨⟨e, hnews⟩, -⟩ := event_of_daemon hl hs
      rw [hnews] at hx
      obtain ⟨d', effs, hr, -, heffs⟩ := s.daemon.next_reaction e
      obtain ⟨x, hmem, hk⟩ := hr.sends_of_told (heffs ▸ hx)
      exact ⟨x, by rwa [hnews, heffs], hk⟩
  · intro hov hdel
    have := hsolicited hdel
    exact h.inFallback (by omega) hov

end Joint

/-- Every step of every run obeys the law. -/
theorem solicitedLaw_of_run (ls : List Label) :
    Along Joint.step SolicitedLaw Joint.initial ls :=
  along_of_invariant (fun _ _ _ h hs => h.step hs) (fun _ _ _ h hs => h.law hs)
    Joint.inv_initial ls

/-- A consumer and a producer connect; the producer loses its channel, asks, gives up,
asks again and is answered. -/
def askedTwice : List Label :=
  [.consumer (.listen true (.ofType .consumerHello [0, 1, 2, 3])),
    .consumer (.readable ⟨0, true⟩ (.ofScreen ⟨1080, 2400, 1, 60⟩)),
    .connect 100, .accept true, .readScreen, .read true, .pickup true,
    .enterFallback, .request, .read true, .giveUp, .request,
    .consumer (.readable ⟨0, true⟩ (.ofType .consumerHello [4, 5, 6, 7])), .answer true]

/-- The daemon reads the second request, and the next generation goes to the connected
producer. -/
theorem askedTwice_not_onlyInFallback :
    ¬ Along Joint.step OnlyInFallback .initial (askedTwice ++
      [.read true, .consumer (.readable ⟨0, true⟩ (.ofType .consumerHello [8, 9, 10, 11]))]) := by
  decide

end Producer
end ACGlass
