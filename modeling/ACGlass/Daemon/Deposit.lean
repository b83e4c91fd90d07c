import ACGlass.Daemon.World
import ACGlass.Trace

/-!
# Whose descriptors are deposited

The deposit slot and the consumer pointer are separate variables.
`handle_new_connection` clears the slot when it replaces the consumer, while
`handle_disconnect` forgets the consumer and leaves the slot as it is.
-/

namespace ACGlass
namespace Daemon

open Transition Trace

variable {φ : Type*}

/-- An accepted `CONSUMER_HELLO`: who sent it, and what came with it. -/
def depositOf : Effect φ → Option (Client × List φ)
  | .deposit c fds => some (c, fds)
  | _ => none

def lastDeposit (h : List (Effect φ)) : Option (Client × List φ) := lastOf depositOf h

/-- What client `c` sent in an accepted `CONSUMER_HELLO`. -/
def helloOf (c : Client) (x : Effect φ) : Option (List φ) :=
  (depositOf x).bind fun y => if y.1 = c then some y.2 else none

/-- The descriptors of the latest `CONSUMER_HELLO` accepted from `c`. -/
def latestHello (c : Client) (h : List (Effect φ)) : Option (List φ) := lastOf (helloOf c) h

/-- Deposited descriptors are those of the connected consumer's latest hello in the
history `h`. -/
def DepositOwned (d : Globals φ) (h : List (Effect φ)) : Prop :=
  d.depositedFds ≠ [] → ∃ c, d.consumer = some c ∧ latestHello c h = some d.depositedFds

/-- Descriptors handed out on this event belong to the connected consumer, which is
told so. -/
def DeliveryPaired (w : World φ) (e : Event φ) (w' : World φ) : Prop :=
  ∀ p fds, .sendFds p fds ∈ w.effects e →
    ∃ c, w'.globals.consumer = some c ∧ latestHello c w'.trace = some fds ∧
      .sendCtrl c.ctrlFd .fdsReady ∈ w.effects e

/-- The consumer is not dropped while its descriptors wait in the slot. -/
def DropsOnlyEmpty (w : World φ) (e : Event φ) (_ : World φ) : Prop :=
  ∀ c, e.disconnects = true → e.client = some c → w.globals.consumer = some c →
    w.globals.depositedFds = []

section Histories

theorem depositOf_eq_none {x : Effect φ} (hx : x.kind ≠ .deposit) : depositOf x = none := by
  cases x <;> first | rfl | exact absurd rfl hx

theorem lastDeposit_append {effs : List (Effect φ)} (h : ∀ x ∈ effs, x.kind ≠ .deposit)
    (pre : List (Effect φ)) : lastDeposit (pre ++ effs) = lastDeposit pre :=
  lastOf_append_of_none (fun x hx => depositOf_eq_none (h x hx)) pre

theorem lastDeposit_append_cons {effs : List (Effect φ)} (h : ∀ x ∈ effs, x.kind ≠ .deposit)
    (c : Client) (fds : List φ) (pre : List (Effect φ)) :
    lastDeposit (pre ++ .deposit c fds :: effs) = some (c, fds) := by
  have hx : depositOf (.deposit c fds) = some (c, fds) := rfl
  exact lastOf_append_cons hx (fun x hx => depositOf_eq_none (h x hx)) pre

/-- Closing descriptors and talking to clients leaves the accepted hellos as they are. -/
theorem latestHello_append {effs : List (Effect φ)} (h : ∀ x ∈ effs, x.kind ≠ .deposit)
    (c : Client) (pre : List (Effect φ)) : latestHello c (pre ++ effs) = latestHello c pre := by
  refine lastOf_append_of_none (fun x hx => ?_) pre
  rw [helloOf, depositOf_eq_none (h x hx), Option.bind_none]

/-- The last deposit is the latest hello of the client that made it. -/
theorem latestHello_of_lastDeposit {c : Client} {fds : List φ} {h : List (Effect φ)}
    (hlast : lastDeposit h = some (c, fds)) : latestHello c h = some fds :=
  lastOf_bind hlast (if_pos rfl)

theorem Delivery.noDeposit {d d' : Globals φ} {ok : Bool} {effs : List (Effect φ)}
    (h : Delivery d ok (d', effs)) : ∀ x ∈ effs, x.kind ≠ .deposit := by
  cases h with
  | deferred h => simp
  | delivered p hp h => simp [or_imp, forall_and]

theorem Deposited.lastDeposit_append {d d' : Globals φ} {c : Client} {fds : List φ} {ok : Bool}
    {effs : List (Effect φ)} (h : Deposited d c fds ok (d', effs)) (pre : List (Effect φ)) :
    lastDeposit (pre ++ effs) = some (c, fds) := by
  cases h with
  | kept hw =>
    rw [← List.append_assoc]
    exact lastDeposit_append_cons (by simp) c fds _
  | offered hw h =>
    rw [← List.append_assoc]
    exact lastDeposit_append_cons h.noDeposit c fds _

end Histories

section Slot

variable {d d' : Globals φ} {ok : Bool} {effs : List (Effect φ)}

theorem Delivery.slot (h : Delivery d ok (d', effs)) :
    d'.depositedFds = d.depositedFds ∨ d'.depositedFds = [] := by
  cases h with
  | deferred h => exact .inl rfl
  | delivered p hp h => exact .inr rfl

theorem Deposited.slot {c : Client} {fds : List φ} (h : Deposited d c fds ok (d', effs)) :
    d'.depositedFds = fds ∨ d'.depositedFds = [] := by
  cases h with
  | kept hw => exact .inl rfl
  | offered hw h => exact h.slot

/-- Only a complete deposit is delivered, and a connected consumer is told. -/
theorem Delivery.of_sendFds (h : Delivery d ok (d', effs)) {p : ℕ} {fds : List φ}
    (hx : Effect.sendFds p fds ∈ effs) :
    fds = d.depositedFds ∧ 4 ≤ fds.length ∧
      ∀ c, d.consumer = some c → .sendCtrl c.ctrlFd .fdsReady ∈ effs := by
  cases h with
  | deferred h => simp at hx
  | delivered p hp h =>
    have heq : fds = d.depositedFds := by
      simp at hx
      exact hx.2
    refine ⟨heq, heq ▸ h.2.1, ?_⟩
    intro c hc
    simp [hc]

theorem Deposited.of_sendFds {c : Client} {fds fds' : List φ}
    (h : Deposited d c fds ok (d', effs)) {p : ℕ} (hx : Effect.sendFds p fds' ∈ effs) :
    fds' = fds ∧ ∀ c, d.consumer = some c → .sendCtrl c.ctrlFd .fdsReady ∈ effs := by
  cases h with
  | kept hw => simp at hx
  | offered hw h =>
    obtain ⟨heq, -, hctrl⟩ := h.of_sendFds (by simpa using hx)
    refine ⟨heq, ?_⟩
    intro c hc
    simp [hctrl c hc]

theorem Globals.resetProducer_depositedFds (d : Globals φ) :
    d.resetProducerForScreenChange.1.depositedFds = d.depositedFds := by
  unfold resetProducerForScreenChange
  split <;> rfl

variable {fd : ℕ} {e : Event φ}

/-- What an event does to the slot: it keeps or empties it, and only a dropped consumer
can then be forgotten, or it is a hello of the consumer that is connected afterwards. -/
theorem Reaction.slot (hr : Reaction d fd e (d', effs)) :
    (d'.depositedFds = d.depositedFds ∨ d'.depositedFds = []) ∧
        (d'.consumer = d.consumer ∨
          ∃ c, e.client = some c ∧ e.disconnects = true ∧ d.consumer = some c) ∧
        (∀ x ∈ effs, x.kind ≠ .deposit) ∨
      ∃ c fds, d'.consumer = some c ∧ (d'.depositedFds = fds ∨ d'.depositedFds = []) ∧
        ∀ pre, lastDeposit (pre ++ effs) = some (c, fds) := by
  cases hr with
  | ignored hi hclose => exact .inl ⟨.inl rfl, .inl rfl, fun x hx => by simp [hclose x hx]⟩
  | consumerGone he hd hc => exact .inl ⟨.inl rfl, .inr ⟨_, he, hd, hc⟩, by simp⟩
  | producerGone he hd hc hp => exact .inl ⟨.inl rfl, .inl rfl, by simp⟩
  | newConsumer hm hn ht hdep =>
    refine .inr ⟨_, _, hdep.frame.consumer, hdep.slot, fun pre => ?_⟩
    rw [← List.append_assoc, ← List.append_assoc, lastDeposit_append (by simp)]
    exact hdep.lastDeposit_append _
  | newProducerInformed hm hn ht hs =>
    exact .inl ⟨.inl rfl, .inl rfl, by simp [or_imp, forall_and]⟩
  | newProducerWaiting hm hn ht hs =>
    exact .inl ⟨.inl rfl, .inl rfl, by simp [or_imp, forall_and]⟩
  | redeposited hm hd ht hc h3 hdep =>
    exact .inr ⟨_, _, hdep.frame.consumer.trans hc, hdep.slot, hdep.lastDeposit_append⟩
  | screenChanged hm ht hsize hok hc hs hne =>
    exact .inl ⟨.inl (Globals.resetProducer_depositedFds _),
      .inl (Globals.resetProducer_consumer _), by simp [or_imp, forall_and]⟩
  | screenForwarded hm ht hsize hok hc hs hp hw =>
    exact .inl ⟨.inl rfl, .inl rfl, by simp [or_imp, forall_and]⟩
  | screenStored hm ht hsize hok hc hs hw => exact .inl ⟨.inl rfl, .inl rfl, by simp⟩
  | pickedUp hm hd ht hp hdel =>
    refine .inl ⟨hdel.slot, .inl hdel.frame.consumer, ?_⟩
    simp only [List.mem_append, or_imp, forall_and]
    exact ⟨by simp, hdel.noDeposit⟩

/-- The slot loses its owner only when a consumer is dropped over a full slot. -/
theorem Reaction.owned (hr : Reaction d fd e (d', effs)) {pre : List (Effect φ)}
    (hown : DepositOwned d pre)
    (hdrop : ∀ c, e.disconnects = true → e.client = some c → d.consumer = some c →
      d.depositedFds = []) :
    DepositOwned d' (pre ++ effs) := by
  intro hne
  rcases hr.slot with ⟨hfds, hcons, heffs⟩ | ⟨c, fds, hc, hfds, hlast⟩
  · have hsame := hfds.resolve_right hne
    rw [hsame] at hne ⊢
    rcases hcons with hcons | ⟨c, he, hd, hc⟩
    · obtain ⟨c, hc, hlast⟩ := hown hne
      exact ⟨c, hcons ▸ hc, by rw [latestHello_append heffs, hlast]⟩
    · exact absurd (hdrop c hd he hc) hne
  · rw [hfds.resolve_right hne]
    exact ⟨c, hc, latestHello_of_lastDeposit (hlast pre)⟩

/-- A delivery finds the owner of the slot connected and tells it. -/
theorem Reaction.paired (hr : Reaction d fd e (d', effs)) {pre : List (Effect φ)}
    (hown : DepositOwned d pre) {p : ℕ} {fds : List φ} (hx : Effect.sendFds p fds ∈ effs) :
    ∃ c, d'.consumer = some c ∧ latestHello c (pre ++ effs) = some fds ∧
      .sendCtrl c.ctrlFd .fdsReady ∈ effs := by
  cases hr with
  | ignored hi hclose => simpa using hclose _ hx
  | newConsumer hm hn ht hdep =>
    obtain ⟨rfl, hctrl⟩ := hdep.of_sendFds (by simpa using hx)
    refine ⟨_, hdep.frame.consumer, ?_, by simpa using hctrl _ rfl⟩
    rw [← List.append_assoc, ← List.append_assoc, latestHello_append (by simp)]
    exact latestHello_of_lastDeposit (hdep.lastDeposit_append _)
  | redeposited hm hd ht hc h3 hdep =>
    obtain ⟨rfl, hctrl⟩ := hdep.of_sendFds hx
    exact ⟨_, hdep.frame.consumer.trans hc, latestHello_of_lastDeposit (hdep.lastDeposit_append pre),
      hctrl _ hc⟩
  | pickedUp hm hd ht hp hdel =>
    obtain ⟨rfl, h4, hctrl⟩ := hdel.of_sendFds (by simpa using hx)
    obtain ⟨c, hc, hlast⟩ := hown (List.ne_nil_of_length_pos (by omega))
    refine ⟨c, hdel.frame.consumer.trans hc, ?_, by simp [hctrl c hc]⟩
    rw [latestHello_append, hlast]
    simp only [List.mem_append, or_imp, forall_and]
    exact ⟨by simp, hdel.noDeposit⟩
  | _ => simp at hx

end Slot

/-- A drop leaves the slot as it is. -/
theorem dropped_globals {w : World φ} {e : Event φ} {c : Client} (hd : e.disconnects = true)
    (he : e.client = some c) (hc : w.globals.consumer = some c) :
    (w.next e).globals = { w.globals with consumer := none } := by
  change (w.globals.dispatch w.accepted e).1 = _
  rw [w.globals.dispatch_of_disconnects w.accepted he hd, Globals.handleDisconnect, if_pos hc]

theorem depositOwned_step_iff {w w' : World φ} {e : Event φ}
    (hown : DepositOwned w.globals w.trace) (hs : w.step e = some w') :
    DepositOwned w'.globals w'.trace ∧ DeliveryPaired w e w' ↔ DropsOnlyEmpty w e w' := by
  obtain ⟨-, rfl⟩ := World.step_eq_some.mp hs
  obtain ⟨d', effs, hr, rfl, heffs⟩ := w.next_reaction e
  constructor
  · rintro ⟨hown', -⟩ c hd he hc
    by_contra hne
    have hd' := dropped_globals hd he hc
    obtain ⟨c', hc', -⟩ := hown' (by rwa [hd'])
    rw [hd'] at hc'
    cases hc'
  · intro hdrop
    have htrace : (w.next e).trace = w.trace ++ effs := by rw [← heffs]; rfl
    rw [htrace]
    refine ⟨hr.owned hown hdrop, ?_⟩
    intro p fds hx
    rw [heffs] at hx ⊢
    rw [htrace]
    exact hr.paired hown hx

/-- The deposit slot belongs to the connected consumer, and every delivery is made
known to it, exactly as long as no consumer is dropped while its descriptors wait in
the slot. -/
theorem depositOwned_iff_dropsOnlyEmpty (es : List (Event φ)) :
    Along World.step
        (fun w e w' => DepositOwned w'.globals w'.trace ∧ DeliveryPaired w e w') .initial es ↔
      Along World.step DropsOnlyEmpty .initial es := by
  refine along_iff_of_invariant (I := fun w => DepositOwned w.globals w.trace) ?_ ?_ ?_ es
  · intro w e w' hown hs
    exact depositOwned_step_iff hown hs
  · intro w e w' hown hs hg
    exact ((depositOwned_step_iff hown hs).mpr hg).1
  · exact fun hne => absurd rfl hne

/-- A consumer deposits its channel and hangs up; then a producer picks the channel up. -/
def pickupAfterHangup : List (Event ℕ) :=
  [.listen true (.ofType .consumerHello [10, 11, 12, 13]), .hangup ⟨0, true⟩,
    .listen true (.ofType .producerHello []), .readable ⟨1, false⟩ (.ofType .pickupFds [])]

/-- The channel of a consumer that has gone is handed out, and nobody is told. -/
theorem pickupAfterHangup_not_depositOwned :
    ¬ Along World.step
        (fun w e w' => DepositOwned w'.globals w'.trace ∧ DeliveryPaired w e w')
        .initial pickupAfterHangup ∧
      (exec World.step .initial pickupAfterHangup).map World.trace =
        some [.deposit ⟨0, true⟩ [10, 11, 12, 13], .epollAdd ⟨0, true⟩, .clientFree ⟨0, true⟩,
          .epollAdd ⟨1, false⟩, .sendFds 1 [10, 11, 12, 13], .closeFd 10, .closeFd 11,
          .closeFd 12, .closeFd 13] := by
  constructor
  · intro h
    -- the state after the hangup
    obtain ⟨-, hrest⟩ := h _ rfl
    obtain ⟨⟨hown, -⟩, -⟩ := hrest _ rfl
    obtain ⟨c, hc, -⟩ := hown (by decide)
    cases hc
  · rfl

end Daemon
end ACGlass
