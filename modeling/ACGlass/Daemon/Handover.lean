import ACGlass.Daemon.World
import Mathlib.Data.Multiset.AddSub

/-!
# Where a deposit goes

A deposit is in the slot or it has been sent to a producer. Every event keeps the
two together, except for a hello, which replaces what is in the slot.
-/

namespace ACGlass
namespace Daemon

variable {φ : Type*}

/-- The descriptors that go to a producer. -/
def sentFds : Effect φ → Option (List φ)
  | .sendFds _ fds => some fds
  | _ => none

def sent (effs : List (Effect φ)) : Multiset (List φ) := ↑(effs.filterMap sentFds)

/-- A deposit as the slot keeps it; no descriptors are no deposit. -/
def slotOf : List φ → Multiset (List φ)
  | [] => 0
  | fd :: fds => {fd :: fds}

/-- The descriptors of a hello that the daemon accepts for deposit. -/
def Globals.incoming (d : Globals φ) : Event φ → Option (List φ)
  | .listen true i =>
    match recvFds maxFds i.msg with
    | some m => if m.hdr.type = .consumerHello then some m.fds else none
    | none => none
  | .readable c i =>
    match recvFds maxFds i.msg with
    | some m =>
      if m.hdr.type = .consumerHello ∧ d.consumer = some c then some m.fds else none
    | none => none
  | _ => none

theorem slotOf_of_ne_nil {fds : List φ} (h : fds ≠ []) : slotOf fds = {fds} := by
  cases fds with
  | nil => exact absurd rfl h
  | cons fd fds => rfl

theorem sent_append (effs effs' : List (Effect φ)) :
    sent (effs ++ effs') = sent effs + sent effs' := by
  simp [sent, List.filterMap_append]

theorem sent_of_kind {effs : List (Effect φ)} (h : ∀ x ∈ effs, x.kind ≠ .fds) :
    sent effs = 0 := by
  have hnil : effs.filterMap sentFds = [] := by
    refine List.filterMap_eq_nil_iff.mpr fun x hx => ?_
    have := h x hx
    cases x with
    | sendFds p fds => exact absurd rfl this
    | _ => rfl
  simp [sent, hnil]

theorem sent_le_of_step {w w' : World φ} {e : Event φ} (h : w.step e = some w') :
    sent w.trace ≤ sent w'.trace := by
  obtain ⟨-, rfl⟩ := World.step_eq_some.mp h
  change sent w.trace ≤ sent (w.trace ++ w.effects e)
  rw [sent_append]
  exact Multiset.le_add_right _ _

section Reactions

variable {d d' : Globals φ} {ok : Bool} {effs : List (Effect φ)}

theorem Delivery.slot_add_sent (h : Delivery d ok (d', effs)) :
    slotOf d'.depositedFds + sent effs = slotOf d.depositedFds := by
  cases h with
  | deferred h => simp [sent]
  | delivered p hp h =>
    have hne : d.depositedFds ≠ [] := List.ne_nil_of_length_pos (by have := h.2.1; omega)
    have hrest : sent ((d.consumer.toList.map fun c => .sendCtrl c.ctrlFd .fdsReady) ++
        d.depositedFds.map Effect.closeFd) = 0 :=
      sent_of_kind (by simp [or_imp, forall_and])
    rw [List.cons_append, ← List.singleton_append, sent_append, hrest, slotOf_of_ne_nil hne]
    simp [sent, sentFds, slotOf]

theorem Deposited.slot_add_sent {c : Client} {fds : List φ}
    (h : Deposited d c fds ok (d', effs)) :
    slotOf d'.depositedFds + sent effs = slotOf fds := by
  cases h with
  | kept hw =>
    rw [sent_of_kind (by simp [or_imp, forall_and]), add_zero]
  | offered hw h =>
    rw [List.append_cons, sent_append, sent_of_kind (by simp [or_imp, forall_and]), zero_add]
    exact h.slot_add_sent

/-- Only the connected consumer is told of a delivery. -/
theorem Delivery.told (h : Delivery d ok (d', effs)) {n : ℕ} {t : CtrlType}
    (hx : Effect.sendCtrl n t ∈ effs) : ∃ c, d.consumer = some c ∧ c.ctrlFd = n := by
  cases h with
  | deferred h => simp at hx
  | delivered p hp h =>
    obtain ⟨c, hc, hn, -⟩ : ∃ c, d.consumer = some c ∧ c.ctrlFd = n ∧ CtrlType.fdsReady = t := by
      simpa using hx
    exact ⟨c, hc, hn⟩

theorem incoming_listen {i : Input φ} {m : Received CtrlMsg φ maxFds}
    (hm : recvFds maxFds i.msg = some m) (ht : m.hdr.type = .consumerHello) :
    d.incoming (.listen true i) = some m.fds := by
  simp [Globals.incoming, hm, ht]

theorem incoming_readable {c : Client} {i : Input φ} {m : Received CtrlMsg φ maxFds}
    (hm : recvFds maxFds i.msg = some m) (ht : m.hdr.type = .consumerHello)
    (hc : d.consumer = some c) : d.incoming (.readable c i) = some m.fds := by
  simp [Globals.incoming, hm, ht, hc]

variable {fd : ℕ} {e : Event φ}

theorem Reaction.slot_add_sent (hr : Reaction d fd e (d', effs)) :
    slotOf d'.depositedFds + sent effs = slotOf d.depositedFds ∨
      ∃ fds, d.incoming e = some fds ∧
        slotOf d'.depositedFds + sent effs = slotOf fds := by
  have quiet : d'.depositedFds = d.depositedFds → (∀ x ∈ effs, x.kind ≠ .fds) →
      slotOf d'.depositedFds + sent effs = slotOf d.depositedFds := by
    intro hfds hk
    rw [hfds, sent_of_kind hk, add_zero]
  cases hr with
  | ignored hi hclose => exact .inl (quiet rfl fun x hx => by simp [hclose x hx])
  | consumerGone he hd hc => exact .inl (quiet rfl (by simp))
  | producerGone he hd hc hp => exact .inl (quiet rfl (by simp))
  | newConsumer hm hn ht hdep =>
    have hadd : sent [.epollAdd ⟨fd, true⟩] = (0 : Multiset (List φ)) := sent_of_kind (by simp)
    refine .inr ⟨_, incoming_listen hm ht, ?_⟩
    rw [sent_append, sent_append, sent_of_kind (by simp), zero_add, hadd, add_zero]
    exact hdep.slot_add_sent
  | newProducerInformed hm hn ht hs => exact .inl (quiet rfl (by simp [or_imp, forall_and]))
  | newProducerWaiting hm hn ht hs => exact .inl (quiet rfl (by simp [or_imp, forall_and]))
  | redeposited hm hd ht hc h3 hdep =>
    exact .inr ⟨_, incoming_readable hm ht hc, hdep.slot_add_sent⟩
  | screenChanged hm ht hsize hok hc hs hne =>
    refine .inl (quiet ?_ (by simp [or_imp, forall_and]))
    unfold Globals.resetProducerForScreenChange
    split <;> rfl
  | screenForwarded hm ht hsize hok hc hs hp hw =>
    exact .inl (quiet rfl (by simp [or_imp, forall_and]))
  | screenStored hm ht hsize hok hc hs hw => exact .inl (quiet rfl (by simp))
  | pickedUp hm hd ht hp hdel =>
    rw [sent_append, sent_of_kind (by simp), zero_add]
    exact .inl hdel.slot_add_sent

theorem Deposited.told {c : Client} {fds : List φ} (h : Deposited d c fds ok (d', effs))
    {n : ℕ} {t : CtrlType} (hx : Effect.sendCtrl n t ∈ effs) :
    ∃ c, d.consumer = some c ∧ c.ctrlFd = n := by
  cases h with
  | kept hw => simp at hx
  | offered hw h => exact h.told (by simpa using hx)

theorem Reaction.told (hr : Reaction d fd e (d', effs)) {n : ℕ} {t : CtrlType}
    (hx : Effect.sendCtrl n t ∈ effs) : ∃ c, d'.consumer = some c ∧ c.ctrlFd = n := by
  cases hr with
  | ignored hi hclose => simpa using hclose _ hx
  | newConsumer hm hn ht hdep =>
    rw [hdep.frame.consumer]
    exact hdep.told (by simpa using hx)
  | redeposited hm hd ht hc h3 hdep =>
    rw [hdep.frame.consumer]
    exact hdep.told hx
  | pickedUp hm hd ht hp hdel =>
    rw [hdel.frame.consumer]
    exact hdel.told (by simpa using hx)
  | _ => simp at hx

theorem Delivery.sends_of_told (h : Delivery d ok (d', effs)) {n : ℕ} {t : CtrlType}
    (hx : Effect.sendCtrl n t ∈ effs) : ∃ x ∈ effs, x.kind = .fds := by
  cases h with
  | deferred h => simp at hx
  | delivered p hp h => exact ⟨_, by simp, kind_sendFds p.ctrlFd d.depositedFds⟩

theorem Deposited.sends_of_told {c : Client} {fds : List φ} (h : Deposited d c fds ok (d', effs))
    {n : ℕ} {t : CtrlType} (hx : Effect.sendCtrl n t ∈ effs) : ∃ x ∈ effs, x.kind = .fds := by
  cases h with
  | kept hw => simp at hx
  | offered hw h =>
    obtain ⟨x, hx, hk⟩ := h.sends_of_told (n := n) (t := t) (by simpa using hx)
    exact ⟨x, by simp [hx], hk⟩

/-- A consumer is told of a delivery in the event that makes it. -/
theorem Reaction.sends_of_told (hr : Reaction d fd e (d', effs)) {n : ℕ} {t : CtrlType}
    (hx : Effect.sendCtrl n t ∈ effs) : ∃ x ∈ effs, x.kind = .fds := by
  cases hr with
  | ignored hi hclose => simpa using hclose _ hx
  | newConsumer hm hn ht hdep =>
    obtain ⟨x, hx, hk⟩ := hdep.sends_of_told (n := n) (t := t) (by simpa using hx)
    exact ⟨x, by simp [hx], hk⟩
  | redeposited hm hd ht hc h3 hdep => exact hdep.sends_of_told hx
  | pickedUp hm hd ht hp hdel =>
    obtain ⟨x, hx, hk⟩ := hdel.sends_of_told (n := n) (t := t) (by simpa using hx)
    exact ⟨x, by simp [hx], hk⟩
  | _ => simp at hx

end Reactions

end Daemon
end ACGlass
