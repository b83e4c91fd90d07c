import ACGlass.System.Composed

/-!
# One channel for both

The daemon hands every deposit to one producer at most, and neither library says which
deposit it is about. Still a connected consumer and a connected producer hold the two ends
of one channel, unless the producer has asked twice and the answer to its second request
is waiting to be read.
-/

namespace ACGlass
namespace System

open Transition
open Daemon (deliveries)

/-- Both libraries are out of fallback. -/
structure Connected (s : State) (c : Consumer.Ctx ℕ) (p : Producer.Ctx ℕ) : Prop where
  consumer : c ∈ s.1.ctx
  consumerUp : c.fallback = false
  producer : p ∈ s.2.phase.ctx
  producerUp : p.fallback = false

/-- The two contexts hold the channel of one deposit. -/
def SameChannel (c : Consumer.Ctx ℕ) (p : Producer.Ctx ℕ) : Prop :=
  ∃ fds, c.Holds fds ∧ p.Holds fds

/-- What holds of two connected libraries. -/
structure Agreement (s : State) : Prop where
  sameChannel_iff : ∀ c p, Connected s c p → (SameChannel c p ↔ s.2.answers = 0)
  sameChannel : ∀ c p, Connected s c p → s.2.overlapped = false → SameChannel c p

/-- What the parts keep by themselves. -/
structure ConsumerInv (a : Consumer.Joint) : Prop where
  inv : a.Inv
  latest : a.Latest
  made : a.Made

structure ProducerInv (b : Producer.Joint) : Prop where
  inv : b.Inv
  reads : b.Reads

section Parts

theorem consumerInv_initial : ConsumerInv .initial :=
  ⟨Consumer.Joint.inv_initial, Consumer.Joint.latest_initial, Consumer.Joint.made_initial⟩

theorem producerInv_initial : ProducerInv .initial :=
  ⟨Producer.Joint.inv_initial, Producer.Joint.reads_initial⟩

theorem ConsumerInv.step {a a' : Consumer.Joint} {l : Consumer.Label} (h : ConsumerInv a)
    (hs : a.step l = some a') : ConsumerInv a' :=
  ⟨h.inv.step hs, h.latest.step h.inv hs, h.made.step h.inv hs⟩

theorem ProducerInv.step {b b' : Producer.Joint} {l : Producer.Label} (h : ProducerInv b)
    (hs : b.step l = some b') : ProducerInv b' :=
  ⟨h.inv.step hs, h.reads.step h.inv hs⟩

/-- A connected producer whose requests never overlapped has read every answer. -/
theorem ProducerInv.answers_eq_zero {b : Producer.Joint} (h : ProducerInv b)
    {p : Producer.Ctx ℕ} (hp : p ∈ b.phase.ctx) (hup : p.fallback = false)
    (hov : b.overlapped = false) : b.answers = 0 := by
  have hnot : b.phase.reading = false := by
    by_contra hr
    have hfb := (h.inv.stage.served (by simpa using hr)).2.1 p hp
    simp [hup] at hfb
  cases hphase : b.phase with
  | absent | gone => simp [hphase, Producer.Phase.ctx] at hp
  | connecting ctx =>
    obtain ⟨hfb, -⟩ := Producer.Joint.Stage.of_connecting (hphase ▸ h.inv.stage)
    obtain rfl : ctx = p := by simpa [hphase, Producer.Phase.ctx] using hp
    simp [hup] at hfb
  | pickingUp ctx | reconnecting ctx => simp [hphase, Producer.Phase.reading] at hnot
  | idle ctx =>
    obtain ⟨-, hcur⟩ := Producer.Joint.Stage.of_idle (hphase ▸ h.inv.stage)
    obtain rfl : ctx = p := by simpa [hphase, Producer.Phase.ctx] using hp
    have hasked := hcur hup hov
    have hcount := h.inv.count
    rw [Producer.Joint.outstanding] at hcount
    omega

end Parts

section Holding

/-- A context holds one deposit. -/
theorem holds_unique {c : Consumer.Ctx ℕ} {fds fds' : List ℕ} (h : c.Holds fds)
    (h' : c.Holds fds') : fds = fds' := by
  obtain ⟨e, r, k, m, he, hr, hk, hm, -, rfl⟩ := h
  obtain ⟨e', r', k', m', he', hr', hk', hm', -, rfl⟩ := h'
  obtain rfl := Option.some.inj (he.symm.trans he')
  obtain rfl := Option.some.inj (hr.symm.trans hr')
  obtain rfl := Option.some.inj (hk.symm.trans hk')
  obtain rfl := Option.some.inj (hm.symm.trans hm')
  rfl

/-- Of the deposits that fallbacks make, a producer's context holds one. -/
theorem holds_made_unique {p : Producer.Ctx ℕ} {n n' : ℕ}
    (h : p.Holds (Consumer.depositFrom n)) (h' : p.Holds (Consumer.depositFrom n')) :
    Consumer.depositFrom n = Consumer.depositFrom n' := by
  obtain ⟨e, r, d, m, rest, he, -, -, -, -, hfds⟩ := h
  obtain ⟨e', r', d', m', rest', he', -, -, -, -, hfds'⟩ := h'
  obtain ⟨rfl, -⟩ := List.cons.inj hfds
  obtain ⟨rfl, -⟩ := List.cons.inj hfds'
  rw [Option.some.inj (he.symm.trans he')]

end Holding

variable {s : State} {c : Consumer.Ctx ℕ} {p : Producer.Ctx ℕ}

/-- The consumer holds the last delivery, the producer the last one that it has read. -/
theorem sameChannel_iff (hc : ConsumerInv s.1) (hp : ProducerInv s.2) (hs : Shared s)
    (h : Connected s c p) : SameChannel c p ↔ s.2.answers = 0 := by
  obtain ⟨last, hlast, hold⟩ := hc.latest.held c h.consumer h.consumerUp
  obtain ⟨read, hread, hheld⟩ := hp.reads
  obtain ⟨mine, hmine, hmold⟩ := hheld p h.producer h.producerUp
  have hall : deliveries s.1.daemon.trace = read ++ s.2.unread := by
    rw [show s.1.daemon = s.2.daemon from hs, hread]
  constructor
  · rintro ⟨fds, hcf, hpf⟩
    obtain rfl := holds_unique hold hcf
    by_contra hne
    have hlen : s.2.unread ≠ [] := by
      intro hnil
      rw [← Producer.Joint.length_unread, hnil] at hne
      exact hne rfl
    have hlate : last ∈ s.2.unread := by
      rw [hall, List.getLast?_append_of_ne_nil _ hlen] at hlast
      exact List.mem_of_getLast? hlast
    have hearly : mine ∈ read := List.mem_of_getLast? hmine
    have hmade : ∀ fds ∈ deliveries s.1.daemon.trace, ∃ n, fds = Consumer.depositFrom n := by
      intro fds hfds
      exact hc.made fds (Multiset.mem_add.mpr (.inr (Multiset.mem_coe.mpr hfds)))
    obtain ⟨n, rfl⟩ := hmade last (List.mem_of_getLast? hlast)
    obtain ⟨n', rfl⟩ := hmade mine (by rw [hall]; exact List.mem_append_left _ hearly)
    have hsame := holds_made_unique hpf hmold
    have hnodup : (deliveries s.1.daemon.trace).Nodup :=
      Multiset.coe_nodup.mp (Multiset.nodup_of_le (Multiset.le_add_left _ _) hc.inv.once)
    rw [hall] at hnodup
    exact List.disjoint_of_nodup_append hnodup hearly (hsame ▸ hlate)
  · intro hzero
    have hnil : s.2.unread = [] :=
      List.eq_nil_of_length_eq_zero (s.2.length_unread.trans hzero)
    rw [hall, hnil, List.append_nil, hmine] at hlast
    obtain rfl := Option.some.inj hlast
    exact ⟨mine, hold, hmold⟩

/-- In every run, whatever the daemon and the two libraries do in between. -/
theorem agreement_of_run (ls : List Label) : Always step Agreement initial ls := by
  apply Composition.always_of_parts (I := ConsumerInv) (J := ProducerInv) (K := Shared)
  · exact fun _ _ _ h hs => h.step hs
  · exact fun _ _ _ h hs => h.step hs
  · exact fun _ _ _ _ _ h hs => h.step hs
  · intro s hc hp hs
    constructor
    · intro c p h
      exact sameChannel_iff hc hp hs h
    · intro c p h hov
      exact (sameChannel_iff hc hp hs h).mpr
        (hp.answers_eq_zero h.producer h.producerUp hov)
  · exact consumerInv_initial
  · exact producerInv_initial
  · rfl

end System
end ACGlass
