import ACGlass.Daemon.World

/-!
# Requests for the deposit

A producer asks for the deposit with `PICKUP_FDS`. It is answered at once, or
`producer_waiting_fds` remembers it until a deposit is complete. Every answer is counted
against the requests read from the same connection.
-/

namespace ACGlass
namespace Daemon

open Transition

variable {φ : Type*}

/-- The kernel takes what the daemon sends while it handles the event. -/
def Event.sendsOk : Event φ → Bool
  | .listen _ i => i.sendOk
  | .hangup _ => true
  | .readable _ i => i.sendOk

/-- A read on connection `p` that gives a `PICKUP_FDS`. -/
def Event.isPickup (p : ℕ) : Event φ → Bool
  | .readable c i =>
    c.ctrlFd == p && !i.readFails &&
      (recvFds maxFds i.msg).any fun m => m.hdr.type == .pickupFds
  | _ => false

/-- A message `FDS_READY` to connection `p`, with descriptors or without. -/
def Effect.isFdsReady (p : ℕ) : Effect φ → Bool
  | .sendFds fd _ => fd == p
  | .sendCtrl fd type => fd == p && type == .fdsReady
  | _ => false

/-- The daemon with the events that it has handled. -/
structure Record (φ : Type*) where
  world : World φ
  events : List (Event φ)

namespace Record

variable (r : Record φ)

def initial : Record φ := ⟨.initial, []⟩

def step (e : Event φ) : Option (Record φ) := (r.world.step e).map fun w => ⟨w, r.events ++ [e]⟩

/-- The requests read from connection `p`. -/
def pickups (p : ℕ) : ℕ := r.events.countP (Event.isPickup p)

/-- The answers sent to connection `p`. -/
def answers (p : ℕ) : ℕ := r.world.trace.countP (Effect.isFdsReady p)

/-- Connection `p` has been accepted as one of a producer. -/
def IsProducer (p : ℕ) : Prop := .epollAdd ⟨p, false⟩ ∈ r.world.trace

/-- A waiting producer is connected beside an incomplete deposit, and no producer is answered
more often than it has asked. -/
structure NoLostPickup : Prop where
  waiting : r.world.globals.producerWaitingFds = true →
    r.world.globals.producer.isSome ∧ r.world.globals.depositedFds.length < 4
  answered : ∀ p, r.IsProducer p → r.answers p ≤ r.pickups p

end Record

/-- The request of connection `p` that is remembered. -/
def Globals.owed (d : Globals φ) (p : ℕ) : ℕ :=
  if d.producer = some ⟨p, false⟩ ∧ d.producerWaitingFds = true then 1 else 0

/-- The wait is for a complete deposit. -/
def Globals.WaitsForDeposit (d : Globals φ) : Prop :=
  d.producerWaitingFds = true → d.producer.isSome ∧ d.depositedFds.length < 4

theorem countP_of_kind {effs : List (Effect φ)} (h : ∀ x ∈ effs, x.kind ≠ .fds ∧ x.kind ≠ .ctrl)
    (p : ℕ) : effs.countP (Effect.isFdsReady p) = 0 := by
  rw [List.countP_eq_zero]
  intro x hx
  obtain ⟨hfds, hctrl⟩ := h x hx
  cases x with
  | sendFds fd fds => exact absurd rfl hfds
  | sendCtrl fd type => exact absurd rfl hctrl
  | _ => simp [Effect.isFdsReady]

section Reactions

variable {d d' : Globals φ} {effs : List (Effect φ)} {p : ℕ}

theorem Delivery.waitsForDeposit (h : Delivery d true (d', effs)) (hp : d.producer.isSome) :
    d'.WaitsForDeposit := by
  cases h with
  | deferred hno =>
    intro _
    refine ⟨hp, ?_⟩
    by_contra hlen
    exact hno ⟨hp, not_lt.mp hlen, rfl⟩
  | delivered p hp h =>
    intro hw
    cases hw

/-- A delivery answers or remembers one request of the producer. -/
theorem Delivery.answered {ok : Bool} (h : Delivery d ok (d', effs))
    (hrole : ∀ c, d.producer = some c → c.isConsumer = false)
    (hother : ∀ c, d.consumer = some c → c.ctrlFd ≠ p) :
    effs.countP (Effect.isFdsReady p) + d'.owed p ≤
      if d.producer = some ⟨p, false⟩ then 1 else 0 := by
  cases h with
  | deferred hno => simp [Globals.owed]
  | delivered q hq hyes =>
    have hctrl : (d.consumer.toList.map fun c =>
        (Effect.sendCtrl c.ctrlFd .fdsReady : Effect φ)).countP (Effect.isFdsReady p) = 0 := by
      simp only [List.countP_eq_zero, List.mem_map, Option.mem_toList]
      rintro x ⟨c, hc, rfl⟩
      simp [Effect.isFdsReady, hother c hc]
    have hclose : (d.depositedFds.map Effect.closeFd).countP (Effect.isFdsReady p) = 0 :=
      countP_of_kind (by simp) p
    rw [List.cons_append, List.countP_cons, List.countP_append, hctrl, hclose]
    have howed : ({ d with depositedFds := [], producerWaitingFds := false } : Globals φ).owed p
        = 0 := by
      simp [Globals.owed]
    rw [howed, hq]
    by_cases hqp : q.ctrlFd = p
    · have heq : q = ⟨p, false⟩ := by
        rw [← hrole q hq, ← hqp]
      simp [Effect.isFdsReady, heq]
    · simp [Effect.isFdsReady, hqp]

theorem Deposited.waitsForDeposit {c : Client} {fds : List φ}
    (h : Deposited d c fds true (d', effs)) (hw : d.WaitsForDeposit) : d'.WaitsForDeposit := by
  cases h with
  | kept hno =>
    intro hyes
    rw [hno] at hyes
    cases hyes
  | offered hyes h => exact h.waitsForDeposit (hw hyes).1

theorem Deposited.answered {c : Client} {fds : List φ} {ok : Bool}
    (h : Deposited d c fds ok (d', effs))
    (hrole : ∀ c, d.producer = some c → c.isConsumer = false)
    (hother : ∀ c, d.consumer = some c → c.ctrlFd ≠ p) :
    effs.countP (Effect.isFdsReady p) + d'.owed p ≤ d.owed p := by
  have hclose : (d.depositedFds.map Effect.closeFd).countP (Effect.isFdsReady p) = 0 :=
    countP_of_kind (by simp) p
  cases h with
  | kept hno => simp [hclose, Globals.owed, Effect.isFdsReady]
  | offered hyes h =>
    have hdel := h.answered hrole hother
    rw [List.countP_append, hclose, List.countP_cons]
    simpa [Globals.owed, hyes, Effect.isFdsReady] using hdel

/-- With sends that succeed, every event leaves a producer that waits beside an incomplete
deposit. -/
theorem Reaction.waitsForDeposit {fd : ℕ} {e : Event φ} (hr : Reaction d fd e (d', effs))
    (hok : e.sendsOk = true) (hw : d.WaitsForDeposit) : d'.WaitsForDeposit := by
  cases hr with
  | ignored hi hclose => exact hw
  | consumerGone he hd hc => exact hw
  | producerGone he hd hc hp => exact nofun
  | newConsumer hm hn ht hdep =>
    rw [Event.sendsOk] at hok
    rw [hok] at hdep
    exact hdep.waitsForDeposit hw
  | newProducerInformed hm hn ht hs => exact nofun
  | newProducerWaiting hm hn ht hs => exact nofun
  | redeposited hm hd ht hc h3 hdep =>
    rw [Event.sendsOk] at hok
    rw [hok] at hdep
    exact hdep.waitsForDeposit hw
  | screenChanged hm ht hsize hok hc hs hne =>
    unfold Globals.resetProducerForScreenChange
    split
    · exact hw
    · exact nofun
  | screenForwarded hm ht hsize hok hc hs hp hwait => exact hw
  | screenStored hm ht hsize hok hc hs hwait => exact hw
  | pickedUp hm hd ht hp hdel =>
    rw [Event.sendsOk] at hok
    rw [hok] at hdel
    exact hdel.waitsForDeposit (by simp [hp])

/-- An event answers or remembers a request only if it brings it or it was remembered. -/
theorem Reaction.answered {fd : ℕ} {e : Event φ} (hr : Reaction d fd e (d', effs))
    (hrole : ∀ c, d.producer = some c → c.isConsumer = false)
    (hother : ∀ c, d.consumer = some c → c.ctrlFd ≠ p)
    (hfresh : ∀ i, e = .listen true i → p ≠ fd) :
    effs.countP (Effect.isFdsReady p) + d'.owed p ≤
      d.owed p + if e.isPickup p = true then 1 else 0 := by
  cases hr with
  | ignored hi hclose =>
    rw [countP_of_kind (fun x hx => by simp [hclose x hx])]
    omega
  | consumerGone he hd hc => simp [Globals.owed, Effect.isFdsReady]
  | producerGone he hd hc hp => simp [Globals.owed, Effect.isFdsReady]
  | @newConsumer i m _ effs hm hn ht hdep =>
    have hdep := hdep.answered hrole (p := p) fun c hc => by
      obtain rfl := Option.some.inj hc
      exact (hfresh i rfl).symm
    have hfree : (d.consumer.toList.map (Effect.clientFree (φ := φ))).countP
        (Effect.isFdsReady p) = 0 := countP_of_kind (by simp) p
    rw [List.countP_append, List.countP_append, hfree]
    simp only [Effect.isFdsReady, List.countP_cons, List.countP_nil]
    exact Nat.le_add_right_of_le (by simpa [Globals.owed] using hdep)
  | newProducerInformed hm hn ht hs =>
    rw [countP_of_kind (by simp [or_imp, forall_and])]
    simp [Globals.owed]
  | newProducerWaiting hm hn ht hs =>
    rw [countP_of_kind (by simp [or_imp, forall_and])]
    simp [Globals.owed]
  | redeposited hm hd ht hc h3 hdep =>
    exact Nat.le_add_right_of_le (hdep.answered hrole hother)
  | screenChanged hm ht hsize hok hc hs hne =>
    rw [countP_of_kind (by simp [or_imp, forall_and])]
    rw [Globals.owed, Globals.resetProducer_producer, if_neg (by simp)]
    omega
  | screenForwarded hm ht hsize hok hc hs hp hwait =>
    rw [countP_of_kind (by simp [or_imp, forall_and])]
    simp [Globals.owed]
  | screenStored hm ht hsize hok hc hs hwait =>
    rw [countP_of_kind (by simp)]
    simp [Globals.owed]
  | @pickedUp c i m _ effs hm hd ht hp hdel =>
    have hdel := hdel.answered hrole hother
    have hclose : (m.fds.map Effect.closeFd).countP (Effect.isFdsReady p) = 0 :=
      countP_of_kind (by simp) p
    have hpickup : d.producer = some ⟨p, false⟩ → (Event.readable c i).isPickup p = true := by
      intro hp'
      obtain rfl := Option.some.inj (hp.symm.trans hp')
      simp [Event.isPickup, hd, hm, ht]
    rw [List.countP_append, hclose, zero_add]
    refine hdel.trans (Nat.le_add_left_of_le ?_)
    split_ifs with h1 h2 <;> simp_all

/-- Whoever is added to the interest list has just been accepted, and a producer that is added
has not been answered. -/
theorem Reaction.added {fd : ℕ} {e : Event φ} (hr : Reaction d fd e (d', effs)) {c : Client}
    (hc : .epollAdd c ∈ effs) :
    c.ctrlFd = fd ∧ (∃ i, e = .listen true i) ∧
      (c.isConsumer = false → d'.consumer = d.consumer ∧ d'.producerWaitingFds = false ∧
        ∀ p, effs.countP (Effect.isFdsReady p) = 0) := by
  have hkind : ∀ {l : List (Effect φ)}, (∀ x ∈ l, x.kind ≠ .client) → .epollAdd c ∉ l :=
    fun h hc => h _ hc rfl
  cases hr with
  | ignored hi hclose => exact absurd hc (hkind fun x hx => by simp [hclose x hx])
  | consumerGone he hd hcons => simp at hc
  | producerGone he hd hcons hp => simp at hc
  | newConsumer hm hn ht hdep =>
    have hadd := hkind hdep.frame.noClient
    simp [hadd] at hc
    subst hc
    exact ⟨rfl, ⟨_, rfl⟩, nofun⟩
  | newProducerInformed hm hn ht hs =>
    simp at hc
    subst hc
    exact ⟨rfl, ⟨_, rfl⟩, fun _ => ⟨rfl, rfl, countP_of_kind (by simp [or_imp, forall_and])⟩⟩
  | newProducerWaiting hm hn ht hs =>
    simp at hc
    subst hc
    exact ⟨rfl, ⟨_, rfl⟩, fun _ => ⟨rfl, rfl, countP_of_kind (by simp [or_imp, forall_and])⟩⟩
  | redeposited hm hd ht hcons h3 hdep => exact absurd hc (hkind hdep.frame.noClient)
  | screenChanged hm ht hsize hok hcons hs hne => simp at hc
  | screenForwarded hm ht hsize hok hcons hs hp hwait => simp at hc
  | screenStored hm ht hsize hok hcons hs hwait => simp at hc
  | pickedUp hm hd ht hp hdel =>
    have hadd := hkind hdel.frame.noClient
    simp [hadd] at hc

end Reactions

namespace Record

variable {r r' : Record φ}

/-- The answers of a producer, with the one that it waits for, stay within its requests, and
no connection is answered before it is accepted. -/
structure Inv (r : Record φ) : Prop where
  world : r.world.Inv
  waits : r.world.globals.WaitsForDeposit
  registered : ∀ c, .epollAdd c ∈ r.world.trace → c.ctrlFd < r.world.accepted
  apart : ∀ c, r.world.globals.consumer = some c → ¬ r.IsProducer c.ctrlFd
  answered : ∀ p, r.IsProducer p → r.answers p + r.world.globals.owed p ≤ r.pickups p
  silent : ∀ p, r.world.accepted ≤ p → r.answers p = 0

theorem inv_initial : (initial : Record φ).Inv where
  world := World.inv_initial
  waits := nofun
  registered := nofun
  apart := nofun
  answered := nofun
  silent _ _ := rfl

theorem Inv.noLostPickup (h : r.Inv) : r.NoLostPickup :=
  ⟨h.waits, fun p hp => (Nat.le_add_right _ _).trans (h.answered p hp)⟩

theorem Inv.consumer_lt (h : r.Inv) {c : Client} (hc : r.world.globals.consumer = some c) :
    c.ctrlFd < r.world.accepted :=
  h.world.numbered c ((h.world.live_iff c).mpr (.inl hc))

/-- What a step makes of the record, with its effects. -/
structure Advance (r : Record φ) (e : Event φ) (effs : List (Effect φ)) (r' : Record φ) : Prop where
  enabled : r.world.Enabled e
  reaction : Reaction r.world.globals r.world.accepted e (r'.world.globals, effs)
  trace : r'.world.trace = r.world.trace ++ effs
  events : r'.events = r.events ++ [e]
  accepted : r.world.accepted ≤ r'.world.accepted
  listens : ∀ i, e = .listen true i → r'.world.accepted = r.world.accepted + 1

section Advance

variable {e : Event φ} {effs : List (Effect φ)}

theorem exists_advance (hs : r.step e = some r') :
    ∃ effs, r.Advance e effs r' := by
  obtain ⟨w, hw, rfl⟩ := Option.map_eq_some_iff.mp hs
  obtain ⟨henabled, rfl⟩ := World.step_eq_some.mp hw
  obtain ⟨d', effs, hr, hd, heffs⟩ := r.world.next_reaction e
  refine ⟨effs, henabled, ?_, ?_, rfl, r.world.accepted_le_next e, ?_⟩
  · rw [hd]
    exact hr
  · rw [← heffs]
    rfl
  · rintro i rfl
    rfl

variable (ha : r.Advance e effs r')
include ha

theorem Advance.answers_eq (p : ℕ) :
    r'.answers p = r.answers p + effs.countP (Effect.isFdsReady p) := by
  rw [answers, ha.trace, List.countP_append]
  rfl

theorem Advance.pickups_eq (p : ℕ) :
    r'.pickups p = r.pickups p + if e.isPickup p = true then 1 else 0 := by
  rw [pickups, ha.events, List.countP_append, List.countP_singleton]
  rfl

theorem Advance.isProducer {p : ℕ} (hp : r'.IsProducer p) :
    r.IsProducer p ∨ .epollAdd ⟨p, false⟩ ∈ effs := by
  rw [IsProducer, ha.trace] at hp
  exact List.mem_append.mp hp

/-- Connections are registered under the numbers that they have been accepted with. -/
theorem Inv.registered_step (h : r.Inv) (c : Client) (hc : .epollAdd c ∈ r'.world.trace) :
    c.ctrlFd < r'.world.accepted := by
  rw [ha.trace] at hc
  rcases List.mem_append.mp hc with hc | hc
  · exact (h.registered c hc).trans_le ha.accepted
  · obtain ⟨heq, ⟨i, hi⟩, -⟩ := ha.reaction.added hc
    rw [ha.listens i hi, heq]
    exact Nat.lt_succ_self _

/-- The consumer has not been accepted as a producer. -/
theorem Inv.apart_step (h : r.Inv) (c : Client) (hc : r'.world.globals.consumer = some c) :
    ¬ r'.IsProducer c.ctrlFd := by
  intro hp
  rcases ha.isProducer hp with hp | hp
  · rcases (ha.reaction.roles c).1 hc with hold | ⟨hnew, -⟩
    · exact h.apart c hold hp
    · have hlt := h.registered _ hp
      rw [hnew] at hlt
      exact lt_irrefl _ hlt
  · obtain ⟨heq, -, hfields⟩ := ha.reaction.added hp
    obtain ⟨hsame, -⟩ := hfields rfl
    rw [hsame] at hc
    exact (h.consumer_lt hc).ne heq

/-- The answers of a producer and the one it waits for are never more than its requests. -/
theorem Inv.answered_step (h : r.Inv) (p : ℕ) (hp : r'.IsProducer p) :
    r'.answers p + r'.world.globals.owed p ≤ r'.pickups p := by
  rw [ha.answers_eq, ha.pickups_eq]
  rcases ha.isProducer hp with hp | hp
  · have hother : ∀ c, r.world.globals.consumer = some c → c.ctrlFd ≠ p := by
      rintro c hc rfl
      exact h.apart c hc hp
    have hfresh : ∀ i, e = .listen true i → p ≠ r.world.accepted :=
      fun _ _ => (h.registered _ hp).ne
    have hstep := ha.reaction.answered h.world.producer_role hother hfresh
    have hbefore := h.answered p hp
    omega
  · obtain ⟨heq, -, hfields⟩ := ha.reaction.added hp
    obtain ⟨-, hwait, hcount⟩ := hfields rfl
    have heq : p = r.world.accepted := heq
    have howed : r'.world.globals.owed p = 0 := by simp [Globals.owed, hwait]
    rw [hcount p, h.silent p heq.ge, howed]
    exact Nat.zero_le _

/-- A connection that is still to come has no answers. -/
theorem Inv.silent_step (h : r.Inv) (p : ℕ) (hp : r'.world.accepted ≤ p) : r'.answers p = 0 := by
  have hle : r.world.accepted ≤ p := ha.accepted.trans hp
  have hother : ∀ c, r.world.globals.consumer = some c → c.ctrlFd ≠ p :=
    fun c hc => ((h.consumer_lt hc).trans_le hle).ne
  have hfresh : ∀ i, e = .listen true i → p ≠ r.world.accepted := by
    intro i hi
    have haccepted := ha.listens i hi
    omega
  have howed : r.world.globals.owed p = 0 := by
    rw [Globals.owed, if_neg]
    rintro ⟨hproducer, -⟩
    have hlt := h.world.numbered _ ((h.world.live_iff _).mpr (.inr hproducer))
    exact absurd hlt (not_lt.mpr hle)
  have hpick : e.isPickup p = false := by
    cases e with
    | readable c i =>
      have hlt := h.world.numbered c (ha.enabled c rfl)
      simp [Event.isPickup, (hlt.trans_le hle).ne]
    | listen | hangup => rfl
  have hstep := ha.reaction.answered h.world.producer_role hother hfresh
  rw [howed, hpick, if_neg Bool.false_ne_true] at hstep
  rw [ha.answers_eq, h.silent p hle]
  omega

end Advance

theorem Inv.step {e : Event φ} (h : r.Inv) (hok : e.sendsOk = true) (hs : r.step e = some r') :
    r'.Inv := by
  obtain ⟨effs, ha⟩ := exists_advance hs
  obtain ⟨w, hw, hr'⟩ := Option.map_eq_some_iff.mp hs
  refine ⟨?_, ?_, h.registered_step ha, h.apart_step ha, h.answered_step ha, h.silent_step ha⟩
  · rw [← hr']
    exact h.world.step hw
  · exact ha.reaction.waitsForDeposit hok h.waits

end Record

/-- After every sequence of events whose sends succeed, nobody waits beside a complete
deposit, and no producer has been answered more often than it has asked. -/
theorem noLostPickup_of_events (events : List (Event φ)) (h : ∀ e ∈ events, e.sendsOk = true) :
    Always Record.step Record.NoLostPickup .initial events :=
  ⟨Record.inv_initial.noLostPickup,
    along_of_guard (I := Record.Inv) (G := fun _ e _ => e.sendsOk = true)
      (P := fun _ _ r => r.NoLostPickup)
      (fun _ _ _ hinv hs hok => ⟨hinv.step hok hs, (hinv.step hok hs).noLostPickup⟩)
      Record.inv_initial (along_of_forall h _)⟩

/-- A producer asks before a consumer brings its descriptors. -/
theorem noLostPickup_askedFirst : Always Record.step Record.NoLostPickup (.initial : Record ℕ)
    [.listen true (.ofType .producerHello []), .readable ⟨0, false⟩ (.ofType .pickupFds []),
      .listen true (.ofType .consumerHello [3, 4, 5, 6])] :=
  noLostPickup_of_events _ (by decide)

end Daemon
end ACGlass
