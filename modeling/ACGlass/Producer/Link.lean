import ACGlass.Producer.Joint

/-!
# The daemon's end of the producer's connection

What one event means for the producer on connection `n`: which of the daemon's
variables about it change, and which messages it is sent.
-/

namespace ACGlass
namespace Producer

open Daemon (Globals Client Delivery Deposited Reaction)

variable {d d' : Globals ℕ} {n : ℕ} {effs : List (Daemon.Effect ℕ)}

/-- What an event of another connection does to the producer on connection `n`. -/
inductive Link (n : ℕ) (d d' : Globals ℕ) : List DownMsg → Prop
  | apart (h' : d'.producer ≠ some ⟨n, false⟩) : Link n d d' []
  | quiet (h : d.producer = some ⟨n, false⟩) (h' : d'.producer = d.producer)
      (hw : d'.producerWaitingFds = d.producerWaitingFds)
      (hs : d'.producerWaitingScreen = d.producerWaitingScreen)
      (hi : d.producerWaitingScreen = true → d'.hasScreenInfo = d.hasScreenInfo) :
      Link n d d' []
  | informed (si : ScreenInfo) (h : d.producer = some ⟨n, false⟩) (h' : d'.producer = d.producer)
      (hw : d'.producerWaitingFds = d.producerWaitingFds)
      (hs : d.producerWaitingScreen = true) (hs' : d'.producerWaitingScreen = false) :
      Link n d d' [.screen si]
  | delivered (fds : List ℕ) (h : d.producer = some ⟨n, false⟩) (h' : d'.producer = d.producer)
      (hw : d.producerWaitingFds = true) (hw' : d'.producerWaitingFds = false)
      (hs : d'.producerWaitingScreen = d.producerWaitingScreen)
      (hi : d'.hasScreenInfo = d.hasScreenInfo) (hfour : 4 ≤ fds.length) :
      Link n d d' [.fdsReady fds]

theorem Link.linked {msgs : List DownMsg} (hl : Link n d d' msgs)
    (h' : d'.producer = some ⟨n, false⟩) : d.producer = some ⟨n, false⟩ := by
  cases hl with
  | apart hno => exact absurd h' hno
  | quiet h | informed _ h | delivered _ h => exact h

theorem filterMap_downMsgOf_of_kind
    (h : ∀ x ∈ effs, x.kind ≠ .fds ∧ x.kind ≠ .screen) : effs.filterMap (downMsgOf n) = [] := by
  refine List.filterMap_eq_nil_iff.mpr fun x hx => ?_
  have := h x hx
  cases x with
  | sendScreenInfo m si => exact absurd rfl this.2
  | sendFds m fds => exact absurd rfl this.1
  | _ => rfl

/-- An event that leaves the producer's variables alone. -/
theorem Link.of_same (h' : d'.producer = d.producer)
    (hw : d'.producerWaitingFds = d.producerWaitingFds)
    (hs : d'.producerWaitingScreen = d.producerWaitingScreen)
    (hi : d.producerWaitingScreen = true → d'.hasScreenInfo = d.hasScreenInfo) :
    Link n d d' [] := by
  by_cases h : d.producer = some ⟨n, false⟩
  · exact .quiet h h' hw hs hi
  · exact .apart (by rwa [h'])

/-- Of the calls of a delivery, the producer sees the descriptors. -/
theorem filterMap_handover (d : Globals ℕ) (n : ℕ) :
    (Daemon.Effect.sendFds n d.depositedFds ::
        (d.consumer.toList.map fun c => Daemon.Effect.sendCtrl c.ctrlFd .fdsReady) ++
          d.depositedFds.map Daemon.Effect.closeFd).filterMap (downMsgOf n) =
      [.fdsReady d.depositedFds] := by
  have hhead : downMsgOf n (.sendFds n d.depositedFds) = some (.fdsReady d.depositedFds) := by
    simp [downMsgOf]
  rw [List.cons_append, List.filterMap_cons_some hhead,
    filterMap_downMsgOf_of_kind (by simp [or_imp, forall_and])]

/-- A delivery to the producer on connection `n`. -/
theorem link_delivery {ok : Bool} (hd : Delivery d ok (d', effs))
    (h : d.producer = some ⟨n, false⟩) :
    effs.filterMap (downMsgOf n) = [] ∧ d'.producerWaitingFds = true ∨
      ∃ fds, effs.filterMap (downMsgOf n) = [.fdsReady fds] ∧ 4 ≤ fds.length ∧
        d'.producerWaitingFds = false := by
  cases hd with
  | deferred hno => exact .inl ⟨rfl, rfl⟩
  | delivered p hp hyes =>
    obtain rfl : p = ⟨n, false⟩ := Option.some.inj (hp.symm.trans h)
    exact .inr ⟨d.depositedFds, filterMap_handover d n, hyes.2.1, rfl⟩

/-- Another producer has another connection. -/
theorem ctrlFd_ne_of_ne {p : Client} (hrole : p.isConsumer = false) (h : p ≠ ⟨n, false⟩) :
    p.ctrlFd ≠ n := by
  rintro rfl
  exact h (by rw [← hrole])

/-- A delivery to another producer. -/
theorem filterMap_delivery {ok : Bool} (hd : Delivery d ok (d', effs))
    (hrole : ∀ c, d.producer = some c → c.isConsumer = false)
    (h : d.producer ≠ some ⟨n, false⟩) : effs.filterMap (downMsgOf n) = [] := by
  cases hd with
  | deferred hno => rfl
  | delivered p hp hyes =>
    have hne : p.ctrlFd ≠ n := ctrlFd_ne_of_ne (hrole p hp) fun heq => h (heq ▸ hp)
    have hhead : downMsgOf n (.sendFds p.ctrlFd d.depositedFds) = none := by
      simp [downMsgOf, hne]
    rw [List.cons_append, List.filterMap_cons_none hhead,
      filterMap_downMsgOf_of_kind (by simp [or_imp, forall_and])]

theorem link_deposited {c : Client} {fds : List ℕ} {ok : Bool}
    (hd : Deposited d c fds ok (d', effs))
    (hrole : ∀ c, d.producer = some c → c.isConsumer = false) :
    Link n d d' (effs.filterMap (downMsgOf n)) := by
  have hf := hd.frame
  cases hd with
  | kept hw =>
    rw [filterMap_downMsgOf_of_kind (by simp [or_imp, forall_and])]
    exact .of_same rfl rfl rfl fun _ => rfl
  | offered hw hdel =>
    rw [List.append_cons, List.filterMap_append,
      filterMap_downMsgOf_of_kind (by simp [or_imp, forall_and]), List.nil_append]
    by_cases h : d.producer = some ⟨n, false⟩
    · rcases link_delivery hdel h with ⟨hnil, hw'⟩ | ⟨fds, hfds, hfour, hw'⟩
      · rw [hnil]
        exact .quiet h hf.producer (hw'.trans hw.symm) hf.producerWaitingScreen
          fun _ => hf.hasScreenInfo
      · rw [hfds]
        exact .delivered fds h hf.producer hw hw' hf.producerWaitingScreen hf.hasScreenInfo hfour
    · rw [filterMap_delivery hdel hrole h]
      exact .apart (by rwa [hf.producer])

/-- The consumer is no part of it. -/
theorem Link.of_consumer {c : Option Client} {msgs : List DownMsg}
    (hl : Link n { d with consumer := c } d' msgs) : Link n d d' msgs := by
  cases hl with
  | apart h' => exact .apart h'
  | quiet h h' hw hs hi => exact .quiet h h' hw hs hi
  | informed si h h' hw hs hs' => exact .informed si h h' hw hs hs'
  | delivered fds h h' hw hw' hs hi hfour => exact .delivered fds h h' hw hw' hs hi hfour

/-- The producer that waits for the screen is told. -/
theorem link_forwarded {p : Client} (hrole : p.isConsumer = false) (hp : d.producer = some p)
    (hw : d.producerWaitingScreen = true) (si : ScreenInfo) :
    Link n d { d with storedScreen := si, hasScreenInfo := true, producerWaitingScreen := false }
      ([Daemon.Effect.sendScreenInfo p.ctrlFd si].filterMap (downMsgOf n)) := by
  by_cases h : p = ⟨n, false⟩
  · subst h
    have hmsg : [Daemon.Effect.sendScreenInfo n si].filterMap (downMsgOf n) = [.screen si] := by
      simp [downMsgOf]
    rw [hmsg]
    exact .informed si hp rfl rfl hw rfl
  · have hne := ctrlFd_ne_of_ne hrole h
    have hmsg : [Daemon.Effect.sendScreenInfo p.ctrlFd si].filterMap (downMsgOf n) = [] := by
      simp [downMsgOf, hne]
    rw [hmsg]
    exact .apart (by simpa [hp] using h)

theorem ofConsumer_client {e : Daemon.Event ℕ} (he : ofConsumer e = true) {c : Client}
    (hc : e.client = some c) : c.isConsumer = true := by
  cases e with
  | listen accepted i => cases hc
  | hangup c' =>
    cases hc
    simpa [ofConsumer] using he
  | readable c' i =>
    cases hc
    simpa [ofConsumer] using he

/-- A consumer's event that is no news to the producer, or the one that informs it, or the
one that brings what it waits for, or that ends its connection. -/
theorem link_reaction {fd : ℕ} {e : Daemon.Event ℕ} (hr : Reaction d fd e (d', effs))
    (hrole : ∀ c, d.producer = some c → c.isConsumer = false) (he : ofConsumer e = true) :
    Link n d d' (effs.filterMap (downMsgOf n)) := by
  have hclient : ∀ c, e.client = some c → d.producer ≠ some c := by
    intro c hc hp
    exact absurd ((hrole c hp).symm.trans (ofConsumer_client he hc)) (by simp)
  have hclosed : ∀ {effs : List (Daemon.Effect ℕ)}, (∀ x ∈ effs, x.kind = .close) →
      effs.filterMap (downMsgOf n) = [] := by
    intro effs h
    exact filterMap_downMsgOf_of_kind fun x hx => by simp [h x hx]
  cases hr with
  | ignored hi hclose =>
    rw [hclosed hclose]
    exact .of_same rfl rfl rfl fun _ => rfl
  | consumerGone he' hd hc => exact .of_same rfl rfl rfl fun _ => rfl
  | producerGone he' hd hc hp => exact absurd hp (hclient _ he')
  | newConsumer hm hn ht hdep =>
    have hadd : [Daemon.Effect.epollAdd ⟨fd, true⟩].filterMap (downMsgOf n) = [] := rfl
    rw [List.filterMap_append, List.filterMap_append, hadd, List.append_nil,
      filterMap_downMsgOf_of_kind (by simp), List.nil_append]
    exact (link_deposited hdep hrole).of_consumer
  | newProducerInformed hm hn ht hs => simp [ofConsumer, hm, ht] at he
  | newProducerWaiting hm hn ht hs => simp [ofConsumer, hm, ht] at he
  | redeposited hm hd ht hc h3 hdep => exact link_deposited hdep hrole
  | screenChanged hm ht hsize hok hc hs hne =>
    rw [filterMap_downMsgOf_of_kind (by simp [or_imp, forall_and])]
    exact .apart (by simp [Globals.resetProducer_producer])
  | screenForwarded hm ht hsize hok hc hs hp hw =>
    rw [List.filterMap_append, hclosed (by simp), List.nil_append]
    exact link_forwarded (hrole _ hp) hp hw _
  | screenStored hm ht hsize hok hc hs hw =>
    rw [hclosed (by simp)]
    by_cases h : d.producer = some ⟨n, false⟩
    · exact .quiet h rfl rfl rfl fun hs' => by simp [hw (by simp [h])] at hs'
    · exact .apart h
  | pickedUp hm hd ht hp hdel => exact absurd hp (hclient _ rfl)

/-- The daemon gives the connection up. -/
theorem link_hangup (fd : ℕ) (hc : d.consumer ≠ some ⟨n, false⟩) :
    Link n d (d.dispatch fd (.hangup ⟨n, false⟩)).1
      ((d.dispatch fd (.hangup ⟨n, false⟩)).2.filterMap (downMsgOf n)) := by
  unfold Globals.dispatch Globals.handleDisconnect
  dsimp only
  rw [if_neg hc]
  split_ifs with hp
  · exact .apart (by simp)
  · exact .apart hp

/-- The daemon reads a `PICKUP_FDS` on connection `n`. -/
def pickupEvent (n : ℕ) (sendOk : Bool) : Daemon.Event ℕ :=
  .readable ⟨n, false⟩ { Daemon.Input.ofType .pickupFds [] with sendOk }

theorem dispatch_pickupEvent (fd : ℕ) (ok : Bool) (h : d.producer = some ⟨n, false⟩) :
    d.dispatch fd (pickupEvent n ok) = d.tryDeliverFds ok := by
  simp [Globals.dispatch, Globals.handleClientData, pickupEvent, Daemon.Input.ofType, recvFds,
    ctrlMsgSize, Daemon.closeReceivedFds, h]

/-- The daemon accepts the producer, which it informs at once if it can. -/
theorem dispatch_producerHello (fd : ℕ) (h : d.producer = none) :
    d.dispatch fd (.listen true (.ofType .producerHello [])) =
      ({ d with
          producer := some ⟨fd, false⟩, producerWaitingScreen := !d.hasScreenInfo
          producerWaitingFds := false },
        (if d.hasScreenInfo then [.sendScreenInfo fd d.storedScreen] else []) ++
          [.epollAdd ⟨fd, false⟩]) := by
  cases hs : d.hasScreenInfo <;>
    simp [Globals.dispatch, Globals.handleNewConnection, Daemon.Input.ofType, recvFds,
      ctrlMsgSize, Globals.sendScreenInfoMsg, h, hs]

theorem dispatch_unreadable (fd : ℕ) :
    d.dispatch fd (.listen true unreadable) = (d, [.closeConn fd]) := rfl

end Producer
end ACGlass
