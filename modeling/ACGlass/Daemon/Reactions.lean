import ACGlass.Daemon.Handlers
import ACGlass.Transition
import Mathlib.Tactic

/-!
# What one event can do to the daemon

`Reaction` lists every way in which the loop body changes the static variables,
with the calls it makes; `dispatch_reaction` says that there is no other. Facts
about the daemon are proved by cases on it and do not unfold the handlers.
-/

namespace ACGlass
namespace Daemon

variable {φ : Type*}

/-- What an observable call is about. -/
inductive Effect.Kind
  | screen
  | fds
  | ctrl
  | deposit
  | close
  | client
  deriving DecidableEq, Repr

def Effect.kind : Effect φ → Effect.Kind
  | .sendScreenInfo .. => .screen
  | .sendFds .. => .fds
  | .sendCtrl .. => .ctrl
  | .deposit .. => .deposit
  | .closeFd _ | .closeConn _ => .close
  | .epollAdd _ | .clientFree _ => .client

section Kinds

@[simp] theorem kind_sendScreenInfo (fd : ℕ) (si : ScreenInfo) :
    (.sendScreenInfo fd si : Effect φ).kind = .screen := rfl

@[simp] theorem kind_sendFds (fd : ℕ) (fds : List φ) : (Effect.sendFds fd fds).kind = .fds := rfl

@[simp] theorem kind_sendCtrl (fd : ℕ) (t : CtrlType) :
    (.sendCtrl fd t : Effect φ).kind = .ctrl := rfl

@[simp] theorem kind_deposit (c : Client) (fds : List φ) :
    (Effect.deposit c fds).kind = .deposit := rfl

@[simp] theorem kind_closeFd (f : φ) : (Effect.closeFd f).kind = .close := rfl

@[simp] theorem kind_closeConn (fd : ℕ) : (.closeConn fd : Effect φ).kind = .close := rfl

@[simp] theorem kind_epollAdd (c : Client) : (.epollAdd c : Effect φ).kind = .client := rfl

@[simp] theorem kind_clientFree (c : Client) : (.clientFree c : Effect φ).kind = .client := rfl

end Kinds

/-- A message of a client that cannot be read to its end: `recv_fds` fails, the header
announces more than the payload buffer holds, or `recv_all` fails. -/
def Input.readFails (i : Input φ) : Bool :=
  match recvFds maxFds i.msg with
  | none => true
  | some m => 0 < m.hdr.size && (screenInfoSize < m.hdr.size || !i.payloadOk)

theorem readFails_eq_false {i : Input φ} {m : Received CtrlMsg φ maxFds}
    (hm : recvFds maxFds i.msg = some m) (hsize : m.hdr.size = screenInfoSize)
    (hok : i.payloadOk = true) : i.readFails = false := by
  simp [Input.readFails, hm, hsize, hok]

/-- The events on which the main loop calls `handle_disconnect`. -/
def Event.disconnects : Event φ → Bool
  | .listen .. => false
  | .hangup _ => true
  | .readable _ i => i.readFails

/-- The guards of `try_deliver_fds`: a producer, all four descriptors, and a `send_fds`
that succeeds. -/
def Globals.Deliverable (d : Globals φ) (sendOk : Bool) : Prop :=
  d.producer.isSome ∧ 4 ≤ d.depositedFds.length ∧ sendOk = true

instance (d : Globals φ) (sendOk : Bool) : Decidable (d.Deliverable sendOk) :=
  inferInstanceAs (Decidable (_ ∧ _ ∧ _))

/-- `try_deliver_fds` either leaves the deposit and has the producer wait, or hands a
complete deposit to the producer and tells the consumer. -/
inductive Delivery (d : Globals φ) (sendOk : Bool) : Globals φ × List (Effect φ) → Prop
  | deferred (h : ¬ d.Deliverable sendOk) :
      Delivery d sendOk ({ d with producerWaitingFds := true }, [])
  | delivered (p : Client) (hp : d.producer = some p) (h : d.Deliverable sendOk) :
      Delivery d sendOk
        ({ d with depositedFds := [], producerWaitingFds := false },
          .sendFds p.ctrlFd d.depositedFds ::
            (d.consumer.toList.map fun c => .sendCtrl c.ctrlFd .fdsReady) ++
              d.depositedFds.map .closeFd)

/-- A new deposit stays in its slot, or is offered to the producer that waits for it. -/
inductive Deposited (d : Globals φ) (c : Client) (fds : List φ) (sendOk : Bool) :
    Globals φ × List (Effect φ) → Prop
  | kept (hw : d.producerWaitingFds = false) :
      Deposited d c fds sendOk
        ({ d with depositedFds := fds }, d.depositedFds.map .closeFd ++ [.deposit c fds])
  | offered {d' : Globals φ} {effs : List (Effect φ)} (hw : d.producerWaitingFds = true)
      (h : Delivery { d with depositedFds := fds } sendOk (d', effs)) :
      Deposited d c fds sendOk (d', d.depositedFds.map .closeFd ++ .deposit c fds :: effs)

/-- The events that no branch of the handlers is for. -/
structure Ignored (d : Globals φ) (e : Event φ) : Prop where
  disconnect : ∀ c, e.client = some c → e.disconnects = true →
    d.consumer ≠ some c ∧ d.producer ≠ some c
  connection : ∀ i m, e = .listen true i → recvFds maxFds i.msg = some m → ctrlMsgSize ≤ m.n →
    m.hdr.type ≠ .consumerHello ∧ m.hdr.type ≠ .producerHello
  message : ∀ c i m, e = .readable c i → recvFds maxFds i.msg = some m → e.disconnects = false →
    (m.hdr.type = .consumerHello → d.consumer = some c → m.fds.length < 3) ∧
      (m.hdr.type = .screenInfo → d.consumer = some c → m.hdr.size ≠ screenInfoSize) ∧
      (m.hdr.type = .pickupFds → d.producer ≠ some c)

/-- The loop body of `main`, case by case; `fd` is the connection that would be accepted. -/
inductive Reaction (d : Globals φ) (fd : ℕ) : Event φ → Globals φ × List (Effect φ) → Prop
  | ignored {e : Event φ} {effs : List (Effect φ)} (hi : Ignored d e)
      (h : ∀ x ∈ effs, x.kind = .close) :
      Reaction d fd e (d, effs)
  | consumerGone {e : Event φ} {c : Client} (he : e.client = some c)
      (hd : e.disconnects = true) (hc : d.consumer = some c) :
      Reaction d fd e ({ d with consumer := none }, [.clientFree c])
  | producerGone {e : Event φ} {c : Client} (he : e.client = some c)
      (hd : e.disconnects = true) (hc : d.consumer ≠ some c) (hp : d.producer = some c) :
      Reaction d fd e
        ({ d with producer := none, producerWaitingScreen := false, producerWaitingFds := false },
          [.clientFree c])
  | newConsumer {i : Input φ} {m : Received CtrlMsg φ maxFds} {d' : Globals φ}
      {effs : List (Effect φ)} (hm : recvFds maxFds i.msg = some m)
      (hn : ctrlMsgSize ≤ m.n) (ht : m.hdr.type = .consumerHello)
      (h : Deposited { d with consumer := some ⟨fd, true⟩ } ⟨fd, true⟩ m.fds i.sendOk (d', effs)) :
      Reaction d fd (.listen true i)
        (d', d.consumer.toList.map .clientFree ++ effs ++ [.epollAdd ⟨fd, true⟩])
  | newProducerInformed {i : Input φ} {m : Received CtrlMsg φ maxFds}
      (hm : recvFds maxFds i.msg = some m) (hn : ctrlMsgSize ≤ m.n)
      (ht : m.hdr.type = .producerHello) (hs : d.hasScreenInfo = true) :
      Reaction d fd (.listen true i)
        ({ d with
            producer := some ⟨fd, false⟩, producerWaitingScreen := false,
            producerWaitingFds := false },
          d.producer.toList.map .clientFree ++ [.sendScreenInfo fd d.storedScreen] ++
            [.epollAdd ⟨fd, false⟩])
  | newProducerWaiting {i : Input φ} {m : Received CtrlMsg φ maxFds}
      (hm : recvFds maxFds i.msg = some m) (hn : ctrlMsgSize ≤ m.n)
      (ht : m.hdr.type = .producerHello) (hs : d.hasScreenInfo = false) :
      Reaction d fd (.listen true i)
        ({ d with
            producer := some ⟨fd, false⟩, producerWaitingScreen := true,
            producerWaitingFds := false },
          d.producer.toList.map .clientFree ++ [.epollAdd ⟨fd, false⟩])
  | redeposited {c : Client} {i : Input φ} {m : Received CtrlMsg φ maxFds} {d' : Globals φ}
      {effs : List (Effect φ)} (hm : recvFds maxFds i.msg = some m) (hd : i.readFails = false)
      (ht : m.hdr.type = .consumerHello) (hc : d.consumer = some c) (h3 : 3 ≤ m.fds.length)
      (h : Deposited d c m.fds i.sendOk (d', effs)) :
      Reaction d fd (.readable c i) (d', effs)
  | screenChanged {c : Client} {i : Input φ} {m : Received CtrlMsg φ maxFds}
      (hm : recvFds maxFds i.msg = some m) (ht : m.hdr.type = .screenInfo)
      (hsize : m.hdr.size = screenInfoSize) (hok : i.payloadOk = true)
      (hc : d.consumer = some c) (hs : d.hasScreenInfo = true)
      (hne : i.payload ≠ d.storedScreen) :
      Reaction d fd (.readable c i)
        ({ d with storedScreen := i.payload }.resetProducerForScreenChange.1,
          m.fds.map .closeFd ++ d.producer.toList.map .clientFree)
  | screenForwarded {c p : Client} {i : Input φ} {m : Received CtrlMsg φ maxFds}
      (hm : recvFds maxFds i.msg = some m) (ht : m.hdr.type = .screenInfo)
      (hsize : m.hdr.size = screenInfoSize) (hok : i.payloadOk = true)
      (hc : d.consumer = some c) (hs : d.hasScreenInfo = true → i.payload = d.storedScreen)
      (hp : d.producer = some p) (hw : d.producerWaitingScreen = true) :
      Reaction d fd (.readable c i)
        ({ d with
            storedScreen := i.payload, hasScreenInfo := true, producerWaitingScreen := false },
          m.fds.map .closeFd ++ [.sendScreenInfo p.ctrlFd i.payload])
  | screenStored {c : Client} {i : Input φ} {m : Received CtrlMsg φ maxFds}
      (hm : recvFds maxFds i.msg = some m) (ht : m.hdr.type = .screenInfo)
      (hsize : m.hdr.size = screenInfoSize) (hok : i.payloadOk = true)
      (hc : d.consumer = some c) (hs : d.hasScreenInfo = true → i.payload = d.storedScreen)
      (hw : d.producer.isSome → d.producerWaitingScreen = false) :
      Reaction d fd (.readable c i)
        ({ d with storedScreen := i.payload, hasScreenInfo := true }, m.fds.map .closeFd)
  | pickedUp {c : Client} {i : Input φ} {m : Received CtrlMsg φ maxFds} {d' : Globals φ}
      {effs : List (Effect φ)} (hm : recvFds maxFds i.msg = some m) (hd : i.readFails = false)
      (ht : m.hdr.type = .pickupFds) (hp : d.producer = some c)
      (h : Delivery d i.sendOk (d', effs)) :
      Reaction d fd (.readable c i) (d', m.fds.map .closeFd ++ effs)

namespace Globals

variable (d : Globals φ)

theorem tryDeliverFds_delivery (sendOk : Bool) :
    Delivery d sendOk (d.tryDeliverFds sendOk) := by
  unfold tryDeliverFds
  split
  · rename_i hp
    exact .deferred (by simp [Deliverable, hp])
  · rename_i p hp
    split_ifs with hlen hok
    · exact .deferred fun h => by
        have := h.2.1
        omega
    · exact .deferred fun h => by simp [h.2.2] at hok
    · exact .delivered p hp ⟨by simp [hp], not_lt.mp hlen, by simpa using hok⟩

theorem replaceDeposit_deposited (c : Client) (fds : List φ) (sendOk : Bool) :
    Deposited d c fds sendOk (d.replaceDeposit c fds sendOk) := by
  unfold replaceDeposit clearDepositedFds
  cases hw : d.producerWaitingFds with
  | false =>
    have hkept : Deposited d c fds sendOk _ := .kept hw
    simpa [hw] using hkept
  | true =>
    simp only [if_true]
    exact .offered hw (tryDeliverFds_delivery _ sendOk)

theorem handleDisconnect_reaction {e : Event φ} {c : Client} (he : e.client = some c)
    (hd : e.disconnects = true) (fd : ℕ) : Reaction d fd e (d.handleDisconnect c) := by
  unfold handleDisconnect
  split_ifs with hc hp
  · exact .consumerGone he hd hc
  · exact .producerGone he hd hc hp
  · refine .ignored ⟨?_, ?_, ?_⟩ (by simp)
    · intro c' hc' _
      obtain rfl : c = c' := Option.some.inj (he.symm.trans hc')
      exact ⟨hc, hp⟩
    · rintro i m rfl
      cases he
    · intro c' i m _ _ hd'
      simp [hd] at hd'

theorem kind_closeReceivedFds (fds : List φ) :
    ∀ x ∈ closeReceivedFds fds, x.kind = .close := by
  simp [closeReceivedFds]

/-- Storing what is stored already changes nothing. -/
theorem store_same (hs : d.hasScreenInfo = true) :
    { d with storedScreen := d.storedScreen, hasScreenInfo := true } = d := by
  cases d
  cases hs
  rfl

theorem updateScreenInfo_reaction {c : Client} {i : Input φ} {m : Received CtrlMsg φ maxFds}
    (fd : ℕ) (hm : recvFds maxFds i.msg = some m) (ht : m.hdr.type = .screenInfo)
    (hsize : m.hdr.size = screenInfoSize) (hok : i.payloadOk = true)
    (hc : d.consumer = some c) :
    Reaction d fd (.readable c i)
      ((d.updateScreenInfo i.payload).1,
        closeReceivedFds m.fds ++ (d.updateScreenInfo i.payload).2) := by
  by_cases hchange : d.hasScreenInfo = true ∧ i.payload ≠ d.storedScreen
  · obtain ⟨hs, hne⟩ := hchange
    have hout : d.updateScreenInfo i.payload =
        ({ d with storedScreen := i.payload }.resetProducerForScreenChange.1,
          d.producer.toList.map .clientFree) := by
      unfold updateScreenInfo resetProducerForScreenChange
      cases hp : d.producer <;> simp [hs, hne]
    rw [hout]
    exact .screenChanged hm ht hsize hok hc hs hne
  have hsame : d.hasScreenInfo = true → i.payload = d.storedScreen := by
    intro hs
    by_contra hne
    exact hchange ⟨hs, hne⟩
  -- from here on the stored screen is the announced one, old or new
  have hstore : (if d.hasScreenInfo then
        if i.payload ≠ d.storedScreen then
          { d with storedScreen := i.payload }.resetProducerForScreenChange
        else (d, [])
      else ({ d with storedScreen := i.payload, hasScreenInfo := true }, [])) =
      ({ d with storedScreen := i.payload, hasScreenInfo := true }, []) := by
    by_cases hs : d.hasScreenInfo = true
    · simp only [hs, hsame hs, d.store_same hs, ne_eq, not_true_eq_false, if_true, if_false]
    · simp only [hs]
      rfl
  unfold updateScreenInfo
  rw [hstore]
  dsimp only
  split
  · rename_i p hp
    by_cases hw : d.producerWaitingScreen = true
    · rw [if_pos hw]
      exact .screenForwarded hm ht hsize hok hc hsame hp hw
    · rw [if_neg hw, List.append_nil]
      exact .screenStored hm ht hsize hok hc hsame fun _ => by simpa using hw
  · rename_i hp
    rw [List.append_nil]
    exact .screenStored hm ht hsize hok hc hsame fun h => by simp [hp] at h

/-- A complete message of a client is ignored when its own branch does not apply. -/
theorem ignored_readable {c : Client} {i : Input φ} {m : Received CtrlMsg φ maxFds}
    (hm : recvFds maxFds i.msg = some m) (hd : i.readFails = false)
    (hhello : m.hdr.type = .consumerHello → d.consumer = some c → m.fds.length < 3)
    (hscreen : m.hdr.type = .screenInfo → d.consumer = some c → m.hdr.size ≠ screenInfoSize)
    (hpickup : m.hdr.type = .pickupFds → d.producer ≠ some c) : Ignored d (.readable c i) := by
  refine ⟨?_, ?_, ?_⟩
  · intro c' _ hd'
    simp [Event.disconnects, hd] at hd'
  · intro i' m' he
    cases he
  · intro c' i' m' he hm' _
    cases he
    obtain rfl : m = m' := Option.some.inj (hm.symm.trans hm')
    exact ⟨hhello, hscreen, hpickup⟩

/-- A connection whose first message is no hello is closed. -/
theorem ignored_listen {accepted : Bool} {i : Input φ}
    (h : accepted = true → ∀ m, recvFds maxFds i.msg = some m → ctrlMsgSize ≤ m.n →
      m.hdr.type ≠ .consumerHello ∧ m.hdr.type ≠ .producerHello) :
    Ignored d (.listen accepted i) := by
  refine ⟨?_, ?_, ?_⟩
  · intro c hc
    cases hc
  · intro i' m he hm hn
    cases he
    exact h rfl m hm hn
  · intro c i' m he
    cases he

theorem handleClientData_reaction (fd : ℕ) (c : Client) (i : Input φ) :
    Reaction d fd (.readable c i) (d.handleClientData c i) := by
  unfold handleClientData
  split
  · rename_i hm
    exact d.handleDisconnect_reaction rfl (by simp [Event.disconnects, Input.readFails, hm]) fd
  · rename_i m hm
    by_cases hbad : 0 < m.hdr.size ∧ (screenInfoSize < m.hdr.size ∨ i.payloadOk = false)
    · rw [if_pos hbad]
      exact d.handleDisconnect_reaction rfl
        (by simpa [Event.disconnects, Input.readFails, hm] using hbad) fd
    rw [if_neg hbad]
    have hd : i.readFails = false := by
      simpa [Input.readFails, hm] using hbad
    split
    · rename_i ht
      split_ifs with hc
      · have hdep := d.replaceDeposit_deposited c m.fds i.sendOk
        generalize d.replaceDeposit c m.fds i.sendOk = r at hdep ⊢
        obtain ⟨d', effs⟩ := r
        exact .redeposited hm hd ht hc.1 hc.2 hdep
      · refine .ignored (d.ignored_readable hm hd ?_ (by simp [ht]) (by simp [ht]))
          (kind_closeReceivedFds m.fds)
        intro _ hcons
        exact not_le.mp fun h3 => hc ⟨hcons, h3⟩
    · rename_i ht
      split_ifs with hc
      · have hok : i.payloadOk = true := by
          rw [hc.2] at hbad
          simpa [screenInfoSize] using hbad
        exact d.updateScreenInfo_reaction fd hm ht hc.2 hok hc.1
      · refine .ignored (d.ignored_readable hm hd (by simp [ht]) ?_ (by simp [ht]))
          (kind_closeReceivedFds m.fds)
        intro _ hcons hsize
        exact hc ⟨hcons, hsize⟩
    · rename_i ht
      split_ifs with hp
      · have hdel := d.tryDeliverFds_delivery i.sendOk
        generalize d.tryDeliverFds i.sendOk = r at hdel ⊢
        obtain ⟨d', effs⟩ := r
        exact .pickedUp hm hd ht hp hdel
      · exact .ignored (d.ignored_readable hm hd (by simp [ht]) (by simp [ht]) fun _ => hp)
          (kind_closeReceivedFds m.fds)
    · rename_i hhello hscreen hpickup
      exact .ignored
        (d.ignored_readable hm hd (fun h => absurd h hhello) (fun h => absurd h hscreen)
          fun h => absurd h hpickup)
        (kind_closeReceivedFds m.fds)

theorem handleNewConnection_reaction (fd : ℕ) (i : Input φ) :
    Reaction d fd (.listen true i) (d.handleNewConnection (some fd) i) := by
  unfold handleNewConnection
  dsimp only
  split
  · rename_i hm
    exact .ignored (d.ignored_listen fun _ => by simp [hm]) (by simp)
  · rename_i m hm
    by_cases hn : m.n < ctrlMsgSize
    · rw [if_pos hn]
      refine .ignored (d.ignored_listen ?_) (by simp)
      intro _ m' hm' hn'
      obtain rfl : m = m' := Option.some.inj (hm.symm.trans hm')
      omega
    rw [if_neg hn]
    have hn : ctrlMsgSize ≤ m.n := not_lt.mp hn
    split
    · rename_i ht
      have hdep := replaceDeposit_deposited { d with consumer := some ⟨fd, true⟩ } ⟨fd, true⟩
        m.fds i.sendOk
      generalize replaceDeposit _ _ _ _ = r at hdep ⊢
      obtain ⟨d', effs⟩ := r
      exact .newConsumer hm hn ht hdep
    · rename_i ht
      split_ifs with hs
      · exact .newProducerInformed hm hn ht hs
      · exact .newProducerWaiting hm hn ht (by simpa using hs)
    · rename_i hcons hprod
      refine Reaction.ignored (d.ignored_listen ?_) ?_
      · intro _ m' hm' _
        obtain rfl : m = m' := Option.some.inj (hm.symm.trans hm')
        exact ⟨hcons, hprod⟩
      · simp [closeReceivedFds, or_imp, forall_and]

theorem dispatch_reaction (fd : ℕ) (e : Event φ) : Reaction d fd e (d.dispatch fd e) := by
  cases e with
  | listen accepted i =>
    cases accepted with
    | false =>
      have hnone : d.dispatch fd (.listen false i) = (d, []) := by
        simp [dispatch, handleNewConnection]
      rw [hnone]
      exact .ignored (d.ignored_listen (by simp)) (by simp)
    | true => exact d.handleNewConnection_reaction fd i
  | hangup c => exact d.handleDisconnect_reaction rfl rfl fd
  | readable c i => exact d.handleClientData_reaction fd c i

theorem dispatch_of_disconnects {e : Event φ} {c : Client} (fd : ℕ) (he : e.client = some c)
    (hd : e.disconnects = true) : d.dispatch fd e = d.handleDisconnect c := by
  cases e with
  | listen accepted i => simp [Event.client] at he
  | hangup c' =>
    obtain rfl : c' = c := by simpa [Event.client] using he
    rfl
  | readable c' i =>
    obtain rfl : c' = c := by simpa [Event.client] using he
    simp only [Event.disconnects, Input.readFails] at hd
    unfold dispatch handleClientData
    split at hd
    · rename_i hm
      simp only [hm]
    · rename_i m hm
      simp only [hm]
      rw [if_pos (by simpa using hd)]

end Globals

end Daemon
end ACGlass
