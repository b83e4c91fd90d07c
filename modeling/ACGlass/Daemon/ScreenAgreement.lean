import ACGlass.Daemon.Deposit

/-!
# The screen a producer was told

A producer lays out its buffers for the screen it was last sent. Deposits and
screens travel in separate messages: this module says which deliveries hand a
producer the channel of a consumer whose screen it knows.
-/

namespace ACGlass
namespace Daemon

open Transition Trace

variable {φ : Type*}

/-- A `SCREEN_INFO` sent to connection `p`. -/
def screenTo (p : ℕ) : Effect φ → Option ScreenInfo
  | .sendScreenInfo fd si => if fd = p then some si else none
  | _ => none

def lastScreen (p : ℕ) (h : List (Effect φ)) : Option ScreenInfo := lastOf (screenTo p) h

/-- Descriptors sent after the history `h` are those of the last deposit, and their
receiver was last sent the screen that the depositor announces on its connection. -/
def AgreesAt (announce : ℕ → ScreenInfo) (h : List (Effect φ)) : Effect φ → Prop
  | .sendFds p fds =>
    ∃ c, lastDeposit h = some (c, fds) ∧ lastScreen p h = some (announce c.ctrlFd)
  | _ => True

/-- All that is sent in the order of `effs` after the history `h` agrees. -/
def Agrees (announce : ℕ → ScreenInfo) (h effs : List (Effect φ)) : Prop :=
  EachAt (fun pre => AgreesAt announce (h ++ pre)) effs

/-- A consumer sends four descriptors with every hello, and on one connection always
the same screen. -/
def Event.follows (announce : ℕ → ScreenInfo) : Event φ → Bool
  | .listen _ i =>
    match recvFds maxFds i.msg with
    | some m => m.hdr.type ≠ .consumerHello || m.fds.length = 4
    | none => true
  | .readable c i =>
    match recvFds maxFds i.msg with
    | some m =>
      !c.isConsumer ||
        (m.hdr.type ≠ .consumerHello || m.fds.length = 4) &&
          (m.hdr.type ≠ .screenInfo || i.payload = announce c.ctrlFd)
    | none => true
  | .hangup _ => true

/-- The daemon among consumers that follow the protocol. -/
def World.stepFollowing (announce : ℕ → ScreenInfo) (w : World φ) (e : Event φ) :
    Option (World φ) :=
  if e.follows announce then w.step e else none

/-- The client whose deposit the event hands to the producer: a hello that a producer
waits for, or a pickup of what is in the slot. -/
def World.delivers (w : World φ) : Event φ → Option Client
  | .listen true i =>
    match recvFds maxFds i.msg with
    | some m =>
      if ctrlMsgSize ≤ m.n ∧ m.hdr.type = .consumerHello ∧
          w.globals.producerWaitingFds = true ∧
          { w.globals with depositedFds := m.fds }.Deliverable i.sendOk then
        some ⟨w.accepted, true⟩
      else none
    | none => none
  | .readable c i =>
    match recvFds maxFds i.msg with
    | some m =>
      if i.readFails then none
      else if m.hdr.type = .consumerHello ∧ w.globals.consumer = some c ∧
          w.globals.producerWaitingFds = true ∧
          { w.globals with depositedFds := m.fds }.Deliverable i.sendOk then
        some c
      else if m.hdr.type = .pickupFds ∧ w.globals.producer = some c ∧
          w.globals.Deliverable i.sendOk then
        (lastDeposit w.trace).map Prod.fst
      else none
    | none => none
  | _ => none

/-- When a deposit is handed over, the screen the daemon stores is the depositor's. -/
def StoresDepositorScreen (announce : ℕ → ScreenInfo) (w : World φ) (e : Event φ)
    (_ : World φ) : Prop :=
  ∀ c, w.delivers e = some c →
    w.globals.hasScreenInfo = true ∧ w.globals.storedScreen = announce c.ctrlFd

section Histories

theorem screenTo_eq_none {x : Effect φ} (hx : x.kind ≠ .screen) (p : ℕ) :
    screenTo p x = none := by
  cases x <;> first | rfl | exact absurd rfl hx

theorem lastScreen_append {effs : List (Effect φ)} (h : ∀ x ∈ effs, x.kind ≠ .screen) (p : ℕ)
    (pre : List (Effect φ)) : lastScreen p (pre ++ effs) = lastScreen p pre :=
  lastOf_append_of_none (fun x hx => screenTo_eq_none (h x hx) p) pre

variable {announce : ℕ → ScreenInfo}

theorem agrees_append {h effs effs' : List (Effect φ)} :
    Agrees announce h (effs ++ effs') ↔
      Agrees announce h effs ∧ Agrees announce (h ++ effs) effs' := by
  simp only [Agrees, eachAt_append, List.append_assoc]

theorem agrees_singleton {h : List (Effect φ)} {x : Effect φ} :
    Agrees announce h [x] ↔ AgreesAt announce h x := by
  simp [Agrees, eachAt_cons, eachAt_nil]

theorem agrees_of_kind {h effs : List (Effect φ)} (hk : ∀ x ∈ effs, x.kind ≠ .fds) :
    Agrees announce h effs := by
  refine eachAt_of_forall fun x hx pre => ?_
  have := hk x hx
  cases x with
  | sendFds p fds => exact absurd rfl this
  | _ => trivial

end Histories

section Invariants

/-- What is in the slot was deposited last. -/
def SlotIsLast (d : Globals φ) (h : List (Effect φ)) : Prop :=
  d.depositedFds ≠ [] → ∃ c, lastDeposit h = some (c, d.depositedFds)

/-- What a connected producer was last sent is the stored screen. -/
def Shown (d : Globals φ) (h : List (Effect φ)) : Prop :=
  ∀ p, d.producer = some p →
    lastScreen p.ctrlFd h = if d.hasScreenInfo then some d.storedScreen else none

/-- Screens go to accepted connections, and a producer that was sent none waits for
the first one. -/
structure ScreenInv (d : Globals φ) (accepted : ℕ) (h : List (Effect φ)) : Prop where
  shown : Shown d h
  waiting : ∀ p, d.producer = some p → d.producerWaitingScreen = !d.hasScreenInfo
  fresh : ∀ n, accepted ≤ n → lastScreen n h = none

variable {d d' : Globals φ} {fd : ℕ} {e : Event φ} {effs : List (Effect φ)}
  {h : List (Effect φ)}

theorem Reaction.slotIsLast (hr : Reaction d fd e (d', effs)) (hs : SlotIsLast d h) :
    SlotIsLast d' (h ++ effs) := by
  intro hne
  rcases hr.slot with ⟨hfds, -, heffs⟩ | ⟨c, fds, -, hfds, hlast⟩
  · have hsame := hfds.resolve_right hne
    rw [hsame] at hne ⊢
    obtain ⟨c, hc⟩ := hs hne
    exact ⟨c, by rw [lastDeposit_append heffs, hc]⟩
  · rw [hfds.resolve_right hne]
    exact ⟨c, hlast h⟩

theorem Shown.append (hs : Shown d h) (heffs : ∀ x ∈ effs, x.kind ≠ .screen) :
    Shown d (h ++ effs) := by
  intro p hp
  rw [lastScreen_append heffs]
  exact hs p hp

/-- An event that sends no screen keeps the invariant when a producer that is still
there is waiting as before. -/
theorem ScreenInv.keep (hs : ScreenInv d fd h) {n : ℕ} (hn : fd ≤ n)
    (heffs : ∀ x ∈ effs, x.kind ≠ .screen)
    (hprod : ∀ p, d'.producer = some p → d.producer = some p ∧
      d'.storedScreen = d.storedScreen ∧ d'.hasScreenInfo = d.hasScreenInfo ∧
      d'.producerWaitingScreen = d.producerWaitingScreen) :
    ScreenInv d' n (h ++ effs) := by
  refine ⟨?_, ?_, ?_⟩
  · intro p hp
    obtain ⟨hp, hstored, hhas, -⟩ := hprod p hp
    rw [lastScreen_append heffs, hs.shown p hp, hstored, hhas]
  · intro p hp
    obtain ⟨hp, -, hhas, hwait⟩ := hprod p hp
    rw [hwait, hhas, hs.waiting p hp]
  · intro k hk
    rw [lastScreen_append heffs, hs.fresh k (hn.trans hk)]

/-- A screen sent to connection `p` is the last one that was sent to it, and to nobody
else. -/
theorem lastScreen_append_send {pre post : List (Effect φ)}
    (hpre : ∀ x ∈ pre, x.kind ≠ .screen) (hpost : ∀ x ∈ post, x.kind ≠ .screen) (p n : ℕ)
    (si : ScreenInfo) :
    lastScreen n (h ++ (pre ++ .sendScreenInfo p si :: post)) =
      if p = n then some si else lastScreen n h := by
  rw [← List.append_assoc, List.append_cons, lastScreen_append hpost]
  by_cases hp : p = n
  · have hx : screenTo n (.sendScreenInfo p si : Effect φ) = some si := if_pos hp
    rw [if_pos hp]
    exact lastOf_append_cons hx (by simp) _
  · have hx : ∀ x ∈ [(.sendScreenInfo p si : Effect φ)], screenTo n x = none := by
      simp [screenTo, hp]
    rw [if_neg hp, ← lastScreen_append hpre n h]
    exact lastOf_append_of_none hx _

/-- The producer is sent the stored screen. -/
theorem ScreenInv.send (hs : ScreenInv d fd h) {n : ℕ} (hn : fd ≤ n) {pre post : List (Effect φ)}
    (hpre : ∀ x ∈ pre, x.kind ≠ .screen) (hpost : ∀ x ∈ post, x.kind ≠ .screen) {p : Client}
    (hp : d'.producer = some p) (hlt : p.ctrlFd < n) (hhas : d'.hasScreenInfo = true)
    (hwait : d'.producerWaitingScreen = false) :
    ScreenInv d' n (h ++ (pre ++ .sendScreenInfo p.ctrlFd d'.storedScreen :: post)) := by
  refine ⟨?_, ?_, ?_⟩
  · intro q hq
    obtain rfl := Option.some.inj (hp.symm.trans hq)
    rw [lastScreen_append_send hpre hpost, hhas, if_pos rfl, if_pos rfl]
  · intro q _
    rw [hwait, hhas]
    rfl
  · intro k hk
    have hne : p.ctrlFd ≠ k := by omega
    rw [lastScreen_append_send hpre hpost, if_neg hne, hs.fresh k (hn.trans hk)]

theorem Reaction.screenInv (hr : Reaction d fd e (d', effs)) (hs : ScreenInv d fd h)
    (hnum : ∀ p, d.producer = some p → p.ctrlFd < fd) {n : ℕ} (hn : fd ≤ n)
    (hlisten : ∀ i, e = .listen true i → fd < n) : ScreenInv d' n (h ++ effs) := by
  cases hr with
  | ignored hi hclose =>
    exact hs.keep hn (fun x hx => by simp [hclose x hx]) fun p hp => ⟨hp, rfl, rfl, rfl⟩
  | consumerGone he hd hc => exact hs.keep hn (by simp) fun p hp => ⟨hp, rfl, rfl, rfl⟩
  | producerGone he hd hc hp => exact hs.keep hn (by simp) (by simp)
  | newConsumer hm hn' ht hdep =>
    have hf := hdep.frame
    refine hs.keep hn ?_ fun p hp =>
      ⟨hf.producer ▸ hp, hf.storedScreen, hf.hasScreenInfo, hf.producerWaitingScreen⟩
    simp only [List.mem_append, or_imp, forall_and]
    exact ⟨⟨by simp, hf.noScreen⟩, by simp⟩
  | newProducerInformed hm hn' ht hs' =>
    rw [List.append_assoc, List.singleton_append]
    refine hs.send (p := ⟨fd, false⟩) hn ?_ ?_ rfl (hlisten _ rfl) hs' rfl
    · simp
    · simp
  | newProducerWaiting hm hn' ht hs' =>
    have heffs : ∀ x ∈ d.producer.toList.map Effect.clientFree ++
        [(.epollAdd ⟨fd, false⟩ : Effect φ)], x.kind ≠ .screen := by
      simp [or_imp, forall_and]
    refine ⟨?_, ?_, ?_⟩
    · rintro p ⟨⟩
      rw [lastScreen_append heffs, hs.fresh fd le_rfl]
      simp [hs']
    · simp [hs']
    · intro k hk
      rw [lastScreen_append heffs, hs.fresh k (hn.trans hk)]
  | redeposited hm hd ht hc h3 hdep =>
    have hf := hdep.frame
    exact hs.keep hn hf.noScreen fun p hp =>
      ⟨hf.producer ▸ hp, hf.storedScreen, hf.hasScreenInfo, hf.producerWaitingScreen⟩
  | screenChanged hm ht hsize hok hc hs' hne =>
    refine hs.keep hn (by simp [or_imp, forall_and]) fun p hp => ?_
    rw [Globals.resetProducer_producer] at hp
    cases hp
  | screenForwarded hm ht hsize hok hc hs' hp hw =>
    exact hs.send hn (by simp) (by simp) hp ((hnum _ hp).trans_le hn) rfl rfl
  | screenStored hm ht hsize hok hc hs' hw =>
    refine hs.keep hn (by simp) fun p hp => ?_
    have hhas : d.hasScreenInfo = true := by
      simpa [hw (by simp [show d.producer = some p from hp])] using hs.waiting p hp
    exact ⟨hp, hs' hhas, hhas.symm, rfl⟩
  | pickedUp hm hd ht hp hdel =>
    have hf := hdel.frame
    refine hs.keep hn ?_ fun p hp =>
      ⟨hf.producer ▸ hp, hf.storedScreen, hf.hasScreenInfo, hf.producerWaitingScreen⟩
    simp only [List.mem_append, or_imp, forall_and]
    exact ⟨by simp, hf.noScreen⟩

end Invariants

section Deliveries

variable {announce : ℕ → ScreenInfo} {d d' : Globals φ} {ok : Bool} {effs pre : List (Effect φ)}

theorem Delivery.agrees_iff (hdel : Delivery d ok (d', effs)) {c : Client}
    (hlast : d.Deliverable ok → lastDeposit pre = some (c, d.depositedFds))
    (hshown : Shown d pre) :
    Agrees announce pre effs ↔
      (d.Deliverable ok → d.hasScreenInfo = true ∧ d.storedScreen = announce c.ctrlFd) := by
  cases hdel with
  | deferred h => exact iff_of_true (agrees_of_kind (by simp)) fun h' => absurd h' h
  | delivered p hp h =>
    have hrest : ∀ x ∈ (d.consumer.toList.map fun c => .sendCtrl c.ctrlFd .fdsReady) ++
        d.depositedFds.map Effect.closeFd, x.kind ≠ .fds := by
      simp [or_imp, forall_and]
    rw [List.cons_append, ← List.singleton_append, agrees_append, agrees_singleton,
      and_iff_left (agrees_of_kind hrest), AgreesAt, hlast h, hshown p hp]
    cases hs : d.hasScreenInfo <;> simp [h]

theorem Deposited.agrees_iff {c : Client} {fds : List φ}
    (hdep : Deposited d c fds ok (d', effs)) (hshown : Shown d pre) :
    Agrees announce pre effs ↔
      (d.producerWaitingFds = true → { d with depositedFds := fds }.Deliverable ok →
        d.hasScreenInfo = true ∧ d.storedScreen = announce c.ctrlFd) := by
  cases hdep with
  | kept hw =>
    exact iff_of_true (agrees_of_kind (by simp [or_imp, forall_and])) fun h => by simp [hw] at h
  | offered hw hdel =>
    have hfront : ∀ x ∈ d.depositedFds.map Effect.closeFd ++ [.deposit c fds],
        x.kind ≠ .fds ∧ x.kind ≠ .screen := by
      simp [or_imp, forall_and]
    have hshown' : Shown { d with depositedFds := fds }
        (pre ++ (d.depositedFds.map Effect.closeFd ++ [.deposit c fds])) := by
      intro p hp
      rw [lastScreen_append fun x hx => (hfront x hx).2]
      exact hshown p hp
    have hlast : lastDeposit (pre ++ (d.depositedFds.map Effect.closeFd ++ [.deposit c fds])) =
        some (c, fds) := by
      rw [← List.append_assoc]
      exact lastDeposit_append_cons (by simp) c fds _
    rw [List.append_cons, agrees_append, and_iff_right (agrees_of_kind fun x hx => (hfront x hx).1),
      hdel.agrees_iff (fun _ => hlast) hshown']
    simp [hw]

theorem delivers_of_disconnects {w : World φ} {e : Event φ} (hd : e.disconnects = true) :
    w.delivers e = none := by
  cases e with
  | listen accepted i => cases hd
  | hangup c => rfl
  | readable c i =>
    have hd : i.readFails = true := hd
    unfold World.delivers
    dsimp only
    split
    · exact if_pos hd
    · rfl

theorem delivers_hello {w : World φ} {i : Input φ} {m : Received CtrlMsg φ maxFds}
    (hm : recvFds maxFds i.msg = some m) (hn : ctrlMsgSize ≤ m.n) (c : Client) :
    w.delivers (.listen true i) = some c ↔
      m.hdr.type = .consumerHello ∧ c = ⟨w.accepted, true⟩ ∧
        w.globals.producerWaitingFds = true ∧
          { w.globals with depositedFds := m.fds }.Deliverable i.sendOk := by
  simp only [World.delivers, hm, hn, true_and]
  split_ifs with h
  · constructor
    · rintro ⟨⟩
      exact ⟨h.1, rfl, h.2⟩
    · rintro ⟨-, rfl, -⟩
      rfl
  · simp only [false_iff]
    rintro ⟨ht, -, hw⟩
    exact h ⟨ht, hw⟩

theorem delivers_readable {w : World φ} {i : Input φ} {m : Received CtrlMsg φ maxFds}
    (hm : recvFds maxFds i.msg = some m) (hd : i.readFails = false) (c' c : Client) :
    w.delivers (.readable c' i) = some c ↔
      m.hdr.type = .consumerHello ∧ c = c' ∧ w.globals.consumer = some c' ∧
          w.globals.producerWaitingFds = true ∧
          { w.globals with depositedFds := m.fds }.Deliverable i.sendOk ∨
        m.hdr.type = .pickupFds ∧ w.globals.producer = some c' ∧
          w.globals.Deliverable i.sendOk ∧ (lastDeposit w.trace).map Prod.fst = some c := by
  simp only [World.delivers, hm, hd]
  split_ifs <;> grind

theorem delivers_hello_eq_none {w : World φ} {i : Input φ} {m : Received CtrlMsg φ maxFds}
    (hm : recvFds maxFds i.msg = some m) (hn : ctrlMsgSize ≤ m.n)
    (ht : m.hdr.type ≠ .consumerHello) : w.delivers (.listen true i) = none := by
  apply Option.eq_none_iff_forall_ne_some.mpr
  intro c hc
  exact ht ((delivers_hello hm hn c).mp hc).1

theorem delivers_readable_eq_none {w : World φ} {i : Input φ} {m : Received CtrlMsg φ maxFds}
    (hm : recvFds maxFds i.msg = some m) (hd : i.readFails = false)
    (hhello : m.hdr.type ≠ .consumerHello) (hpickup : m.hdr.type ≠ .pickupFds) (c' : Client) :
    w.delivers (.readable c' i) = none := by
  apply Option.eq_none_iff_forall_ne_some.mpr
  intro c hc
  rcases (delivers_readable hm hd c' c).mp hc with ⟨ht, -⟩ | ⟨ht, -⟩
  · exact hhello ht
  · exact hpickup ht

theorem Ignored.delivers {w : World φ} {e : Event φ} (hi : Ignored w.globals e) :
    w.delivers e = none := by
  cases hd : e.disconnects with
  | true => exact delivers_of_disconnects hd
  | false =>
    refine Option.eq_none_iff_forall_ne_some.mpr fun c hc => ?_
    cases e with
    | listen accepted i =>
      cases accepted with
      | false => cases hc
      | true =>
        cases hm : recvFds maxFds i.msg with
        | none => simp [World.delivers, hm] at hc
        | some m =>
          by_cases hn : ctrlMsgSize ≤ m.n
          · exact (hi.connection i m rfl hm hn).1 ((delivers_hello hm hn c).mp hc).1
          · simp [World.delivers, hm, hn] at hc
    | hangup c' => cases hd
    | readable c' i =>
      cases hm : recvFds maxFds i.msg with
      | none => simp [World.delivers, hm] at hc
      | some m =>
        obtain ⟨hhello, -, hpickup⟩ := hi.message c' i m rfl hm hd
        rcases (delivers_readable hm hd c' c).mp hc with
          ⟨ht, -, hcons, -, hdel⟩ | ⟨ht, hprod, -⟩
        · have h3 := hhello ht hcons
          have h4 : 4 ≤ m.fds.length := hdel.2.1
          omega
        · exact hpickup ht hprod

/-- The depositor, where there is something to deliver. -/
theorem SlotIsLast.depositor {h : List (Effect φ)} (hs : SlotIsLast d h) (ok : Bool) :
    ∃ c, d.Deliverable ok → lastDeposit h = some (c, d.depositedFds) := by
  by_cases hfds : d.depositedFds = []
  · refine ⟨⟨0, true⟩, fun hD => ?_⟩
    have h4 : 4 ≤ d.depositedFds.length := hD.2.1
    simp [hfds] at h4
  · obtain ⟨c, hc⟩ := hs hfds
    exact ⟨c, fun _ => hc⟩

section Steps

variable {w : World φ} {c : Client} {i : Input φ} {m : Received CtrlMsg φ maxFds}

theorem World.agrees_quiet {e : Event φ} (hk : ∀ x ∈ effs, x.kind ≠ .fds)
    (hnone : w.delivers e = none) :
    Agrees announce w.trace effs ↔ ∀ c, w.delivers e = some c →
      w.globals.hasScreenInfo = true ∧ w.globals.storedScreen = announce c.ctrlFd :=
  iff_of_true (agrees_of_kind hk) (by simp [hnone])

theorem World.agrees_pickedUp (hslot : SlotIsLast w.globals w.trace)
    (hshown : Shown w.globals w.trace) (hm : recvFds maxFds i.msg = some m)
    (hd : i.readFails = false) (ht : m.hdr.type = .pickupFds) (hp : w.globals.producer = some c)
    (hdel : Delivery w.globals i.sendOk (d', effs)) :
    Agrees announce w.trace (m.fds.map Effect.closeFd ++ effs) ↔
      ∀ b, w.delivers (.readable c i) = some b →
        w.globals.hasScreenInfo = true ∧ w.globals.storedScreen = announce b.ctrlFd := by
  obtain ⟨a, ha⟩ := hslot.depositor i.sendOk
  have hclose : ∀ x ∈ m.fds.map Effect.closeFd,
      x.kind ≠ .fds ∧ x.kind ≠ .screen ∧ x.kind ≠ .deposit := by
    simp
  have hlast : w.globals.Deliverable i.sendOk →
      lastDeposit (w.trace ++ m.fds.map Effect.closeFd) =
        some (a, w.globals.depositedFds) := by
    intro hD
    rw [lastDeposit_append fun x hx => (hclose x hx).2.2, ha hD]
  rw [agrees_append, and_iff_right (agrees_of_kind fun x hx => (hclose x hx).1),
    hdel.agrees_iff hlast (hshown.append fun x hx => (hclose x hx).2.1)]
  simp only [delivers_readable hm hd, ht, true_and, reduceCtorEq, false_and, false_or]
  constructor
  · rintro h b ⟨-, hD, hb⟩
    obtain rfl : a = b := by simpa [ha hD] using hb
    exact h hD
  · intro h hD
    exact h a ⟨hp, hD, by simp [ha hD]⟩

/-- A step agrees exactly when the depositor's screen is the stored one. -/
theorem World.agrees_iff (e : Event φ) (hslot : SlotIsLast w.globals w.trace)
    (hshown : Shown w.globals w.trace) :
    Agrees announce w.trace (w.effects e) ↔ StoresDepositorScreen announce w e (w.next e) := by
  obtain ⟨d', effs, hr, -, heffs⟩ := w.next_reaction e
  rw [heffs, StoresDepositorScreen]
  cases hr with
  | ignored hi hclose => exact agrees_quiet (fun x hx => by simp [hclose x hx]) hi.delivers
  | consumerGone he hd hc => exact agrees_quiet (by simp) (delivers_of_disconnects hd)
  | producerGone he hd hc hp => exact agrees_quiet (by simp) (delivers_of_disconnects hd)
  | newConsumer hm hn ht hdep =>
    have hfree : ∀ x ∈ w.globals.consumer.toList.map (Effect.clientFree (φ := φ)),
        x.kind ≠ .fds ∧ x.kind ≠ .screen := by
      simp
    rw [agrees_append, agrees_append, and_iff_left (agrees_of_kind (by simp)),
      and_iff_right (agrees_of_kind fun x hx => (hfree x hx).1)]
    refine (hdep.agrees_iff (hshown.append fun x hx => (hfree x hx).2)).trans ?_
    simp only [delivers_hello hm hn]
    constructor
    · rintro h c ⟨-, rfl, hw, hdel⟩
      exact h hw hdel
    · intro h hw hdel
      exact h _ ⟨ht, rfl, hw, hdel⟩
  | newProducerInformed hm hn ht hs =>
    exact agrees_quiet (by simp [or_imp, forall_and]) (delivers_hello_eq_none hm hn (by simp [ht]))
  | newProducerWaiting hm hn ht hs =>
    exact agrees_quiet (by simp [or_imp, forall_and]) (delivers_hello_eq_none hm hn (by simp [ht]))
  | redeposited hm hd ht hc h3 hdep =>
    refine (hdep.agrees_iff hshown).trans ?_
    simp only [delivers_readable hm hd, ht, true_and, reduceCtorEq, false_and, or_false]
    constructor
    · rintro h c ⟨rfl, -, hw, hdel⟩
      exact h hw hdel
    · intro h hw hdel
      exact h _ ⟨rfl, hc, hw, hdel⟩
  | screenChanged hm ht hsize hok hc hs hne =>
    have hd := readFails_eq_false hm hsize hok
    exact agrees_quiet (by simp [or_imp, forall_and])
      (delivers_readable_eq_none hm hd (by simp [ht]) (by simp [ht]) _)
  | screenForwarded hm ht hsize hok hc hs hp hw =>
    have hd := readFails_eq_false hm hsize hok
    exact agrees_quiet (by simp [or_imp, forall_and])
      (delivers_readable_eq_none hm hd (by simp [ht]) (by simp [ht]) _)
  | screenStored hm ht hsize hok hc hs hw =>
    have hd := readFails_eq_false hm hsize hok
    exact agrees_quiet (by simp)
      (delivers_readable_eq_none hm hd (by simp [ht]) (by simp [ht]) _)
  | pickedUp hm hd ht hp hdel => exact agrees_pickedUp hslot hshown hm hd ht hp hdel

end Steps

/-- What every reachable state satisfies. -/
structure World.ScreenReady (w : World φ) : Prop where
  inv : w.Inv
  slot : SlotIsLast w.globals w.trace
  screen : ScreenInv w.globals w.accepted w.trace

theorem World.screenReady_initial : (World.initial : World φ).ScreenReady where
  inv := World.inv_initial
  slot := fun h => absurd rfl h
  screen := ⟨nofun, nofun, fun _ _ => rfl⟩

theorem World.ScreenReady.step {w w' : World φ} {e : Event φ} (h : w.ScreenReady)
    (hs : w.step e = some w') : w'.ScreenReady := by
  obtain ⟨-, rfl⟩ := World.step_eq_some.mp hs
  obtain ⟨d', effs, hr, hd, heffs⟩ := w.next_reaction e
  have htrace : (w.next e).trace = w.trace ++ effs := by rw [← heffs]; rfl
  refine ⟨h.inv.next e, ?_, ?_⟩
  · rw [htrace, hd]
    exact hr.slotIsLast h.slot
  · rw [htrace, hd]
    refine hr.screenInv h.screen (fun p hp => ?_) (w.accepted_le_next e) ?_
    · exact h.inv.numbered p ((h.inv.live_iff p).mpr (.inr hp))
    · rintro i rfl
      exact Nat.lt_succ_self _

end Deliveries

/-- Every delivery agrees with the screen its receiver was sent, exactly as long as the
daemon stores the depositor's screen whenever it hands a deposit over. -/
theorem agrees_iff_storesDepositorScreen (announce : ℕ → ScreenInfo) (es : List (Event φ)) :
    Along (World.stepFollowing announce) (fun w e _ => Agrees announce w.trace (w.effects e))
        .initial es ↔
      Along (World.stepFollowing announce) (StoresDepositorScreen announce) .initial es := by
  have hstep : ∀ (w : World φ) e w', World.stepFollowing announce w e = some w' →
      w.step e = some w' := by
    intro w e w' hs
    simp only [World.stepFollowing] at hs
    split_ifs at hs
    exact hs
  refine along_iff_of_invariant (I := World.ScreenReady) ?_ ?_ World.screenReady_initial es
  · intro w e w' h hs
    exact World.agrees_iff e h.slot h.screen.shown
  · intro w e w' h hs _
    exact h.step (hstep w e w' hs)

/-- Connection 0 announces one screen and connection 2 another. -/
def twoScreens : ℕ → ScreenInfo
  | 0 => ⟨1080, 2400, 1, 60⟩
  | _ => ⟨2400, 1080, 1, 60⟩

/-- A producer knows the screen of the first consumer. A second consumer takes over, and
the producer picks up its deposit before its `SCREEN_INFO` is read. -/
def pickupBeforeScreen : List (Event ℕ) :=
  [.listen true (.ofType .consumerHello [10, 11, 12, 13]),
    .readable ⟨0, true⟩ (.ofScreen (twoScreens 0)),
    .listen true (.ofType .producerHello []),
    .listen true (.ofType .consumerHello [20, 21, 22, 23]),
    .readable ⟨1, false⟩ (.ofType .pickupFds []),
    .readable ⟨2, true⟩ (.ofScreen (twoScreens 2))]

theorem pickupBeforeScreen_not_agrees :
    (exec (World.stepFollowing twoScreens) .initial pickupBeforeScreen).isSome ∧
      ¬ Along (World.stepFollowing twoScreens)
        (fun w e _ => Agrees twoScreens w.trace (w.effects e)) .initial pickupBeforeScreen := by
  refine ⟨rfl, fun h => ?_⟩
  -- the pickup is the fifth step
  obtain ⟨-, h⟩ := h _ rfl
  obtain ⟨-, h⟩ := h _ rfl
  obtain ⟨-, h⟩ := h _ rfl
  obtain ⟨-, h⟩ := h _ rfl
  obtain ⟨hagree, -⟩ := h _ rfl
  obtain ⟨c, hc, hscreen⟩ := hagree [] (.sendFds 1 [20, 21, 22, 23]) _ rfl
  obtain rfl : c = ⟨2, true⟩ := by
    have hdep : some ((⟨2, true⟩ : Client), [20, 21, 22, 23]) = some (c, [20, 21, 22, 23]) := hc
    simpa [eq_comm] using hdep
  exact absurd hscreen (by decide)

end Daemon
end ACGlass
