import ACGlass.Daemon.World

/-!
# The events of one `epoll_wait`

`epoll_wait` returns client pointers, and the loop of `main` dispatches them one
after the other. A handler may free a client whose event is still to come. This
module says which batches are dispatched without touching a freed client.
-/

namespace ACGlass
namespace Daemon

open Transition

variable {φ : Type*}

namespace World

/-- The loop over the returned array. `error c` is a call of `handle_disconnect` or
`handle_client_data` with the client `c` after it was freed. -/
def runBatch (w : World φ) : List (Event φ) → Except Client (World φ)
  | [] => .ok w
  | e :: es =>
    match e.client with
    | some c => if c ∈ w.live then (w.next e).runBatch es else .error c
    | none => (w.next e).runBatch es

/-- What `epoll_wait` can return: registered descriptors, each at most once, in any
order, with or without the listening socket. -/
structure IsBatch (w : World φ) (es : List (Event φ)) : Prop where
  registered : ∀ e ∈ es, w.Enabled e
  once : es.Pairwise fun e f => ∀ c, e.client = some c → f.client ≠ some c

end World

/-- The other client that an event makes the daemon free: a hello on a new connection
takes the place of the client in that role, and a screen that differs from the stored
one resets the producer. -/
def Globals.displaced (d : Globals φ) : Event φ → Option Client
  | .listen true i =>
    match recvFds maxFds i.msg with
    | none => none
    | some m =>
      if m.n < ctrlMsgSize then none
      else
        match m.hdr.type with
        | .consumerHello => d.consumer
        | .producerHello => d.producer
        | _ => none
  | .readable c i =>
    match recvFds maxFds i.msg with
    | none => none
    | some m =>
      if m.hdr.type = .screenInfo ∧ m.hdr.size = screenInfoSize ∧ i.payloadOk = true ∧
          d.consumer = some c ∧ d.hasScreenInfo = true ∧ i.payload ≠ d.storedScreen then
        d.producer
      else none
  | _ => none

/-- No event of the batch displaces a client whose own event comes later in it. -/
def Globals.NobodyDisplaced (d : Globals φ) (es : List (Event φ)) : Prop :=
  es.Pairwise fun e f => ∀ c, f.client = some c → d.displaced e ≠ some c

section Freed

variable {d d' : Globals φ} {fd : ℕ} {e : Event φ} {effs : List (Effect φ)}

theorem displaced_of_disconnects (hd : e.disconnects = true) : d.displaced e = none := by
  cases e with
  | listen accepted i => cases hd
  | hangup c => rfl
  | readable c i =>
    unfold Globals.displaced
    dsimp only
    split
    · rfl
    · rename_i m hm
      refine if_neg ?_
      rintro ⟨-, hsize, hok, -⟩
      simp [Event.disconnects, readFails_eq_false hm hsize hok] at hd

theorem Ignored.displaced (h : Ignored d e) : d.displaced e = none := by
  cases hd : e.disconnects with
  | true => exact displaced_of_disconnects hd
  | false =>
    unfold Globals.displaced
    split
    · rename_i i
      split
      · rfl
      · rename_i m hm
        split_ifs with hn
        · rfl
        · obtain ⟨hcons, hprod⟩ := h.connection i m rfl hm (not_lt.mp hn)
          split <;> first | contradiction | rfl
    · rename_i c i
      split
      · rfl
      · rename_i m hm
        refine if_neg ?_
        rintro ⟨ht, hsize, -, hc, -, -⟩
        exact (h.message c i m rfl hm hd).2.1 ht hc hsize
    · rfl

theorem displaced_consumerHello {i : Input φ} {m : Received CtrlMsg φ maxFds}
    (hm : recvFds maxFds i.msg = some m) (hn : ctrlMsgSize ≤ m.n)
    (ht : m.hdr.type = .consumerHello) : d.displaced (.listen true i) = d.consumer := by
  simp [Globals.displaced, hm, ht, not_lt.mpr hn]

theorem displaced_producerHello {i : Input φ} {m : Received CtrlMsg φ maxFds}
    (hm : recvFds maxFds i.msg = some m) (hn : ctrlMsgSize ≤ m.n)
    (ht : m.hdr.type = .producerHello) : d.displaced (.listen true i) = d.producer := by
  simp [Globals.displaced, hm, ht, not_lt.mpr hn]

theorem displaced_readable {c : Client} {i : Input φ} {m : Received CtrlMsg φ maxFds}
    (hm : recvFds maxFds i.msg = some m)
    (h : m.hdr.type = .screenInfo → d.hasScreenInfo = true → i.payload = d.storedScreen) :
    d.displaced (.readable c i) = none := by
  simp only [Globals.displaced, hm]
  refine if_neg ?_
  rintro ⟨ht, -, -, -, hs, hne⟩
  exact hne (h ht hs)

theorem displaced_screenChanged {c : Client} {i : Input φ} {m : Received CtrlMsg φ maxFds}
    (hm : recvFds maxFds i.msg = some m) (ht : m.hdr.type = .screenInfo)
    (hsize : m.hdr.size = screenInfoSize) (hok : i.payloadOk = true)
    (hc : d.consumer = some c) (hs : d.hasScreenInfo = true) (hne : i.payload ≠ d.storedScreen) :
    d.displaced (.readable c i) = d.producer := by
  simp [Globals.displaced, hm, ht, hsize, hok, hc, hs, hne]

/-- A client survives an event that neither displaces it nor is its own disconnection. -/
theorem Reaction.keeps_iff (hr : Reaction d fd e (d', effs)) {c : Client}
    (hlive : d.consumer = some c ∨ d.producer = some c)
    (hdisjoint : ∀ c, d.consumer = some c → d.producer ≠ some c) (hfresh : c.ctrlFd ≠ fd) :
    (d'.consumer = some c ∨ d'.producer = some c) ↔
      d.displaced e ≠ some c ∧ ¬ (e.client = some c ∧ e.disconnects = true) := by
  have hnew : ∀ b, some (⟨fd, b⟩ : Client) ≠ some c := by
    rintro b ⟨⟩
    exact hfresh rfl
  have hother := hdisjoint c
  -- the connection survives and nobody is displaced
  have keep : d'.consumer = d.consumer → d'.producer = d.producer → e.disconnects = false →
      d.displaced e = none →
      ((d'.consumer = some c ∨ d'.producer = some c) ↔
        d.displaced e ≠ some c ∧ ¬ (e.client = some c ∧ e.disconnects = true)) := by
    intro hcons hprod hd hnone
    simp [hcons, hprod, hd, hnone, hlive]
  cases hr with
  | ignored hi hclose =>
    have := hi.disconnect c
    rw [hi.displaced]
    grind
  | @consumerGone _ c₀ he hd hc =>
    have := hdisjoint c₀ hc
    rw [displaced_of_disconnects hd]
    grind
  | @producerGone _ c₀ he hd hc hp =>
    rw [displaced_of_disconnects hd]
    grind
  | newConsumer hm hn ht hdep =>
    have hf := hdep.frame
    rw [hf.consumer, hf.producer, displaced_consumerHello hm hn ht]
    grind [Event.client]
  | newProducerInformed hm hn ht hs =>
    rw [displaced_producerHello hm hn ht]
    grind [Event.client]
  | newProducerWaiting hm hn ht hs =>
    rw [displaced_producerHello hm hn ht]
    grind [Event.client]
  | redeposited hm hd ht hc h3 hdep =>
    exact keep hdep.frame.consumer hdep.frame.producer hd
      (displaced_readable hm fun h => absurd (ht.symm.trans h) (by decide))
  | screenChanged hm ht hsize hok hc hs hne =>
    rw [displaced_screenChanged hm ht hsize hok hc hs hne, Globals.resetProducer_consumer,
      Globals.resetProducer_producer]
    have hd := readFails_eq_false hm hsize hok
    grind [Event.disconnects]
  | screenForwarded hm ht hsize hok hc hs hp hw =>
    exact keep rfl rfl (readFails_eq_false hm hsize hok) (displaced_readable hm fun _ => hs)
  | screenStored hm ht hsize hok hc hs hw =>
    exact keep rfl rfl (readFails_eq_false hm hsize hok) (displaced_readable hm fun _ => hs)
  | pickedUp hm hd ht hp hdel =>
    exact keep hdel.frame.consumer hdel.frame.producer hd
      (displaced_readable hm fun h => absurd (ht.symm.trans h) (by decide))

/-- Only a message of the consumer touches the stored screen. -/
theorem Reaction.screen (hr : Reaction d fd e (d', effs))
    (hne : ∀ c, e.client = some c → d.consumer ≠ some c) :
    d'.storedScreen = d.storedScreen ∧ d'.hasScreenInfo = d.hasScreenInfo := by
  cases hr with
  | newConsumer hm hn ht hdep => exact ⟨hdep.frame.storedScreen, hdep.frame.hasScreenInfo⟩
  | redeposited hm hd ht hc h3 hdep => exact absurd hc (hne _ rfl)
  | screenChanged hm ht hsize hok hc hs => exact absurd hc (hne _ rfl)
  | screenForwarded hm ht hsize hok hc hs => exact absurd hc (hne _ rfl)
  | screenStored hm ht hsize hok hc hs => exact absurd hc (hne _ rfl)
  | pickedUp hm hd ht hp hdel => exact ⟨hdel.frame.storedScreen, hdel.frame.hasScreenInfo⟩
  | _ => exact ⟨rfl, rfl⟩

end Freed

namespace World

variable {w : World φ}

theorem Inv.consumer_iff (h : w.Inv) (c : Client) :
    w.globals.consumer = some c ↔ c ∈ w.live ∧ c.isConsumer = true := by
  have hc := h.consumer_role c
  have hp := h.producer_role c
  rw [h.live_iff]
  grind

theorem Inv.producer_iff (h : w.Inv) (c : Client) :
    w.globals.producer = some c ↔ c ∈ w.live ∧ c.isConsumer = false := by
  have hc := h.consumer_role c
  have hp := h.producer_role c
  rw [h.live_iff]
  grind

theorem Inv.mem_live_next_iff (h : w.Inv) {e : Event φ} {c : Client} (hc : c ∈ w.live) :
    c ∈ (w.next e).live ↔
      w.globals.displaced e ≠ some c ∧ ¬ (e.client = some c ∧ e.disconnects = true) := by
  obtain ⟨d', effs, hr, rfl, -⟩ := w.next_reaction e
  rw [(h.next e).live_iff]
  exact hr.keeps_iff ((h.live_iff c).mp hc) h.disjoint (h.numbered c hc).ne

/-- The number of a freed client is not given out again. -/
theorem Inv.not_mem_live_next (h : w.Inv) (e : Event φ) {c : Client} (hc : c ∉ w.live)
    (hnum : c.ctrlFd < w.accepted) : c ∉ (w.next e).live := by
  obtain ⟨d', effs, hr, rfl, -⟩ := w.next_reaction e
  obtain ⟨hcons, hprod⟩ := hr.roles c
  rw [h.live_iff] at hc
  rw [(h.next e).live_iff]
  grind

/-- An event of another client does not change whom a later event displaces among the
clients that it leaves alive. -/
theorem Inv.displaced_next_iff (h : w.Inv) {e f : Event φ} {c : Client} (hc : c ∈ w.live)
    (hc' : c ∈ (w.next e).live)
    (hf : ∀ c', f.client = some c' →
      c' ∈ w.live ∧ c' ∈ (w.next e).live ∧ e.client ≠ some c') :
    (w.next e).globals.displaced f = some c ↔ w.globals.displaced f = some c := by
  have hcons : (w.next e).globals.consumer = some c ↔ w.globals.consumer = some c := by
    simp [h.consumer_iff, (h.next e).consumer_iff, hc, hc']
  have hprod : (w.next e).globals.producer = some c ↔ w.globals.producer = some c := by
    simp [h.producer_iff, (h.next e).producer_iff, hc, hc']
  cases f with
  | listen accepted i =>
    cases accepted with
    | false => rfl
    | true =>
      simp only [Globals.displaced]
      split
      · rfl
      · split_ifs
        · rfl
        · split <;> first | exact hcons | exact hprod | rfl
  | hangup c' => rfl
  | readable c' i =>
    obtain ⟨hl, hl', hne⟩ := hf c' rfl
    have hsame : (w.next e).globals.consumer = some c' ↔ w.globals.consumer = some c' := by
      simp [h.consumer_iff, (h.next e).consumer_iff, hl, hl']
    simp only [Globals.displaced, hsame]
    split
    · rfl
    · by_cases hcon : w.globals.consumer = some c'
      · obtain ⟨d', effs, hr, hd', -⟩ := w.next_reaction e
        obtain ⟨hstored, hhas⟩ := hr.screen fun c'' he hc'' =>
          hne (he.trans (hc''.symm.trans hcon))
        rw [← hd'] at hstored hhas
        rw [hstored, hhas]
        split_ifs <;> first | exact hprod | rfl
      · simp [hcon]

theorem runBatch_cons {e : Event φ} (he : w.Enabled e) (es : List (Event φ)) :
    w.runBatch (e :: es) = (w.next e).runBatch es := by
  simp only [runBatch]
  split
  · rename_i c hc
    exact if_pos (he c hc)
  · rfl

/-- A client that is gone when its event comes up stops the loop there, or an earlier
event stops it. -/
theorem Inv.runBatch_error {es : List (Event φ)} (h : w.Inv) {f : Event φ} (hf : f ∈ es)
    {c : Client} (hc : f.client = some c) (hgone : c ∉ w.live) (hnum : c.ctrlFd < w.accepted)
    (w' : World φ) : w.runBatch es ≠ .ok w' := by
  induction es generalizing w with
  | nil => cases hf
  | cons e es ih =>
    by_cases he : w.Enabled e
    · rw [runBatch_cons he]
      rcases List.mem_cons.mp hf with rfl | hf
      · exact absurd (he c hc) hgone
      · exact ih (h.next e) hf (h.not_mem_live_next e hgone hnum)
          (lt_of_lt_of_le hnum (w.accepted_le_next e))
    · simp only [Enabled, not_forall] at he
      obtain ⟨c', hc', hdead⟩ := he
      simp [runBatch, hc', hdead]

theorem Inv.nobodyDisplaced_next_iff (h : w.Inv) {e : Event φ} {es : List (Event φ)}
    (hlive : ∀ f ∈ es, ∀ c, f.client = some c →
      c ∈ w.live ∧ c ∈ (w.next e).live ∧ e.client ≠ some c) :
    (w.next e).globals.NobodyDisplaced es ↔ w.globals.NobodyDisplaced es := by
  refine List.Pairwise.iff_of_mem ?_
  intro f g hf hg
  refine forall_congr' fun c => imp_congr_right fun hc => not_congr ?_
  obtain ⟨hl, hl', -⟩ := hlive g hg c hc
  exact h.displaced_next_iff hl hl' (hlive f hf)

/-- By induction on the batch: the events that are left keep their clients and their
meaning until the first one that displaces a later client. -/
theorem Inv.runBatch_ok_iff {es : List (Event φ)} (h : w.Inv) (hb : w.IsBatch es) :
    (∃ w', w.runBatch es = .ok w') ↔ w.globals.NobodyDisplaced es := by
  induction es generalizing w with
  | nil => exact iff_of_true ⟨w, rfl⟩ .nil
  | cons e es ih =>
    obtain ⟨hreg, honce⟩ := hb
    obtain ⟨hown, honce⟩ := List.pairwise_cons.mp honce
    have hl : ∀ f ∈ es, ∀ c, f.client = some c → c ∈ w.live := fun f hf =>
      hreg f (List.mem_cons_of_mem e hf)
    rw [runBatch_cons (hreg e (by simp)), Globals.NobodyDisplaced, List.pairwise_cons]
    by_cases hdisp : ∀ f ∈ es, ∀ c, f.client = some c → w.globals.displaced e ≠ some c
    · have hl' : ∀ f ∈ es, ∀ c, f.client = some c →
          c ∈ w.live ∧ c ∈ (w.next e).live ∧ e.client ≠ some c := by
        intro f hf c hc
        have hne : e.client ≠ some c := fun he => hown f hf c he hc
        have hcl := hl f hf c hc
        exact ⟨hcl, (h.mem_live_next_iff hcl).mpr ⟨hdisp f hf c hc, fun he => hne he.1⟩, hne⟩
      have hb' : (w.next e).IsBatch es := ⟨fun f hf c hc => (hl' f hf c hc).2.1, honce⟩
      rw [ih (h.next e) hb', h.nobodyDisplaced_next_iff hl']
      exact (and_iff_right hdisp).symm
    · refine iff_of_false ?_ fun hpair => hdisp hpair.1
      push Not at hdisp
      obtain ⟨f, hf, c, hc, hfreed⟩ := hdisp
      have hcl := hl f hf c hc
      have hgone : c ∉ (w.next e).live := fun hin =>
        ((h.mem_live_next_iff hcl).mp hin).1 hfreed
      rintro ⟨w', hw'⟩
      exact (h.next e).runBatch_error hf hc hgone
        (lt_of_lt_of_le (h.numbered c hcl) (w.accepted_le_next e)) w' hw'

end World

/-- No event of a batch reaches a freed client exactly when no event of it displaces a
client whose own event comes later. -/
theorem runBatch_ok_iff_nobodyDisplaced {w : World φ} {es : List (Event φ)}
    (hw : Reaches World.step .initial w) (hb : w.IsBatch es) :
    (∃ w', w.runBatch es = .ok w') ↔ w.globals.NobodyDisplaced es := by
  have hinv : w.Inv := hw.invariant (fun _ _ _ h hs => h.step hs) World.inv_initial
  exact hinv.runBatch_ok_iff hb

/-- A consumer is connected, with four descriptors deposited. -/
def oneConsumer : World ℕ :=
  World.initial.next (.listen true (.ofType .consumerHello [0, 1, 2, 3]))

theorem oneConsumer_reaches : Reaches World.step .initial oneConsumer :=
  ⟨[.listen true (.ofType .consumerHello [0, 1, 2, 3])], rfl⟩

/-- In one batch a new consumer connects and the old one sends a message. -/
def replacedBatch : List (Event ℕ) :=
  [.listen true (.ofType .consumerHello [4, 5, 6, 7]),
    .readable ⟨0, true⟩ (.ofScreen ⟨800, 600, 1, 60⟩)]

theorem replacedBatch_isBatch : oneConsumer.IsBatch replacedBatch where
  registered := by decide
  once := by simp [replacedBatch, Event.client]

/-- The old consumer was freed by the first event, and `handle_client_data` gets it. -/
theorem replacedBatch_runBatch_error :
    ∃ (w : World ℕ) (es : List (Event ℕ)), Reaches World.step .initial w ∧ w.IsBatch es ∧
      w.runBatch es = .error ⟨0, true⟩ :=
  ⟨oneConsumer, replacedBatch, oneConsumer_reaches, replacedBatch_isBatch, rfl⟩

theorem replacedBatch_reversed_runBatch_ok :
    ∃ w', oneConsumer.runBatch replacedBatch.reverse = .ok w' :=
  (runBatch_ok_iff_nobodyDisplaced oneConsumer_reaches
    ⟨by decide, by simp [replacedBatch, Event.client]⟩).mpr (by
      simp [replacedBatch, Globals.NobodyDisplaced, Event.client])

end Daemon
end ACGlass
