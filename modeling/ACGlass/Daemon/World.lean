import ACGlass.Daemon.Reactions

/-!
# Runs of the daemon

The daemon with what the kernel remembers for it: the clients in the epoll
interest list, the numbering of connections, and the history of observable calls.
`step` handles one event of a live client; the reachable states are those that
some list of events leads to from the initial one.
-/

namespace ACGlass
namespace Daemon

open Transition

variable {φ : Type*}

/-- `live` are the clients registered with epoll, that is allocated and not freed;
`accepted` numbers the next connection. -/
structure World (φ : Type*) where
  globals : Globals φ
  live : List Client
  accepted : ℕ
  trace : List (Effect φ)
  deriving DecidableEq, Repr

def World.initial : World φ := ⟨.initial, [], 0, []⟩

/-- `EPOLL_CTL_ADD` at the end of `handle_new_connection`, `client_free`. -/
def register (live : List Client) : Effect φ → List Client
  | .epollAdd c => c :: live
  | .clientFree c => live.filter (· ≠ c)
  | _ => live

namespace World

variable (w : World φ)

/-- The calls made for one event. -/
def effects (e : Event φ) : List (Effect φ) := (w.globals.dispatch w.accepted e).2

def next (e : Event φ) : World φ where
  globals := (w.globals.dispatch w.accepted e).1
  live := (w.effects e).foldl register w.live
  accepted := match e with
    | .listen true _ => w.accepted + 1
    | _ => w.accepted
  trace := w.trace ++ w.effects e

/-- `epoll_wait` only reports clients that are registered. -/
def Enabled (e : Event φ) : Prop := ∀ c, e.client = some c → c ∈ w.live

instance (e : Event φ) : Decidable (w.Enabled e) :=
  match h : e.client with
  | none => isTrue (by simp [Enabled, h])
  | some c => decidable_of_iff (c ∈ w.live) (by simp [Enabled, h])

def step (e : Event φ) : Option (World φ) := if w.Enabled e then some (w.next e) else none

theorem step_eq_some {w w' : World φ} {e : Event φ} :
    w.step e = some w' ↔ w.Enabled e ∧ w.next e = w' := by
  simp [step]

/-- The live clients are the daemon's consumer and its producer. -/
structure Inv : Prop where
  live_iff : ∀ c, c ∈ w.live ↔ w.globals.consumer = some c ∨ w.globals.producer = some c
  consumer_role : ∀ c, w.globals.consumer = some c → c.isConsumer = true
  producer_role : ∀ c, w.globals.producer = some c → c.isConsumer = false
  numbered : ∀ c ∈ w.live, c.ctrlFd < w.accepted

theorem inv_initial : Inv (initial : World φ) where
  live_iff := by simp [initial, Globals.initial]
  consumer_role := by simp [initial, Globals.initial]
  producer_role := by simp [initial, Globals.initial]
  numbered := by simp [initial]

end World

theorem foldl_register_of_kind {effs : List (Effect φ)} (h : ∀ x ∈ effs, x.kind ≠ .client)
    (live : List Client) : effs.foldl register live = live := by
  induction effs generalizing live with
  | nil => rfl
  | cons x effs ih =>
    have hx : register live x = live := by
      have := h x (by simp)
      cases x <;> first | rfl | exact absurd rfl this
    rw [List.foldl_cons, hx]
    exact ih (fun y hy => h y (List.mem_cons_of_mem _ hy)) live

theorem foldl_register_closeFd (fds : List φ) (live : List Client) :
    (fds.map Effect.closeFd).foldl register live = live :=
  foldl_register_of_kind (by simp) live

/-- A delivery attempt only touches the deposit and the flag of the waiting producer. -/
structure Delivery.Frame (d d' : Globals φ) (effs : List (Effect φ)) : Prop where
  consumer : d'.consumer = d.consumer
  producer : d'.producer = d.producer
  storedScreen : d'.storedScreen = d.storedScreen
  hasScreenInfo : d'.hasScreenInfo = d.hasScreenInfo
  producerWaitingScreen : d'.producerWaitingScreen = d.producerWaitingScreen
  noClient : ∀ x ∈ effs, x.kind ≠ .client
  noScreen : ∀ x ∈ effs, x.kind ≠ .screen

theorem Delivery.frame {d d' : Globals φ} {ok : Bool} {effs : List (Effect φ)}
    (h : Delivery d ok (d', effs)) : Delivery.Frame d d' effs := by
  cases h with
  | deferred h => exact ⟨rfl, rfl, rfl, rfl, rfl, by simp, by simp⟩
  | delivered p hp h =>
    exact ⟨rfl, rfl, rfl, rfl, rfl, by simp [or_imp, forall_and], by simp [or_imp, forall_and]⟩

theorem Deposited.frame {d d' : Globals φ} {c : Client} {fds : List φ} {ok : Bool}
    {effs : List (Effect φ)} (h : Deposited d c fds ok (d', effs)) :
    Delivery.Frame d d' effs := by
  cases h with
  | kept hw =>
    exact ⟨rfl, rfl, rfl, rfl, rfl, by simp [or_imp, forall_and], by simp [or_imp, forall_and]⟩
  | offered hw h =>
    have hf := h.frame
    refine ⟨hf.consumer, hf.producer, hf.storedScreen, hf.hasScreenInfo,
      hf.producerWaitingScreen, ?_, ?_⟩
    · simpa [or_imp, forall_and] using hf.noClient
    · simpa [or_imp, forall_and] using hf.noScreen

theorem mem_foldl_clientFree {o : Option Client} {live : List Client} {c : Client} :
    c ∈ (o.toList.map (Effect.clientFree (φ := φ))).foldl register live ↔
      c ∈ live ∧ o ≠ some c := by
  cases o with
  | none => simp
  | some a =>
    simp only [Option.toList_some, List.map_cons, List.map_nil, List.foldl_cons, List.foldl_nil,
      register, List.mem_filter, decide_eq_true_eq, ne_eq, Option.some.injEq, eq_comm (a := c)]

theorem Globals.resetProducer_consumer (d : Globals φ) :
    d.resetProducerForScreenChange.1.consumer = d.consumer := by
  unfold resetProducerForScreenChange
  split <;> rfl

theorem Globals.resetProducer_producer (d : Globals φ) :
    d.resetProducerForScreenChange.1.producer = none := by
  unfold resetProducerForScreenChange
  split
  · assumption
  · rfl

/-- The interest list follows the two pointers through every reaction. -/
theorem Reaction.mem_live {d d' : Globals φ} {fd : ℕ} {e : Event φ} {effs : List (Effect φ)}
    (h : Reaction d fd e (d', effs)) {live : List Client}
    (hlive : ∀ c, c ∈ live ↔ d.consumer = some c ∨ d.producer = some c)
    (hdisjoint : ∀ c, d.consumer = some c → d.producer ≠ some c) (c : Client) :
    c ∈ effs.foldl register live ↔ d'.consumer = some c ∨ d'.producer = some c := by
  cases h with
  | ignored hi hclose =>
    rw [foldl_register_of_kind fun x hx => by simp [hclose x hx]]
    exact hlive c
  | @consumerGone _ c₀ he hd hc =>
    have := hdisjoint c₀ hc
    simp only [List.foldl_cons, List.foldl_nil, register, List.mem_filter, decide_eq_true_eq, hlive]
    grind
  | @producerGone _ c₀ he hd hc hp =>
    simp only [List.foldl_cons, List.foldl_nil, register, List.mem_filter, decide_eq_true_eq, hlive]
    grind
  | newConsumer hm hn ht hdep =>
    have hf := hdep.frame
    rw [List.foldl_append, List.foldl_append, foldl_register_of_kind hf.noClient,
      hf.consumer, hf.producer]
    simp only [List.foldl_cons, List.foldl_nil, register, List.mem_cons, mem_foldl_clientFree, hlive]
    grind
  | newProducerInformed hm hn ht hs =>
    rw [List.foldl_append, List.foldl_append]
    simp only [List.foldl_cons, List.foldl_nil, register, List.mem_cons, mem_foldl_clientFree, hlive]
    grind
  | newProducerWaiting hm hn ht hs =>
    rw [List.foldl_append]
    simp only [List.foldl_cons, List.foldl_nil, register, List.mem_cons, mem_foldl_clientFree, hlive]
    grind
  | redeposited hm hd ht hc h3 hdep =>
    have hf := hdep.frame
    rw [foldl_register_of_kind hf.noClient, hf.consumer, hf.producer]
    exact hlive c
  | screenChanged hm ht hsize hok hc hs hne =>
    rw [List.foldl_append, foldl_register_closeFd,
      mem_foldl_clientFree, Globals.resetProducer_consumer, Globals.resetProducer_producer, hlive]
    grind
  | screenForwarded hm ht hsize hok hc hs hp hw =>
    rw [List.foldl_append, foldl_register_closeFd]
    exact hlive c
  | screenStored hm ht hsize hok hc hs hw =>
    rw [foldl_register_closeFd]
    exact hlive c
  | pickedUp hm hd ht hp hdel =>
    have hf := hdel.frame
    rw [List.foldl_append, foldl_register_closeFd,
      foldl_register_of_kind hf.noClient, hf.consumer, hf.producer]
    exact hlive c

/-- The pointers only ever change to `NULL` or to the connection just accepted. -/
theorem Reaction.roles {d d' : Globals φ} {fd : ℕ} {e : Event φ} {effs : List (Effect φ)}
    (h : Reaction d fd e (d', effs)) (c : Client) :
    (d'.consumer = some c → d.consumer = some c ∨ c = ⟨fd, true⟩ ∧ ∃ i, e = .listen true i) ∧
      (d'.producer = some c →
        d.producer = some c ∨ c = ⟨fd, false⟩ ∧ ∃ i, e = .listen true i) := by
  cases h with
  | ignored => exact ⟨.inl, .inl⟩
  | consumerGone => exact ⟨by simp, .inl⟩
  | producerGone => exact ⟨.inl, by simp⟩
  | newConsumer hm hn ht hdep =>
    rw [hdep.frame.consumer, hdep.frame.producer]
    exact ⟨fun h => .inr ⟨(Option.some.inj h).symm, _, rfl⟩, .inl⟩
  | newProducerInformed => exact ⟨.inl, fun h => .inr ⟨(Option.some.inj h).symm, _, rfl⟩⟩
  | newProducerWaiting => exact ⟨.inl, fun h => .inr ⟨(Option.some.inj h).symm, _, rfl⟩⟩
  | redeposited hm hd ht hc h3 hdep =>
    rw [hdep.frame.consumer, hdep.frame.producer]
    exact ⟨.inl, .inl⟩
  | screenChanged =>
    rw [Globals.resetProducer_consumer, Globals.resetProducer_producer]
    exact ⟨.inl, by simp⟩
  | screenForwarded => exact ⟨.inl, .inl⟩
  | screenStored => exact ⟨.inl, .inl⟩
  | pickedUp hm hd ht hp hdel =>
    rw [hdel.frame.consumer, hdel.frame.producer]
    exact ⟨.inl, .inl⟩

namespace World

variable {w : World φ}

theorem next_reaction (w : World φ) (e : Event φ) :
    ∃ d effs, Reaction w.globals w.accepted e (d, effs) ∧ (w.next e).globals = d ∧
      w.effects e = effs :=
  ⟨_, _, w.globals.dispatch_reaction w.accepted e, rfl, rfl⟩

theorem accepted_le_next (w : World φ) (e : Event φ) : w.accepted ≤ (w.next e).accepted := by
  unfold next
  dsimp only
  split <;> simp

theorem Inv.disjoint (h : w.Inv) (c : Client) (hc : w.globals.consumer = some c) :
    w.globals.producer ≠ some c := by
  intro hp
  have := h.consumer_role c hc
  simp [h.producer_role c hp] at this

theorem Inv.next (h : w.Inv) (e : Event φ) : (w.next e).Inv := by
  obtain ⟨d', effs, hr, hd, heffs⟩ := w.next_reaction e
  have hlive : ∀ c, c ∈ (w.next e).live ↔ d'.consumer = some c ∨ d'.producer = some c := by
    intro c
    change c ∈ (w.effects e).foldl register w.live ↔ _
    rw [heffs]
    exact hr.mem_live h.live_iff h.disjoint c
  have hroles := hr.roles
  refine ⟨by rwa [hd], ?_, ?_, ?_⟩
  · intro c hc
    rcases (hroles c).1 (hd ▸ hc) with hc | ⟨rfl, -⟩
    · exact h.consumer_role c hc
    · rfl
  · intro c hp
    rcases (hroles c).2 (hd ▸ hp) with hp | ⟨rfl, -⟩
    · exact h.producer_role c hp
    · rfl
  · intro c hc
    have hold : c ∈ w.live ∨ c.ctrlFd = w.accepted ∧ ∃ i, e = .listen true i := by
      rw [h.live_iff]
      rcases (hlive c).mp hc with hc | hp
      · rcases (hroles c).1 hc with hc | ⟨rfl, hi⟩
        · exact .inl (.inl hc)
        · exact .inr ⟨rfl, hi⟩
      · rcases (hroles c).2 hp with hp | ⟨rfl, hi⟩
        · exact .inl (.inr hp)
        · exact .inr ⟨rfl, hi⟩
    rcases hold with hc | ⟨heq, i, rfl⟩
    · exact lt_of_lt_of_le (h.numbered c hc) (w.accepted_le_next e)
    · rw [heq]
      exact Nat.lt_succ_self _

theorem Inv.step {w' : World φ} {e : Event φ} (h : w.Inv) (hs : w.step e = some w') : w'.Inv := by
  obtain ⟨-, rfl⟩ := step_eq_some.mp hs
  exact h.next e

end World

/-- A header without payload that arrives with `fds`; what the daemon sends arrives. -/
def Input.ofType (type : CtrlType) (fds : List φ) : Input φ where
  msg := some ⟨ctrlMsgSize, ⟨type, 0⟩, fds⟩
  payloadOk := true
  payload := ⟨0, 0, 0, 0⟩
  sendOk := true

/-- A complete `SCREEN_INFO` message. -/
def Input.ofScreen (si : ScreenInfo) : Input φ where
  msg := some ⟨ctrlMsgSize, ⟨.screenInfo, screenInfoSize⟩, []⟩
  payloadOk := true
  payload := si
  sendOk := true

end Daemon
end ACGlass
