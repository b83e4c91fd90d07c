import ACGlass.Daemon.ScreenAgreement

/-!
# One screen for each producer connection

A producer that is connected waits for the first screen, or was sent exactly one, which is
the one that the daemon stores.
-/

namespace ACGlass
namespace Daemon

open Transition Trace

variable {φ : Type*}

/-- The screens sent to connection `p`. -/
def screensTo (p : ℕ) (h : List (Effect φ)) : List ScreenInfo := h.filterMap (screenTo p)

/-- A connected producer waits while there is no screen, or was sent the stored one. -/
def Synced (w : World φ) : Prop :=
  ∀ p, w.globals.producer = some p →
    w.globals.producerWaitingScreen = true ∧ w.globals.hasScreenInfo = false ∧
        screensTo p.ctrlFd w.trace = [] ∨
      w.globals.producerWaitingScreen = false ∧
        screensTo p.ctrlFd w.trace = [w.globals.storedScreen]

/-- A connected producer was sent at most one screen. -/
def SentOnce (d : Globals φ) (h : List (Effect φ)) : Prop :=
  ∀ p, d.producer = some p → (screensTo p.ctrlFd h).length ≤ 1

theorem screensTo_append (p : ℕ) (h k : List (Effect φ)) :
    screensTo p (h ++ k) = screensTo p h ++ screensTo p k :=
  List.filterMap_append

theorem screensTo_of_kind {effs : List (Effect φ)} (h : ∀ x ∈ effs, x.kind ≠ .screen) (p : ℕ) :
    screensTo p effs = [] :=
  List.filterMap_eq_nil_iff.mpr fun x hx => screenTo_eq_none (h x hx) p

theorem screensTo_eq_nil {p : ℕ} {h : List (Effect φ)} :
    screensTo p h = [] ↔ lastScreen p h = none := by
  simp [screensTo, lastScreen, lastOf]

/-- One screen is the last one. -/
theorem screensTo_eq_singleton {p : ℕ} {h : List (Effect φ)} {si : ScreenInfo}
    (hlast : lastScreen p h = some si) (hone : (screensTo p h).length ≤ 1) :
    screensTo p h = [si] := by
  obtain ⟨front, hfront⟩ := List.getLast?_eq_some_iff.mp hlast
  have hnil : front = [] := by
    have : (screensTo p h).length = front.length + 1 := by simp [screensTo, hfront]
    exact List.eq_nil_of_length_eq_zero (by omega)
  rw [screensTo, hfront, hnil, List.nil_append]

section Reactions

variable {d d' : Globals φ} {fd : ℕ} {e : Event φ} {effs : List (Effect φ)}
  {h : List (Effect φ)}

/-- An event that sends no screen to a producer that is still there. -/
theorem SentOnce.keep (ho : SentOnce d h) (heffs : ∀ x ∈ effs, x.kind ≠ .screen)
    (hprod : ∀ p, d'.producer = some p → d.producer = some p) : SentOnce d' (h ++ effs) := by
  intro p hp
  rw [screensTo_append, screensTo_of_kind heffs, List.append_nil]
  exact ho p (hprod p hp)

/-- The first screen of a connection. -/
theorem length_screensTo_send {p : ℕ} (hnone : lastScreen p h = none)
    {pre post : List (Effect φ)} (hpre : ∀ x ∈ pre, x.kind ≠ .screen)
    (hpost : ∀ x ∈ post, x.kind ≠ .screen) (si : ScreenInfo) :
    (screensTo p (h ++ (pre ++ .sendScreenInfo p si :: post))).length ≤ 1 := by
  have hsend : screensTo p (.sendScreenInfo p si :: post) = [si] := by
    rw [← List.singleton_append, screensTo_append, screensTo_of_kind hpost]
    simp [screensTo, screenTo]
  rw [screensTo_append, screensTo_append, screensTo_eq_nil.mpr hnone, screensTo_of_kind hpre,
    hsend]
  simp

/-- A screen goes only to a producer that was sent none. -/
theorem Reaction.sentOnce (hr : Reaction d fd e (d', effs)) (ho : SentOnce d h)
    (hs : ScreenInv d fd h) : SentOnce d' (h ++ effs) := by
  cases hr with
  | ignored hi hclose => exact ho.keep (fun x hx => by simp [hclose x hx]) fun p hp => hp
  | consumerGone he hd hc => exact ho.keep (by simp) fun p hp => hp
  | producerGone he hd hc hp => exact ho.keep (by simp) (by simp)
  | newConsumer hm hn ht hdep =>
    have hf := hdep.frame
    refine ho.keep ?_ fun p hp => hf.producer ▸ hp
    simp only [List.mem_append, or_imp, forall_and]
    exact ⟨⟨by simp, hf.noScreen⟩, by simp⟩
  | newProducerInformed hm hn ht hs' =>
    rw [List.append_assoc, List.singleton_append]
    rintro p ⟨⟩
    exact length_screensTo_send (hs.fresh fd le_rfl) (by simp) (by simp) _
  | newProducerWaiting hm hn ht hs' =>
    rintro p ⟨⟩
    rw [screensTo_append, screensTo_eq_nil.mpr (hs.fresh fd le_rfl),
      screensTo_of_kind (by simp [or_imp, forall_and])]
    simp
  | redeposited hm hd ht hc h3 hdep =>
    exact ho.keep hdep.frame.noScreen fun p hp => hdep.frame.producer ▸ hp
  | screenChanged hm ht hsize hok hc hs' hne =>
    refine ho.keep (by simp [or_imp, forall_and]) fun p hp => ?_
    rw [Globals.resetProducer_producer] at hp
    cases hp
  | @screenForwarded c q i m hm ht hsize hok hc hs' hp hw =>
    intro p hp'
    obtain rfl := Option.some.inj (hp.symm.trans hp')
    have hhas : d.hasScreenInfo = false := by simpa [hw] using hs.waiting q hp
    have hnone : lastScreen q.ctrlFd h = none := by simpa [hhas] using hs.shown q hp
    exact length_screensTo_send hnone (by simp) (by simp) _
  | screenStored hm ht hsize hok hc hs' hw => exact ho.keep (by simp) fun p hp => hp
  | pickedUp hm hd ht hp hdel =>
    refine ho.keep ?_ fun p hp => hdel.frame.producer ▸ hp
    simp only [List.mem_append, or_imp, forall_and]
    exact ⟨by simp, hdel.frame.noScreen⟩

end Reactions

namespace World

variable {w w' : World φ}

/-- What every reachable state satisfies about the screens it has sent. -/
structure SyncInv (w : World φ) : Prop extends w.ScreenReady where
  once : SentOnce w.globals w.trace

theorem syncInv_initial : (initial : World φ).SyncInv where
  toScreenReady := screenReady_initial
  once := nofun

theorem SyncInv.step {e : Event φ} (h : w.SyncInv) (hs : w.step e = some w') : w'.SyncInv := by
  refine ⟨h.toScreenReady.step hs, ?_⟩
  obtain ⟨-, rfl⟩ := step_eq_some.mp hs
  obtain ⟨d', effs, hr, hd, heffs⟩ := w.next_reaction e
  have htrace : (w.next e).trace = w.trace ++ effs := by rw [← heffs]; rfl
  rw [htrace, hd]
  exact hr.sentOnce h.once h.screen

theorem SyncInv.synced (h : w.SyncInv) : Synced w := by
  intro p hp
  have hwait := h.screen.waiting p hp
  have hshown := h.screen.shown p hp
  cases hhas : w.globals.hasScreenInfo with
  | false =>
    rw [hhas] at hwait hshown
    exact .inl ⟨hwait, rfl, screensTo_eq_nil.mpr hshown⟩
  | true =>
    rw [hhas] at hwait hshown
    exact .inr ⟨hwait, screensTo_eq_singleton hshown (h.once p hp)⟩

end World

/-- After every sequence of events, a connected producer waits for the first screen or was
sent exactly the stored one. -/
theorem synced_of_events (es : List (Event φ)) : Always World.step Synced .initial es :=
  always_of_invariant (I := World.SyncInv) (fun _ _ _ h hs => h.step hs) (fun _ h => h.synced)
    World.syncInv_initial es

end Daemon
end ACGlass
