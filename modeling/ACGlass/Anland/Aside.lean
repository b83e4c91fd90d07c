import ACGlass.Anland.InStep

/-!
# Handlers without a part in the handshake

Input, window events and the timers leave what the frame handshake is about alone: the
eventfds, the renderbuffers, and the backend as long as the library is connected.
-/

namespace ACGlass
namespace Anland

open Producer (Out)

variable {φ ρ : Type*}

variable {b : Backend φ ρ} {r : Backend φ ρ × List (Effect φ ρ)}

/-- No part of the handshake. -/
def Effect.aside : Effect φ ρ → Bool
  | .lib e => !e.isEventfd
  | .repaintOutput .. => false
  | _ => true

/-- Does not pass the frame token on. -/
def Effect.retains : Effect φ ρ → Bool
  | .lib (.eventfdWrite _) => false
  | .repaintOutput .. => false
  | _ => true

theorem Effect.retains_of_aside {x : Effect φ ρ} (h : x.aside = true) : x.retains = true := by
  cases x with
  | lib e => cases e <;> first | rfl | simp [Effect.aside, Producer.Effect.isEventfd] at h
  | repaintOutput idx damage rb => simp [Effect.aside] at h
  | _ => rfl

/-- A handler without a part in the handshake leaves the backend as it is, unless it finds
that the consumer has gone. -/
structure Aside (b : Backend φ ρ) (r : Backend φ ρ × List (Effect φ ρ)) : Prop where
  effs : ∀ x ∈ r.2, x.aside = true
  output : r.1.output = b.output
  backend : r.1 = b ∨ r.1.display.fallback = true ∧ r.1.display.bufs = []

theorem Aside.refl (b : Backend φ ρ) : Aside b (b, []) := ⟨by simp, rfl, .inl rfl⟩

theorem Aside.append {effs : List (Effect φ ρ)} (h : Aside b r)
    (heffs : ∀ x ∈ effs, x.aside = true) : Aside b (r.1, r.2 ++ effs) where
  effs x hx := (List.mem_append.mp hx).elim (h.effs x) (heffs x)
  output := h.output
  backend := h.backend

theorem Aside.trans {r' : Backend φ ρ × List (Effect φ ρ)} (h : Aside b r) (h' : Aside r.1 r') :
    Aside b (r'.1, r.2 ++ r'.2) where
  effs x hx := (List.mem_append.mp hx).elim (h.effs x) (h'.effs x)
  output := h'.output.trans h.output
  backend := by
    rcases h'.backend with heq | hfell
    · rw [heq]
      exact h.backend
    · exact .inr hfell

theorem aside_fallbackCb (b : Backend φ ρ) : ∀ x ∈ b.fallbackCb.2, x.aside = true := by
  intro x hx
  unfold Backend.fallbackCb at hx
  dsimp only at hx
  split at hx
  · obtain rfl := List.mem_singleton.mp hx
    rfl
  · simp at hx

theorem aside_returned {out : Out φ} (h : b.Inv) (ho : Producer.Outcome b.display out)
    (ha : b.display.Aside out) : Aside b (b.returned out) := by
  have hlib : ∀ x ∈ out.effs.map (Effect.lib (ρ := ρ)), x.aside = true := by
    intro x hx
    obtain ⟨e, he, rfl⟩ := List.mem_map.mp hx
    have := List.any_eq_false.mp ha.effs e he
    simpa [Effect.aside] using this
  cases ho with
  | kept same quiet =>
    rw [Backend.returned_kept quiet]
    refine ⟨hlib, rfl, .inl ?_⟩
    have hctx : out.ctx = b.display := by
      rcases ha.ctx_eq with heq | heq
      · exact heq
      · have hf : b.display.fallback = true := by
          rw [← same.fallback, heq]
          exact b.display.enterFallback_fallback
        rw [heq, b.display.enterFallback_of_fallback hf]
    rw [hctx]
  | fell held fallback fallbackCb called ret =>
    have hctx : out.ctx = b.display.enterFallback.1 := by
      rcases ha.ctx_eq with heq | heq
      · rw [heq] at fallback
        simp [held] at fallback
      · exact heq
    rw [Backend.returned_called (called.trans h.fallbackCb)]
    refine ⟨?_, rfl, .inr ⟨fallback, ?_⟩⟩
    · intro x hx
      rcases List.mem_append.mp hx with hx | hx
      · exact hlib x hx
      · exact aside_fallbackCb _ x hx
    · change out.ctx.bufs = []
      rw [hctx]
      exact b.display.enterFallback_bufs held

theorem aside_sendWindowEvent (h : b.Inv) (event : Bytes) (sendOk : Bool) :
    Aside b (b.sendWindowEvent event sendOk) :=
  aside_returned h (b.display.pushWindowEvent_outcome event sendOk)
    (b.display.pushWindowEvent_aside event sendOk)

theorem aside_sendWindowEvents (h : b.Inv) (sends : List (Bytes × Bool)) :
    Aside b (b.sendWindowEvents sends) := by
  induction sends generalizing b with
  | nil => exact .refl b
  | cons send sends ih =>
    exact (aside_sendWindowEvent h send.1 send.2).trans (ih (h.sendWindowEvent send.1 send.2))

theorem aside_inputLoop (h : b.Inv) (rounds : List InputRound) :
    Aside b (b.inputLoop rounds) := by
  induction rounds generalizing b with
  | nil => exact .refl b
  | cons round rounds ih =>
    have ho := b.display.pollDisplayEvent_outcome round.poll
    have hpoll := aside_returned h ho (b.display.pollDisplayEvent_aside round.poll)
    have hinv := h.returned ho
    unfold Backend.inputLoop
    dsimp only
    split
    · exact hpoll
    · have hsends := aside_sendWindowEvents hinv round.sends
      refine Aside.trans (Aside.trans (Aside.append hpoll ?_) hsends)
        (ih (hinv.sendWindowEvents round.sends))
      intro x hx
      obtain ⟨event, -, rfl⟩ := List.mem_map.mp hx
      split <;> rfl

theorem aside_inputFd (h : b.Inv) (rounds : List InputRound) :
    Aside b (b.inputFdHandler rounds) := by
  unfold Backend.inputFdHandler
  split
  · exact .refl b
  · exact aside_inputLoop h rounds

theorem aside_reconnectTimer (h : b.Inv) (hf : b.display.fallback = false)
    (calls : Producer.ReconnectCalls φ) : Aside b (b.reconnectTimerHandler calls) := by
  rw [Backend.reconnectTimerHandler, if_pos (by simp [h.agree, hf])]
  exact .refl b

theorem aside_finishFrame (b : Backend φ ρ) : Aside b (b, b.finishFrameHandler) := by
  refine ⟨?_, rfl, .inl rfl⟩
  intro x hx
  unfold Backend.finishFrameHandler at hx
  split at hx
  · rcases List.mem_cons.mp hx with rfl | hx
    · rfl
    · obtain rfl := List.mem_singleton.mp hx
      rfl
  · obtain rfl := List.mem_singleton.mp hx
    rfl

end Anland
end ACGlass
