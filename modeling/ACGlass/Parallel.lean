import ACGlass.Transition

/-!
# Two systems side by side

A label of the whole stands for labels of each of its two parts, which may depend on the
state: a part that is not concerned takes no step, and parts that share a component both
take the step that moves it. What a part keeps by itself it also keeps as a part.
-/

namespace ACGlass
namespace Transition

/-- Two systems, and what a label of the whole means to each of them. -/
structure Composition (σ τ α β ε : Type*) where
  left : σ → α → Option σ
  right : τ → β → Option τ
  leftLabels : σ × τ → ε → List α
  rightLabels : σ × τ → ε → List β

namespace Composition

variable {σ τ α β ε γ : Type*} {c : Composition σ τ α β ε} {s t : σ × τ} {e : ε}

def step (c : Composition σ τ α β ε) (s : σ × τ) (e : ε) : Option (σ × τ) :=
  (exec c.left s.1 (c.leftLabels s e)).bind fun a =>
    (exec c.right s.2 (c.rightLabels s e)).map fun b => (a, b)

theorem step_eq_some : c.step s e = some t ↔
    exec c.left s.1 (c.leftLabels s e) = some t.1 ∧
      exec c.right s.2 (c.rightLabels s e) = some t.2 := by
  simp only [step, Option.bind_eq_some_iff, Option.map_eq_some_iff]
  constructor
  · rintro ⟨a, ha, b, hb, rfl⟩
    exact ⟨ha, hb⟩
  · rintro ⟨ha, hb⟩
    exact ⟨t.1, ha, t.2, hb, rfl⟩

/-- Invariants of the parts hold together. -/
theorem step_parts {I : σ → Prop} {J : τ → Prop}
    (hI : ∀ s e t, I s → c.left s e = some t → I t)
    (hJ : ∀ s e t, J s → c.right s e = some t → J t) (h : I s.1 ∧ J s.2)
    (hs : c.step s e = some t) : I t.1 ∧ J t.2 := by
  obtain ⟨hl, hr⟩ := step_eq_some.mp hs
  exact ⟨exec_invariant hI h.1 hl, exec_invariant hJ h.2 hr⟩

/-- What the whole keeps may rest on what its parts keep. -/
theorem always_of_parts {I : σ → Prop} {J : τ → Prop} {K P : σ × τ → Prop}
    (hI : ∀ s e t, I s → c.left s e = some t → I t)
    (hJ : ∀ s e t, J s → c.right s e = some t → J t)
    (hK : ∀ s e t, I s.1 → J s.2 → K s → c.step s e = some t → K t)
    (hP : ∀ s, I s.1 → J s.2 → K s → P s) (h : I s.1) (h' : J s.2) (hk : K s) (es : List ε) :
    Always c.step P s es := by
  apply always_of_invariant (I := fun s => (I s.1 ∧ J s.2) ∧ K s)
  · rintro s e t ⟨hparts, hk⟩ hs
    exact ⟨step_parts hI hJ hparts hs, hK s e t hparts.1 hparts.2 hk hs⟩
  · rintro s ⟨hparts, hk⟩
    exact hP s hparts.1 hparts.2 hk
  · exact ⟨⟨h, h'⟩, hk⟩

end Composition

end Transition
end ACGlass
