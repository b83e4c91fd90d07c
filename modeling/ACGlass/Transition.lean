import Mathlib.Data.List.Basic
import Mathlib.Tactic

/-!
# Executable labelled transition systems

A system is a partial step function. Its label resolves every choice of the
scheduler and of the environment, and `none` means that the label is not
enabled, so a run is computed from its list of labels. Safety of a whole run is
proved one step at a time by the rules below. `Along` speaks about the executed
steps of a schedule, `Always` about the states it visits.
-/

namespace ACGlass
namespace Transition

variable {σ ε : Type*} {step : σ → ε → Option σ}

/-- Follow a schedule; a label that is not enabled makes it no schedule at all. -/
def exec (step : σ → ε → Option σ) : σ → List ε → Option σ
  | s, [] => some s
  | s, e :: es => (step s e).bind fun t => exec step t es

/-- Every executed step of the schedule satisfies the predicate. -/
def Along (step : σ → ε → Option σ) (P : σ → ε → σ → Prop) : σ → List ε → Prop
  | _, [] => True
  | s, e :: es => ∀ t, step s e = some t → P s e t ∧ Along step P t es

/-- Every state visited by the schedule satisfies the predicate. -/
def Always (step : σ → ε → Option σ) (P : σ → Prop) (s : σ) (es : List ε) : Prop :=
  P s ∧ Along step (fun _ _ t => P t) s es

/-- Some finite schedule leads from one state to the other. -/
def Reaches (step : σ → ε → Option σ) (s t : σ) : Prop := ∃ es, exec step s es = some t

@[simp] theorem exec_nil (s : σ) : exec step s [] = some s := rfl

@[simp] theorem exec_cons (s : σ) (e : ε) (es : List ε) :
    exec step s (e :: es) = (step s e).bind fun t => exec step t es := rfl

@[simp] theorem along_nil (P : σ → ε → σ → Prop) (s : σ) : Along step P s [] := trivial

theorem along_cons_of_step {P : σ → ε → σ → Prop} {s t : σ} {e : ε} {es : List ε}
    (h : step s e = some t) : Along step P s (e :: es) ↔ P s e t ∧ Along step P t es := by
  constructor
  · intro ha
    exact ha t h
  · intro ha u hu
    obtain rfl : t = u := Option.some.inj (h.symm.trans hu)
    exact ha

instance Along.decidable {P : σ → ε → σ → Prop} [∀ s e t, Decidable (P s e t)] :
    ∀ (s : σ) (es : List ε), Decidable (Along step P s es)
  | _, [] => isTrue trivial
  | s, e :: es =>
    match h : step s e with
    | none => isTrue fun t ht => by simp [h] at ht
    | some t =>
      have := Along.decidable (P := P) t es
      decidable_of_iff (P s e t ∧ Along step P t es) (along_cons_of_step h).symm

theorem exec_append (s : σ) (es fs : List ε) :
    exec step s (es ++ fs) = (exec step s es).bind fun t => exec step t fs := by
  induction es generalizing s with
  | nil => rfl
  | cons e es ih =>
    cases h : step s e with
    | none => simp [h]
    | some t => simp [h, ih]

theorem exec_cons_eq_some {s u : σ} {e : ε} {es : List ε} :
    exec step s (e :: es) = some u ↔ ∃ t, step s e = some t ∧ exec step t es = some u := by
  simp [Option.bind_eq_some_iff]

theorem Reaches.refl (s : σ) : Reaches step s s := ⟨[], rfl⟩

theorem Reaches.trans {s t u : σ} (hst : Reaches step s t) (htu : Reaches step t u) :
    Reaches step s u := by
  obtain ⟨es, hes⟩ := hst
  obtain ⟨fs, hfs⟩ := htu
  exact ⟨es ++ fs, by simp [exec_append, hes, hfs]⟩

theorem Reaches.single {s t : σ} {e : ε} (h : step s e = some t) : Reaches step s t :=
  ⟨[e], by simp [h]⟩

/-- A predicate kept by every step holds after every schedule. -/
theorem exec_invariant {I : σ → Prop}
    (hstep : ∀ s e t, I s → step s e = some t → I t) {s t : σ} {es : List ε}
    (hs : I s) (h : exec step s es = some t) : I t := by
  induction es generalizing s with
  | nil => exact Option.some.inj h ▸ hs
  | cons e es ih =>
    obtain ⟨u, hu, hrest⟩ := exec_cons_eq_some.mp h
    exact ih (hstep s e u hs hu) hrest

theorem Reaches.invariant {I : σ → Prop}
    (hstep : ∀ s e t, I s → step s e = some t → I t) {s t : σ}
    (hs : I s) (h : Reaches step s t) : I t := by
  obtain ⟨es, hes⟩ := h
  exact exec_invariant hstep hs hes

/-- Step properties that follow from an invariant hold along every schedule. -/
theorem along_of_invariant {I : σ → Prop} {P : σ → ε → σ → Prop}
    (hI : ∀ s e t, I s → step s e = some t → I t)
    (hP : ∀ s e t, I s → step s e = some t → P s e t) {s : σ} (hs : I s) (es : List ε) :
    Along step P s es := by
  induction es generalizing s with
  | nil => trivial
  | cons e es ih =>
    intro t ht
    exact ⟨hP s e t hs ht, ih (hI s e t hs ht)⟩

theorem always_of_invariant {I P : σ → Prop}
    (hI : ∀ s e t, I s → step s e = some t → I t) (hP : ∀ s, I s → P s)
    {s : σ} (hs : I s) (es : List ε) : Always step P s es :=
  ⟨hP s hs, along_of_invariant hI (fun s e t h ht => hP t (hI s e t h ht)) hs es⟩

/-- An invariant that only guarded steps keep carries a guarded schedule. -/
theorem along_of_guard {I : σ → Prop} {G P : σ → ε → σ → Prop}
    (hstep : ∀ s e t, I s → step s e = some t → G s e t → I t ∧ P s e t)
    {s : σ} {es : List ε} (hs : I s) (hg : Along step G s es) : Along step P s es := by
  induction es generalizing s with
  | nil => trivial
  | cons e es ih =>
    intro t ht
    obtain ⟨hge, hrest⟩ := hg t ht
    obtain ⟨hit, hp⟩ := hstep s e t hs ht hge
    exact ⟨hp, ih hit hrest⟩

/-- What holds of every label of a schedule holds along it. -/
theorem along_of_forall {G : ε → Prop} {es : List ε} (h : ∀ e ∈ es, G e) (s : σ) :
    Along step (fun _ e _ => G e) s es := by
  induction es generalizing s with
  | nil => trivial
  | cons e es ih =>
    intro t _
    exact ⟨h e (by simp), ih (fun f hf => h f (List.mem_cons_of_mem e hf)) t⟩

/-- Two step properties that agree wherever the invariant holds, and each of
which keeps it, hold along the same schedules. -/
theorem along_iff_of_invariant {I : σ → Prop} {G P : σ → ε → σ → Prop}
    (hiff : ∀ s e t, I s → step s e = some t → (P s e t ↔ G s e t))
    (hI : ∀ s e t, I s → step s e = some t → G s e t → I t)
    {s : σ} (hs : I s) (es : List ε) : Along step P s es ↔ Along step G s es := by
  induction es generalizing s with
  | nil => exact Iff.rfl
  | cons e es ih =>
    constructor
    · intro ha t ht
      obtain ⟨hp, hrest⟩ := ha t ht
      have hg := (hiff s e t hs ht).mp hp
      exact ⟨hg, (ih (hI s e t hs ht hg)).mp hrest⟩
    · intro ha t ht
      obtain ⟨hg, hrest⟩ := ha t ht
      exact ⟨(hiff s e t hs ht).mpr hg, (ih (hI s e t hs ht hg)).mpr hrest⟩

theorem Always.exec {P : σ → Prop} {s t : σ} {es : List ε} (h : Always step P s es)
    (hes : exec step s es = some t) : P t := by
  obtain ⟨hs, ha⟩ := h
  induction es generalizing s with
  | nil => exact Option.some.inj hes ▸ hs
  | cons e es ih =>
    obtain ⟨u, hu, hrest⟩ := exec_cons_eq_some.mp hes
    obtain ⟨hpu, hau⟩ := ha u hu
    exact ih hrest hpu hau

/-- What holds along a schedule holds of the step taken after any prefix of it. -/
theorem Along.at {P : σ → ε → σ → Prop} {s t u : σ} (pre : List ε) {post : List ε} {e : ε}
    (ha : Along step P s (pre ++ e :: post)) (hpre : exec step s pre = some t)
    (hstep : step t e = some u) : P t e u := by
  induction pre generalizing s with
  | nil =>
    obtain rfl : s = t := Option.some.inj hpre
    exact (ha u hstep).1
  | cons f pre ih =>
    obtain ⟨v, hv, hrest⟩ := exec_cons_eq_some.mp hpre
    exact ih (ha v hv).2 hrest

end Transition
end ACGlass
