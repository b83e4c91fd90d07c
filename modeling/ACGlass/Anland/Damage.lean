import ACGlass.Anland.Renderbuffers
import ACGlass.Trace
import Mathlib.Data.List.DropRight

/-!
# What a buffer is owed

The history of imports, frames and repaints says what a buffer has missed since it was painted.
The code keeps a region for each buffer, and adds the whole output to every frame's damage.
-/

namespace ACGlass
namespace Anland

open Transition Trace

variable {φ ρ : Type*}

inductive FrameEvent
  | imported (i : ℕ)
  | frame (damage : Region)
  | painted (i : ℕ)
  deriving DecidableEq

namespace FrameEvent

/-- The buffer that the event begins a new account for. -/
def settles (i : ℕ) : FrameEvent → Bool
  | .imported j | .painted j => j = i
  | .frame _ => false

def damage : FrameEvent → Region
  | .frame d => d
  | _ => ∅

/-- Whether the event leaves the buffer unpainted. -/
def unpaints (i : ℕ) : FrameEvent → Option Bool
  | .imported j => if j = i then some true else none
  | .painted j => if j = i then some false else none
  | .frame _ => none

end FrameEvent

section History

variable (whole : Region) (i : ℕ) (h : List FrameEvent)

/-- The damage of all frames after the buffer was last painted or imported. -/
def missed : Region :=
  (h.rtakeWhile fun e => !e.settles i).foldl (fun acc e => acc ∪ e.damage) ∅

/-- The buffer has not been painted since it was imported. -/
def Unpainted : Prop := lastOf (FrameEvent.unpaints i) h = some true

instance : Decidable (Unpainted i h) := inferInstanceAs (Decidable (_ = _))

/-- What a repaint has to draw into the buffer. -/
def owed : Region := missed i h ∪ if Unpainted i h then whole else ∅

variable {whole i h}

theorem missed_append_settles {e : FrameEvent} (he : e.settles i = true) :
    missed i (h ++ [e]) = ∅ := by
  rw [missed, List.rtakeWhile_concat_neg]
  · rfl
  · simp [he]

theorem missed_append {e : FrameEvent} (he : e.settles i = false) :
    missed i (h ++ [e]) = missed i h ∪ e.damage := by
  rw [missed, List.rtakeWhile_concat_pos]
  · rw [List.foldl_append]
    rfl
  · simp [he]

theorem unpainted_append {e : FrameEvent} :
    Unpainted i (h ++ [e]) ↔
      (e.unpaints i).or (lastOf (FrameEvent.unpaints i) h) = some true := by
  rw [Unpainted, lastOf_append]
  cases he : e.unpaints i <;> simp [lastOf, he]

theorem owed_frame (d : Region) : owed whole i (h ++ [.frame d]) = owed whole i h ∪ d := by
  have hsame : Unpainted i (h ++ [.frame d]) ↔ Unpainted i h := unpainted_append
  rw [owed, owed, missed_append rfl, if_congr hsame rfl rfl, Finset.union_right_comm]
  rfl

theorem owed_imported : owed whole i (h ++ [.imported i]) = whole := by
  have hnew : Unpainted i (h ++ [.imported i]) := by
    rw [unpainted_append]
    simp [FrameEvent.unpaints]
  rw [owed, missed_append_settles (by simp [FrameEvent.settles]), if_pos hnew,
    Finset.empty_union]

theorem owed_painted : owed whole i (h ++ [.painted i]) = ∅ := by
  have hdone : ¬ Unpainted i (h ++ [.painted i]) := by
    rw [unpainted_append]
    simp [FrameEvent.unpaints]
  rw [owed, missed_append_settles (by simp [FrameEvent.settles]), if_neg hdone,
    Finset.empty_union]

/-- An event that is about another buffer. -/
theorem owed_other {e : FrameEvent} (hsettles : e.settles i = false) (hdamage : e.damage = ∅) :
    owed whole i (h ++ [e]) = owed whole i h := by
  have hnone : e.unpaints i = none := by
    cases e with
    | frame d => rfl
    | imported j | painted j => simpa [FrameEvent.settles, FrameEvent.unpaints] using hsettles
  have hsame : Unpainted i (h ++ [e]) ↔ Unpainted i h := by
    rw [unpainted_append, hnone, Option.none_or]
    exact Iff.rfl
  rw [owed, owed, missed_append hsettles, if_congr hsame rfl rfl, hdamage, Finset.union_empty]

/-- An import of other buffers. -/
theorem owed_imports_other {is : List ℕ} (hi : i ∉ is) :
    owed whole i (h ++ is.map .imported) = owed whole i h := by
  induction is generalizing h with
  | nil => simp
  | cons j is ih =>
    rw [List.mem_cons, not_or] at hi
    rw [List.map_cons, List.append_cons, ih hi.2]
    exact owed_other (by simpa [FrameEvent.settles] using Ne.symm hi.1) rfl

theorem owed_imports {is : List ℕ} (hi : i ∈ is) :
    owed whole i (h ++ is.map .imported) = whole := by
  induction is generalizing h with
  | nil => cases hi
  | cons j is ih =>
    rw [List.map_cons, List.append_cons]
    by_cases hmem : i ∈ is
    · exact ih hmem
    · obtain rfl := (List.mem_cons.mp hi).resolve_right hmem
      rw [owed_imports_other hmem]
      exact owed_imported

end History

/-- The indices of the renderbuffers that an import stores. -/
def importedBy (bufs : List (φ × BufInfo)) (created : List (Option ρ)) : List ℕ :=
  (Output.storedFrom 0 bufs created).map Prod.fst

/-- The stored indices follow one another. -/
theorem storedFrom_indices (i : ℕ) (bufs : List (φ × BufInfo)) (created : List (Option ρ)) :
    (Output.storedFrom i bufs created).map Prod.fst =
      List.range' i (Output.storedFrom i bufs created).length := by
  induction bufs generalizing i created with
  | nil => rfl
  | cons buf bufs ih =>
    cases created with
    | nil => rfl
    | cons result created =>
      cases result with
      | none => rfl
      | some rb => simp [Output.storedFrom, ih, List.range'_succ]

/-- A freshly stored buffer is owed the output's region. -/
theorem importFrom_accumDamage (o : Output ρ) (i : ℕ) (bufs : List (φ × BufInfo))
    (created : List (Option ρ)) (j : ℕ) :
    (o.importFrom i bufs created).1.accumDamage j =
      if j ∈ (Output.storedFrom i bufs created).map Prod.fst then o.region
      else o.accumDamage j := by
  induction bufs generalizing o i created with
  | nil => simp [Output.importFrom, Output.storedFrom]
  | cons buf bufs ih =>
    obtain ⟨fd, info⟩ := buf
    cases created with
    | nil => simp [Output.importFrom, Output.storedFrom]
    | cons result created =>
      cases result with
      | none => simp [Output.importFrom, Output.storedFrom]
      | some rb =>
        simp only [Output.importFrom, Output.storedFrom, List.map_cons, List.mem_cons]
        rw [ih]
        by_cases hmem : j ∈ (Output.storedFrom (i + 1) bufs created).map Prod.fst
        · simp [hmem]
        · by_cases hj : j = i
          · simp [hj]
          · simp [hmem, hj]

/-- A backend with the history of its frames. -/
structure Drawing (φ ρ : Type*) where
  backend : Backend φ ρ
  history : List FrameEvent

/-- `shm` chooses the index. What the handlers do to the backend besides is arbitrary. -/
inductive DrawStep (φ ρ : Type*)
  | imports (bufs : List (φ × BufInfo)) (created : List (Option ρ))
  | repaint (damage : Region) (shm : UInt32)
  | drop
  | besides (b : Backend φ ρ)

namespace Drawing

variable (s : Drawing φ ρ)

def start (b : Backend φ ρ) (width height : ℕ) (region : Region) : Drawing φ ρ :=
  ⟨{ b with output := .fresh width height region }, []⟩

/-- Only a repaint that gets past its guards is a frame. -/
def frameEvents (damage : Region) (shm : UInt32) : List FrameEvent :=
  match s.backend.target shm with
  | some (idx, _) => [.frame damage, .painted idx]
  | none => []

def step : DrawStep φ ρ → Option (Drawing φ ρ)
  | .imports bufs created =>
    some ⟨{ s.backend with output := (s.backend.output.importDmabufs bufs created).1 },
      s.history ++ (importedBy bufs created).map .imported⟩
  | .repaint damage shm =>
    some ⟨(s.backend.outputRepaint damage shm).1, s.history ++ s.frameEvents damage shm⟩
  | .drop => some ⟨s.backend.dropRenderbuffers, s.history⟩
  | .besides b => some ⟨{ b with output := s.backend.output }, s.history⟩

/-- What is owed to the buffer once the frame is there. -/
def owedWith (damage : Region) (idx : ℕ) : Region :=
  owed s.backend.output.region idx (s.history ++ [.frame damage])

/-- The region that is drawn is what the buffer is owed. -/
def Exact : DrawStep φ ρ → Prop
  | .repaint damage shm => ∀ idx region rb,
      .repaintOutput idx region rb ∈ (s.backend.outputRepaint damage shm).2 →
        region = s.owedWith damage idx
  | _ => True

/-- All of it is drawn. -/
def Complete : DrawStep φ ρ → Prop
  | .repaint damage shm => ∀ idx region rb,
      .repaintOutput idx region rb ∈ (s.backend.outputRepaint damage shm).2 →
        s.owedWith damage idx ⊆ region
  | _ => True

/-- The buffer that is painted is owed the whole output. -/
def OwesWhole : DrawStep φ ρ → Prop
  | .repaint damage shm => ∀ idx rb, s.backend.target shm = some (idx, rb) →
      s.backend.output.region ⊆ s.owedWith damage idx
  | _ => True

/-- A buffer's region and what it is owed differ at most by the output's region. -/
def Tracks : Prop :=
  ∀ i < s.backend.output.bufCount,
    s.backend.output.accumDamage i ∪ s.backend.output.region =
      owed s.backend.output.region i s.history ∪ s.backend.output.region

variable {s} {e : DrawStep φ ρ} {s' : Drawing φ ρ}

/-- A repaint draws what is owed and the whole output. -/
theorem region_eq (h : s.Tracks) {damage region : Region} {shm : UInt32} {idx : ℕ} {rb : ρ}
    (hmem : .repaintOutput idx region rb ∈ (s.backend.outputRepaint damage shm).2) :
    region = s.owedWith damage idx ∪ s.backend.output.region := by
  obtain ⟨ht, rfl⟩ := s.backend.mem_outputRepaint hmem
  obtain ⟨hlt, -⟩ := s.backend.target_eq_some ht
  have htracks := h idx hlt
  rw [owedWith, owed_frame, Finset.union_right_comm, ← htracks]
  simp only [Output.accumulate, if_pos hlt]
  rw [Finset.union_right_comm, Finset.union_assoc]

theorem importDmabufs_tracks (h : s.Tracks) (bufs : List (φ × BufInfo))
    (created : List (Option ρ)) :
    Tracks ⟨{ s.backend with output := (s.backend.output.importDmabufs bufs created).1 },
      s.history ++ (importedBy bufs created).map .imported⟩ := by
  obtain ⟨hcount, hregion, hok⟩ := importFrom_eq s.backend.output 0 bufs created
  have hdamage := importFrom_accumDamage s.backend.output 0 bufs created
  have hindices := storedFrom_indices 0 bufs created
  have hkept : ∀ i, (i ∉ importedBy bufs created → i < s.backend.output.bufCount) →
      (s.backend.output.importFrom 0 bufs created).1.accumDamage i ∪ s.backend.output.region =
        owed s.backend.output.region i (s.history ++ (importedBy bufs created).map .imported) ∪
          s.backend.output.region := by
    intro i hi
    rw [hdamage i, ← importedBy]
    by_cases hmem : i ∈ importedBy bufs created
    · rw [if_pos hmem, owed_imports hmem]
    · rw [if_neg hmem, owed_imports_other hmem]
      exact h i (hi hmem)
  intro i hi
  rw [Output.importDmabufs] at hi ⊢
  split_ifs at hi ⊢ with hzero
  · obtain rfl := List.length_eq_zero_iff.mp hzero
    simpa [importedBy, Output.storedFrom] using h i hi
  · dsimp only at hi ⊢
    split_ifs at hi ⊢ with hdone
    · rw [hok, decide_eq_true_iff] at hdone
      rw [hregion]
      refine hkept i fun hmem => absurd ?_ hmem
      rw [importedBy, hindices, hdone, List.mem_range'_1]
      exact ⟨Nat.zero_le i, by simpa using hi⟩
    · rw [hregion]
      exact hkept i fun _ => hcount ▸ hi

theorem repaint_tracks (h : s.Tracks) (damage : Region) (shm : UInt32) :
    Tracks ⟨(s.backend.outputRepaint damage shm).1, s.history ++ s.frameEvents damage shm⟩ := by
  cases ht : s.backend.target shm with
  | none =>
    rw [s.backend.outputRepaint_none ht, frameEvents, ht, List.append_nil]
    exact h
  | some found =>
    obtain ⟨idx, rb⟩ := found
    intro i hi
    obtain ⟨houtput, -⟩ := s.backend.outputRepaint_some ht damage
    dsimp only at hi ⊢
    rw [houtput] at hi ⊢
    rw [frameEvents, ht, List.append_cons]
    have hlt : i < s.backend.output.bufCount := hi
    by_cases hidx : i = idx
    · subst hidx
      rw [owed_painted]
      simp [Output.settle]
    · rw [owed_other (by simpa [FrameEvent.settles] using Ne.symm hidx) rfl, owed_frame]
      simp only [Output.settle, Output.accumulate, Function.update_of_ne hidx, if_pos hlt]
      rw [← Finset.union_assoc, Finset.union_assoc, Finset.union_self, Finset.union_right_comm,
        h i hlt, Finset.union_right_comm]

theorem Tracks.step (h : s.Tracks) (hstep : s.step e = some s') : s'.Tracks := by
  cases e with
  | imports bufs created =>
    obtain rfl := Option.some.inj hstep
    exact importDmabufs_tracks h bufs created
  | repaint damage shm =>
    obtain rfl := Option.some.inj hstep
    exact repaint_tracks h damage shm
  | drop =>
    obtain rfl := Option.some.inj hstep
    exact fun i hi => absurd hi (Nat.not_lt_zero i)
  | besides b =>
    obtain rfl := Option.some.inj hstep
    exact h

/-- The whole output is drawn, so what is drawn is what is owed if that is the whole output. -/
theorem Tracks.exact_iff (h : s.Tracks) : s.Exact e ↔ s.OwesWhole e := by
  cases e with
  | repaint damage shm =>
    constructor
    · intro hexact idx rb ht
      obtain ⟨-, effs, heffs, -⟩ := s.backend.outputRepaint_some ht damage
      have hmem := heffs ▸ List.mem_cons_self
      rw [← hexact idx _ rb hmem, region_eq h hmem]
      exact Finset.subset_union_right
    · intro howes idx region rb hmem
      have ht := (s.backend.mem_outputRepaint hmem).1
      rw [region_eq h hmem, Finset.union_eq_left]
      exact howes idx rb ht
  | imports | drop | besides => exact Iff.rfl

theorem Tracks.complete (h : s.Tracks) : s.Complete e := by
  cases e with
  | repaint damage shm =>
    intro idx region rb hmem
    rw [region_eq h hmem]
    exact Finset.subset_union_left
  | imports | drop | besides => trivial

theorem tracks_start (b : Backend φ ρ) (width height : ℕ) (region : Region) :
    (start b width height region).Tracks := fun i hi => absurd hi (Nat.not_lt_zero i)

end Drawing

/-- Every repaint draws exactly what its buffer is owed if and only if every buffer that is
painted is owed the whole output; in every run all that is owed is drawn. -/
theorem exact_iff_owesWhole (b : Backend φ ρ) (width height : ℕ) (region : Region)
    (es : List (DrawStep φ ρ)) :
    (Along Drawing.step (fun s e _ => s.Exact e) (.start b width height region) es ↔
      Along Drawing.step (fun s e _ => s.OwesWhole e) (.start b width height region) es) ∧
    Along Drawing.step (fun s e _ => s.Complete e) (.start b width height region) es := by
  have hstart := Drawing.tracks_start b width height region
  constructor
  · apply along_iff_of_invariant (I := Drawing.Tracks)
    · exact fun s e s' h _ => h.exact_iff
    · exact fun s e s' h hstep _ => h.step hstep
    · exact hstart
  · apply along_of_invariant (I := Drawing.Tracks)
    · exact fun s e s' h hstep => h.step hstep
    · exact fun s e s' h _ => h.complete
    · exact hstart

/-- One buffer, and a second frame without damage. -/
def unchangedFrame : List (DrawStep ℕ ℕ) :=
  [.imports [(10, ⟨4320, 1, 0, 0⟩)] [some 20], .repaint ∅ 0, .repaint ∅ 0]

/-- The second repaint draws the whole output again. -/
theorem unchangedFrame_not_exact :
    ¬ Along Drawing.step (fun s e _ => s.Exact e)
      (.start connectedBackend 1 1 {(0, 0)}) unchangedFrame := by
  intro h
  have hexact := Along.at (unchangedFrame.take 2) h rfl rfl
  exact absurd (hexact 0 _ 20 (.head _)) (by decide)

end Anland
end ACGlass
