import ACGlass.Kiosk.Trees

/-!
# What the calls of the shell are made of

The calls below a request move views between layers and nodes between lists, and set the active
tree, the focus and the parents. What all of these keep, every call keeps.
-/

namespace ACGlass
namespace Kiosk

open Transition WlList

namespace Shell

/-- No node of a window is linked that was not linked. -/
def NoNewLinks (s : Shell) (links : Links Node) : Prop :=
  ∀ v, links (.treeLink v) ≠ none → s.links (.treeLink v) ≠ none

/-- A state that such moves lead to, with the windows moved to the normal layer. -/
inductive Moves (s : Shell) : Moved → Prop
  | refl : Moves s (s, [])
  | leave {m : Moved} (h : Moves s m) (w : ℕ) : Moves s (m.1.leaveLayers w, m.2)
  | inactive {m : Moved} (h : Moves s m) (w : ℕ) : Moves s (m.1.moveToInactive w, m.2)
  | normal {m : Moved} (h : Moves s m) (w : ℕ) : Moves s (m.1.moveToNormal w, m.2 ++ [w])
  | active {m : Moved} (h : Moves s m) (root : Option ℕ) :
      Moves s ({ m.1 with activeSurfaceTree := root }, m.2)
  | focus {m : Moved} (h : Moves s m) (w : Option ℕ) :
      Moves s ({ m.1 with focusedSurface := w }, m.2)
  | map {m : Moved} (h : Moves s m) (mapped : ℕ → Bool) : Moves s ({ m.1 with mapped }, m.2)
  | listen {m : Moved} (h : Moves s m) (w : ℕ) (parent : Option ℕ) :
      Moves s (m.1.listen w parent, m.2)
  | link {m : Moved} (h : Moves s m) {links : Links Node} (hlinks : m.1.NoNewLinks links) :
      Moves s ({ m.1 with links }, m.2)

variable {s : Shell} {m : Moved}

theorem Moves.trans {n : Moved} (h : Moves s m) (h' : Moves m.1 n) :
    Moves s (n.1, m.2 ++ n.2) := by
  induction h' with
  | refl =>
    rw [List.append_nil]
    exact h
  | leave _ w ih => exact ih.leave w
  | inactive _ w ih => exact ih.inactive w
  | normal _ w ih =>
    rw [← List.append_assoc]
    exact ih.normal w
  | active _ root ih => exact ih.active root
  | focus _ w ih => exact ih.focus w
  | map _ mapped ih => exact ih.map mapped
  | listen _ w parent ih => exact ih.listen w parent
  | link _ hlinks ih => exact ih.link hlinks

theorem Moves.andThen {r : Option Moved} {f : Shell → Option Moved}
    (hr : ∀ m, r = some m → Moves s m) (hf : ∀ t n, f t = some n → Moves t n)
    (h : Moved.andThen r f = some m) : Moves s m := by
  obtain ⟨m₁, m₂, hm₁, hm₂, rfl⟩ := Moved.andThen_eq_some h
  exact (hr m₁ hm₁).trans (hf m₁.1 m₂ hm₂)

section Walks

theorem foldl_moveToInactive_moves (s : Shell) (ws : List ℕ) :
    Moves s (ws.foldl moveToInactive s, []) := by
  induction ws generalizing s with
  | nil => exact .refl
  | cons w ws ih => exact (Moves.refl.inactive w).trans (ih (s.moveToInactive w))

theorem foldl_moveToNormal_moves (s : Shell) (ws : List ℕ) :
    Moves s (ws.foldl moveToNormal s, ws) := by
  induction ws generalizing s with
  | nil => exact .refl
  | cons w ws ih => exact (Moves.refl.normal w).trans (ih (s.moveToNormal w))

theorem noNewLinks_init {links : Links Node} {list : Node} (hlist : ∀ v, list ≠ .treeLink v)
    (h : Within (init s.links list) links) : s.NoNewLinks links := by
  intro v hv
  have hinit := h (.treeLink v) hv
  rwa [init, Function.update_of_ne (hlist v).symm] at hinit

end Walks

theorem setActiveSurfaceTree_moves {root : Option ℕ} (s : Shell) (m : Moved)
    (h : s.setActiveSurfaceTree root = some m) : Moves s m := by
  obtain ⟨old, -, h⟩ := Option.bind_eq_some_iff.mp h
  have hold := foldl_moveToInactive_moves s old
  cases root with
  | none =>
    obtain rfl := Option.some.inj h
    exact hold.active none
  | some root =>
    obtain ⟨new, -, rfl⟩ := Option.map_eq_some_iff.mp h
    exact (hold.trans (foldl_moveToNormal_moves (old.foldl moveToInactive s) new)).active root

theorem raiseSurfaceSubtree_moves {w : ℕ} (s : Shell) (m : Moved)
    (h : s.raiseSurfaceSubtree w = some m) : Moves s m := by
  unfold raiseSurfaceSubtree at h
  split at h
  · obtain rfl := Option.some.inj h
    exact .refl
  · obtain ⟨⟨taken, nodes⟩, htaken, h⟩ := Option.bind_eq_some_iff.mp h
    obtain ⟨⟨put, nodes'⟩, hput, h⟩ := Option.bind_eq_some_iff.mp h
    obtain ⟨raised, -, h⟩ := Option.bind_eq_some_iff.mp h
    obtain rfl := Option.some.inj h
    have hlinks : s.NoNewLinks put :=
      noNewLinks_init (by simp) ((moveAll_within htaken).trans (moveAll_within hput))
    apply (foldl_moveToNormal_moves s raised).link
    obtain ⟨_, _, heq⟩ := foldl_moveToNormal_eq s raised
    rw [heq]
    exact hlinks

theorem activate_moves {w : ℕ} (s : Shell) (m : Moved) (h : s.activate w = some m) :
    Moves s m := by
  unfold activate at h
  split at h
  · exact (Moves.refl.focus (some w)).trans (raiseSurfaceSubtree_moves _ m h)
  · obtain rfl := Option.some.inj h
    exact .refl

theorem setParent_moves {w : ℕ} {parent : Option ℕ} (s : Shell) (m : Moved)
    (h : s.setParent w parent = some m) : Moves s m := by
  obtain ⟨shroot, -, h⟩ := Option.bind_eq_some_iff.mp h
  dsimp only at h
  split at h
  · obtain rfl := Option.some.inj h
    exact .refl
  cases parent with
  | some p =>
    have hlisten := (Moves.refl (s := s)).listen w (some p)
    obtain ⟨inTree, -, h⟩ := Option.bind_eq_some_iff.mp h
    split at h
    · obtain rfl := Option.some.inj h
      exact hlisten
    · obtain ⟨links, hlinks, h⟩ := Option.bind_eq_some_iff.mp h
      obtain rfl := Option.some.inj h
      exact hlisten.link fun v hv => moveToTop_within hlinks _ hv
  | none =>
    obtain ⟨⟨links, moved⟩, hmove, h⟩ := Option.bind_eq_some_iff.mp h
    have hlinks : (s.listen w none).NoNewLinks links :=
      noNewLinks_init (by simp) (moveAll_within hmove)
    exact ((Moves.refl.listen w none).link hlinks).trans (setActiveSurfaceTree_moves _ m h)

theorem tellChildren_moves {w : ℕ} {children : List ℕ} (s : Shell) (m : Moved)
    (h : tellChildren w s children = some m) : Moves s m := by
  induction children generalizing s m with
  | nil =>
    obtain rfl := Option.some.inj h
    exact .refl
  | cons child children ih => exact Moves.andThen (setParent_moves s) ih h

theorem showSuccessor_moves {successor : ℕ} (s : Shell) (m : Moved)
    (h : s.showSuccessor successor = some m) : Moves s m := by
  unfold showSuccessor at h
  split at h
  · obtain ⟨shroot, -, h⟩ := Option.bind_eq_some_iff.mp h
    exact setActiveSurfaceTree_moves s m h
  · obtain rfl := Option.some.inj h
    exact .refl

theorem passFocus_moves {w : ℕ} {onOutput : List ℕ} (s : Shell) (m : Moved)
    (h : s.passFocus w onOutput = some m) : Moves s m := by
  obtain ⟨found, -, h⟩ := Option.bind_eq_some_iff.mp h
  cases found with
  | none => exact (Moves.refl.focus none).trans (setActiveSurfaceTree_moves _ m h)
  | some successor => exact Moves.andThen (showSuccessor_moves s) activate_moves h

section Requests

theorem surfaceCommitted_moves {w : ℕ} (h : s.surfaceCommitted w = some m) : Moves s m := by
  unfold surfaceCommitted at h
  split at h
  · obtain rfl := Option.some.inj h
    exact .refl
  · refine (Moves.refl.map (Function.update s.mapped w true)).trans ?_
    refine Moves.andThen (fun n hn => ?_) activate_moves h
    split at hn
    · exact setActiveSurfaceTree_moves _ n hn
    · obtain rfl := Option.some.inj hn
      exact .refl

theorem surfaceUnmapped_moves (s : Shell) (w : ℕ) : Moves s (s.surfaceUnmapped w, []) :=
  (Moves.refl.leave w).map _

theorem hide_moves {w : ℕ} (h : s.hide w = some m) : Moves s m := by
  obtain ⟨shroot, -, h⟩ := Option.bind_eq_some_iff.mp h
  split at h
  · exact setActiveSurfaceTree_moves s m h
  · obtain rfl := Option.some.inj h
    exact Moves.refl.inactive w

/-- The calls of a restore, one after the other. -/
theorem restoreWindow_cases {w : ℕ} (h : s.restoreWindow w = some m) :
    ∃ root m₁ m₂ m₃, s.parentRoot w = some root ∧ s.setActiveSurfaceTree (some root) = some m₁ ∧
      m₁.1.raiseSurfaceSubtree w = some m₂ ∧ m₂.1.activate w = some m₃ ∧
      m = (m₃.1.emit .restored w, m₁.2 ++ m₂.2 ++ m₃.2) := by
  obtain ⟨root, hroot, h⟩ := Option.bind_eq_some_iff.mp h
  obtain ⟨n, hn, h⟩ := Option.bind_eq_some_iff.mp h
  obtain rfl := Option.some.inj h
  obtain ⟨m₁₂, m₃, hm₁₂, hm₃, rfl⟩ := Moved.andThen_eq_some hn
  obtain ⟨m₁, m₂, hm₁, hm₂, rfl⟩ := Moved.andThen_eq_some hm₁₂
  exact ⟨root, m₁, m₂, m₃, hroot, hm₁, hm₂, hm₃, rfl⟩

theorem restoreWindow_moves {w : ℕ} (h : s.restoreWindow w = some m) :
    ∃ n, Moves s n ∧ m = (n.1.emit .restored w, n.2) := by
  obtain ⟨root, m₁, m₂, m₃, -, hm₁, hm₂, hm₃, rfl⟩ := restoreWindow_cases h
  have hshown := (setActiveSurfaceTree_moves s m₁ hm₁).trans (raiseSurfaceSubtree_moves _ m₂ hm₂)
  exact ⟨_, hshown.trans (activate_moves _ m₃ hm₃), rfl⟩

/-- The calls of a removal before the window is destroyed. -/
theorem surfaceRemoved_moves {w : ℕ} {elsewhere : Bool} {onOutput : List ℕ}
    (h : Moved.andThen (tellChildren w (s.emit .closed w) (s.children w))
      (fun t => if t.hasFocus w elsewhere then t.passFocus w onOutput else some (t, [])) = some m) :
    Moves (s.emit .closed w) m := by
  refine Moves.andThen (tellChildren_moves _) (fun t n hn => ?_) h
  split at hn
  · exact passFocus_moves t n hn
  · obtain rfl := Option.some.inj hn
    exact .refl

end Requests

end Shell

end Kiosk
end ACGlass
