import ACGlass.Kiosk.Minimised

/-!
# Minimising and restoring

A window of the active tree is minimised and restored again. Where the lists of the tree and
of the layers agree beforehand, they do so afterwards, with the subtree of the window on top.
-/

namespace ACGlass
namespace Kiosk

open Transition WlList

namespace Shell

section Statement

variable (s : Shell) (w root : ℕ)

/-- Two lists have the windows below one of them in the same order, and the others also. -/
def SameOrder (vs ws : List ℕ) : Prop :=
  vs.filter (s.Below · w) = ws.filter (s.Below · w) ∧
    vs.filter (¬ s.Below · w) = ws.filter (¬ s.Below · w)

/-- What the two requests make of a shell. The lists of trees end with the top window, the
layers begin with it. -/
structure Restored (t : Shell) (tree tree' : List ℕ) : Prop where
  active : t.activeSurfaceTree = some root
  linked : t.Tree root tree'
  shown : w ∈ tree'
  layer : t.normalLayer = tree'.reverse
  top : tree' = s.raised tree' w
  treeOrder : s.SameOrder w tree' tree
  layerOrder : s.SameOrder w t.normalLayer s.normalLayer
  inactive : t.inactiveLayer = s.inactiveLayer

/-- The window is minimised, and then the window with its id is restored. -/
def RoundTrip : Prop :=
  ∃ tree ∈ s.surfaceTree root, s.Tree root tree ∧
    ∃ m ∈ s.surfaceMinimizedRequested w, ∃ n ∈ m.1.restore (s.acglassWindowId w),
      ∃ tree' ∈ n.1.surfaceTree root, s.Restored w root n.1 tree tree'

/-- The topmost window of the tree with the id of the given one is raised like that one. -/
def Named (tree : List ℕ) : Prop :=
  ∃ v ∈ tree.reverse.find? fun v => s.acglassWindowId v = s.acglassWindowId w,
    s.parentRoot v = some root ∧ (∀ u ∈ tree, s.isDescendantOf u v ≠ none) ∧
      s.raised tree v = s.raised tree w

/-- The list of the tree is a ring with the window in it, its views are stacked in the normal
layer, with nothing else there, and none of them is hidden. -/
structure Settled (tree : List ℕ) : Prop where
  linked : s.Tree root tree
  member : w ∈ tree
  layer : s.SameOrder w s.normalLayer tree.reverse
  visible : ∀ v ∈ tree, v ∉ s.inactiveLayer
  named : s.Named w root tree

instance (vs ws : List ℕ) : Decidable (s.SameOrder w vs ws) := inferInstanceAs (Decidable (_ ∧ _))

instance (t : Shell) (tree tree' : List ℕ) : Decidable (s.Restored w root t tree tree') :=
  decidable_of_iff
    (t.activeSurfaceTree = some root ∧ t.Tree root tree' ∧ w ∈ tree' ∧
      t.normalLayer = tree'.reverse ∧ tree' = s.raised tree' w ∧ s.SameOrder w tree' tree ∧
      s.SameOrder w t.normalLayer s.normalLayer ∧ t.inactiveLayer = s.inactiveLayer)
    ⟨fun ⟨h₁, h₂, h₃, h₄, h₅, h₆, h₇, h₈⟩ => ⟨h₁, h₂, h₃, h₄, h₅, h₆, h₇, h₈⟩,
      fun ⟨h₁, h₂, h₃, h₄, h₅, h₆, h₇, h₈⟩ => ⟨h₁, h₂, h₃, h₄, h₅, h₆, h₇, h₈⟩⟩

instance : Decidable (s.RoundTrip w root) :=
  inferInstanceAs (Decidable (∃ tree ∈ s.surfaceTree root, s.Tree root tree ∧
    ∃ m ∈ s.surfaceMinimizedRequested w, ∃ n ∈ m.1.restore (s.acglassWindowId w),
      ∃ tree' ∈ n.1.surfaceTree root, s.Restored w root n.1 tree tree'))

instance (tree : List ℕ) : Decidable (s.Named w root tree) :=
  inferInstanceAs (Decidable (
    ∃ v ∈ tree.reverse.find? fun v => s.acglassWindowId v = s.acglassWindowId w,
      s.parentRoot v = some root ∧ (∀ u ∈ tree, s.isDescendantOf u v ≠ none) ∧
        s.raised tree v = s.raised tree w))

instance (tree : List ℕ) : Decidable (s.Settled w root tree) :=
  decidable_of_iff
    (s.Tree root tree ∧ w ∈ tree ∧ s.SameOrder w s.normalLayer tree.reverse ∧
      (∀ v ∈ tree, v ∉ s.inactiveLayer) ∧ s.Named w root tree)
    ⟨fun ⟨h₁, h₂, h₃, h₄, h₅⟩ => ⟨h₁, h₂, h₃, h₄, h₅⟩,
      fun ⟨h₁, h₂, h₃, h₄, h₅⟩ => ⟨h₁, h₂, h₃, h₄, h₅⟩⟩

end Statement

variable {s t : Shell} {m : Moved} {w root : ℕ} {tree : List ℕ}

section Runs

/-- Only windows that were created are linked in trees. -/
def Bounded (s : Shell) : Prop := ∀ v, s.links (.treeLink v) ≠ none → v < s.created

/-- A call that creates no window and links none that was not linked. -/
structure Keeps (s t : Shell) : Prop where
  created : t.created = s.created
  links : ∀ v, t.links (.treeLink v) ≠ none → s.links (.treeLink v) ≠ none

theorem Keeps.refl (s : Shell) : Keeps s s := ⟨rfl, fun _ h => h⟩

theorem Keeps.trans {u : Shell} (h : Keeps s t) (h' : Keeps t u) : Keeps s u :=
  ⟨h'.created.trans h.created, fun v hv => h.links v (h'.links v hv)⟩

theorem Keeps.bounded (h : Keeps s t) (hs : s.Bounded) : t.Bounded := by
  intro v hv
  rw [h.created]
  exact hs v (h.links v hv)

theorem Moves.keeps (h : Moves s m) : Keeps s m.1 := by
  induction h with
  | refl => exact .refl s
  | link _ hlinks ih => exact ⟨ih.created, fun v hv => ih.links v (hlinks v hv)⟩
  | leave _ w ih => exact ⟨ih.created, ih.links⟩
  | inactive _ w ih => exact ⟨ih.created, ih.links⟩
  | normal _ w ih => exact ⟨ih.created, ih.links⟩
  | active _ root ih => exact ⟨ih.created, ih.links⟩
  | focus _ w ih => exact ⟨ih.created, ih.links⟩
  | map _ mapped ih => exact ⟨ih.created, ih.links⟩
  | listen _ w parent ih => exact ⟨ih.created, ih.links⟩

theorem destroy_keeps {w : ℕ} (s t : Shell) (h : s.destroy w = some t) : Keeps s t := by
  obtain ⟨links, hlinks, h⟩ := Option.bind_eq_some_iff.mp h
  obtain rfl := Option.some.inj h
  refine ⟨rfl, fun v hv => (remove_within hlinks).1 _ fun hnone => hv ?_⟩
  change Function.update (Function.update links (.treeLink w) none) (.treeList w) none
    (.treeLink v) = none
  rw [Function.update_of_ne (by simp), Function.update_apply]
  split_ifs
  · rfl
  · exact hnone

theorem handle_keeps {r : Request} (hadded : r ≠ .added) (h : s.handle r = some m) :
    Keeps s m.1 := by
  cases r with
  | added => exact absurd rfl hadded
  | committed w => exact (surfaceCommitted_moves h).keeps
  | unmapped w =>
    obtain rfl := Option.some.inj h
    exact (surfaceUnmapped_moves s w).keeps
  | minimizedRequested w =>
    obtain ⟨n, hn, rfl⟩ := Option.map_eq_some_iff.mp h
    have hkeeps := (hide_moves hn).keeps
    exact ⟨hkeeps.created, hkeeps.links⟩
  | restore windowId =>
    change s.restore windowId = some m at h
    unfold restore at h
    split at h
    · obtain rfl := Option.some.inj h
      exact .refl s
    · obtain ⟨n, hmoves, rfl⟩ := restoreWindow_moves h
      exact ⟨hmoves.keeps.created, hmoves.keeps.links⟩
  | setParent w parent => exact (setParent_moves s m h).keeps
  | activate w => exact (activate_moves s m h).keeps
  | removed w elsewhere onOutput =>
    obtain ⟨n, hn, h⟩ := Option.bind_eq_some_iff.mp h
    obtain ⟨t, ht, h⟩ := Option.bind_eq_some_iff.mp h
    obtain rfl := Option.some.inj h
    have htold := (surfaceRemoved_moves hn).keeps.trans (destroy_keeps n.1 t ht)
    exact ⟨htold.created, htold.links⟩

theorem surfaceAdded_bounded (hs : s.Bounded) (h : s.surfaceAdded = some m) : m.1.Bounded := by
  obtain ⟨t, ht, rfl⟩ := Option.map_eq_some_iff.mp h
  obtain ⟨links, hlinks, ht⟩ := Option.bind_eq_some_iff.mp ht
  obtain rfl := Option.some.inj ht
  intro v hv
  change v < s.created + 1
  by_cases hnew : v = s.created
  · omega
  · have hold := insert_within hlinks (.treeLink v) (by simpa using hnew) hv
    rw [init, Function.update_of_ne (by simpa using hnew), init,
      Function.update_of_ne (by simp)] at hold
    exact (hs v hold).trans (Nat.lt_succ_self _)

theorem bounded_step {r : Request} (hs : s.Bounded) (h : s.step r = some t) : t.Bounded := by
  unfold step at h
  split at h
  · obtain ⟨m, hm, rfl⟩ := Option.map_eq_some_iff.mp h
    by_cases hadded : r = .added
    · subst hadded
      exact surfaceAdded_bounded hs hm
    · exact (handle_keeps hadded hm).bounded hs
  · cases h

theorem bounded_initial (seat : Bool) : (initial seat).Bounded :=
  fun _ h => absurd rfl h

/-- A walk over a tree has the fuel that it needs. -/
theorem Tree.length_lt_fuel (htree : s.Tree root tree) (hs : s.Bounded) :
    tree.length < s.fuel := by
  have hnodup : tree.Nodup := by
    have hnodes := (List.nodup_cons.mp htree.nodup).2
    exact List.Nodup.of_map _ hnodes
  have hbound : ∀ v ∈ tree, v < s.created := fun v hv =>
    hs v (htree.defined (List.mem_cons_of_mem _ (List.mem_map_of_mem hv)))
  have hlength : tree.length ≤ s.created := by
    rw [← List.toFinset_card_of_nodup hnodup]
    have hsub : tree.toFinset ⊆ Finset.range s.created := by
      intro v hv
      rw [Finset.mem_range]
      exact hbound v (List.mem_toFinset.mp hv)
    simpa using Finset.card_le_card hsub
  unfold fuel
  omega

end Runs

section Layers

theorem foldl_moveToNormal {ws : List ℕ} (h : ws.Nodup) (s : Shell) :
    ws.foldl moveToNormal s =
      { s with
        normalLayer := ws.reverse ++ s.normalLayer.filter (· ∉ ws)
        inactiveLayer := s.inactiveLayer.filter (· ∉ ws) } := by
  induction ws generalizing s with
  | nil => simp
  | cons w ws ih =>
    rw [List.nodup_cons] at h
    rw [List.foldl_cons, ih h.2]
    simp only [moveToNormal, leaveLayers, List.filter_cons, h.1, not_false_eq_true, decide_true,
      if_true, List.filter_filter, List.reverse_cons, List.append_assoc, List.singleton_append,
      List.mem_cons, not_or, Bool.decide_and, Bool.and_comm]

theorem foldl_moveToInactive {ws : List ℕ} (h : ws.Nodup) (s : Shell) :
    ws.foldl moveToInactive s =
      { s with
        normalLayer := s.normalLayer.filter (· ∉ ws)
        inactiveLayer := ws.reverse ++ s.inactiveLayer.filter (· ∉ ws) } := by
  induction ws generalizing s with
  | nil => simp
  | cons w ws ih =>
    rw [List.nodup_cons] at h
    rw [List.foldl_cons, ih h.2]
    simp only [moveToInactive, leaveLayers, List.filter_cons, h.1, not_false_eq_true, decide_true,
      if_true, List.filter_filter, List.reverse_cons, List.append_assoc, List.singleton_append,
      List.mem_cons, not_or, Bool.decide_and, Bool.and_comm]

theorem Tree.nodup (h : s.Tree root tree) : tree.Nodup :=
  List.Nodup.of_map _ (List.nodup_cons.mp (Ring.nodup h)).2

theorem Tree.surfaceTree (h : s.Tree root tree) (hs : s.Bounded) :
    s.surfaceTree root = some tree := by
  have hfuel : (tree.map Node.treeLink).length < s.fuel := by
    rw [List.length_map]
    exact h.length_lt_fuel hs
  rw [Shell.surfaceTree, Ring.backward_eq_some h hfuel]
  exact mapM_window tree

end Layers

section Raising

/-- A tree is shown on top of other views, and none of its views is hidden. -/
structure Displays (s : Shell) (root : ℕ) (tree rest hidden : List ℕ) : Prop where
  active : s.activeSurfaceTree = some root
  linked : s.Tree root tree
  normal : s.normalLayer = tree.reverse ++ rest
  inactive : s.inactiveLayer = hidden
  apart : ∀ v ∈ tree, v ∉ rest ∧ v ∉ hidden

variable {rest hidden : List ℕ} {v : ℕ}

theorem mem_raised : v ∈ s.raised tree w ↔ v ∈ tree := by
  by_cases h : s.Below v w <;> simp [raised, h]

theorem filter_below_raised (s : Shell) (tree : List ℕ) (w : ℕ) :
    (s.raised tree w).filter (s.Below · w) = tree.filter (s.Below · w) ∧
      (s.raised tree w).filter (¬ s.Below · w) = tree.filter (¬ s.Below · w) := by
  simp [raised, List.filter_append, List.filter_filter]

/-- A subtree that is on top stays there. -/
theorem raised_raised (s : Shell) (tree : List ℕ) (w : ℕ) :
    s.raised (s.raised tree w) w = s.raised tree w := by
  obtain ⟨hbelow, hnot⟩ := filter_below_raised s tree w
  rw [raised, hbelow, hnot]
  rfl

theorem isDescendantOf_congr (hparent : t.parent = s.parent) (hcreated : t.created = s.created) :
    t.isDescendantOf = s.isDescendantOf := by
  unfold isDescendantOf fuel
  rw [hparent, hcreated]

theorem raised_congr (h : t.isDescendantOf = s.isDescendantOf) (tree : List ℕ) (w : ℕ) :
    t.raised tree w = s.raised tree w := by
  have hbelow : t.Below = s.Below := by
    unfold Below
    rw [h]
  unfold raised
  simp only [hbelow]

/-- What a walk moves to the top of the layer in its order, the layer has in the reverse order. -/
theorem reverse_raised (s : Shell) (tree rest : List ℕ) (w : ℕ) (hrest : ∀ v ∈ tree, v ∉ rest) :
    (tree.filter (s.Below · w)).reverse ++
        (tree.reverse ++ rest).filter (· ∉ tree.filter (s.Below · w)) =
      (s.raised tree w).reverse ++ rest := by
  have hothers : tree.reverse.filter (· ∉ tree.filter (s.Below · w)) =
      (tree.filter (¬ s.Below · w)).reverse := by
    rw [← List.filter_reverse]
    apply List.filter_congr
    intro v hv
    simp [List.mem_reverse.mp hv]
  have hkept : rest.filter (· ∉ tree.filter (s.Below · w)) = rest := by
    apply List.filter_eq_self.mpr
    intro v hv
    have hno : v ∉ tree := fun hmem => hrest v hmem hv
    simp [hno]
  rw [List.filter_append, hothers, hkept, raised, List.reverse_append, List.append_assoc]

theorem Displays.raise (h : s.Displays root tree rest hidden)
    (hm : s.raiseSurfaceSubtree w = some m) :
    m.1.Displays root (s.raised tree w) rest hidden ∧ m.1.parent = s.parent ∧
      m.1.created = s.created ∧ ∀ v ∈ tree, s.isDescendantOf v w ≠ none := by
  obtain ⟨-, htree, ⟨links, heq⟩, hends⟩ := raiseSurfaceSubtree_tree h.active h.linked hm
  have hnodup : (tree.filter (s.Below · w)).Nodup := h.linked.nodup.filter _
  rw [foldl_moveToNormal hnodup] at heq
  have hnormal : m.1.normalLayer = (s.raised tree w).reverse ++ rest := by
    rw [← reverse_raised s tree rest w fun v hv => (h.apart v hv).1, ← h.normal, heq]
  have hinactive : m.1.inactiveLayer = hidden := by
    have hkept : hidden.filter (· ∉ tree.filter (s.Below · w)) = hidden := by
      apply List.filter_eq_self.mpr
      intro v hv
      have hno : v ∉ tree := fun hmem => (h.apart v hmem).2 hv
      simp [hno]
    rw [← hkept, ← h.inactive, heq]
  refine ⟨⟨?_, htree, hnormal, hinactive, fun v hv => h.apart v (mem_raised.mp hv)⟩, ?_, ?_, hends⟩
  · rw [heq]
    exact h.active
  · rw [heq]
  · rw [heq]

/-- On a ring the walks of the shell end if those along the parents do. -/
theorem exists_raise (hactive : s.activeSurfaceTree = some root) (htree : s.Tree root tree)
    (hs : s.Bounded) (hends : ∀ v ∈ tree, s.isDescendantOf v w ≠ none) :
    ∃ m, s.raiseSurfaceSubtree w = some m := by
  have hfuel := htree.length_lt_fuel hs
  have hselect : ∀ a ∈ tree.map Node.treeLink, s.selectBelow w a ≠ none := by
    intro a ha
    obtain ⟨v, hv, rfl⟩ := List.mem_map.mp ha
    exact hends v hv
  obtain ⟨⟨taken, nodes⟩, htaken⟩ := htree.init_tmpList.exists_moveAll
    (ring_init s.links .tmpList) (by simp) (by simpa using hfuel) hselect
  obtain ⟨hkept, htmp, hdisjoint, -⟩ := htree.take htaken
  have hshort : ((tree.filter (s.Below · w)).map Node.treeLink).length < s.fuel := by
    rw [List.length_map]
    exact (List.length_filter_le _ _).trans_lt hfuel
  have hany : ∀ a ∈ (tree.filter (s.Below · w)).map Node.treeLink,
      (fun _ : Node => some true) a ≠ none := by simp
  obtain ⟨⟨put, nodes'⟩, hput⟩ := htmp.exists_moveAll hkept hdisjoint hshort hany
  obtain ⟨rfl, -⟩ := htmp.moveAll hkept hdisjoint hput
  have hall : ((tree.filter (s.Below · w)).map Node.treeLink).filter
      (fun _ => some true = some true) = (tree.filter (s.Below · w)).map Node.treeLink := by simp
  rw [hall] at hput
  apply Option.ne_none_iff_exists'.mp
  simp only [raiseSurfaceSubtree, hactive, htaken, hput, mapM_window, Option.bind_eq_bind,
    Option.bind_some]
  exact nofun

theorem Displays.activate (h : s.Displays root tree rest hidden) (hm : s.activate w = some m)
    (htop : s.raised tree w = tree) : m.1.Displays root tree rest hidden := by
  unfold Shell.activate at hm
  split at hm
  · have hfocus : Displays { s with focusedSurface := some w } root tree rest hidden :=
      ⟨h.active, h.linked, h.normal, h.inactive, h.apart⟩
    have hraise := (hfocus.raise hm).1
    have hsame : raised { s with focusedSurface := some w } tree w = tree := htop
    rwa [hsame] at hraise
  · obtain rfl := Option.some.inj hm
    exact h

end Raising

section Restoring

variable {v : ℕ}

theorem raise_active (h : s.raiseSurfaceSubtree w = some m) :
    m.1.activeSurfaceTree = s.activeSurfaceTree := by
  unfold raiseSurfaceSubtree at h
  split at h
  · obtain rfl := Option.some.inj h
    rfl
  · obtain ⟨taken, -, h⟩ := Option.bind_eq_some_iff.mp h
    obtain ⟨put, -, h⟩ := Option.bind_eq_some_iff.mp h
    obtain ⟨shown, -, h⟩ := Option.bind_eq_some_iff.mp h
    obtain rfl := Option.some.inj h
    obtain ⟨_, _, heq⟩ := foldl_moveToNormal_eq s shown
    rw [heq]

theorem activate_active (h : s.activate w = some m) :
    m.1.activeSurfaceTree = s.activeSurfaceTree := by
  unfold activate at h
  split at h
  · have hraise := raise_active h
    exact hraise
  · obtain rfl := Option.some.inj h
    rfl

theorem restoreWindow_active (h : s.restoreWindow v = some m) :
    m.1.activeSurfaceTree = s.parentRoot v := by
  obtain ⟨root, m₁, m₂, m₃, hroot, hm₁, hm₂, hm₃, rfl⟩ := restoreWindow_cases h
  obtain ⟨-, _, _, hshow⟩ := setActiveSurfaceTree_some hm₁
  calc m₃.1.activeSurfaceTree
    _ = m₁.1.activeSurfaceTree := by rw [activate_active hm₃, raise_active hm₂]
    _ = s.parentRoot v := by rw [hshow, hroot]

/-- Where no tree is active, a tree is shown on top of what is in the normal layer. -/
theorem setActiveSurfaceTree_displays (hnone : s.activeSurfaceTree = none)
    (htree : s.Tree root tree) (hs : s.Bounded) :
    ∃ m, s.setActiveSurfaceTree (some root) = some m ∧
      m.1.Displays root tree (s.normalLayer.filter (· ∉ tree))
        (s.inactiveLayer.filter (· ∉ tree)) ∧
      m.1.parent = s.parent ∧ m.1.created = s.created := by
  refine ⟨({ tree.foldl moveToNormal s with activeSurfaceTree := some root }, tree), ?_, ?_, ?_, ?_⟩
  · simp [setActiveSurfaceTree, activeWindows, hnone, htree.surfaceTree hs]
  · rw [foldl_moveToNormal htree.nodup]
    exact ⟨rfl, htree, rfl, rfl, fun v hv => by simp [hv]⟩
  · rw [foldl_moveToNormal htree.nodup]
  · rw [foldl_moveToNormal htree.nodup]

theorem Displays.emit {rest hidden : List ℕ} (h : s.Displays root tree rest hidden)
    (type : Android.EventType) : (s.emit type w).Displays root tree rest hidden :=
  ⟨h.active, h.linked, h.normal, h.inactive, h.apart⟩

theorem restoreWindow_displays (hnone : s.activeSurfaceTree = none) (htree : s.Tree root tree)
    (hs : s.Bounded) (hroot : s.parentRoot v = some root) (h : s.restoreWindow v = some m) :
    m.1.Displays root (s.raised tree v) (s.normalLayer.filter (· ∉ tree))
        (s.inactiveLayer.filter (· ∉ tree)) ∧
      ∀ u ∈ tree, s.isDescendantOf u v ≠ none := by
  obtain ⟨root', m₁, m₂, m₃, hroot', hm₁, hm₂, hm₃, rfl⟩ := restoreWindow_cases h
  obtain rfl : root = root' := Option.some.inj (hroot.symm.trans hroot')
  obtain ⟨n, hn, hdisplays, hparent, hcreated⟩ := setActiveSurfaceTree_displays hnone htree hs
  obtain rfl : n = m₁ := Option.some.inj (hn.symm.trans hm₁)
  obtain ⟨hraised, hparent₂, hcreated₂, hends⟩ := hdisplays.raise hm₂
  have hsame := isDescendantOf_congr hparent hcreated
  have hsame₂ := isDescendantOf_congr (hparent₂.trans hparent) (hcreated₂.trans hcreated)
  rw [raised_congr hsame] at hraised
  rw [hsame] at hends
  have htop : m₂.1.raised (s.raised tree v) v = s.raised tree v := by
    rw [raised_congr hsame₂, raised_raised]
  exact ⟨(hraised.activate hm₃ htop).emit _, hends⟩

theorem exists_restoreWindow (hnone : s.activeSurfaceTree = none) (htree : s.Tree root tree)
    (hs : s.Bounded) (hroot : s.parentRoot v = some root)
    (hends : ∀ u ∈ tree, s.isDescendantOf u v ≠ none) : ∃ m, s.restoreWindow v = some m := by
  obtain ⟨m₁, hm₁, hdisplays, hparent, hcreated⟩ := setActiveSurfaceTree_displays hnone htree hs
  have hbounded : m₁.1.Bounded := (setActiveSurfaceTree_moves s m₁ hm₁).keeps.bounded hs
  have hends₁ : ∀ u ∈ tree, m₁.1.isDescendantOf u v ≠ none := by
    rw [isDescendantOf_congr hparent hcreated]
    exact hends
  obtain ⟨m₂, hm₂⟩ := exists_raise hdisplays.active hdisplays.linked hbounded hends₁
  obtain ⟨hraised, hparent₂, hcreated₂, -⟩ := hdisplays.raise hm₂
  have hbounded₂ : m₂.1.Bounded := (raiseSurfaceSubtree_moves m₁.1 m₂ hm₂).keeps.bounded hbounded
  have hends₂ : ∀ u ∈ m₁.1.raised tree v, m₂.1.isDescendantOf u v ≠ none := by
    rw [isDescendantOf_congr hparent₂ hcreated₂]
    exact fun u hu => hends₁ u (mem_raised.mp hu)
  obtain ⟨m₃, hm₃⟩ : ∃ m₃, m₂.1.activate v = some m₃ := by
    unfold Shell.activate
    split
    · exact exists_raise (s := { m₂.1 with focusedSurface := some v }) hraised.active
        hraised.linked hbounded₂ hends₂
    · exact ⟨_, rfl⟩
  refine ⟨(m₃.1.emit .restored v, m₁.2 ++ m₂.2 ++ m₃.2), ?_⟩
  simp [restoreWindow, Moved.andThen, hroot, hm₁, hm₂, hm₃]

end Restoring

section Minimising

/-- The shell with a tree in the inactive layer. -/
def putAway (s : Shell) (tree : List ℕ) : Shell :=
  { s with
    normalLayer := s.normalLayer.filter (· ∉ tree)
    inactiveLayer := tree.reverse ++ s.inactiveLayer.filter (· ∉ tree)
    activeSurfaceTree := none }

theorem surfaceMinimizedRequested_eq (hroot : s.parentRoot w = some root)
    (hactive : s.activeSurfaceTree = some root) (hwalk : s.surfaceTree root = some tree)
    (htree : s.Tree root tree) :
    s.surfaceMinimizedRequested w = some ((s.putAway tree).emit .minimized w, []) := by
  simp [surfaceMinimizedRequested, hide, hroot, hactive, setActiveSurfaceTree, activeWindows,
    hwalk, foldl_moveToInactive htree.nodup, putAway]

/-- What a restore then shows of the tree. -/
theorem restoreWindow_putAway {v : ℕ} (htree : s.Tree root tree) (hs : s.Bounded)
    (hroot : s.parentRoot v = some root)
    (h : ((s.putAway tree).emit .minimized w).restoreWindow v = some m) :
    m.1.Displays root (s.raised tree v) (s.normalLayer.filter (· ∉ tree))
        (s.inactiveLayer.filter (· ∉ tree)) ∧
      ∀ u ∈ tree, s.isDescendantOf u v ≠ none := by
  have hdisplays := restoreWindow_displays (s := (s.putAway tree).emit .minimized w) rfl htree hs
    hroot h
  have hnormal : ((s.putAway tree).emit .minimized w).normalLayer.filter (· ∉ tree) =
      s.normalLayer.filter (· ∉ tree) := by
    simp [putAway, emit, List.filter_filter]
  have hinactive : ((s.putAway tree).emit .minimized w).inactiveLayer.filter (· ∉ tree) =
      s.inactiveLayer.filter (· ∉ tree) := by
    simp [putAway, emit, List.filter_append, List.filter_filter]
  rw [hnormal, hinactive] at hdisplays
  exact hdisplays

end Minimising

section Orders

variable {vs ws us : List ℕ} {v : ℕ}

theorem SameOrder.symm (h : s.SameOrder w vs ws) : s.SameOrder w ws vs := ⟨h.1.symm, h.2.symm⟩

theorem SameOrder.trans (h : s.SameOrder w vs ws) (h' : s.SameOrder w ws us) :
    s.SameOrder w vs us := ⟨h.1.trans h'.1, h.2.trans h'.2⟩

theorem SameOrder.reverse (h : s.SameOrder w vs ws) : s.SameOrder w vs.reverse ws.reverse := by
  unfold SameOrder
  simp only [List.filter_reverse, h.1, h.2, and_self]

theorem SameOrder.subset (h : s.SameOrder w vs ws) (hv : v ∈ vs) : v ∈ ws := by
  by_cases hbelow : s.Below v w
  · have hmem : v ∈ vs.filter (s.Below · w) := List.mem_filter.mpr ⟨hv, by simpa using hbelow⟩
    rw [h.1] at hmem
    exact (List.mem_filter.mp hmem).1
  · have hmem : v ∈ vs.filter (¬ s.Below · w) := List.mem_filter.mpr ⟨hv, by simpa using hbelow⟩
    rw [h.2] at hmem
    exact (List.mem_filter.mp hmem).1

theorem SameOrder.raised_eq (h : s.SameOrder w vs ws) : s.raised vs w = s.raised ws w := by
  rw [raised, h.1, h.2]
  rfl

end Orders

section Finding

variable {v : ℕ}

/-- With no other view in the normal layer, a restore finds a window of the hidden tree. -/
theorem findWindow_putAway (hmem : w ∈ tree) (hrest : s.normalLayer.filter (· ∉ tree) = []) :
    ((s.putAway tree).emit .minimized w).findWindow (s.acglassWindowId w) =
      tree.reverse.find? fun v => s.acglassWindowId v = s.acglassWindowId w := by
  have hfound : (tree.reverse.find? fun v => s.acglassWindowId v = s.acglassWindowId w).isSome := by
    rw [List.find?_isSome]
    exact ⟨w, List.mem_reverse.mpr hmem, by simp⟩
  change ((s.normalLayer.filter (· ∉ tree)) ++
    (tree.reverse ++ s.inactiveLayer.filter (· ∉ tree))).find? _ = _
  rw [hrest, List.nil_append, List.find?_append]
  exact Option.or_of_isSome hfound

end Finding

theorem RoundTrip.settled (hs : s.Bounded) (hroot : s.parentRoot w = some root)
    (hactive : s.activeSurfaceTree = some root) (h : s.RoundTrip w root) :
    ∃ tree ∈ s.surfaceTree root, s.Settled w root tree := by
  obtain ⟨tree, hwalk, htree, m, hm, n, hn, tree', hwalk', hrestored⟩ := h
  rw [surfaceMinimizedRequested_eq hroot hactive hwalk htree] at hm
  obtain rfl := Option.some.inj hm
  change Shell.restore _ _ = some n at hn
  unfold restore at hn
  split at hn
  · obtain rfl := Option.some.inj hn
    cases hrestored.active
  rename_i v hfind
  have hroot_v : s.parentRoot v = some root :=
    (restoreWindow_active hn).symm.trans hrestored.active
  obtain ⟨hdisplays, hends⟩ := restoreWindow_putAway htree hs hroot_v hn
  obtain rfl := surfaceTree_eq hdisplays.linked hwalk'
  have hmem : w ∈ tree := mem_raised.mp hrestored.shown
  have hrest : s.normalLayer.filter (· ∉ tree) = [] := by
    have hlayer := hrestored.layer
    rw [hdisplays.normal] at hlayer
    exact List.append_right_eq_self.mp hlayer
  have hvisible : s.inactiveLayer.filter (· ∉ tree) = s.inactiveLayer :=
    hdisplays.inactive.symm.trans hrestored.inactive
  rw [findWindow_putAway hmem hrest] at hfind
  refine ⟨tree, hwalk, htree, hmem, ?_, ?_, v, hfind, hroot_v, hends, ?_⟩
  · have hlayer := hrestored.layerOrder.symm
    rw [hrestored.layer] at hlayer
    exact hlayer.trans hrestored.treeOrder.reverse
  · intro u hu hhidden
    have hno := List.filter_eq_self.mp hvisible u hhidden
    exact of_decide_eq_true hno hu
  · calc s.raised tree v = s.raised (s.raised tree v) w := hrestored.top
      _ = s.raised tree w := hrestored.treeOrder.raised_eq

theorem Settled.roundTrip (hs : s.Bounded) (hroot : s.parentRoot w = some root)
    (hactive : s.activeSurfaceTree = some root) (hwalk : s.surfaceTree root = some tree)
    (h : s.Settled w root tree) : s.RoundTrip w root := by
  obtain ⟨v, hfind, hroot_v, hends, hraised⟩ := h.named
  have hrest : s.normalLayer.filter (· ∉ tree) = [] := by
    apply List.filter_eq_nil_iff.mpr
    intro u hu
    have hmem : u ∈ tree := List.mem_reverse.mp (h.layer.subset hu)
    simpa using hmem
  have hvisible : s.inactiveLayer.filter (· ∉ tree) = s.inactiveLayer := by
    apply List.filter_eq_self.mpr
    intro u hu
    have hno : u ∉ tree := fun hmem => h.visible u hmem hu
    simpa using hno
  let away : Shell := (s.putAway tree).emit .minimized w
  have haway : away.restore (s.acglassWindowId w) = away.restoreWindow v := by
    rw [restore, findWindow_putAway h.member hrest, hfind]
  obtain ⟨n, hn⟩ := exists_restoreWindow (s := away) rfl h.linked hs hroot_v hends
  obtain ⟨hdisplays, -⟩ := restoreWindow_putAway h.linked hs hroot_v hn
  rw [hraised, hrest, hvisible] at hdisplays
  have hrestore : away.restore (s.acglassWindowId w) = some n := haway.trans hn
  have hbounded : n.1.Bounded :=
    (handle_keeps (s := away) (r := .restore (s.acglassWindowId w)) nofun hrestore).bounded hs
  have hnormal : n.1.normalLayer = (s.raised tree w).reverse := by
    rw [hdisplays.normal, List.append_nil]
  have horder : s.SameOrder w (s.raised tree w) tree := filter_below_raised s tree w
  refine ⟨tree, hwalk, h.linked, _, surfaceMinimizedRequested_eq hroot hactive hwalk h.linked, n,
    hrestore, s.raised tree w, hdisplays.linked.surfaceTree hbounded, ?_⟩
  refine ⟨hdisplays.active, hdisplays.linked, mem_raised.mpr h.member, hnormal, ?_, horder, ?_,
    hdisplays.inactive⟩
  · exact (raised_raised s tree w).symm
  · rw [hnormal]
    exact horder.reverse.trans h.layer.symm

/-- The requests are a round trip where the lists agree beforehand, and only there. -/
theorem roundTrip_iff {seat : Bool} {rs : List Request}
    (hrun : exec step (initial seat) rs = some s) (hroot : s.parentRoot w = some root)
    (hactive : s.activeSurfaceTree = some root) :
    s.RoundTrip w root ↔ ∃ tree ∈ s.surfaceTree root, s.Settled w root tree := by
  have hs : s.Bounded :=
    exec_invariant (I := Bounded) (fun _ _ _ => bounded_step) (bounded_initial seat) hrun
  constructor
  · exact RoundTrip.settled hs hroot hactive
  · rintro ⟨tree, hwalk, hsettled⟩
    exact hsettled.roundTrip hs hroot hactive hwalk

/-- A window with two dialogs. -/
def dialogs : List Request :=
  [.added, .committed 0, .added, .setParent 1 (some 0), .committed 1, .added,
    .setParent 2 (some 0), .committed 2]

theorem roundTrip_dialog :
    ∃ s ∈ exec step (initial true) dialogs, s.RoundTrip 1 0 := by
  refine ⟨(exec step (initial true) dialogs).get (by decide +kernel), by simp, ?_⟩
  exact (roundTrip_iff (Option.some_get _).symm (by decide +kernel) (by decide +kernel)).mpr
    (by decide +kernel)

/-- A window that is hidden gets the shown one for its parent. -/
def reparented : List Request :=
  [.added, .committed 0, .added, .committed 1, .setParent 0 (some 1)]

/-- The hidden window is in the active tree, and its view is still in the inactive layer. -/
theorem not_roundTrip_reparented :
    ∃ s ∈ exec step (initial true) reparented, s.parentRoot 1 = some 1 ∧
      s.activeSurfaceTree = some 1 ∧ (∀ tree ∈ s.surfaceTree 1, ∀ v ∈ tree, s.mapped v = true) ∧
      ¬ s.RoundTrip 1 1 := by
  decide +kernel

end Shell

end Kiosk
end ACGlass
