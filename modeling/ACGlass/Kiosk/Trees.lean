import ACGlass.Kiosk.Shell
import ACGlass.WlRing

/-!
# What the shell shows of a surface tree

Where the list of a tree is a ring, the walks of the shell show its windows, or those of them
that are below a window.
-/

namespace ACGlass
namespace Kiosk

open Transition WlList

/-- Both calls return. -/
theorem Moved.andThen_eq_some {r : Option Moved} {f : Shell → Option Moved} {m : Moved}
    (h : andThen r f = some m) :
    ∃ m₁ m₂, r = some m₁ ∧ f m₁.1 = some m₂ ∧ m = (m₂.1, m₁.2 ++ m₂.2) := by
  obtain ⟨m₁, hm₁, h⟩ := Option.bind_eq_some_iff.mp h
  obtain ⟨m₂, hm₂, rfl⟩ := Option.map_eq_some_iff.mp h
  exact ⟨m₁, m₂, hm₁, hm₂, rfl⟩

namespace Shell

variable (s : Shell)

/-- The windows of a tree, whose list is a ring. -/
def Tree (root : ℕ) (tree : List ℕ) : Prop :=
  Ring s.links (.treeList root) (tree.map .treeLink)

def Below (v w : ℕ) : Prop := s.isDescendantOf v w = some true

instance (v w : ℕ) : Decidable (s.Below v w) := inferInstanceAs (Decidable (_ = _))

variable {s} {m : Moved} {root w : ℕ} {tree tree' : List ℕ}

section Nodes

theorem mapM_window (tree : List ℕ) : (tree.map Node.treeLink).mapM Node.window = some tree := by
  induction tree with
  | nil => rfl
  | cons v tree ih =>
    rw [List.map_cons, List.mapM_cons, ih]
    rfl

theorem surfaceTree_eq (h : s.Tree root tree) (htree : s.surfaceTree root = some tree') :
    tree' = tree := by
  obtain ⟨nodes, hnodes, htree⟩ := Option.bind_eq_some_iff.mp htree
  rw [h.backward_eq hnodes, mapM_window] at htree
  exact (Option.some.inj htree).symm

theorem filter_selectBelow (s : Shell) (w : ℕ) (tree : List ℕ) :
    (tree.map Node.treeLink).filter (s.selectBelow w · = some true) =
      (tree.filter (s.Below · w)).map .treeLink := by
  rw [List.filter_map]
  rfl

theorem filter_not_selectBelow (s : Shell) (w : ℕ) (tree : List ℕ) :
    (tree.map Node.treeLink).filter (s.selectBelow w · ≠ some true) =
      (tree.filter (¬ s.Below · w)).map .treeLink := by
  rw [List.filter_map]
  rfl

end Nodes

section Layers

theorem foldl_moveToNormal_eq (s : Shell) (ws : List ℕ) :
    ∃ normalLayer inactiveLayer,
      ws.foldl moveToNormal s = { s with normalLayer, inactiveLayer } := by
  induction ws generalizing s with
  | nil => exact ⟨s.normalLayer, s.inactiveLayer, rfl⟩
  | cons w ws ih =>
    obtain ⟨normalLayer, inactiveLayer, heq⟩ := ih (s.moveToNormal w)
    exact ⟨normalLayer, inactiveLayer, heq⟩

theorem foldl_moveToInactive_eq (s : Shell) (ws : List ℕ) :
    ∃ normalLayer inactiveLayer,
      ws.foldl moveToInactive s = { s with normalLayer, inactiveLayer } := by
  induction ws generalizing s with
  | nil => exact ⟨s.normalLayer, s.inactiveLayer, rfl⟩
  | cons w ws ih =>
    obtain ⟨normalLayer, inactiveLayer, heq⟩ := ih (s.moveToInactive w)
    exact ⟨normalLayer, inactiveLayer, heq⟩

end Layers

/-- The windows of the tree are shown, and it is the active one. -/
theorem setActiveSurfaceTree_some (h : s.setActiveSurfaceTree (some root) = some m) :
    s.surfaceTree root = some m.2 ∧ ∃ normalLayer inactiveLayer,
      m.1 = { s with normalLayer, inactiveLayer, activeSurfaceTree := some root } := by
  obtain ⟨old, -, h⟩ := Option.bind_eq_some_iff.mp h
  obtain ⟨new, hnew, rfl⟩ := Option.map_eq_some_iff.mp h
  obtain ⟨normalLayer, inactiveLayer, hold⟩ := foldl_moveToInactive_eq s old
  rw [hold] at hnew ⊢
  obtain ⟨normalLayer', inactiveLayer', hnormal⟩ :=
    foldl_moveToNormal_eq { s with normalLayer, inactiveLayer } new
  refine ⟨hnew, normalLayer', inactiveLayer', ?_⟩
  rw [hnormal]

/-- The tree with the windows below one of them on top. -/
def raised (s : Shell) (tree : List ℕ) (w : ℕ) : List ℕ :=
  tree.filter (¬ s.Below · w) ++ tree.filter (s.Below · w)

theorem Tree.init_tmpList (h : s.Tree root tree) :
    Ring (init s.links .tmpList) (.treeList root) (tree.map .treeLink) := by
  refine Ring.congr h fun a ha => Function.update_of_ne ?_ _ _
  rintro rfl
  simp at ha

/-- The windows below one of them are taken to a list of their own. -/
theorem Tree.take (h : s.Tree root tree) {links : Links Node} {nodes : List Node}
    (htaken : moveAll (s.selectBelow w) s.fuel (init s.links .tmpList) .tmpList (.treeList root) =
      some (links, nodes)) :
    Ring links (.treeList root) ((tree.filter (¬ s.Below · w)).map .treeLink) ∧
      Ring links .tmpList ((tree.filter (s.Below · w)).map .treeLink) ∧
      (∀ a ∈ Node.tmpList :: (tree.filter (s.Below · w)).map .treeLink,
        a ∉ Node.treeList root :: (tree.filter (¬ s.Below · w)).map .treeLink) ∧
      ∀ v ∈ tree, s.isDescendantOf v w ≠ none := by
  obtain ⟨rfl, htree, htmp, hends⟩ :=
    h.init_tmpList.moveAll (ring_init s.links .tmpList) (by simp) htaken
  rw [filter_not_selectBelow] at htree
  rw [filter_selectBelow, List.nil_append] at htmp
  refine ⟨htree, htmp, fun a ha ha' => ?_, fun v hv => ?_⟩
  · rcases List.mem_cons.mp ha with rfl | ha
    · simp at ha'
    · obtain ⟨v, hv, rfl⟩ := List.mem_map.mp ha
      simp only [List.mem_cons, reduceCtorEq, List.mem_map, Node.treeLink.injEq, exists_eq_right,
        List.mem_filter, false_or] at hv ha'
      simp [hv.2] at ha'
  · exact hends (.treeLink v) (List.mem_map_of_mem hv)

/-- A subtree of the active tree is shown, and is on top of the ring. -/
theorem raiseSurfaceSubtree_tree (hactive : s.activeSurfaceTree = some root)
    (htree : s.Tree root tree) (h : s.raiseSurfaceSubtree w = some m) :
    m.2 = tree.filter (s.Below · w) ∧ m.1.Tree root (s.raised tree w) ∧
      (∃ links, m.1 = { (tree.filter (s.Below · w)).foldl moveToNormal s with links }) ∧
      ∀ v ∈ tree, s.isDescendantOf v w ≠ none := by
  unfold raiseSurfaceSubtree at h
  rw [hactive] at h
  obtain ⟨⟨taken, nodes⟩, htaken, h⟩ := Option.bind_eq_some_iff.mp h
  obtain ⟨⟨put, nodes'⟩, hput, h⟩ := Option.bind_eq_some_iff.mp h
  obtain ⟨shown, hshown, h⟩ := Option.bind_eq_some_iff.mp h
  obtain rfl := Option.some.inj h
  obtain ⟨hkept, htmp, hdisjoint, hends⟩ := htree.take htaken
  obtain ⟨rfl, -, htop, -⟩ := htmp.moveAll hkept hdisjoint hput
  have hall : ∀ nodes : List Node, nodes.filter (fun _ => some true = some true) = nodes :=
    fun nodes => by simp
  rw [hall] at hshown htop
  rw [mapM_window] at hshown
  obtain rfl := Option.some.inj hshown
  refine ⟨rfl, ?_, ⟨put, rfl⟩, hends⟩
  rw [Tree, raised, List.map_append]
  exact htop

theorem raised_subset (s : Shell) (tree : List ℕ) (w : ℕ) : s.raised tree w ⊆ tree :=
  List.append_subset.mpr ⟨List.filter_subset_self _, List.filter_subset_self _⟩

theorem activate_tree (hactive : s.activeSurfaceTree = some root) (htree : s.Tree root tree)
    (h : s.activate w = some m) : m.2 ⊆ tree.filter (s.Below · w) := by
  unfold activate at h
  split_ifs at h
  · have htree' : Shell.Tree { s with focusedSurface := some w } root tree := htree
    rw [(raiseSurfaceSubtree_tree (s := { s with focusedSurface := some w }) hactive htree' h).1]
    exact List.Subset.refl _
  · obtain rfl := Option.some.inj h
    exact List.nil_subset _

section Parents

/-- The listeners of a window are the windows that have it for their parent. -/
def Family (s : Shell) : Prop :=
  ∀ p, (s.children p).Nodup ∧ ∀ child ∈ s.children p, s.parent child = some p

theorem listen_family (h : s.Family) (w : ℕ) (parent : Option ℕ) : (s.listen w parent).Family := by
  obtain ⟨children, hchildren, hlisten⟩ : ∃ children : ℕ → List ℕ,
      (∀ q, (children q).Nodup ∧ w ∉ children q ∧ children q ⊆ s.children q) ∧
        (s.listen w parent).children =
          parent.elim children fun p => Function.update children p (children p ++ [w]) := by
    cases hp : s.parent w with
    | none =>
      refine ⟨s.children, fun q => ⟨(h q).1, fun hw => ?_, List.Subset.refl _⟩, ?_⟩
      · rw [(h q).2 w hw] at hp
        cases hp
      · cases parent <;> simp [listen, hp]
    | some p =>
      refine ⟨Function.update s.children p ((s.children p).erase w), fun q => ?_, ?_⟩
      · rw [Function.update_apply]
        split_ifs with hq
        · rw [hq]
          exact ⟨(h p).1.erase w, (h p).1.not_mem_erase, List.erase_subset⟩
        · refine ⟨(h q).1, fun hw => hq ?_, List.Subset.refl _⟩
          rw [(h q).2 w hw] at hp
          exact Option.some.inj hp
      · cases parent <;> simp [listen, hp]
  have hkept : ∀ q, ∀ child ∈ children q, Function.update s.parent w parent child = some q := by
    intro q child hchild
    have hne : child ≠ w := fun heq => (hchildren q).2.1 (heq ▸ hchild)
    rw [Function.update_of_ne hne]
    exact (h q).2 child ((hchildren q).2.2 hchild)
  intro q
  rw [hlisten]
  cases parent with
  | none => exact ⟨(hchildren q).1, hkept q⟩
  | some p =>
    rw [Option.elim_some, Function.update_apply]
    split_ifs with hq
    · subst hq
      refine ⟨(hchildren q).1.append (List.nodup_singleton w) ?_, fun child hchild => ?_⟩
      · exact List.disjoint_singleton.mpr (hchildren q).2.1
      · rcases List.mem_append.mp hchild with hchild | hchild
        · exact hkept q child hchild
        · rw [List.mem_singleton.mp hchild]
          exact Function.update_self _ _ _
    · exact ⟨(hchildren q).1, hkept q⟩

theorem descendsFrom_update (parent : ℕ → Option ℕ) (w : ℕ) (p : Option ℕ) (fuel : ℕ)
    (v : Option ℕ) :
    descendsFrom (Function.update parent w p) w fuel v = descendsFrom parent w fuel v := by
  induction fuel generalizing v with
  | zero => rfl
  | succ fuel ih =>
    cases v with
    | none => rfl
    | some v =>
      rw [descendsFrom, descendsFrom]
      split_ifs with hv
      · rfl
      · rw [Function.update_of_ne hv, ih]

/-- Without some of the parents nothing else is below a window. -/
theorem descendsFrom_mono {parent parent' : ℕ → Option ℕ}
    (hparent : ∀ v, parent' v = parent v ∨ parent' v = none) {w fuel : ℕ} {v : Option ℕ}
    (h : descendsFrom parent' w fuel v = some true) : descendsFrom parent w fuel v = some true := by
  induction fuel generalizing v with
  | zero => cases h
  | succ fuel ih =>
    cases v with
    | none => cases h
    | some v =>
      rw [descendsFrom] at h ⊢
      split_ifs at h ⊢ with hv
      · rfl
      · rcases hparent v with heq | heq
        · rw [← heq]
          exact ih h
        · rw [heq] at h
          cases fuel <;> cases h

theorem parentRoot_of_none (h : s.parent w = none) : s.parentRoot w = some w := by
  rw [parentRoot, fuel, parentRootFrom, h]

theorem parentRoot_of_some {child : ℕ} (hchild : s.parent child = some w)
    (h : s.parent w = none) : s.parentRoot child = some w := by
  rw [parentRoot, fuel, parentRootFrom, hchild]
  dsimp only
  rw [parentRootFrom, h]

end Parents

/-- A window that loses its parent shows what is below it, and takes it out of its tree. -/
theorem setParent_none_tree (hroot : s.parentRoot w = some root) (hne : root ≠ w)
    (htree : s.Tree root tree) (h : s.setParent w none = some m) :
    m.2 = tree.filter (s.Below · w) ∧ m.1.Tree root (tree.filter (¬ s.Below · w)) ∧
      m.1.parent = Function.update s.parent w none ∧ m.1.created = s.created := by
  obtain ⟨shroot, hshroot, h⟩ := Option.bind_eq_some_iff.mp h
  obtain rfl : root = shroot := Option.some.inj (hroot.symm.trans hshroot)
  dsimp only at h
  rw [if_neg fun hw => hne hw.2.symm] at h
  obtain ⟨⟨links, nodes⟩, hmove, h⟩ := Option.bind_eq_some_iff.mp h
  have hselect : (s.listen w none).selectBelow w = s.selectBelow w := by
    funext node
    rw [selectBelow, selectBelow]
    refine congrArg (node.window).bind (funext fun v => ?_)
    exact descendsFrom_update s.parent w none s.fuel (some v)
  have hown := ring_init s.links (.treeList w)
  have htree₁ : Ring (init s.links (.treeList w)) (.treeList root) (tree.map .treeLink) := by
    refine htree.congr fun a ha => Function.update_of_ne ?_ _ _
    rintro rfl
    simp [Ne.symm hne] at ha
  obtain ⟨rfl, htree₂, hown₂, -⟩ := htree₁.moveAll hown (by simp [hne]) hmove
  rw [hselect, filter_selectBelow, List.nil_append] at hown₂
  rw [hselect, filter_not_selectBelow] at htree₂
  obtain ⟨hshown, normalLayer, inactiveLayer, heq⟩ := setActiveSurfaceTree_some h
  have hnew : Shell.Tree { s.listen w none with links } w (tree.filter (s.Below · w)) := hown₂
  refine ⟨surfaceTree_eq hnew hshown, ?_, ?_, ?_⟩
  · rw [heq]
    exact htree₂
  · rw [heq]
    rfl
  · rw [heq]
    rfl

/-- A window with a parent shows nothing. -/
theorem setParent_some {p : ℕ} (h : s.setParent w (some p) = some m) :
    m.2 = [] ∧ m.1.parent = Function.update s.parent w (some p) := by
  obtain ⟨shroot, -, h⟩ := Option.bind_eq_some_iff.mp h
  dsimp only at h
  rw [if_neg fun hw => nomatch hw.1] at h
  obtain ⟨inTree, -, h⟩ := Option.bind_eq_some_iff.mp h
  split_ifs at h
  · obtain rfl := Option.some.inj h
    exact ⟨rfl, rfl⟩
  · obtain ⟨links, -, h⟩ := Option.bind_eq_some_iff.mp h
    obtain rfl := Option.some.inj h
    exact ⟨rfl, rfl⟩

section Children

variable {children : List ℕ}

theorem tellChildren_some {p : ℕ} (hparent : s.parent w = some p)
    (h : tellChildren w s children = some m) : m.2 = [] := by
  induction children generalizing s m with
  | nil =>
    obtain rfl := Option.some.inj h
    rfl
  | cons child children ih =>
    obtain ⟨m₁, m₂, hm₁, hm₂, rfl⟩ := Moved.andThen_eq_some h
    rw [hparent] at hm₁
    obtain ⟨hnone, hparent₁⟩ := setParent_some hm₁
    have hparent₂ : m₁.1.parent w = some p := by
      rw [hparent₁, Function.update_apply]
      split_ifs
      · rfl
      · exact hparent
    rw [hnone, ih hparent₂ hm₂]
    rfl

/-- The children of a root show only what is below them in its tree. -/
theorem tellChildren_tree (hparent : s.parent w = none) (htree : s.Tree w tree)
    (hchildren : ∀ child ∈ children, s.parent child = some w ∨ s.parent child = none)
    (h : tellChildren w s children = some m) :
    ∀ v ∈ m.2, v ∈ tree ∧ ∃ child ∈ children, s.Below v child := by
  induction children generalizing s m tree with
  | nil =>
    obtain rfl := Option.some.inj h
    exact fun v hv => absurd hv List.not_mem_nil
  | cons child children ih =>
    rw [List.forall_mem_cons] at hchildren
    obtain ⟨m₁, m₂, hm₁, hm₂, rfl⟩ := Moved.andThen_eq_some h
    rw [hparent] at hm₁
    rcases hchildren.1 with hchild | hchild
    · have hne : w ≠ child := by
        rintro rfl
        rw [hparent] at hchild
        cases hchild
      obtain ⟨hshown, htree₁, hparent₁, hcreated₁⟩ :=
        setParent_none_tree (parentRoot_of_some hchild hparent) hne htree hm₁
      have hless : ∀ v, m₁.1.parent v = s.parent v ∨ m₁.1.parent v = none := by
        intro v
        rw [hparent₁, Function.update_apply]
        split_ifs
        · exact .inr rfl
        · exact .inl rfl
      have hw : m₁.1.parent w = none := by
        rw [hparent₁, Function.update_of_ne hne, hparent]
      have hrest : ∀ c ∈ children, m₁.1.parent c = some w ∨ m₁.1.parent c = none := by
        intro c hc
        rcases hless c with heq | heq
        · rw [heq]
          exact hchildren.2 c hc
        · exact .inr heq
      intro v hv
      rcases List.mem_append.mp hv with hv | hv
      · rw [hshown, List.mem_filter] at hv
        exact ⟨hv.1, child, List.mem_cons_self, of_decide_eq_true hv.2⟩
      · obtain ⟨hmem, c, hc, hbelow⟩ := ih hw htree₁ hrest hm₂ v hv
        refine ⟨(List.mem_filter.mp hmem).1, c, List.mem_cons_of_mem _ hc, ?_⟩
        have hfuel : m₁.1.fuel = s.fuel := by rw [fuel, fuel, hcreated₁]
        rw [Below, isDescendantOf, hfuel] at hbelow
        exact descendsFrom_mono hless hbelow
    · -- the child has been told before
      have hroot := parentRoot_of_none hchild
      obtain rfl : m₁ = (s, []) := by
        obtain ⟨shroot, hshroot, hm₁⟩ := Option.bind_eq_some_iff.mp hm₁
        obtain rfl : child = shroot := Option.some.inj (hroot.symm.trans hshroot)
        dsimp only at hm₁
        rw [if_pos ⟨rfl, rfl⟩] at hm₁
        exact (Option.some.inj hm₁).symm
      intro v hv
      obtain ⟨hmem, c, hc, hbelow⟩ := ih hparent htree hchildren.2 hm₂ v hv
      exact ⟨hmem, c, List.mem_cons_of_mem _ hc, hbelow⟩

end Children

end Shell

end Kiosk
end ACGlass
