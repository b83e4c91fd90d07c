import ACGlass.Kiosk.Moves

/-!
# Windows that are minimised

The Android side knows of a window what the last event said. The shell moves views between
its layers also where it sends none.
-/

namespace ACGlass
namespace Kiosk

open Transition
open Android (EventType)

namespace Shell

variable (s : Shell)

/-- The last event that the shell has sent for a window. -/
def latest (w : ℕ) : Option EventType :=
  (s.events.filter fun e => e.2 = w).getLast?.map Prod.fst

def Minimised (w : ℕ) : Prop := s.latest w = some .minimized

instance (w : ℕ) : Decidable (s.Minimised w) := inferInstanceAs (Decidable (_ = _))

/-- A live window whose last event is `MINIMIZED` has its view outside the normal layer. -/
def Hidden : Prop := ∀ w ∈ s.live, s.Minimised w → w ∉ s.normalLayer

/-- Minimised windows are hidden, and stop being minimised with a `RESTORED` event. -/
structure Agrees (s : Shell) (_ : Request) (t : Shell) : Prop where
  hidden : t.Hidden
  leaves : ∀ w ∈ s.live, w ∈ t.live → s.Minimised w → ¬ t.Minimised w →
    t.events = s.events ++ [(.restored, w)]

/-- The window is linked in the tree that is hidden for it. -/
def Linked (w : ℕ) : Prop :=
  ∀ root ∈ s.parentRoot w, s.activeSurfaceTree = some root →
    ∀ tree ∈ s.surfaceTree root, w ∈ tree ∨ w ∉ s.normalLayer

/-- The tree is a ring, and no window of it that would be shown is minimised. -/
def Clear (root : ℕ) (shows : ℕ → Prop) : Prop :=
  ∃ tree ∈ s.surfaceTree root, s.Tree root tree ∧ ∀ v ∈ tree, shows v → ¬ s.Minimised v

/-- Nothing below the window is minimised in the active tree, in which a seat raises it. -/
def ClearBelow (w : ℕ) : Prop :=
  s.seat = true → ∀ active ∈ s.activeSurfaceTree, s.Clear active (s.Below · w)

/-- Nothing is minimised in the hidden tree of the window, or below it in the active one. -/
def ClearAround (w : ℕ) : Prop :=
  (w ∈ s.inactiveLayer → ∀ root ∈ s.parentRoot w, s.Clear root fun _ => True) ∧
    (w ∉ s.inactiveLayer → s.ClearBelow w)

/-- The shell when the children of a window know that it is going to be destroyed. -/
def told (w : ℕ) : Option Shell :=
  (tellChildren w (s.emit .closed w) (s.children w)).map Prod.fst

/-- The trees that the request is about to show have no minimised window, but for one that it
restores; and a window that is minimised is linked in its tree. -/
def Discreet : Request → Prop
  | .added | .unmapped _ | .setParent _ (some _) => True
  | .committed w => s.mapped w = false →
      (s.parent w = none → s.Clear w fun _ => True) ∧ (s.parent w ≠ none → s.ClearBelow w)
  | .minimizedRequested w => s.Linked w
  | .restore windowId => ∀ w ∈ s.findWindow windowId, ∀ root ∈ s.parentRoot w, s.Clear root (· ≠ w)
  | .setParent w none => ∀ root ∈ s.parentRoot w, root ≠ w → s.Clear root (s.Below · w)
  | .activate w => s.ClearBelow w
  | .removed w elsewhere onOutput =>
    (s.parent w = none → s.children w ≠ [] →
      s.Clear w fun v => ∃ child ∈ s.children w, s.Below v child) ∧
    ∀ t ∈ s.told w, t.hasFocus w elsewhere → ∀ found ∈ t.findFocusSuccessor w onOutput,
      ∀ successor ∈ found, t.ClearAround successor

instance (w : ℕ) : Decidable (s.Linked w) :=
  inferInstanceAs (Decidable (∀ root ∈ s.parentRoot w, s.activeSurfaceTree = some root →
    ∀ tree ∈ s.surfaceTree root, w ∈ tree ∨ w ∉ s.normalLayer))

instance (root : ℕ) (tree : List ℕ) : Decidable (s.Tree root tree) :=
  inferInstanceAs (Decidable (WlList.Ring _ _ _))

instance (root : ℕ) (shows : ℕ → Prop) [DecidablePred shows] : Decidable (s.Clear root shows) :=
  inferInstanceAs (Decidable (∃ tree ∈ s.surfaceTree root, s.Tree root tree ∧
    ∀ v ∈ tree, shows v → ¬ s.Minimised v))

instance (w : ℕ) : Decidable (s.ClearBelow w) :=
  inferInstanceAs (Decidable (s.seat = true →
    ∀ active ∈ s.activeSurfaceTree, s.Clear active (s.Below · w)))

instance (w : ℕ) : Decidable (s.ClearAround w) :=
  inferInstanceAs (Decidable (
    (w ∈ s.inactiveLayer → ∀ root ∈ s.parentRoot w, s.Clear root fun _ => True) ∧
      (w ∉ s.inactiveLayer → s.ClearBelow w)))

instance : ∀ r, Decidable (s.Discreet r)
  | .added | .unmapped _ | .setParent _ (some _) => isTrue trivial
  | .committed w => inferInstanceAs (Decidable (s.mapped w = false →
      (s.parent w = none → s.Clear w fun _ => True) ∧ (s.parent w ≠ none → s.ClearBelow w)))
  | .minimizedRequested w => inferInstanceAs (Decidable (s.Linked w))
  | .restore windowId => inferInstanceAs (Decidable (∀ w ∈ s.findWindow windowId,
      ∀ root ∈ s.parentRoot w, s.Clear root (· ≠ w)))
  | .setParent w none => inferInstanceAs (Decidable (∀ root ∈ s.parentRoot w, root ≠ w →
      s.Clear root (s.Below · w)))
  | .activate w => inferInstanceAs (Decidable (s.ClearBelow w))
  | .removed w elsewhere onOutput => inferInstanceAs (Decidable (
      (s.parent w = none → s.children w ≠ [] →
        s.Clear w fun v => ∃ child ∈ s.children w, s.Below v child) ∧
      ∀ t ∈ s.told w, t.hasFocus w elsewhere → ∀ found ∈ t.findFocusSuccessor w onOutput,
        ∀ successor ∈ found, t.ClearAround successor))

/-- A call that sends no event: only what it reports is new in the normal layer. -/
structure Shows (s : Shell) (m : Moved) : Prop where
  live : m.1.live = s.live
  created : m.1.created = s.created
  family : s.Family → m.1.Family
  events : m.1.events = s.events
  normalLayer : ∀ w ∈ m.1.normalLayer, w ∈ s.normalLayer ∨ w ∈ m.2

variable {s} {m : Moved}

theorem Moves.shows (h : Moves s m) : Shows s m := by
  induction h with
  | refl => exact ⟨rfl, rfl, id, rfl, fun _ hv => .inl hv⟩
  | leave _ w ih | inactive _ w ih =>
    refine ⟨ih.live, ih.created, ih.family, ih.events, fun v hv => ?_⟩
    exact ih.normalLayer v (List.mem_filter.mp hv).1
  | normal _ w ih =>
    refine ⟨ih.live, ih.created, ih.family, ih.events, fun v hv => ?_⟩
    rcases List.mem_cons.mp hv with rfl | hv
    · exact .inr (List.mem_append_right _ (List.mem_singleton_self v))
    · exact (ih.normalLayer v (List.mem_filter.mp hv).1).imp_right (List.mem_append_left [w])
  | active _ root ih => exact ⟨ih.live, ih.created, ih.family, ih.events, ih.normalLayer⟩
  | focus _ w ih => exact ⟨ih.live, ih.created, ih.family, ih.events, ih.normalLayer⟩
  | map _ mapped ih => exact ⟨ih.live, ih.created, ih.family, ih.events, ih.normalLayer⟩
  | listen _ w parent ih =>
    exact ⟨ih.live, ih.created, fun hs => listen_family (ih.family hs) w parent, ih.events,
      ih.normalLayer⟩
  | link _ hlinks ih => exact ⟨ih.live, ih.created, ih.family, ih.events, ih.normalLayer⟩

section Layers

theorem not_mem_leaveLayers (s : Shell) (w : ℕ) : w ∉ (s.leaveLayers w).normalLayer := by
  simp [leaveLayers]

theorem not_mem_foldl_moveToInactive {ws : List ℕ} {w : ℕ} (hw : w ∈ ws) (s : Shell) :
    w ∉ (ws.foldl moveToInactive s).normalLayer := by
  induction ws generalizing s with
  | nil => cases hw
  | cons v ws ih =>
    rcases List.mem_cons.mp hw with rfl | hw
    · intro hin
      have hmoves := foldl_moveToInactive_moves (s.moveToInactive w) ws
      rcases hmoves.shows.normalLayer w hin with hin | hin
      · exact not_mem_leaveLayers s w hin
      · cases hin
    · exact ih hw (s.moveToInactive v)

end Layers

/-- The windows of the tree that is no longer active are not in the normal layer. -/
theorem setActiveSurfaceTree_none {active : ℕ} {tree : List ℕ} {w : ℕ}
    (hactive : s.activeSurfaceTree = some active) (htree : s.surfaceTree active = some tree)
    (hw : w ∈ tree ∨ w ∉ s.normalLayer) (h : s.setActiveSurfaceTree none = some m) :
    w ∉ m.1.normalLayer := by
  simp only [setActiveSurfaceTree, activeWindows, hactive, htree] at h
  obtain rfl := Option.some.inj h
  rcases hw with hw | hw
  · exact not_mem_foldl_moveToInactive hw s
  · intro hin
    rcases (foldl_moveToInactive_moves s tree).shows.normalLayer w hin with hin | hin
    · exact hw hin
    · cases hin

theorem latest_emit (s : Shell) (type : EventType) (w v : ℕ) :
    (s.emit type w).latest v = if w = v then some type else s.latest v := by
  unfold latest emit
  by_cases h : w = v
  · simp [List.filter_append, h]
  · simp [List.filter_append, h]

theorem minimised_congr {t : Shell} (h : t.events = s.events) (w : ℕ) :
    t.Minimised w ↔ s.Minimised w := by
  rw [Minimised, Minimised, latest, latest, h]

/-- Minimised windows are hidden, a window that is added is a new one, and children have their
parents. -/
structure Inv (s : Shell) : Prop where
  hidden : s.Hidden
  numbered : ∀ w ∈ s.live, w < s.created
  family : s.Family

theorem inv_initial (seat : Bool) : (initial seat).Inv where
  hidden := by simp [Hidden, initial]
  numbered := by simp [initial]
  family := fun p => ⟨List.nodup_nil, fun _ hchild => nomatch hchild⟩

section Shown

theorem setActiveSurfaceTree_none_shown (h : s.setActiveSurfaceTree none = some m) : m.2 = [] := by
  obtain ⟨old, -, h⟩ := Option.bind_eq_some_iff.mp h
  rw [← Option.some.inj h]

theorem ClearBelow.shown {w : ℕ} (hclear : s.ClearBelow w) (h : s.activate w = some m) :
    ∀ v ∈ m.2, ¬ s.Minimised v := by
  intro v hv
  cases hactive : s.activeSurfaceTree with
  | none =>
    unfold activate raiseSurfaceSubtree at h
    simp only [hactive] at h
    split_ifs at h <;> obtain rfl := Option.some.inj h <;> cases hv
  | some active =>
    by_cases hseat : s.seat = true
    · obtain ⟨tree, -, htree, hmin⟩ := hclear hseat active hactive
      obtain ⟨hmem, hbelow⟩ := List.mem_filter.mp (activate_tree hactive htree h hv)
      exact hmin v hmem (of_decide_eq_true hbelow)
    · rw [activate, if_neg hseat] at h
      obtain rfl := Option.some.inj h
      cases hv

/-- A tree that becomes the active one, and a window that is raised in it. -/
theorem showTree_shown {root w : ℕ} {tree : List ℕ} {n : Moved} (htree : s.Tree root tree)
    (hset : s.setActiveSurfaceTree (some root) = some m) (hactivate : m.1.activate w = some n) :
    ∀ v ∈ m.2 ++ n.2, v ∈ tree := by
  obtain ⟨hshown, normalLayer, inactiveLayer, heq⟩ := setActiveSurfaceTree_some hset
  have hactive : m.1.activeSurfaceTree = some root := by rw [heq]
  have htree' : m.1.Tree root tree := by
    rw [heq]
    exact htree
  intro v hv
  rcases List.mem_append.mp hv with hv | hv
  · rwa [surfaceTree_eq htree hshown] at hv
  · exact (List.mem_filter.mp (activate_tree hactive htree' hactivate hv)).1

theorem surfaceCommitted_shown {w : ℕ} (hd : s.Discreet (.committed w))
    (hm : s.surfaceCommitted w = some m) : ∀ v ∈ m.2, ¬ s.Minimised v := by
  unfold surfaceCommitted at hm
  split_ifs at hm with hmapped
  · obtain rfl := Option.some.inj hm
    exact fun v hv => absurd hv List.not_mem_nil
  · obtain ⟨hroot, hchild⟩ := hd (by simpa using hmapped)
    dsimp only at hm
    obtain ⟨m₁, m₂, hm₁, hm₂, rfl⟩ := Moved.andThen_eq_some hm
    split_ifs at hm₁ with hparent
    · obtain ⟨tree, -, htree, hmin⟩ := hroot hparent
      have htree' : Shell.Tree { s with mapped := Function.update s.mapped w true } w tree := htree
      exact fun v hv => hmin v (showTree_shown htree' hm₁ hm₂ v hv) trivial
    · obtain rfl := Option.some.inj hm₁
      have hclear : Shell.ClearBelow
        { s with mapped := Function.update s.mapped w true } w := hchild hparent
      exact hclear.shown hm₂

theorem hide_shown {w : ℕ} (h : s.hide w = some m) : m.2 = [] := by
  obtain ⟨shroot, -, h⟩ := Option.bind_eq_some_iff.mp h
  split_ifs at h
  · exact setActiveSurfaceTree_none_shown h
  · rw [← Option.some.inj h]

theorem restoreWindow_shown {root w : ℕ} {tree : List ℕ} (hroot : s.parentRoot w = some root)
    (htree : s.Tree root tree) (h : s.restoreWindow w = some m) : ∀ v ∈ m.2, v ∈ tree := by
  obtain ⟨shroot, m₁, m₂, m₃, hshroot, hm₁, hm₂, hm₃, rfl⟩ := restoreWindow_cases h
  obtain rfl : root = shroot := Option.some.inj (hroot.symm.trans hshroot)
  obtain ⟨hshown, normalLayer, inactiveLayer, heq⟩ := setActiveSurfaceTree_some hm₁
  have hactive : m₁.1.activeSurfaceTree = some root := by rw [heq]
  have htree₁ : m₁.1.Tree root tree := by
    rw [heq]
    exact htree
  obtain ⟨hraised, htree₂, ⟨links, heq₂⟩, -⟩ := raiseSurfaceSubtree_tree hactive htree₁ hm₂
  have hactive₂ : m₂.1.activeSurfaceTree = some root := by
    obtain ⟨_, _, hfold⟩ := foldl_moveToNormal_eq m₁.1 (tree.filter (m₁.1.Below · w))
    rw [heq₂, hfold]
    exact hactive
  intro v hv
  rcases List.mem_append.mp hv with hv | hv
  · rcases List.mem_append.mp hv with hv | hv
    · rwa [surfaceTree_eq htree hshown] at hv
    · rw [hraised] at hv
      exact (List.mem_filter.mp hv).1
  · have hmem := (List.mem_filter.mp (activate_tree hactive₂ htree₂ hm₃ hv)).1
    exact raised_subset m₁.1 tree w hmem

theorem restore_shown {windowId : UInt32} (hd : s.Discreet (.restore windowId))
    (hm : s.restore windowId = some m) :
    ∀ v ∈ m.2, s.Minimised v → s.findWindow windowId = some v := by
  unfold restore at hm
  split at hm
  · obtain rfl := Option.some.inj hm
    exact fun v hv => absurd hv List.not_mem_nil
  · rename_i w hfind
    have hroot := hm
    obtain ⟨root, hroot, -⟩ := Option.bind_eq_some_iff.mp hroot
    obtain ⟨tree, -, htree, hmin⟩ := hd w hfind root hroot
    intro v hv hvmin
    have hvw : v = w := by
      by_contra hne
      exact hmin v (restoreWindow_shown hroot htree hm v hv) hne hvmin
    rw [hfind, hvw]

theorem setParent_shown {w : ℕ} {parent : Option ℕ} (hd : s.Discreet (.setParent w parent))
    (hm : s.setParent w parent = some m) : ∀ v ∈ m.2, ¬ s.Minimised v := by
  cases parent with
  | some p =>
    rw [(setParent_some hm).1]
    exact fun v hv => absurd hv List.not_mem_nil
  | none =>
    have hroot := hm
    obtain ⟨root, hroot, hrest⟩ := Option.bind_eq_some_iff.mp hroot
    rw [Option.getD_none] at hroot
    by_cases hne : root = w
    · dsimp only at hrest
      rw [if_pos ⟨rfl, hne.symm⟩] at hrest
      rw [← Option.some.inj hrest]
      exact fun v hv => absurd hv List.not_mem_nil
    · obtain ⟨tree, -, htree, hmin⟩ := hd root hroot hne
      rw [(setParent_none_tree hroot hne htree hm).1]
      intro v hv
      obtain ⟨hmem, hbelow⟩ := List.mem_filter.mp hv
      exact hmin v hmem (of_decide_eq_true hbelow)

theorem tellChildren_shown {w : ℕ} (hfamily : s.Family)
    (hclear : s.parent w = none → s.children w ≠ [] →
      s.Clear w fun v => ∃ child ∈ s.children w, s.Below v child)
    (hm : tellChildren w (s.emit .closed w) (s.children w) = some m) :
    ∀ v ∈ m.2, ¬ s.Minimised v := by
  by_cases hnil : s.children w = []
  · rw [hnil] at hm
    obtain rfl := Option.some.inj hm
    exact fun v hv => absurd hv List.not_mem_nil
  cases hparent : s.parent w with
  | some p =>
    have hparent' : (s.emit .closed w).parent w = some p := hparent
    rw [tellChildren_some hparent' hm]
    exact fun v hv => absurd hv List.not_mem_nil
  | none =>
    obtain ⟨tree, -, htree, hmin⟩ := hclear hparent hnil
    have hparent' : (s.emit .closed w).parent w = none := hparent
    have htree' : (s.emit .closed w).Tree w tree := htree
    intro v hv
    obtain ⟨hmem, child, hchild, hbelow⟩ := tellChildren_tree hparent' htree'
      (fun child hchild => .inl ((hfamily w).2 child hchild)) hm v hv
    exact hmin v hmem ⟨child, hchild, hbelow⟩

theorem passFocus_shown {w : ℕ} {onOutput : List ℕ}
    (hclear : ∀ found ∈ s.findFocusSuccessor w onOutput, ∀ successor ∈ found,
      s.ClearAround successor)
    (hm : s.passFocus w onOutput = some m) : ∀ v ∈ m.2, ¬ s.Minimised v := by
  obtain ⟨found, hfound, hm⟩ := Option.bind_eq_some_iff.mp hm
  cases found with
  | none =>
    rw [setActiveSurfaceTree_none_shown hm]
    exact fun v hv => absurd hv List.not_mem_nil
  | some successor =>
    obtain ⟨hhidden, hnormal⟩ := hclear _ hfound successor rfl
    obtain ⟨m₁, m₂, hm₁, hm₂, rfl⟩ := Moved.andThen_eq_some hm
    unfold showSuccessor at hm₁
    split_ifs at hm₁ with hin
    · obtain ⟨root, hroot, hm₁⟩ := Option.bind_eq_some_iff.mp hm₁
      obtain ⟨tree, -, htree, hmin⟩ := hhidden hin root hroot
      exact fun v hv => hmin v (showTree_shown htree hm₁ hm₂ v hv) trivial
    · obtain rfl := Option.some.inj hm₁
      exact (hnormal hin).shown hm₂

theorem surfaceRemoved_shown {w : ℕ} {elsewhere : Bool} {onOutput : List ℕ}
    (hfamily : s.Family)
    (hchildren : s.parent w = none → s.children w ≠ [] →
      s.Clear w fun v => ∃ child ∈ s.children w, s.Below v child)
    (hfocus : ∀ t ∈ s.told w, t.hasFocus w elsewhere → ∀ found ∈ t.findFocusSuccessor w onOutput,
      ∀ successor ∈ found, t.ClearAround successor)
    (hm : Moved.andThen (tellChildren w (s.emit .closed w) (s.children w))
      (fun t => if t.hasFocus w elsewhere then t.passFocus w onOutput else some (t, [])) = some m) :
    ∀ v ∈ m.2, v ≠ w → ¬ s.Minimised v := by
  obtain ⟨m₁, m₂, hm₁, hm₂, rfl⟩ := Moved.andThen_eq_some hm
  have htold : s.told w = some m₁.1 := by rw [told, hm₁, Option.map_some]
  intro v hv hvw hvmin
  rcases List.mem_append.mp hv with hv | hv
  · exact tellChildren_shown hfamily hchildren hm₁ v hv hvmin
  · split_ifs at hm₂ with hhas
    · refine passFocus_shown (hfocus _ htold hhas) hm₂ v hv ?_
      rw [minimised_congr (tellChildren_moves _ _ hm₁).shows.events, Minimised, latest_emit,
        if_neg hvw.symm]
      exact hvmin
    · obtain rfl := Option.some.inj hm₂
      cases hv

end Shown

/-- A request without an event that shows no minimised window. -/
theorem Shows.agrees (h : s.Inv) (hm : Shows s m) (hclean : ∀ w ∈ m.2, ¬ s.Minimised w)
    (r : Request) : m.1.Inv ∧ Agrees s r m.1 := by
  have hhidden : m.1.Hidden := by
    intro w hw hmin hnormal
    rw [minimised_congr hm.events] at hmin
    rw [hm.live] at hw
    rcases hm.normalLayer w hnormal with hin | hin
    · exact h.hidden w hw hmin hin
    · exact hclean w hin hmin
  refine ⟨⟨hhidden, ?_, hm.family h.family⟩, hhidden, ?_⟩
  · rw [hm.live, hm.created]
    exact h.numbered
  · intro w _ _ hmin hno
    exact absurd ((minimised_congr hm.events w).mpr hmin) hno

/-- A request with one event: the window of the event may be shown, unless it is minimised. -/
theorem Shows.emit (h : s.Inv) (hm : Shows s m) {type : EventType} {w : ℕ}
    (hclean : ∀ v ∈ m.2, v ≠ w → ¬ s.Minimised v)
    (hw : type = .minimized → w ∉ m.1.normalLayer) : (m.1.emit type w).Inv where
  hidden := by
    intro v hv hmin hnormal
    rw [Minimised, latest_emit] at hmin
    split at hmin
    · rename_i hvw
      subst hvw
      exact hw (Option.some.inj hmin) hnormal
    · rename_i hvw
      have hmin : s.Minimised v := (minimised_congr hm.events v).mp hmin
      have hv : v ∈ m.1.live := hv
      rw [hm.live] at hv
      rcases hm.normalLayer v hnormal with hin | hin
      · exact h.hidden v hv hmin hin
      · exact hclean v hin (Ne.symm hvw) hmin
  numbered := by
    intro v hv
    have hv : v ∈ m.1.live := hv
    rw [hm.live] at hv
    exact (h.numbered v hv).trans_eq hm.created.symm
  family := hm.family h.family

theorem surfaceAdded_agrees (h : s.Inv) (hm : s.surfaceAdded = some m) :
    m.1.Inv ∧ Agrees s .added m.1 := by
  obtain ⟨t, ht, rfl⟩ := Option.map_eq_some_iff.mp hm
  obtain ⟨links, -, ht⟩ := Option.bind_eq_some_iff.mp ht
  obtain rfl := Option.some.inj ht
  have hhidden : ∀ v ∈ s.live ++ [s.created], (s.emit .opened s.created).Minimised v →
      v ∉ s.normalLayer := by
    intro v hv hmin
    rw [Minimised, latest_emit] at hmin
    split at hmin
    · cases hmin
    · rename_i hne
      have hv : v ∈ s.live := by
        rcases List.mem_append.mp hv with hv | hv
        · exact hv
        · exact absurd (List.mem_singleton.mp hv).symm hne
      exact h.hidden v hv hmin
  refine ⟨⟨hhidden, ?_, h.family⟩, hhidden, ?_⟩
  · intro v hv
    rcases List.mem_append.mp hv with hv | hv
    · exact (h.numbered v hv).trans (Nat.lt_succ_self _)
    · rw [List.mem_singleton.mp hv]
      exact Nat.lt_succ_self _
  · intro v hv _ hmin hno
    have hne : s.created ≠ v := (h.numbered v hv).ne'
    refine absurd ?_ hno
    change (s.emit .opened s.created).Minimised v
    rw [Minimised, latest_emit, if_neg hne]
    exact hmin

/-- A window that asks for it is hidden. -/
theorem not_mem_hide {w : ℕ} (hlinked : s.Linked w) (hm : s.hide w = some m) :
    w ∉ m.1.normalLayer := by
  obtain ⟨shroot, hroot, hm⟩ := Option.bind_eq_some_iff.mp hm
  split at hm
  · rename_i hactive
    obtain ⟨tree, htree, -⟩ := Option.bind_eq_some_iff.mp hm
    have htree : s.surfaceTree shroot = some tree := by
      simpa [activeWindows, hactive] using htree
    exact setActiveSurfaceTree_none hactive htree (hlinked shroot hroot hactive tree htree) hm
  · obtain rfl := Option.some.inj hm
    exact not_mem_leaveLayers s w

theorem surfaceMinimizedRequested_agrees {w : ℕ} (h : s.Inv)
    (hd : s.Discreet (.minimizedRequested w)) (hm : s.surfaceMinimizedRequested w = some m) :
    m.1.Inv ∧ Agrees s (.minimizedRequested w) m.1 := by
  obtain ⟨n, hn, rfl⟩ := Option.map_eq_some_iff.mp hm
  have hshows := (hide_moves hn).shows
  have hout : w ∉ n.1.normalLayer := not_mem_hide hd hn
  have hnone : n.2 = [] := hide_shown hn
  have hinv : (n.1.emit .minimized w).Inv :=
    hshows.emit h (by simp [hnone]) fun _ => hout
  refine ⟨hinv, hinv.hidden, fun v hv _ hmin hno => ?_⟩
  refine absurd ?_ hno
  rw [Minimised, latest_emit]
  split
  · rfl
  · exact (minimised_congr hshows.events v).mpr hmin

theorem restore_agrees {windowId : UInt32} (h : s.Inv) (hd : s.Discreet (.restore windowId))
    (hm : s.restore windowId = some m) : m.1.Inv ∧ Agrees s (.restore windowId) m.1 := by
  have hclean := restore_shown hd hm
  unfold restore at hm
  split at hm
  · obtain rfl := Option.some.inj hm
    exact (Moves.refl (s := s)).shows.agrees h (by simp) _
  rename_i w hfind
  obtain ⟨n, hmoves, rfl⟩ := restoreWindow_moves hm
  have hshows := hmoves.shows
  have hinv : (n.1.emit .restored w).Inv := by
    refine hshows.emit h (fun v hv hne hmin => ?_) (by simp)
    exact hne (Option.some.inj (hfind.symm.trans (hclean v hv hmin))).symm
  refine ⟨hinv, hinv.hidden, fun v hv _ hmin hno => ?_⟩
  have hvw : w = v := by
    by_contra hne
    refine hno ?_
    rw [Minimised, latest_emit, if_neg hne]
    exact (minimised_congr hshows.events v).mpr hmin
  rw [← hvw]
  exact congrArg (· ++ _) hshows.events

theorem surfaceRemoved_agrees {w : ℕ} {elsewhere : Bool} {onOutput : List ℕ} (h : s.Inv)
    (hd : s.Discreet (.removed w elsewhere onOutput))
    (hm : s.surfaceRemoved w elsewhere onOutput = some m) :
    m.1.Inv ∧ Agrees s (.removed w elsewhere onOutput) m.1 := by
  obtain ⟨hchildren, hfocus⟩ := hd
  obtain ⟨n, hn, hm⟩ := Option.bind_eq_some_iff.mp hm
  obtain ⟨t, ht, hm⟩ := Option.bind_eq_some_iff.mp hm
  obtain rfl := Option.some.inj hm
  obtain ⟨links, -, ht⟩ := Option.bind_eq_some_iff.mp ht
  obtain rfl := Option.some.inj ht
  have hshows := (surfaceRemoved_moves hn).shows
  have hmin : ∀ v, v ≠ w → (n.1.Minimised v ↔ s.Minimised v) := by
    intro v hvw
    rw [minimised_congr hshows.events, Minimised, latest_emit, if_neg hvw.symm, Minimised]
  have hclean := surfaceRemoved_shown h.family hchildren hfocus hn
  have hlive : ∀ v ∈ n.1.live.filter (· ≠ w), v ∈ s.live ∧ v ≠ w := by
    intro v hv
    rw [hshows.live] at hv
    obtain ⟨hv, hvw⟩ := List.mem_filter.mp hv
    exact ⟨hv, by simpa using hvw⟩
  have hhidden : ∀ v ∈ n.1.live.filter (· ≠ w), n.1.Minimised v →
      v ∉ (n.1.leaveLayers w).normalLayer := by
    intro v hv hvmin hnormal
    obtain ⟨hv, hvw⟩ := hlive v hv
    have hvmin := (hmin v hvw).mp hvmin
    rcases hshows.normalLayer v (List.mem_filter.mp hnormal).1 with hin | hin
    · exact h.hidden v hv hvmin hin
    · exact hclean v hin hvw hvmin
  refine ⟨⟨hhidden, fun v hv => ?_, ?_⟩, hhidden, fun v _ hv hvmin hno => ?_⟩
  · exact (h.numbered v (hlive v hv).1).trans_eq hshows.created.symm
  · exact listen_family (hshows.family h.family) w none
  · exact absurd ((hmin v (hlive v hv).2).mpr hvmin) hno

/-- Every step of a discreet run keeps the shell and the events in agreement. -/
theorem Inv.step {r : Request} {t : Shell} (h : s.Inv) (hs : s.step r = some t)
    (hd : s.Discreet r) : t.Inv ∧ Agrees s r t := by
  unfold Shell.step at hs
  split at hs
  · obtain ⟨m, hm, rfl⟩ := Option.map_eq_some_iff.mp hs
    cases r with
    | added => exact surfaceAdded_agrees h hm
    | committed w =>
      exact (surfaceCommitted_moves hm).shows.agrees h (surfaceCommitted_shown hd hm) _
    | unmapped w =>
      obtain rfl := Option.some.inj hm
      exact (surfaceUnmapped_moves s w).shows.agrees h (by simp) _
    | minimizedRequested w => exact surfaceMinimizedRequested_agrees h hd hm
    | restore windowId => exact restore_agrees h hd hm
    | setParent w parent =>
      exact (setParent_moves s m hm).shows.agrees h (setParent_shown hd hm) _
    | activate w =>
      exact (activate_moves s m hm).shows.agrees h (ClearBelow.shown hd hm) _
    | removed w elsewhere onOutput => exact surfaceRemoved_agrees h hd hm
  · cases hs

/-- In a discreet run a minimised window stays hidden until it is restored. -/
theorem agrees_of_discreet {seat : Bool} {rs : List Request}
    (h : Along step (fun s r _ => s.Discreet r) (initial seat) rs) :
    Along step Agrees (initial seat) rs :=
  along_of_guard (I := Inv) (G := fun s r _ => s.Discreet r) (P := Agrees)
    (fun _ _ _ hs ht hg => hs.step ht hg) (inv_initial seat) h

/-- A window is minimised, and another one is opened. -/
def oneMinimised : List Request :=
  [.added, .committed 0, .minimizedRequested 0, .added, .committed 1]

theorem agrees_restored : Along step Agrees (initial true) (oneMinimised ++ [.restore 1]) :=
  agrees_of_discreet (by decide +kernel)

/-- The other window is closed: the shell shows the minimised one as its successor. -/
theorem not_agrees_successor :
    ¬ Along step Agrees (initial true) (oneMinimised ++ [.removed 1 false [0]]) := by
  intro h
  have hlast := Along.at oneMinimised h rfl rfl
  exact absurd (by decide +kernel) (hlast.hidden 0 (by decide +kernel) (by decide +kernel))

end Shell

end Kiosk
end ACGlass
