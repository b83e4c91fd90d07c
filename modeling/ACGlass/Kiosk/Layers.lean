import ACGlass.Kiosk.RoundTrip

/-!
# What is left of a destroyed window

Whatever clients, the seat and the Android side ask for, every view is in one layer at most and
once, and neither a layer nor the focus nor a node of a tree belongs to a window that has been
destroyed.
-/

namespace ACGlass
namespace WlList

variable {α : Type} [DecidableEq α] {l l' : Links α}

/-- A walk visits nodes that have their pointers. -/
theorem backFrom_defined {head pos : α} {fuel : ℕ} {ns : List α}
    (h : backFrom l head fuel pos = some ns) : ∀ n ∈ ns, l n ≠ none := by
  induction fuel generalizing pos ns with
  | zero => cases h
  | succ fuel ih =>
    rw [backFrom] at h
    split_ifs at h
    · obtain rfl := Option.some.inj h
      simp
    · obtain ⟨⟨prev, next⟩, hpos, h⟩ := Option.bind_eq_some_iff.mp h
      obtain ⟨rest, hrest, h⟩ := Option.bind_eq_some_iff.mp h
      obtain rfl := Option.some.inj h
      intro n hn
      rcases List.mem_cons.mp hn with rfl | hn
      · simp [hpos]
      · exact ih hrest n hn

theorem backward_defined {head : α} {fuel : ℕ} {ns : List α}
    (h : backward l fuel head = some ns) : ∀ n ∈ ns, l n ≠ none := by
  obtain ⟨⟨prev, next⟩, -, h⟩ := Option.bind_eq_some_iff.mp h
  exact backFrom_defined h

theorem moveFrom_defined {select : α → Option Bool} {dst head pos : α} {fuel : ℕ}
    {moved : List α} (h : moveFrom select dst head fuel l pos = some (l', moved)) :
    ∀ n ∈ moved, l n ≠ none := by
  induction fuel generalizing l l' pos moved with
  | zero => cases h
  | succ fuel ih =>
    rw [moveFrom] at h
    split_ifs at h
    · obtain ⟨-, rfl⟩ := Prod.mk.inj (Option.some.inj h)
      simp
    obtain ⟨⟨tmp, n⟩, hpos, h⟩ := Option.bind_eq_some_iff.mp h
    obtain ⟨selected, -, h⟩ := Option.bind_eq_some_iff.mp h
    cases selected with
    | true =>
      obtain ⟨l₁, hl₁, h⟩ := Option.bind_eq_some_iff.mp h
      obtain ⟨⟨l₂, moved₂⟩, hl₂, h⟩ := Option.bind_eq_some_iff.mp h
      obtain ⟨-, rfl⟩ := Prod.mk.inj (Option.some.inj h)
      intro n hn
      rcases List.mem_cons.mp hn with rfl | hn
      · simp [hpos]
      · exact moveToTop_within hl₁ n (ih hl₂ n hn)
    | false => exact ih h

theorem moveAll_defined {select : α → Option Bool} {dst head : α} {fuel : ℕ} {moved : List α}
    (h : moveAll select fuel l dst head = some (l', moved)) : ∀ n ∈ moved, l n ≠ none := by
  obtain ⟨⟨pos, n⟩, -, h⟩ := Option.bind_eq_some_iff.mp h
  exact moveFrom_defined h

end WlList

namespace Kiosk

open Transition WlList

namespace Shell

/-- Every view is in one layer at most and once, and all that the shell holds on to is alive. -/
structure Placed (s : Shell) : Prop where
  nodup : (s.normalLayer ++ s.inactiveLayer).Nodup
  layers : ∀ v ∈ s.normalLayer ++ s.inactiveLayer, v ∈ s.live
  nodes : ∀ v, s.links (.treeLink v) ≠ none → v ∈ s.live
  focus : ∀ v ∈ s.focusedSurface, v ∈ s.live
  seat : s.focusedSurface ≠ none → s.seat = true

/-- A call that creates and destroys no window, and leaves the focus as it is. -/
structure Rearranges (s t : Shell) : Prop where
  live : t.live = s.live
  seat : t.seat = s.seat
  focus : t.focusedSurface = s.focusedSurface
  placed : s.Placed → t.Placed

variable {s t : Shell} {m : Moved} {w : ℕ}

theorem Rearranges.refl (s : Shell) : Rearranges s s := ⟨rfl, rfl, rfl, id⟩

theorem Rearranges.trans {u : Shell} (h : Rearranges s t) (h' : Rearranges t u) :
    Rearranges s u :=
  ⟨h'.live.trans h.live, h'.seat.trans h.seat, h'.focus.trans h.focus,
    fun hs => h'.placed (h.placed hs)⟩

/-- What the layers and the focus do not read. -/
theorem Rearranges.of_eq (hlive : t.live = s.live) (hseat : t.seat = s.seat)
    (hfocus : t.focusedSurface = s.focusedSurface) (hnormal : t.normalLayer = s.normalLayer)
    (hinactive : t.inactiveLayer = s.inactiveLayer) (hlinks : s.NoNewLinks t.links) :
    Rearranges s t := by
  refine ⟨hlive, hseat, hfocus, fun hs => ?_⟩
  refine ⟨?_, ?_, ?_, ?_, ?_⟩
  · rw [hnormal, hinactive]
    exact hs.nodup
  · rw [hnormal, hinactive, hlive]
    exact hs.layers
  · intro v hv
    rw [hlive]
    exact hs.nodes v (hlinks v hv)
  · rw [hfocus, hlive]
    exact hs.focus
  · rw [hfocus, hseat]
    exact hs.seat

section Layers

theorem Placed.leaveLayers (h : s.Placed) (w : ℕ) : (s.leaveLayers w).Placed where
  nodup := by
    have hfilter := h.nodup.filter (· ≠ w)
    rwa [List.filter_append] at hfilter
  layers := by
    intro v hv
    apply h.layers v
    simp only [Shell.leaveLayers, List.mem_append, List.mem_filter] at hv
    exact List.mem_append.mpr (hv.imp And.left And.left)
  nodes := h.nodes
  focus := h.focus
  seat := h.seat

theorem not_mem_layers (s : Shell) (w : ℕ) :
    w ∉ (s.leaveLayers w).normalLayer ++ (s.leaveLayers w).inactiveLayer := by
  simp [Shell.leaveLayers]

theorem Placed.moveToNormal (h : s.Placed) (hw : w ∈ s.live) : (s.moveToNormal w).Placed := by
  have hleft := h.leaveLayers w
  exact
    { nodup := List.nodup_cons.mpr ⟨not_mem_layers s w, hleft.nodup⟩
      layers := by
        intro v hv
        rcases List.mem_cons.mp hv with rfl | hv
        · exact hw
        · exact hleft.layers v hv
      nodes := h.nodes
      focus := h.focus
      seat := h.seat }

theorem Placed.moveToInactive (h : s.Placed) (hw : w ∈ s.live) : (s.moveToInactive w).Placed := by
  have hleft := h.leaveLayers w
  have hperm : ((s.leaveLayers w).normalLayer ++ w :: (s.leaveLayers w).inactiveLayer).Perm
      (w :: ((s.leaveLayers w).normalLayer ++ (s.leaveLayers w).inactiveLayer)) := by
    exact List.perm_middle
  exact
    { nodup := hperm.nodup_iff.mpr (List.nodup_cons.mpr ⟨not_mem_layers s w, hleft.nodup⟩)
      layers := by
        intro v hv
        rcases List.mem_cons.mp (hperm.mem_iff.mp hv) with rfl | hv
        · exact hw
        · exact hleft.layers v hv
      nodes := h.nodes
      focus := h.focus
      seat := h.seat }

theorem Placed.foldl_moveToNormal {ws : List ℕ} (h : s.Placed) (hws : ∀ w ∈ ws, w ∈ s.live) :
    (ws.foldl Shell.moveToNormal s).Placed := by
  induction ws generalizing s with
  | nil => exact h
  | cons w ws ih =>
    apply ih (h.moveToNormal (hws w (by simp)))
    exact fun v hv => hws v (List.mem_cons_of_mem w hv)

theorem Placed.foldl_moveToInactive {ws : List ℕ} (h : s.Placed) (hws : ∀ w ∈ ws, w ∈ s.live) :
    (ws.foldl Shell.moveToInactive s).Placed := by
  induction ws generalizing s with
  | nil => exact h
  | cons w ws ih =>
    apply ih (h.moveToInactive (hws w (by simp)))
    exact fun v hv => hws v (List.mem_cons_of_mem w hv)

theorem Rearranges.normal (ws : List ℕ) (s : Shell) (hws : s.Placed → ∀ w ∈ ws, w ∈ s.live) :
    Rearranges s (ws.foldl moveToNormal s) := by
  have hplaced : s.Placed → (ws.foldl Shell.moveToNormal s).Placed := by
    exact fun hs => hs.foldl_moveToNormal (hws hs)
  obtain ⟨normalLayer, inactiveLayer, heq⟩ := foldl_moveToNormal_eq s ws
  rw [heq] at hplaced ⊢
  exact ⟨rfl, rfl, rfl, hplaced⟩

theorem Rearranges.inactive {ws : List ℕ} (s : Shell) (hws : s.Placed → ∀ w ∈ ws, w ∈ s.live) :
    Rearranges s (ws.foldl moveToInactive s) := by
  have hplaced : s.Placed → (ws.foldl Shell.moveToInactive s).Placed := by
    exact fun hs => hs.foldl_moveToInactive (hws hs)
  obtain ⟨normalLayer, inactiveLayer, heq⟩ := foldl_moveToInactive_eq s ws
  rw [heq] at hplaced ⊢
  exact ⟨rfl, rfl, rfl, hplaced⟩

end Layers

section Trees

theorem mem_mapM_window {nodes : List Node} {ws : List ℕ}
    (h : nodes.mapM Node.window = some ws) : ∀ w ∈ ws, .treeLink w ∈ nodes := by
  induction nodes generalizing ws with
  | nil =>
    obtain rfl := Option.some.inj h
    simp
  | cons node nodes ih =>
    rw [List.mapM_cons] at h
    obtain ⟨v, hv, h⟩ := Option.bind_eq_some_iff.mp h
    obtain ⟨vs, hvs, h⟩ := Option.bind_eq_some_iff.mp h
    obtain rfl := Option.some.inj h
    intro w hw
    rcases List.mem_cons.mp hw with rfl | hw
    · cases node with
      | treeLink x =>
        obtain rfl := Option.some.inj hv
        simp
      | treeList x => cases hv
      | tmpList => cases hv
    · exact List.mem_cons_of_mem _ (ih hvs w hw)

/-- The windows of a tree are alive. -/
theorem Placed.surfaceTree (h : s.Placed) {root : ℕ} {ws : List ℕ}
    (hws : s.surfaceTree root = some ws) : ∀ w ∈ ws, w ∈ s.live := by
  obtain ⟨nodes, hnodes, hws⟩ := Option.bind_eq_some_iff.mp hws
  exact fun w hw => h.nodes w (backward_defined hnodes _ (mem_mapM_window hws w hw))

theorem setActiveSurfaceTree_rearranges {root : Option ℕ} (s : Shell) (m : Moved)
    (h : s.setActiveSurfaceTree root = some m) : Rearranges s m.1 := by
  obtain ⟨old, hold, h⟩ := Option.bind_eq_some_iff.mp h
  have hhidden : Rearranges s (old.foldl moveToInactive s) := by
    apply Rearranges.inactive
    intro hs
    unfold activeWindows at hold
    split at hold
    · obtain rfl := Option.some.inj hold
      simp
    · exact hs.surfaceTree hold
  cases root with
  | none =>
    obtain rfl := Option.some.inj h
    exact hhidden.trans (.of_eq rfl rfl rfl rfl rfl fun _ hv => hv)
  | some root =>
    obtain ⟨new, hnew, rfl⟩ := Option.map_eq_some_iff.mp h
    have hshown := Rearranges.normal new (old.foldl moveToInactive s)
      (fun hs => hs.surfaceTree hnew)
    exact (hhidden.trans hshown).trans (.of_eq rfl rfl rfl rfl rfl fun _ hv => hv)

theorem raiseSurfaceSubtree_rearranges (s : Shell) (m : Moved)
    (h : s.raiseSurfaceSubtree w = some m) : Rearranges s m.1 := by
  unfold raiseSurfaceSubtree at h
  split at h
  · obtain rfl := Option.some.inj h
    exact .refl s
  · obtain ⟨⟨taken, nodes⟩, htaken, h⟩ := Option.bind_eq_some_iff.mp h
    obtain ⟨⟨put, nodes'⟩, hput, h⟩ := Option.bind_eq_some_iff.mp h
    obtain ⟨raised, hraised, h⟩ := Option.bind_eq_some_iff.mp h
    obtain rfl := Option.some.inj h
    have hinit : s.NoNewLinks taken := noNewLinks_init (by simp) (moveAll_within htaken)
    have hlinks : s.NoNewLinks put :=
      noNewLinks_init (by simp) ((moveAll_within htaken).trans (moveAll_within hput))
    have hshown := Rearranges.normal raised s fun hs v hv =>
      hs.nodes v (hinit v (moveAll_defined hput _ (mem_mapM_window hraised v hv)))
    refine hshown.trans (.of_eq rfl rfl rfl rfl rfl fun v hv => ?_)
    obtain ⟨_, _, heq⟩ := foldl_moveToNormal_eq s raised
    rw [heq]
    exact hlinks v hv

theorem setParent_rearranges {parent : Option ℕ} (s : Shell) (m : Moved)
    (h : s.setParent w parent = some m) : Rearranges s m.1 := by
  have hlisten : ∀ links, s.NoNewLinks links →
      Rearranges s { s.listen w parent with links } := by
    exact fun links hlinks => .of_eq rfl rfl rfl rfl rfl hlinks
  obtain ⟨shroot, -, h⟩ := Option.bind_eq_some_iff.mp h
  dsimp only at h
  split at h
  · obtain rfl := Option.some.inj h
    exact .refl s
  cases parent with
  | some p =>
    obtain ⟨inTree, -, h⟩ := Option.bind_eq_some_iff.mp h
    split at h
    · obtain rfl := Option.some.inj h
      exact hlisten s.links fun _ hv => hv
    · obtain ⟨links, hlinks, h⟩ := Option.bind_eq_some_iff.mp h
      obtain rfl := Option.some.inj h
      exact hlisten links fun v hv => moveToTop_within hlinks _ hv
  | none =>
    obtain ⟨⟨links, moved⟩, hmove, h⟩ := Option.bind_eq_some_iff.mp h
    have hlinks : s.NoNewLinks links := noNewLinks_init (by simp) (moveAll_within hmove)
    exact (hlisten links hlinks).trans (setActiveSurfaceTree_rearranges _ m h)

theorem tellChildren_rearranges {children : List ℕ} (s : Shell) (m : Moved)
    (h : tellChildren w s children = some m) : Rearranges s m.1 := by
  induction children generalizing s m with
  | nil =>
    obtain rfl := Option.some.inj h
    exact .refl s
  | cons child children ih =>
    obtain ⟨m₁, m₂, hm₁, hm₂, rfl⟩ := Moved.andThen_eq_some h
    exact (setParent_rearranges s m₁ hm₁).trans (ih m₁.1 m₂ hm₂)

theorem hide_rearranges (s : Shell) (m : Moved) (hw : w ∈ s.live) (h : s.hide w = some m) :
    Rearranges s m.1 := by
  obtain ⟨shroot, -, h⟩ := Option.bind_eq_some_iff.mp h
  split at h
  · exact setActiveSurfaceTree_rearranges s m h
  · obtain rfl := Option.some.inj h
    exact ⟨rfl, rfl, rfl, fun hs => hs.moveToInactive hw⟩

end Trees

section Focus

/-- The window gets the focus of the seat. -/
structure Focuses (s t : Shell) (w : ℕ) : Prop where
  live : t.live = s.live
  seat : t.seat = s.seat
  focus : t.focusedSurface = if s.seat then some w else s.focusedSurface
  placed : s.Placed → t.Placed

theorem Rearranges.focuses {u : Shell} (h : Rearranges s t) (h' : Focuses t u w) :
    Focuses s u w := by
  refine ⟨h'.live.trans h.live, h'.seat.trans h.seat, ?_, fun hs => h'.placed (h.placed hs)⟩
  rw [h'.focus, h.seat, h.focus]

theorem activate_focuses (s : Shell) (m : Moved) (hw : w ∈ s.live) (h : s.activate w = some m) :
    Focuses s m.1 w := by
  unfold activate at h
  split at h
  · rename_i hseat
    have hraise := raiseSurfaceSubtree_rearranges _ m h
    refine ⟨hraise.live, hraise.seat, ?_, fun hs => hraise.placed ?_⟩
    · rw [hraise.focus, if_pos hseat]
    · exact ⟨hs.nodup, hs.layers, hs.nodes, fun v hv => Option.some.inj hv ▸ hw, fun _ => hseat⟩
  · rename_i hseat
    obtain rfl := Option.some.inj h
    exact ⟨rfl, rfl, by rw [if_neg hseat], id⟩

theorem scanLayer_mem {parentRoot : ℕ} {onOutput views : List ℕ} {top : Option ℕ} {v : ℕ}
    (h : s.scanLayer w parentRoot onOutput top views = some (some v)) :
    top = some v ∨ v ∈ views ∧ v ≠ w := by
  induction views generalizing top with
  | nil => exact .inl (Option.some.inj h)
  | cons x views ih =>
    have hlater : ∀ {top'}, s.scanLayer w parentRoot onOutput top' views = some (some v) →
        top' = some v ∨ v ∈ x :: views ∧ v ≠ w := by
      exact fun h' => (ih h').imp_right fun hv => ⟨List.mem_cons_of_mem x hv.1, hv.2⟩
    rw [scanLayer] at h
    split_ifs at h with hskip
    · exact hlater h
    · have hx : x ≠ w := fun heq => hskip (.inl heq)
      obtain ⟨root, -, h⟩ := Option.bind_eq_some_iff.mp h
      split_ifs at h
      · obtain rfl := Option.some.inj (Option.some.inj h)
        exact .inr ⟨List.mem_cons_self, hx⟩
      · rcases hlater h with htop | hv
        · cases top with
          | none =>
            obtain rfl := Option.some.inj htop
            exact .inr ⟨List.mem_cons_self, hx⟩
          | some top => exact .inl htop
        · exact .inr hv

/-- The successor has another view. -/
theorem findFocusSuccessor_mem {onOutput : List ℕ} {v : ℕ}
    (h : s.findFocusSuccessor w onOutput = some (some v)) :
    v ∈ s.normalLayer ++ s.inactiveLayer ∧ v ≠ w := by
  obtain ⟨root, -, h⟩ := Option.bind_eq_some_iff.mp h
  obtain ⟨top, htop, h⟩ := Option.bind_eq_some_iff.mp h
  rcases scanLayer_mem h with rfl | ⟨hv, hne⟩
  · obtain ⟨hv, hne⟩ := (scanLayer_mem htop).resolve_left (by simp)
    exact ⟨List.mem_append_left _ hv, hne⟩
  · exact ⟨List.mem_append_right _ hv, hne⟩

theorem showSuccessor_rearranges {successor : ℕ} (s : Shell) (m : Moved)
    (h : s.showSuccessor successor = some m) : Rearranges s m.1 := by
  unfold showSuccessor at h
  split at h
  · obtain ⟨shroot, -, h⟩ := Option.bind_eq_some_iff.mp h
    exact setActiveSurfaceTree_rearranges s m h
  · obtain rfl := Option.some.inj h
    exact .refl s

/-- The focus passes to another window, or to none. -/
theorem Placed.passFocus (hs : s.Placed) {onOutput : List ℕ} (hseat : s.seat = true)
    (h : s.passFocus w onOutput = some m) :
    m.1.Placed ∧ m.1.live = s.live ∧ m.1.focusedSurface ≠ some w := by
  obtain ⟨found, hfound, h⟩ := Option.bind_eq_some_iff.mp h
  cases found with
  | none =>
    have hcleared : ({ s with focusedSurface := none } : Shell).Placed := by
      exact ⟨hs.nodup, hs.layers, hs.nodes, by simp, by simp⟩
    have hactive := setActiveSurfaceTree_rearranges _ m h
    exact ⟨hactive.placed hcleared, hactive.live, by simp [hactive.focus]⟩
  | some successor =>
    obtain ⟨hmem, hne⟩ := findFocusSuccessor_mem hfound
    obtain ⟨m₁, m₂, hm₁, hm₂, rfl⟩ := Moved.andThen_eq_some h
    have hshow := showSuccessor_rearranges s m₁ hm₁
    have hlive : successor ∈ m₁.1.live := by
      rw [hshow.live]
      exact hs.layers successor hmem
    have hfocus := hshow.focuses (activate_focuses m₁.1 m₂ hlive hm₂)
    refine ⟨hfocus.placed hs, hfocus.live, ?_⟩
    rw [hfocus.focus, if_pos hseat]
    simpa using hne

end Focus

section Requests

theorem Placed.create (hs : s.Placed) (h : s.create = some t) : t.Placed := by
  obtain ⟨links, hlinks, h⟩ := Option.bind_eq_some_iff.mp h
  obtain rfl := Option.some.inj h
  have hkept : ∀ v ∈ s.live, v ∈ s.live ++ [s.created] := fun v hv => List.mem_append_left _ hv
  refine ⟨hs.nodup, fun v hv => hkept v (hs.layers v hv), ?_, fun v hv => hkept v (hs.focus v hv),
    hs.seat⟩
  intro v hv
  by_cases hnew : v = s.created
  · simp [hnew]
  · have hold := insert_within hlinks (.treeLink v) (by simpa using hnew) hv
    rw [init, Function.update_of_ne (by simpa using hnew), init,
      Function.update_of_ne (by simp)] at hold
    exact hkept v (hs.nodes v hold)

/-- What is destroyed leaves the layers and the trees. -/
theorem Placed.destroy (hs : s.Placed) (hfocus : s.focusedSurface ≠ some w)
    (h : s.destroy w = some t) : t.Placed := by
  obtain ⟨links, hlinks, h⟩ := Option.bind_eq_some_iff.mp h
  obtain rfl := Option.some.inj h
  have hleft := hs.leaveLayers w
  refine ⟨hleft.nodup, ?_, ?_, ?_, hs.seat⟩
  · intro v hv
    refine List.mem_filter.mpr ⟨hleft.layers v hv, ?_⟩
    have hne : v ≠ w := fun heq => not_mem_layers s w (heq ▸ hv)
    simpa using hne
  · intro v hv
    change Function.update (Function.update links (.treeLink w) none) (.treeList w) none
      (.treeLink v) ≠ none at hv
    rw [Function.update_of_ne (by simp), Function.update_apply] at hv
    split_ifs at hv with heq
    · exact absurd rfl hv
    · refine List.mem_filter.mpr ⟨hs.nodes v ((remove_within hlinks).1 _ hv), ?_⟩
      have hne : v ≠ w := fun h => heq (by rw [h])
      simpa using hne
  · intro v hv
    refine List.mem_filter.mpr ⟨hs.focus v hv, ?_⟩
    have hne : v ≠ w := fun heq => hfocus (heq ▸ hv)
    simpa using hne

theorem Placed.removed (hs : s.Placed) {elsewhere : Bool} {onOutput : List ℕ}
    (h : s.surfaceRemoved w elsewhere onOutput = some m) : m.1.Placed := by
  obtain ⟨n, hn, h⟩ := Option.bind_eq_some_iff.mp h
  obtain ⟨u, hu, h⟩ := Option.bind_eq_some_iff.mp h
  obtain rfl := Option.some.inj h
  obtain ⟨m₁, m₂, hm₁, hm₂, rfl⟩ := Moved.andThen_eq_some hn
  have hemit : Rearranges s (s.emit .closed w) := .of_eq rfl rfl rfl rfl rfl fun _ hv => hv
  have htold := (hemit.trans (tellChildren_rearranges _ m₁ hm₁)).placed hs
  split_ifs at hm₂ with hfocus
  · obtain ⟨hplaced, -, hne⟩ := htold.passFocus hfocus.1 hm₂
    exact hplaced.destroy hne hu
  · obtain rfl := Option.some.inj hm₂
    refine htold.destroy ?_ hu
    intro hw
    exact hfocus ⟨htold.seat (by simp [hw]), by simp [hw], .inl hw⟩

theorem Placed.committed (hs : s.Placed) (hw : w ∈ s.live) (h : s.surfaceCommitted w = some m) :
    m.1.Placed := by
  unfold surfaceCommitted at h
  split at h
  · obtain rfl := Option.some.inj h
    exact hs
  · obtain ⟨m₁, m₂, hm₁, hm₂, rfl⟩ := Moved.andThen_eq_some h
    have hmap : Rearranges s { s with mapped := Function.update s.mapped w true } :=
      .of_eq rfl rfl rfl rfl rfl fun _ hv => hv
    have hshow : Rearranges s m₁.1 := by
      refine hmap.trans ?_
      split at hm₁
      · exact setActiveSurfaceTree_rearranges _ m₁ hm₁
      · obtain rfl := Option.some.inj hm₁
        exact .refl _
    have hlive : w ∈ m₁.1.live := hshow.live ▸ hw
    exact (hshow.focuses (activate_focuses m₁.1 m₂ hlive hm₂)).placed hs

theorem Placed.restore (hs : s.Placed) {windowId : UInt32} (h : s.restore windowId = some m) :
    m.1.Placed := by
  unfold Shell.restore at h
  split at h
  · obtain rfl := Option.some.inj h
    exact hs
  · rename_i v hfound
    have hv : v ∈ s.live := hs.layers v (List.mem_of_find?_eq_some hfound)
    obtain ⟨root, m₁, m₂, m₃, -, hm₁, hm₂, hm₃, rfl⟩ := restoreWindow_cases h
    have hshown := (setActiveSurfaceTree_rearranges s m₁ hm₁).trans
      (raiseSurfaceSubtree_rearranges _ m₂ hm₂)
    have hfocus := hshown.focuses (activate_focuses m₂.1 m₃ (hshown.live ▸ hv) hm₃)
    have hplaced := hfocus.placed hs
    exact ⟨hplaced.nodup, hplaced.layers, hplaced.nodes, hplaced.focus, hplaced.seat⟩

theorem Placed.step {r : Request} (hs : s.Placed) (h : s.step r = some t) : t.Placed := by
  obtain ⟨henabled, h⟩ := Option.ite_none_right_eq_some.mp h
  obtain ⟨m, hm, rfl⟩ := Option.map_eq_some_iff.mp h
  cases r with
  | added =>
    obtain ⟨u, hu, rfl⟩ := Option.map_eq_some_iff.mp hm
    have hplaced := hs.create hu
    exact ⟨hplaced.nodup, hplaced.layers, hplaced.nodes, hplaced.focus, hplaced.seat⟩
  | committed w => exact hs.committed henabled hm
  | unmapped w =>
    obtain rfl := Option.some.inj hm
    have hplaced := hs.leaveLayers w
    exact ⟨hplaced.nodup, hplaced.layers, hplaced.nodes, hplaced.focus, hplaced.seat⟩
  | minimizedRequested w =>
    obtain ⟨n, hn, rfl⟩ := Option.map_eq_some_iff.mp hm
    have hplaced := (hide_rearranges s n henabled hn).placed hs
    exact ⟨hplaced.nodup, hplaced.layers, hplaced.nodes, hplaced.focus, hplaced.seat⟩
  | restore windowId => exact hs.restore hm
  | setParent w parent => exact (setParent_rearranges s m hm).placed hs
  | activate w => exact (activate_focuses s m henabled hm).placed hs
  | removed w elsewhere onOutput => exact hs.removed hm

theorem placed_initial (seat : Bool) : (initial seat).Placed :=
  ⟨List.nodup_nil, by simp [initial], fun v hv => absurd rfl hv, by simp [initial],
    by simp [initial]⟩

/-- In every run each view is in one layer at most and once, and no destroyed window is left in
a layer, in a tree or with the focus. -/
theorem placed_of_run (seat : Bool) (rs : List Request) :
    Always Shell.step Placed (initial seat) rs := by
  apply always_of_invariant (fun s r t hs h => hs.step h) (fun s hs => hs)
  exact placed_initial seat

end Requests

end Shell

end Kiosk
end ACGlass
