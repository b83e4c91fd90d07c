import ACGlass.Kiosk.Layers

/-!
# The ids of windows, and what is announced of them

The id of a window is the 32-bit number of its creation that skips zero. A window is announced
when it is created and when it is destroyed, and not in between.
-/

namespace ACGlass
namespace Kiosk

open Transition
open Android (EventType)

namespace Shell

variable {s t : Shell} {m : Moved} {w : ℕ}

/-- The id of the window that is created after `w` others. -/
def windowId (w : ℕ) : ℕ := w % (2 ^ 32 - 1) + 1

theorem windowId_lt (w : ℕ) : windowId w < 2 ^ 32 := by
  have := Nat.mod_lt w (show 0 < 2 ^ 32 - 1 by norm_num)
  unfold windowId
  omega

theorem windowId_succ (w : ℕ) :
    windowId (w + 1) = if windowId w + 1 = 2 ^ 32 then 1 else windowId w + 1 := by
  have := Nat.mod_lt w (show 0 < 2 ^ 32 - 1 by norm_num)
  unfold windowId
  split_ifs <;> omega

/-- The counter of the shell, and the ids that it has given. -/
structure Numbered (s : Shell) : Prop where
  next : ∀ w, s.created = w + 1 → s.acglassNextWindowId = .ofNat (windowId w)
  first : s.created = 0 → s.acglassNextWindowId = 0
  ids : ∀ w < s.created, s.acglassWindowId w = .ofNat (windowId w)

/-- A call that gives no id and announces nothing. -/
structure Silent (s t : Shell) : Prop where
  created : t.created = s.created
  live : t.live = s.live
  next : t.acglassNextWindowId = s.acglassNextWindowId
  ids : t.acglassWindowId = s.acglassWindowId
  events : t.events = s.events

theorem Moves.silent (h : Moves s m) : Silent s m.1 := by
  refine ⟨h.shows.created, h.shows.live, ?_, ?_, h.shows.events⟩
  · induction h with
    | refl => rfl
    | leave _ w ih | inactive _ w ih | normal _ w ih => exact ih
    | active _ root ih => exact ih
    | focus _ w ih => exact ih
    | map _ mapped ih => exact ih
    | listen _ w parent ih => exact ih
    | link _ hlinks ih => exact ih
  · induction h with
    | refl => rfl
    | leave _ w ih | inactive _ w ih | normal _ w ih => exact ih
    | active _ root ih => exact ih
    | focus _ w ih => exact ih
    | map _ mapped ih => exact ih
    | listen _ w parent ih => exact ih
    | link _ hlinks ih => exact ih

/-- What a request announces. -/
inductive Announces (s t : Shell) : List (EventType × ℕ) → Prop
  | opened (created : t.created = s.created + 1) (live : t.live = s.live ++ [s.created])
      (next : t.acglassNextWindowId =
        if s.acglassNextWindowId + 1 = 0 then s.acglassNextWindowId + 1 + 1
        else s.acglassNextWindowId + 1)
      (ids : t.acglassWindowId =
        Function.update s.acglassWindowId s.created t.acglassNextWindowId) :
      Announces s t [(.opened, s.created)]
  | closed (w : ℕ) (created : t.created = s.created) (live : t.live = s.live.filter (· ≠ w))
      (next : t.acglassNextWindowId = s.acglassNextWindowId)
      (ids : t.acglassWindowId = s.acglassWindowId) (hw : w ∈ s.live) : Announces s t [(.closed, w)]
  | other {new : List (EventType × ℕ)} (created : t.created = s.created) (live : t.live = s.live)
      (next : t.acglassNextWindowId = s.acglassNextWindowId)
      (ids : t.acglassWindowId = s.acglassWindowId)
      (new_mem : ∀ e ∈ new, (e.1 = .minimized ∨ e.1 = .restored) ∧ e.2 ∈ s.live) :
      Announces s t new

theorem Silent.announces (h : Silent s t) : Announces s t [] :=
  .other h.created h.live h.next h.ids (by simp)

theorem create_announces (h : s.create = some t) :
    Announces s (t.emit .opened s.created) [(.opened, s.created)] ∧ t.events = s.events := by
  obtain ⟨links, -, h⟩ := Option.bind_eq_some_iff.mp h
  obtain rfl := Option.some.inj h
  exact ⟨.opened rfl rfl rfl rfl, rfl⟩

theorem step_announces {r : Request} (hs : s.Placed) (h : s.step r = some t) :
    ∃ new, Announces s t new ∧ t.events = s.events ++ new := by
  obtain ⟨henabled, h⟩ := Option.ite_none_right_eq_some.mp h
  obtain ⟨m, hm, rfl⟩ := Option.map_eq_some_iff.mp h
  have hsilent : ∀ {u : Shell}, Silent s u →
      ∃ new, Announces s u new ∧ u.events = s.events ++ new := by
    intro u hu
    exact ⟨[], hu.announces, by rw [hu.events, List.append_nil]⟩
  cases r with
  | added =>
    obtain ⟨u, hu, rfl⟩ := Option.map_eq_some_iff.mp hm
    obtain ⟨hannounces, hevents⟩ := create_announces hu
    exact ⟨_, hannounces, congrArg (· ++ [(EventType.opened, s.created)]) hevents⟩
  | committed w => exact hsilent (surfaceCommitted_moves hm).silent
  | unmapped w =>
    obtain rfl := Option.some.inj hm
    exact hsilent (surfaceUnmapped_moves s w).silent
  | minimizedRequested w =>
    obtain ⟨n, hn, rfl⟩ := Option.map_eq_some_iff.mp hm
    have hhide := (hide_moves hn).silent
    refine ⟨[(.minimized, w)], .other hhide.created hhide.live hhide.next hhide.ids ?_,
      congrArg (· ++ [(EventType.minimized, w)]) hhide.events⟩
    intro e he
    obtain rfl := List.mem_singleton.mp he
    exact ⟨.inl rfl, henabled⟩
  | restore windowId =>
    change s.restore windowId = some m at hm
    unfold restore at hm
    split at hm
    · obtain rfl := Option.some.inj hm
      exact hsilent ⟨rfl, rfl, rfl, rfl, rfl⟩
    · rename_i v hfound
      have hv : v ∈ s.live := hs.layers v (List.mem_of_find?_eq_some hfound)
      obtain ⟨n, hmoves, rfl⟩ := restoreWindow_moves hm
      have hshown := hmoves.silent
      refine ⟨[(.restored, v)], .other hshown.created hshown.live hshown.next hshown.ids ?_,
        congrArg (· ++ [(EventType.restored, v)]) hshown.events⟩
      intro e he
      obtain rfl := List.mem_singleton.mp he
      exact ⟨.inr rfl, hv⟩
  | setParent w parent => exact hsilent (setParent_moves s m hm).silent
  | activate w => exact hsilent (activate_moves s m hm).silent
  | removed w elsewhere onOutput =>
    obtain ⟨n, hn, hm⟩ := Option.bind_eq_some_iff.mp hm
    obtain ⟨u, hu, hm⟩ := Option.bind_eq_some_iff.mp hm
    obtain rfl := Option.some.inj hm
    have htold := (surfaceRemoved_moves hn).silent
    obtain ⟨links, -, hu⟩ := Option.bind_eq_some_iff.mp hu
    obtain rfl := Option.some.inj hu
    refine ⟨[(.closed, w)], .closed w htold.created ?_ htold.next htold.ids henabled, htold.events⟩
    change n.1.live.filter (· ≠ w) = _
    rw [htold.live]
    rfl

theorem numbered_initial (seat : Bool) : (initial seat).Numbered where
  next := by simp [initial]
  first _ := rfl
  ids := by simp [initial]

/-- The next id, as `surface_create` counts it. -/
theorem Numbered.counts (hs : s.Numbered) :
    (if s.acglassNextWindowId + 1 = 0 then s.acglassNextWindowId + 1 + 1
      else s.acglassNextWindowId + 1) = .ofNat (windowId s.created) := by
  cases hcreated : s.created with
  | zero =>
    rw [hs.first hcreated]
    rfl
  | succ w =>
    rw [hs.next w hcreated, windowId_succ]
    split_ifs with hzero hwrap hwrap
    · rw [hzero]
      rfl
    · refine absurd (congrArg UInt32.toNat hzero) ?_
      have := windowId_lt w
      simp [UInt32.toNat_add, UInt32.toNat_ofNat']
      omega
    · refine absurd ?_ hzero
      calc UInt32.ofNat (windowId w) + 1 = .ofNat (windowId w + 1) := (UInt32.ofNat_add _ _).symm
        _ = 0 := by rw [hwrap]; rfl
    · exact (UInt32.ofNat_add _ _).symm

theorem Announces.numbered {new : List (EventType × ℕ)} (h : Announces s t new)
    (hs : s.Numbered) : t.Numbered := by
  cases h with
  | closed w created live next ids hw => exact
      ⟨fun w hw => next.trans (hs.next w (created ▸ hw)),
        fun h => next.trans (hs.first (created ▸ h)),
        fun w hw => ids ▸ hs.ids w (created ▸ hw)⟩
  | other created live next ids new_mem => exact
      ⟨fun w hw => next.trans (hs.next w (created ▸ hw)),
        fun h => next.trans (hs.first (created ▸ h)),
        fun w hw => ids ▸ hs.ids w (created ▸ hw)⟩
  | opened created live next ids =>
    have hgiven : t.acglassNextWindowId = .ofNat (windowId s.created) :=
      next.trans hs.counts
    refine ⟨?_, ?_, ?_⟩
    · intro w hw
      obtain rfl : w = s.created := by omega
      exact hgiven
    · intro h
      omega
    · intro w hw
      rw [ids, Function.update_apply]
      split_ifs with heq
      · rw [hgiven, heq]
      · exact hs.ids w (by omega)

/-- Ids are not zero, and two windows share one exactly if their numbers agree modulo the count
of ids. -/
def DistinctIds (s : Shell) : Prop :=
  ∀ v < s.created, ∀ w < s.created, s.acglassWindowId v ≠ 0 ∧
    (s.acglassWindowId v = s.acglassWindowId w ↔ v ≡ w [MOD 2 ^ 32 - 1])

theorem windowId_inj {v w : ℕ} :
    UInt32.ofNat (windowId v) = .ofNat (windowId w) ↔ v ≡ w [MOD 2 ^ 32 - 1] := by
  constructor
  · intro h
    have hnat := congrArg UInt32.toNat h
    rw [UInt32.toNat_ofNat', UInt32.toNat_ofNat', Nat.mod_eq_of_lt (windowId_lt v),
      Nat.mod_eq_of_lt (windowId_lt w)] at hnat
    exact Nat.succ.inj hnat
  · intro h
    exact congrArg (fun n => UInt32.ofNat (n + 1)) h

theorem windowId_ne_zero (w : ℕ) : UInt32.ofNat (windowId w) ≠ 0 := by
  intro h
  have hnat := congrArg UInt32.toNat h
  rw [UInt32.toNat_ofNat', Nat.mod_eq_of_lt (windowId_lt w)] at hnat
  exact Nat.succ_ne_zero _ hnat

theorem Numbered.distinctIds (hs : s.Numbered) : s.DistinctIds := by
  intro v hv w hw
  rw [hs.ids v hv, hs.ids w hw]
  exact ⟨windowId_ne_zero v, windowId_inj⟩

/-- What is announced of one window. -/
abbrev eventsOf (s : Shell) (w : ℕ) : List (EventType × ℕ) := s.events.filter (·.2 = w)

/-- A window is announced first when it opens and last when it has closed. -/
structure Announced (s : Shell) : Prop where
  told : ∀ w < s.created, ∃ between : List (EventType × ℕ),
    (∀ e ∈ between, e.1 = .minimized ∨ e.1 = .restored) ∧
      s.eventsOf w = (.opened, w) :: between ++ if w ∈ s.live then [] else [(.closed, w)]
  untold : ∀ w, s.created ≤ w → s.eventsOf w = [] ∧ w ∉ s.live

theorem announced_initial (seat : Bool) : (initial seat).Announced where
  told := by simp [initial]
  untold := by simp [initial]

theorem eventsOf_append {new : List (EventType × ℕ)} (h : t.events = s.events ++ new) :
    t.eventsOf w = s.eventsOf w ++ new.filter (·.2 = w) := by
  rw [eventsOf, h, List.filter_append]

theorem Announced.opened (hs : s.Announced) (created : t.created = s.created + 1)
    (live : t.live = s.live ++ [s.created])
    (hevents : t.events = s.events ++ [(.opened, s.created)]) : t.Announced := by
  have hother : ∀ w ≠ s.created, t.eventsOf w = s.eventsOf w ∧ (w ∈ t.live ↔ w ∈ s.live) := by
    intro w hne
    rw [eventsOf_append hevents, live]
    simp [hne, hne.symm]
  constructor
  · intro w hw
    by_cases hnew : w = s.created
    · obtain rfl := hnew
      refine ⟨[], by simp, ?_⟩
      rw [eventsOf_append hevents, (hs.untold _ le_rfl).1, live]
      simp
    · obtain ⟨htold, hlive⟩ := hother w hnew
      simp only [htold, hlive]
      exact hs.told w (by omega)
  · intro w hw
    obtain ⟨htold, hlive⟩ := hother w (by omega)
    rw [htold, hlive]
    exact hs.untold w (by omega)

theorem Announced.closed (hs : s.Announced) (created : t.created = s.created)
    (live : t.live = s.live.filter (· ≠ w)) (hw : w ∈ s.live)
    (hevents : t.events = s.events ++ [(.closed, w)]) : t.Announced := by
  have hother : ∀ v ≠ w, t.eventsOf v = s.eventsOf v ∧ (v ∈ t.live ↔ v ∈ s.live) := by
    intro v hne
    rw [eventsOf_append hevents, live]
    simp [hne, hne.symm]
  have hbound : w < s.created := by
    by_contra hle
    exact (hs.untold w (not_lt.mp hle)).2 hw
  constructor
  · intro v hv
    by_cases heq : v = w
    · obtain rfl := heq
      obtain ⟨between, hbetween, htold⟩ := hs.told v hbound
      refine ⟨between, hbetween, ?_⟩
      rw [eventsOf_append hevents, htold, live]
      simp [hw]
    · obtain ⟨htold, hlive⟩ := hother v heq
      simp only [htold, hlive]
      exact hs.told v (by omega)
  · intro v hv
    obtain ⟨htold, hlive⟩ := hother v (by omega)
    rw [htold, hlive]
    exact hs.untold v (by omega)

theorem Announced.other (hs : s.Announced) {new : List (EventType × ℕ)}
    (created : t.created = s.created) (live : t.live = s.live)
    (hnew : ∀ e ∈ new, (e.1 = .minimized ∨ e.1 = .restored) ∧ e.2 ∈ s.live)
    (hevents : t.events = s.events ++ new) : t.Announced := by
  have hdead : ∀ w ∉ s.live, new.filter (·.2 = w) = [] := by
    intro w hw
    apply List.filter_eq_nil_iff.mpr
    intro e he heq
    exact hw (of_decide_eq_true heq ▸ (hnew e he).2)
  constructor
  · intro w hw
    obtain ⟨between, hbetween, htold⟩ := hs.told w (created ▸ hw)
    rw [eventsOf_append hevents, live, htold]
    by_cases hlive : w ∈ s.live
    · refine ⟨between ++ new.filter (·.2 = w), ?_, by simp [hlive]⟩
      intro e he
      rcases List.mem_append.mp he with he | he
      · exact hbetween e he
      · exact (hnew e (List.mem_of_mem_filter he)).1
    · exact ⟨between, hbetween, by rw [hdead w hlive, List.append_nil]⟩
  · intro w hw
    obtain ⟨hnone, hlive⟩ := hs.untold w (created ▸ hw)
    rw [eventsOf_append hevents, hnone, hdead w hlive, live]
    exact ⟨rfl, hlive⟩

theorem Announces.announced {new : List (EventType × ℕ)} (h : Announces s t new)
    (hevents : t.events = s.events ++ new) (hs : s.Announced) : t.Announced := by
  cases h with
  | opened created live next ids => exact hs.opened created live hevents
  | closed w created live next ids hw => exact hs.closed created live hw hevents
  | other created live next ids new_mem => exact hs.other created live new_mem hevents

end Shell

/-- In every run the ids of windows are not zero, and two windows that were created share one
exactly if the counter has come round between them. -/
theorem distinctIds_of_run (seat : Bool) (rs : List Request) :
    Always Shell.step Shell.DistinctIds (Shell.initial seat) rs := by
  apply always_of_invariant (I := fun s => s.Placed ∧ s.Numbered)
  · intro s r t hs hstep
    obtain ⟨new, hnew, -⟩ := Shell.step_announces hs.1 hstep
    exact ⟨hs.1.step hstep, hnew.numbered hs.2⟩
  · exact fun s hs => hs.2.distinctIds
  · exact ⟨Shell.placed_initial seat, Shell.numbered_initial seat⟩

/-- In every run a window is announced when it opens, then whenever it is minimised or restored,
and last when it has closed, and nothing is announced of a window that was not created. -/
theorem announced_of_run (seat : Bool) (rs : List Request) :
    Always Shell.step Shell.Announced (Shell.initial seat) rs := by
  apply always_of_invariant (I := fun s => s.Placed ∧ s.Announced)
  · intro s r t hs hstep
    obtain ⟨new, hnew, hevents⟩ := Shell.step_announces hs.1 hstep
    exact ⟨hs.1.step hstep, hnew.announced hevents hs.2⟩
  · exact fun s hs => hs.2
  · exact ⟨Shell.placed_initial seat, Shell.announced_initial seat⟩

end Kiosk
end ACGlass
