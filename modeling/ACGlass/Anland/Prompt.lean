import ACGlass.Anland.Repainted

/-!
# A waiting consumer is repainted

A consumer that has announced a buffer waits for `weston_output_repaint`. The loop gets there
with the second of the turns that carry it on, however many others come in between.
-/

namespace ACGlass
namespace Anland

open Transition

variable {φ ρ : Type*}

namespace Loop

/-- The turns that carry a repaint on. That of the repaint timer may come early, for a content
update that asked for it. -/
def due (s : Loop φ ρ) : Turn φ ρ → Bool
  | .idleRepaint _ => true
  | .finishIdle _ => true
  | .frameTimer _ => true
  | .repaintTimer _ _ _ t =>
    s.status = .scheduled && (s.nextRepaint - t.first).tdiv 1000000 ≤ 1
  | _ => false

/-- The turn calls `weston_output_repaint`. -/
def paints (s : Loop φ ρ) : Turn φ ρ → Bool
  | .repaintTimer barriers _ _ t => (s.checkRepaint barriers t).2
  | _ => false

/-- The due turns that pass until the output is repainted, while the consumer waits for it. -/
def delay (s : Loop φ ρ) : List (Turn φ ρ) → ℕ
  | [] => 0
  | l :: ls =>
    if s.paints l then 0
    else
      match s.step l with
      | none => 0
      | some u =>
        if u.active && u.backend.consumerReady then (s.due l).toNat + delay u ls else 0

/-- A consumer that waits for the output has a turn to wait for, and after one such turn the
next one repaints. -/
structure Prompt (s : Loop φ ρ) : Prop where
  enabled : s.active = true → s.backend.consumerReady = true →
    ∃ l, s.due l = true ∧ (s.step l).isSome
  delay : s.active = true → s.backend.consumerReady = true → ∀ ls, s.delay ls ≤ 1

variable {s u : Loop φ ρ}

theorem Inv.status (h : s.Inv) (hactive : s.active = true)
    (hready : s.backend.consumerReady = true) : s.status ≠ .notScheduled := by
  rcases h.ready hactive hready with hneeded | htimer
  · exact h.needed hactive hneeded
  · simp [(h.awaited (.inr htimer)).1]

/-- A waiting consumer is not kept waiting by a repaint that is scheduled. -/
theorem Inv.needed_of_scheduled (h : s.Inv) (hactive : s.active = true)
    (hready : s.backend.consumerReady = true) (hstatus : s.status = .scheduled) :
    s.repaintNeeded = true := by
  refine (h.ready hactive hready).resolve_right ?_
  simp [(h.no_source (by simp [hstatus])).2]

theorem Inv.prompt_enabled (h : s.Inv) (hactive : s.active = true)
    (hready : s.backend.consumerReady = true) : ∃ l, s.due l = true ∧ (s.step l).isSome := by
  have hfrom : ∀ m, s.clock ≤ m → Times.From ⟨m, m, m, false, none⟩ s.clock := by
    exact fun m hm => ⟨hm, le_rfl, le_rfl⟩
  cases hstatus : s.status with
  | notScheduled => exact absurd hstatus (h.status hactive hready)
  | beginFromIdle =>
    refine ⟨.idleRepaint s.times, rfl, ?_⟩
    have henabled := And.intro (h.idle.mpr hstatus) (hfrom s.clock le_rfl)
    rw [Loop.step, times, if_pos henabled]
    rfl
  | scheduled =>
    obtain ⟨d, hd, -⟩ := h.armed hstatus
    obtain ⟨m, hm⟩ : ∃ m, m = max d (max s.nextRepaint s.clock) := ⟨_, rfl⟩
    have hlate : (s.nextRepaint - m).tdiv 1000000 ≤ 0 := by
      exact Int.tdiv_le_tdiv (by norm_num) (show s.nextRepaint - m ≤ 0 by omega)
    refine ⟨.repaintTimer false ∅ 0 ⟨m, m, m, false, none⟩, ?_, ?_⟩
    · rw [due]
      simp only [hstatus, decide_true, Bool.true_and, decide_eq_true_eq]
      omega
    · have henabled := And.intro (show d ≤ m by omega) (hfrom m (by omega))
      rw [Loop.step, Option.mem_def.mp hd, Option.bind_some, if_pos henabled]
      rfl
  | awaitingCompletion =>
    have hcompletion := h.completion
    rw [if_pos hstatus] at hcompletion
    cases htimer : s.frameTimer with
    | none =>
      refine ⟨.finishIdle s.times, rfl, ?_⟩
      have henabled : 0 < s.finishIdle ∧ s.times.From s.clock := by
        refine ⟨?_, hfrom s.clock le_rfl⟩
        simp only [htimer, Option.toList_none, List.length_nil] at hcompletion
        omega
      rw [Loop.step, if_pos henabled]
      rfl
    | some d =>
      obtain ⟨m, hm⟩ : ∃ m, m = max d s.clock := ⟨_, rfl⟩
      refine ⟨.frameTimer ⟨m, m, m, false, none⟩, rfl, ?_⟩
      have henabled := And.intro (show d ≤ m by omega) (hfrom m (by omega))
      rw [Loop.step, htimer, Option.bind_some, if_pos henabled]
      rfl

/-- Nothing that the loop hears of takes a repaint back. -/
theorem Inv.scheduleRepaint_status (h : s.Inv) (hactive : s.active = true)
    (hready : s.backend.consumerReady = true) : s.scheduleRepaint.status = s.status := by
  rcases h.toPaced.scheduleRepaint_spec with ⟨heq, -⟩ | ⟨-, -, heq⟩ | ⟨-, hstatus, -⟩
  · rw [heq]
  · rw [heq]
  · exact absurd hstatus (h.status hactive hready)

theorem scheduleRepaint_scheduled (h : s.status = .scheduled) :
    s.scheduleRepaint.status = .scheduled := by
  unfold scheduleRepaint
  dsimp only
  split_ifs with hactive hstatus
  · exact h
  · exact h
  · exact absurd (h.symm.trans (not_not.mp hstatus)) (by simp)

theorem checkRepaint_timer (s : Loop φ ρ) (timer : Option ℤ) (barriers : Bool) (t : Times) :
    ({ s with repaintTimer := timer }.checkRepaint barriers t).2 =
      (s.checkRepaint barriers t).2 := by
  unfold checkRepaint
  dsimp only
  split_ifs <;> rfl

/-- A needed repaint that is due is done. -/
theorem checkRepaint_due {t : Times} (hstatus : s.status = .scheduled)
    (hdue : (s.nextRepaint - t.first).tdiv 1000000 ≤ 1) (hactive : s.active = true)
    (hneeded : s.repaintNeeded = true) (barriers : Bool) :
    (s.checkRepaint barriers t).2 = true := by
  unfold checkRepaint
  dsimp only
  rw [if_neg (by simp [hstatus]), if_neg (by omega), if_neg (by simp [hactive]),
    if_neg (by simp [hneeded])]

theorem finishFrame_status (s : Loop φ ρ) (stamp : ℤ) (invalid : Bool) (t : Times) :
    (s.finishFrame stamp invalid t).status = .scheduled := by
  unfold finishFrame
  dsimp only
  obtain ⟨timer, heq⟩ := armRepaintTimer_timer _ t
  rw [heq]

theorem quiet_status {r : Backend φ ρ × List (Effect φ ρ)} (hr : Quiet s.backend r.1 r.2)
    (t : Times) : (s.handled t r).status = s.status := by
  obtain ⟨b, effs⟩ := r
  have heq := handled_eq (s := s) (b := b) hr.effs [] t
  rw [List.append_nil] at heq
  rw [heq]
  rfl

/-- While the consumer waits, a turn that is not due leaves the repaint where it is, and one
that is due schedules it. -/
theorem Inv.step_status (h : s.Inv) {l : Turn φ ρ} (hstep : s.step l = some u)
    (hactive : s.active = true) (hready : s.backend.consumerReady = true)
    (hpaints : s.paints l = false) : s.due l = false ∧ u.status = s.status ∨
      s.status ≠ .scheduled ∧ u.status = .scheduled := by
  cases l with
  | schedule =>
    obtain rfl := Option.some.inj hstep
    exact .inl ⟨rfl, h.scheduleRepaint_status hactive hready⟩
  | idleRepaint t =>
    obtain ⟨⟨hidle, ht⟩, heq⟩ := Option.ite_none_right_eq_some.mp hstep
    have hstatus := h.idle.mp hidle
    refine .inr ⟨by simp [hstatus], ?_⟩
    rw [← Option.some.inj heq, Loop.idleRepaintHandler]
    dsimp only
    rw [if_neg (by simp [assert, hactive])]
    exact finishFrame_status _ _ _ _
  | finishIdle t =>
    obtain ⟨⟨hidle, ht⟩, heq⟩ := Option.ite_none_right_eq_some.mp hstep
    refine .inr ⟨by simp [(h.awaited (.inl hidle)).1], ?_⟩
    rw [← Option.some.inj heq]
    exact finishFrame_status _ _ _ _
  | frameTimer t =>
    obtain ⟨d, hd, hstep⟩ := Option.bind_eq_some_iff.mp hstep
    obtain ⟨-, heq⟩ := Option.ite_none_right_eq_some.mp hstep
    refine .inr ⟨by simp [(h.awaited (.inr (by simp [hd]))).1], ?_⟩
    rw [← Option.some.inj heq, Backend.finishFrameHandler, if_pos hready]
    exact scheduleRepaint_scheduled (finishFrame_status _ _ _ _)
  | repaintTimer barriers damage shm t =>
    obtain ⟨d, hd, hstep⟩ := Option.bind_eq_some_iff.mp hstep
    obtain ⟨-, heq⟩ := Option.ite_none_right_eq_some.mp hstep
    have hnever := (checkRepaint_timer s none barriers t).trans hpaints
    refine .inl ⟨?_, ?_⟩
    · by_contra hdue
      have hdue : s.status = .scheduled ∧ (s.nextRepaint - t.first).tdiv 1000000 ≤ 1 := by
        simpa [due] using hdue
      have hpainted := checkRepaint_due hdue.1 hdue.2 hactive
        (h.needed_of_scheduled hactive hready hdue.1) barriers
      exact absurd (hpainted.symm.trans hpaints) (by simp)
    · rw [← Option.some.inj heq, Loop.repaintTimerHandler]
      rcases checkRepaint_cases { s with repaintTimer := none } barriers t with hcheck |
        ⟨-, hinactive, -⟩ | ⟨hstatus, hneeded, -⟩ | ⟨-, -, hcheck⟩
      · rw [hcheck]
        obtain ⟨timer, harm⟩ := armRepaintTimer_timer
          { s with repaintTimer := none, clock := t.third } t
        have hsame := congrArg Loop.status harm
        exact hsame
      · exact absurd (hactive.symm.trans hinactive) (by simp)
      · have hneed := h.needed_of_scheduled hactive hready hstatus
        exact absurd (hneed.symm.trans hneeded) (by simp)
      · rw [hcheck] at hnever
        simp at hnever
  | bufReady calls =>
    obtain ⟨fd, -, hstep⟩ := Option.bind_eq_some_iff.mp hstep
    obtain ⟨r, hr, rfl⟩ := Option.map_eq_some_iff.mp hstep
    refine .inl ⟨rfl, ?_⟩
    rcases Backend.bufReadyHandler_cases hr with hquiet | ⟨-, effs, heffs, hobserve⟩
    · exact quiet_status hquiet s.times
    · obtain ⟨b, effs'⟩ := r
      obtain rfl : effs' = effs ++ [.scheduleRepaint] := heffs
      rw [handled_eq hobserve]
      change (Loop.scheduleRepaint _).status = _
      rw [scheduleRepaint_backend]
      exact h.scheduleRepaint_status hactive hready
  | inputFd rounds =>
    obtain ⟨-, heq⟩ := Option.ite_none_right_eq_some.mp hstep
    rw [← Option.some.inj heq]
    exact .inl ⟨rfl, quiet_status (Backend.quiet_inputFdHandler _ rounds) s.times⟩
  | reconnectTimer calls =>
    obtain rfl := Option.some.inj hstep
    exact .inl ⟨rfl, quiet_status (Backend.quiet_reconnectTimerHandler _ calls) s.times⟩
  | windowEvent event sendOk =>
    obtain rfl := Option.some.inj hstep
    exact .inl ⟨rfl, quiet_status (Backend.quiet_returned _ _) s.times⟩
  | shutdown =>
    obtain rfl := Option.some.inj hstep
    exact .inl ⟨rfl, rfl⟩

theorem Inv.prompt_delay (h : s.Inv) (hactive : s.active = true)
    (hready : s.backend.consumerReady = true) (ls : List (Turn φ ρ)) :
    s.delay ls ≤ if s.status = .scheduled then 0 else 1 := by
  induction ls generalizing s with
  | nil => simp [Loop.delay]
  | cons l ls ih =>
    rw [Loop.delay]
    cases hpaints : s.paints l with
    | true => simp
    | false =>
      cases hstep : s.step l with
      | none => simp
      | some u =>
        by_cases hwaits : u.active = true ∧ u.backend.consumerReady = true
        · have hrest := ih (h.step hstep) hwaits.1 hwaits.2
          simp only [hwaits, Bool.and_true, Bool.false_eq_true, if_false, if_true]
          rcases h.step_status hstep hactive hready hpaints with ⟨hdue, hstatus⟩ | ⟨hstatus, hu⟩
          · rw [hstatus] at hrest
            simpa [hdue] using hrest
          · rw [if_pos hu] at hrest
            rw [if_neg hstatus]
            have := Bool.toNat_le (s.due l)
            omega
        · have hgone : (u.active && u.backend.consumerReady) = false := by simpa using hwaits
          simp [hgone]

/-- A consumer that has announced a buffer does not wait for its repaint for ever. -/
theorem prompt_of_run (e : Enabled φ ρ) (ls : List (Turn φ ρ)) :
    Always step Prompt (start e) ls := by
  apply always_of_invariant (fun s l u h hstep => Inv.step h hstep) ?_ (inv_start e)
  intro s h
  refine ⟨h.prompt_enabled, ?_⟩
  intro hactive hready ls
  have hdelay := h.prompt_delay hactive hready ls
  split_ifs at hdelay <;> omega

end Loop

/-- The consumer waits behind the first turn. -/
theorem prompt_firstFrame :
    (exec Loop.step (.start enabledOutput) (firstFrame.take 1)).any
        (fun s => s.active && s.backend.consumerReady) = true ∧
      Always Loop.step Loop.Prompt (.start enabledOutput) firstFrame :=
  ⟨by decide +kernel, Loop.prompt_of_run enabledOutput firstFrame⟩

end Anland
end ACGlass
