import ACGlass.Anland.RepaintLoop
import ACGlass.Anland.Renderbuffers
import ACGlass.Anland.InStep

/-!
# The repaint loop does not stop

Whatever the consumer, the clients and the timers do, no assertion of the loop fails, a
repaint that is not finished has exactly one source that will finish it, and a repaint that
is needed is on its way.
-/

namespace ACGlass
namespace Anland

open Transition

variable {φ ρ : Type*}

/-- An output that has been enabled. -/
structure Enabled (φ ρ : Type*) where
  backend : Backend φ ρ
  repaintMsec : ℤ
  clock : ℤ
  quiet : backend.consumerReady = false
  refresh_pos : 0 < refreshNsec (if backend.refresh = 0 then defaultRefresh else backend.refresh)
  clock_nonneg : 0 ≤ clock

namespace Loop

/-- No repaint is scheduled, and `frame_time` is zero. -/
def start (e : Enabled φ ρ) : Loop φ ρ where
  backend := e.backend
  repaintMsec := e.repaintMsec
  status := .notScheduled
  repaintNeeded := false
  active := true
  clock := e.clock
  frameTime := 0
  nextRepaint := 0
  idleRepaint := false
  finishIdle := 0
  frameTimer := none
  repaintTimer := none
  failed := false

/-- What an operation of the loop relies on: an unfinished repaint has one source that will
finish it, and a needed one is on its way. -/
structure Paced (s : Loop φ ρ) : Prop where
  refresh : 0 < s.refresh
  idle : s.idleRepaint = true ↔ s.status = .beginFromIdle
  completion : s.finishIdle + s.frameTimer.toList.length =
    if s.status = .awaitingCompletion then 1 else 0
  frameTime : s.frameTime ≤ s.clock
  deadline : ∀ d ∈ s.frameTimer, s.frameTime + s.refresh ≤ d
  needed : s.active = true → s.repaintNeeded = true → s.status ≠ .notScheduled
  passed : s.failed = false

/-- The timer of a scheduled repaint fires by the time that the repaint is due. -/
def Armed (s : Loop φ ρ) : Prop :=
  s.status = .scheduled → ∃ d ∈ s.repaintTimer, d ≤ max s.nextRepaint (s.clock + 1)

/-- What holds between two turns: moreover an announced buffer has its repaint. -/
structure Inv (s : Loop φ ρ) : Prop extends s.Paced where
  armed : s.Armed
  ready : s.active = true → s.backend.consumerReady = true →
    s.repaintNeeded = true ∨ s.frameTimer.isSome

variable {s t : Loop φ ρ}

theorem inv_start (e : Enabled φ ρ) : (start e).Inv where
  refresh := e.refresh_pos
  idle := by simp [start]
  completion := by simp [start]
  frameTime := e.clock_nonneg
  deadline := by simp [start]
  needed := by simp [start]
  passed := rfl
  armed := by simp [start, Armed]
  ready := by simp [start, e.quiet]

section Operations

theorem assert_of {p : Bool} (h : p = true) : s.assert p = s := by
  have hp : (s.failed || !p) = s.failed := by simp [h]
  rw [assert, hp]

/-- The timer of a scheduled repaint fires at the time of the repaint at the latest. -/
theorem armRepaintTimer_scheduled (t : Times) (h : s.status = .scheduled) :
    ∃ d ≤ max s.nextRepaint (t.third + 1), s.armRepaintTimer t =
      { s with repaintTimer := some d } := by
  unfold armRepaintTimer
  rw [if_pos h]
  dsimp only
  cases hmin : (t.requested.toList ++ [s.nextRepaint]).min? with
  | none => simp at hmin
  | some next =>
    have hnext : next ≤ s.nextRepaint := by
      exact (List.min?_eq_some_iff.mp hmin).2 _ (by simp)
    exact ⟨_, by omega, rfl⟩

/-- Arming the timer changes the timer only. -/
theorem armRepaintTimer_timer (s : Loop φ ρ) (t : Times) :
    ∃ timer, s.armRepaintTimer t = { s with repaintTimer := timer } := by
  unfold armRepaintTimer
  dsimp only
  split
  · exact ⟨s.repaintTimer, rfl⟩
  · exact ⟨_, rfl⟩

/-- A frame that was awaited is finished, and the next repaint is scheduled. -/
theorem finishFrame_spec {stamp : ℤ} (h : s.status = .awaitingCompletion)
    (hstamp : s.frameTime ≤ stamp) (invalid : Bool) (t : Times) :
    ∃ next, ∃ d ≤ max next (t.third + 1), s.finishFrame stamp invalid t = { s with
      frameTime := stamp, nextRepaint := next, status := .scheduled, clock := t.third
      repaintTimer := some d } := by
  have hassert : s.assert (s.status = .awaitingCompletion && s.frameTime ≤ stamp) = s := by
    exact assert_of (by simp [h, hstamp])
  unfold finishFrame
  rw [hassert]
  dsimp only
  generalize Loop.repaintFromPresent _ _ = next
  obtain ⟨d, hle, hd⟩ := armRepaintTimer_scheduled
    (s := { s with
      frameTime := stamp, nextRepaint := next, status := .scheduled, clock := t.third }) t rfl
  exact ⟨next, d, hle, hd⟩

/-- A repaint is asked for. -/
theorem Paced.scheduleRepaint_spec (h : s.Paced) : s.scheduleRepaint = s ∧ s.active = false ∨
    s.active = true ∧ s.status ≠ .notScheduled ∧
      s.scheduleRepaint = { s with repaintNeeded := true } ∨
    s.active = true ∧ s.status = .notScheduled ∧ s.scheduleRepaint = { s with
      repaintNeeded := true, status := .beginFromIdle, idleRepaint := true } := by
  unfold scheduleRepaint
  by_cases hactive : s.active = true
  · rw [if_neg (by simp [hactive])]
    dsimp only
    by_cases hstatus : s.status = .notScheduled
    · have hidle : s.idleRepaint = false := by
        by_contra hidle
        have := h.idle.mp (by simpa using hidle)
        simp [hstatus] at this
      have hassert : ({ s with repaintNeeded := true } : Loop φ ρ).assert (!s.idleRepaint) =
          { s with repaintNeeded := true } := assert_of (by simp [hidle])
      rw [if_neg (by simp [hstatus]), hassert]
      exact .inr (.inr ⟨hactive, hstatus, rfl⟩)
    · rw [if_pos hstatus]
      exact .inr (.inl ⟨hactive, hstatus, rfl⟩)
  · rw [if_pos (by simpa using hactive)]
    exact .inl ⟨rfl, by simpa using hactive⟩

/-- Nothing is lost by asking, and what is asked for is needed. -/
theorem Paced.scheduleRepaint (h : s.Paced) : s.scheduleRepaint.Paced ∧
    s.scheduleRepaint.active = s.active ∧ s.scheduleRepaint.backend = s.backend ∧
    (s.active = true → s.scheduleRepaint.repaintNeeded = true) := by
  rcases h.scheduleRepaint_spec with ⟨heq, hinactive⟩ | ⟨-, hstatus, heq⟩ | ⟨-, hstatus, heq⟩
  · rw [heq]
    exact ⟨h, rfl, rfl, by simp [hinactive]⟩
  · rw [heq]
    exact ⟨⟨h.refresh, h.idle, h.completion, h.frameTime, h.deadline, fun _ _ => hstatus,
      h.passed⟩, rfl, rfl, fun _ => rfl⟩
  · rw [heq]
    have hcompletion := h.completion
    rw [if_neg (by simp [hstatus])] at hcompletion
    exact ⟨⟨h.refresh, by simp, by simpa using hcompletion, h.frameTime, h.deadline, by simp,
      h.passed⟩, rfl, rfl, fun _ => rfl⟩

/-- The timer of a scheduled repaint is left as it is. -/
theorem Paced.scheduleRepaint_inv (h : s.Paced) (harmed : s.Armed) : s.scheduleRepaint.Inv := by
  obtain ⟨hpaced, hactive, -, hneeded⟩ := h.scheduleRepaint
  refine { hpaced with armed := ?_, ready := ?_ }
  · rcases h.scheduleRepaint_spec with ⟨heq, -⟩ | ⟨-, -, heq⟩ | ⟨-, -, heq⟩
    · rw [heq]
      exact harmed
    · rw [heq]
      exact harmed
    · rw [heq]
      simp [Armed]
  · intro hs _
    exact .inl (hneeded (hactive ▸ hs))

/-- The sources that could finish a repaint, when none is awaited. -/
theorem Paced.no_source (h : s.Paced) (hstatus : s.status ≠ .awaitingCompletion) :
    s.finishIdle = 0 ∧ s.frameTimer = none := by
  have hcompletion := h.completion
  rw [if_neg hstatus] at hcompletion
  obtain ⟨hidle, htimer⟩ := Nat.add_eq_zero_iff.mp hcompletion
  exact ⟨hidle, by simpa using htimer⟩

/-- The source that finishes the repaint has been taken. -/
theorem finishFrame_paced (stamp : ℤ) (invalid : Bool) {t : Times} (hrefresh : 0 < s.refresh)
    (hstatus : s.status = .awaitingCompletion) (hidle : s.idleRepaint = false)
    (hsources : s.finishIdle = 0 ∧ s.frameTimer = none) (hpassed : s.failed = false)
    (hback : s.frameTime ≤ stamp) (hahead : stamp ≤ t.third) :
    (s.finishFrame stamp invalid t).Paced ∧ (s.finishFrame stamp invalid t).Armed ∧
      (s.finishFrame stamp invalid t).active = s.active ∧
      (s.finishFrame stamp invalid t).backend = s.backend ∧
      (s.finishFrame stamp invalid t).repaintNeeded = s.repaintNeeded := by
  obtain ⟨next, d, hd, heq⟩ := finishFrame_spec hstatus hback invalid t
  rw [heq]
  obtain ⟨hnone, htimer⟩ := hsources
  refine ⟨?_, fun _ => ⟨d, rfl, hd⟩, rfl, rfl, rfl⟩
  exact
    { refresh := hrefresh
      idle := by simp [hidle]
      completion := by simp [hnone, htimer]
      frameTime := hahead
      deadline := by simp [htimer]
      needed := by simp
      passed := hpassed }

/-- An announced buffer has its repaint in another backend too. -/
theorem Inv.handled (h : s.Inv) {b : Backend φ ρ} (hrefresh : b.refresh = s.backend.refresh)
    (hready : s.active = true → b.consumerReady = true →
      s.repaintNeeded = true ∨ s.frameTimer.isSome) :
    ({ s with backend := b } : Loop φ ρ).Inv := by
  have heq : ({ s with backend := b } : Loop φ ρ).refresh = s.refresh := by
    rw [Loop.refresh, Loop.refresh, hrefresh]
  exact
    { refresh := heq.symm ▸ h.refresh
      idle := h.idle
      completion := h.completion
      frameTime := h.frameTime
      deadline := heq.symm ▸ h.deadline
      needed := h.needed
      passed := h.passed
      armed := h.armed
      ready := hready }

/-- The loop hears of the last call only. -/
theorem handled_eq {b : Backend φ ρ} {effs : List (Effect φ ρ)}
    (h : ∀ e ∈ effs, ∀ (t : Times) (s : Loop φ ρ), observe t s e = s)
    (rest : List (Effect φ ρ)) (t : Times) :
    s.handled t (b, effs ++ rest) = rest.foldl (observe t) { s with backend := b } := by
  have hquiet : ∀ u : Loop φ ρ, effs.foldl (observe t) u = u := by
    intro u
    induction effs with
    | nil => rfl
    | cons e effs ih =>
      rw [List.foldl_cons, h e (by simp)]
      exact ih (fun e he => h e (List.mem_cons_of_mem _ he))
  rw [Loop.handled, List.foldl_append, hquiet]

end Operations

end Loop

/-- A handler that leaves the loop alone: it calls nothing of it, and announces no buffer. -/
structure Quiet (b b' : Backend φ ρ) (effs : List (Effect φ ρ)) : Prop where
  effs : ∀ e ∈ effs, ∀ (t : Times) (s : Loop φ ρ), Loop.observe t s e = s
  ready : b'.consumerReady = true → b.consumerReady = true
  refresh : b'.refresh = b.refresh

section Quiet

variable {b b' b'' : Backend φ ρ} {effs effs' : List (Effect φ ρ)}

theorem Quiet.refl (b : Backend φ ρ) : Quiet b b [] := ⟨by simp, id, rfl⟩

theorem Quiet.trans (h : Quiet b b' effs) (h' : Quiet b' b'' effs') :
    Quiet b b'' (effs ++ effs') where
  effs e he := (List.mem_append.mp he).elim (h.effs e) (h'.effs e)
  ready hready := h.ready (h'.ready hready)
  refresh := h'.refresh.trans h.refresh

/-- The backend may tell anyone but the loop. -/
theorem Quiet.tell (h : Quiet b b' effs)
    (htell : ∀ e ∈ effs', ∀ (t : Times) (s : Loop φ ρ), Loop.observe t s e = s) :
    Quiet b b' (effs ++ effs') := by
  exact h.trans ⟨htell, id, rfl⟩

namespace Backend

theorem quiet_returned (b : Backend φ ρ) (out : Producer.Out φ) :
    Quiet b (b.returned out).1 (b.returned out).2 := by
  have hlib : ∀ e ∈ out.effs.map (Effect.lib (ρ := ρ)), ∀ (t : Times) (s : Loop φ ρ),
      Loop.observe t s e = s := by
    intro e he t s
    obtain ⟨e, -, rfl⟩ := List.mem_map.mp he
    rfl
  unfold returned
  dsimp only
  split
  · have hquiet : Quiet b ({ b with display := out.ctx }.fallbackCb).1 (out.effs.map .lib) :=
      ⟨hlib, by simp [fallbackCb], rfl⟩
    refine hquiet.tell ?_
    intro e he t s
    rw [fallbackCb] at he
    dsimp only at he
    split at he
    · obtain rfl := List.mem_singleton.mp he
      rfl
    · simp at he
  · exact ⟨hlib, id, rfl⟩

theorem quiet_sendWindowEvents (b : Backend φ ρ) (sends : List (Bytes × Bool)) :
    Quiet b (b.sendWindowEvents sends).1 (b.sendWindowEvents sends).2 := by
  induction sends generalizing b with
  | nil => exact Quiet.refl b
  | cons send sends ih =>
    obtain ⟨event, sendOk⟩ := send
    exact (quiet_returned b (b.display.pushWindowEvent event sendOk)).trans (ih _)

theorem quiet_inputLoop (b : Backend φ ρ) (rounds : List InputRound) :
    Quiet b (b.inputLoop rounds).1 (b.inputLoop rounds).2 := by
  induction rounds generalizing b with
  | nil => exact Quiet.refl b
  | cons round rounds ih =>
    rw [inputLoop]
    dsimp only
    split
    · exact quiet_returned b _
    · refine (((quiet_returned b _).tell ?_).trans (quiet_sendWindowEvents _ _)).trans (ih _)
      intro e he t s
      obtain ⟨event, -, rfl⟩ := List.mem_map.mp he
      split <;> rfl

theorem quiet_inputFdHandler (b : Backend φ ρ) (rounds : List InputRound) :
    Quiet b (b.inputFdHandler rounds).1 (b.inputFdHandler rounds).2 := by
  unfold inputFdHandler
  split
  · exact Quiet.refl b
  · exact quiet_inputLoop b rounds

theorem quiet_reconnectTimerHandler (b : Backend φ ρ) (calls : Producer.ReconnectCalls φ) :
    Quiet b (b.reconnectTimerHandler calls).1 (b.reconnectTimerHandler calls).2 := by
  have hupdate : ∀ (p : Bool) (ms : ℕ), ∀ e ∈ (if p then [.updateReconnectTimer ms] else [] :
      List (Effect φ ρ)), ∀ (t : Times) (s : Loop φ ρ), Loop.observe t s e = s := by
    intro p ms e he t s
    split at he
    · obtain rfl := List.mem_singleton.mp he
      rfl
    · simp at he
  have htry : Quiet b (b.dropRenderbuffers.tryReconnect calls).1
      (b.dropRenderbuffers.tryReconnect calls).2 := by
    have hreturned := quiet_returned b.dropRenderbuffers (b.display.tryReconnect calls)
    unfold tryReconnect
    dsimp only
    split
    · exact ⟨hreturned.effs, hreturned.ready, hreturned.refresh⟩
    · apply Quiet.tell ?_ (hupdate _ 0)
      exact ⟨hreturned.effs, hreturned.ready, hreturned.refresh⟩
  unfold reconnectTimerHandler
  split
  · exact Quiet.refl b
  · exact htry.tell (hupdate _ 200)

/-- The first buffer is imported without a word to the loop. -/
theorem quiet_importFrom (o : Output ρ) (i : ℕ) (bufs : List (φ × BufInfo))
    (created : List (Option ρ)) : ∀ e ∈ (o.importFrom i bufs created).2.1,
      ∀ (t : Times) (s : Loop φ ρ), Loop.observe t s e = s := by
  induction bufs generalizing o i created with
  | nil => simp [Output.importFrom]
  | cons buf bufs ih =>
    intro e he t s
    cases created with
    | nil =>
      obtain rfl := List.mem_singleton.mp he
      rfl
    | cons result created =>
      cases result with
      | none =>
        obtain rfl := List.mem_singleton.mp he
        rfl
      | some rb =>
        rcases List.mem_cons.mp he with rfl | he
        · rfl
        · exact ih _ _ _ e he t s

/-- Either the handler asks for a repaint, and that last, or the loop does not hear of it. -/
theorem bufReadyHandler_cases {fd : φ} {calls : BufReadyCalls φ ρ}
    {r : Backend φ ρ × List (Effect φ ρ)} (h : b.bufReadyHandler fd calls = some r) :
    Quiet b r.1 r.2 ∨ r.1.refresh = b.refresh ∧ ∃ effs, r.2 = effs ++ [.scheduleRepaint] ∧
      ∀ e ∈ effs, ∀ (t : Times) (s : Loop φ ρ), Loop.observe t s e = s := by
  unfold bufReadyHandler at h
  split at h
  · obtain rfl := Option.some.inj h
    refine .inr ⟨rfl, [.lib (.eventfdRead fd)], rfl, ?_⟩
    intro e he t s
    obtain rfl := List.mem_singleton.mp he
    rfl
  · obtain ⟨out, -, rfl⟩ := Option.map_eq_some_iff.mp h
    have hreturned := quiet_returned b out
    dsimp only
    split
    · exact .inl hreturned
    · have himported : (((b.returned out).1.firstBuffer calls.created).1.refresh = b.refresh) ∧
          ∀ e ∈ ((b.returned out).1.firstBuffer calls.created).2, ∀ (t : Times) (s : Loop φ ρ),
            Loop.observe t s e = s := by
        unfold firstBuffer Output.importDmabufs
        dsimp only
        split
        · exact ⟨hreturned.refresh, by simp⟩
        · exact ⟨hreturned.refresh, quiet_importFrom _ _ _ _⟩
      refine .inr ⟨himported.1, _, rfl, ?_⟩
      intro e he
      exact (List.mem_append.mp he).elim (hreturned.effs e) (himported.2 e)

/-- A repaint arms one source that finishes it. Only one that is not painted leaves the
announced buffer for later. -/
theorem outputRepaint_cases (b : Backend φ ρ) (damage : Region) (shm : UInt32) :
    (b.outputRepaint damage shm = (b, [.armFrameTimer])) ∨
    (b.outputRepaint damage shm).1.consumerReady = false ∧
      (b.outputRepaint damage shm).1.refresh = b.refresh ∧
      ∃ effs next, (b.outputRepaint damage shm).2 = effs ++ [next] ∧
        (next = .addIdle ∨ next = .armFrameTimer) ∧
        ∀ e ∈ effs, ∀ (t : Times) (s : Loop φ ρ), Loop.observe t s e = s := by
  cases ht : b.target shm with
  | none => exact .inl (outputRepaint_none b ht damage)
  | some found =>
    obtain ⟨idx, rb⟩ := found
    rw [outputRepaint, ht]
    dsimp only
    have hnext : (if b.refresh = 0 then .addIdle else .armFrameTimer : Effect φ ρ) = .addIdle ∨
        (if b.refresh = 0 then .addIdle else .armFrameTimer : Effect φ ρ) = .armFrameTimer := by
      split_ifs
      · exact .inl rfl
      · exact .inr rfl
    generalize (if b.refresh = 0 then .addIdle else .armFrameTimer : Effect φ ρ) = next at hnext ⊢
    set output := b.output.accumulate (damage ∪ b.output.region)
    set painted : Effect φ ρ := .repaintOutput idx (output.accumDamage idx) rb
    have hpainted : ∀ (t : Times) (s : Loop φ ρ), Loop.observe t s painted = s := fun _ _ => rfl
    have hreturned := quiet_returned { b with output := output.settle idx }
      b.display.triggerRefresh
    split_ifs with hready
    · refine .inr ⟨rfl, hreturned.refresh, painted :: _, next, rfl, hnext, ?_⟩
      intro e he
      rcases List.mem_cons.mp he with rfl | he
      · exact hpainted
      · exact hreturned.effs e he
    · refine .inr ⟨by simpa using hready, rfl, [painted], next, rfl, hnext, ?_⟩
      intro e he
      obtain rfl := List.mem_singleton.mp he
      exact hpainted

end Backend

end Quiet

namespace Loop

section Steps

variable {s u : Loop φ ρ}

theorem Inv.quiet (h : s.Inv) {r : Backend φ ρ × List (Effect φ ρ)} (hr : Quiet s.backend r.1 r.2)
    (t : Times) : (s.handled t r).Inv := by
  obtain ⟨b, effs⟩ := r
  have heq := handled_eq (s := s) (b := b) hr.effs [] t
  rw [List.append_nil] at heq
  rw [heq]
  exact h.handled hr.refresh (fun hactive hready => h.ready hactive (hr.ready hready))

theorem scheduleRepaint_backend (b : Backend φ ρ) :
    ({ s with backend := b } : Loop φ ρ).scheduleRepaint =
      { s.scheduleRepaint with backend := b } := by
  unfold Loop.scheduleRepaint
  dsimp only
  split_ifs <;> rfl

theorem Inv.bufReady (h : s.Inv) {fd : φ} {calls : BufReadyCalls φ ρ}
    {r : Backend φ ρ × List (Effect φ ρ)} (hr : s.backend.bufReadyHandler fd calls = some r)
    (t : Times) : (s.handled t r).Inv := by
  rcases Backend.bufReadyHandler_cases hr with hquiet | ⟨hrefresh, effs, heffs, hobserve⟩
  · exact h.quiet hquiet t
  · obtain ⟨b, effs'⟩ := r
    obtain rfl : effs' = effs ++ [.scheduleRepaint] := heffs
    obtain ⟨-, hactive, hbackend, hneeded⟩ := h.toPaced.scheduleRepaint
    have heq : s.handled t (b, effs ++ [.scheduleRepaint]) =
        ({ s with backend := b } : Loop φ ρ).scheduleRepaint := by
      exact handled_eq hobserve _ t
    rw [heq, scheduleRepaint_backend]
    apply (h.toPaced.scheduleRepaint_inv h.armed).handled
    · exact hrefresh.trans (by rw [hbackend])
    · intro hs _
      exact .inl (hneeded (hactive ▸ hs))

theorem Inv.idleRepaintHandler (h : s.Inv) {t : Times} (hidle : s.idleRepaint = true)
    (ht : t.From s.clock) : (s.idleRepaintHandler t).Inv := by
  have hstatus := h.idle.mp hidle
  have hsources := h.no_source (by simp [hstatus])
  obtain ⟨hfirst, hsecond, hthird⟩ := ht
  have hassert : s.assert (s.status = .beginFromIdle) = s := assert_of (by simp [hstatus])
  unfold Loop.idleRepaintHandler
  rw [hassert]
  dsimp only
  split_ifs with hactive
  · have hinactive : s.active = false := by simpa using hactive
    have hcompletion := h.completion
    rw [if_neg (by simp [hstatus])] at hcompletion
    exact
      { refresh := h.refresh
        idle := by simp [scheduleRepaintReset]
        completion := by simpa [scheduleRepaintReset] using hcompletion
        frameTime := h.frameTime
        deadline := h.deadline
        needed := fun hs => by simp [scheduleRepaintReset, hinactive] at hs
        passed := h.passed
        armed := by simp [scheduleRepaintReset, Armed]
        ready := fun hs => by simp [scheduleRepaintReset, hinactive] at hs }
  · have hframe := h.frameTime
    obtain ⟨hpaced, harmed, -, hbackend, hneeded⟩ := finishFrame_paced
      (s := { s with status := .awaitingCompletion, idleRepaint := false })
      (t := t) t.first true h.refresh rfl rfl hsources h.passed
      (hframe.trans hfirst) (by omega)
    refine { hpaced with armed := harmed, ready := ?_ }
    intro _ hready
    have hs := h.ready (by simpa using hactive) (hbackend ▸ hready)
    rw [hsources.2] at hs
    exact .inl (hneeded.trans (by simpa using hs))

/-- A source that finishes a repaint is the only one, and no repaint is on its way. -/
theorem Paced.awaited (h : s.Paced) (hsource : 0 < s.finishIdle ∨ s.frameTimer.isSome) :
    s.status = .awaitingCompletion ∧ s.idleRepaint = false ∧
      s.finishIdle + s.frameTimer.toList.length = 1 := by
  have hcompletion := h.completion
  have hstatus : s.status = .awaitingCompletion := by
    by_contra hstatus
    obtain ⟨hidle, htimer⟩ := h.no_source hstatus
    simp [hidle, htimer] at hsource
  rw [if_pos hstatus] at hcompletion
  refine ⟨hstatus, ?_, hcompletion⟩
  by_contra hidle
  have := h.idle.mp (by simpa using hidle)
  simp [hstatus] at this

theorem Inv.finishFrameIdle (h : s.Inv) {t : Times} (hidle : 0 < s.finishIdle)
    (ht : t.From s.clock) : (s.finishFrameIdle t).Inv := by
  obtain ⟨hstatus, hnone, hcompletion⟩ := h.awaited (.inl hidle)
  obtain ⟨hfirst, hsecond, hthird⟩ := ht
  have htimer : s.frameTimer = none := by
    rw [← List.length_eq_zero_iff.trans Option.toList_eq_nil_iff]
    omega
  obtain ⟨hpaced, harmed, hactive, hbackend, hneeded⟩ := finishFrame_paced
    (s := { s with finishIdle := s.finishIdle - 1 }) (t := t) t.first false h.refresh
    hstatus hnone ⟨by dsimp only; omega, htimer⟩ h.passed (h.frameTime.trans hfirst) (by omega)
  refine { hpaced with armed := harmed, ready := ?_ }
  intro hs hready
  have hneed := h.ready (hactive ▸ hs) (hbackend ▸ hready)
  rw [htimer] at hneed
  exact .inl (hneeded.trans (by simpa using hneed))

/-- The timer reports the time that it was meant for, or a later one that has passed. -/
theorem Inv.finishFrameHandler (h : s.Inv) {t : Times} {d : ℤ} (hd : s.frameTimer = some d)
    (hdue : d ≤ t.first) (ht : t.From s.clock) :
    ({ s with frameTimer := none }.handled t (s.backend, s.backend.finishFrameHandler)).Inv := by
  obtain ⟨hstatus, hnone, hcompletion⟩ := h.awaited (.inr (by simp [hd]))
  obtain ⟨hfirst, hsecond, hthird⟩ := ht
  have hidle : s.finishIdle = 0 := by simpa [hd] using hcompletion
  have hdeadline := h.deadline d (by simp [hd])
  have hrefresh := h.refresh
  have hframe := h.frameTime
  generalize hstamp : (if 1500000 < (t.first - (s.frameTime + s.refresh)).bmod (2 ^ 32) then t.first
    else s.frameTime + s.refresh) = stamp
  have hbounds : s.frameTime ≤ stamp ∧ stamp ≤ t.third := by
    split_ifs at hstamp <;> omega
  obtain ⟨hpaced, harmed, hactive, hbackend, hneeded⟩ := finishFrame_paced
    (s := { s with frameTimer := none }) (t := t) stamp false hrefresh hstatus hnone
    ⟨hidle, rfl⟩ h.passed hbounds.1 hbounds.2
  have heq : ({ s with frameTimer := none } : Loop φ ρ).finishFrameFromTimer t =
      ({ s with frameTimer := none } : Loop φ ρ).finishFrame stamp false t := by
    rw [← hstamp]
    rfl
  rw [← heq] at hpaced harmed hactive hbackend
  unfold Backend.finishFrameHandler
  cases hready : s.backend.consumerReady with
  | false =>
    refine { hpaced with armed := harmed, ready := ?_ }
    intro _ hs
    exact absurd (hs.symm.trans ((congrArg Backend.consumerReady hbackend).trans hready)) (by simp)
  | true => exact hpaced.scheduleRepaint_inv harmed

/-- The timer is armed again with the time that a handler reads last. -/
theorem Paced.armRepaintTimer (h : s.Paced) {t : Times} (ht : s.clock ≤ t.third)
    (hready : s.active = true → s.backend.consumerReady = true →
      s.repaintNeeded = true ∨ s.frameTimer.isSome) :
    ({ s with clock := t.third }.armRepaintTimer t).Inv := by
  have hpaced : ({ s with clock := t.third } : Loop φ ρ).Paced :=
    ⟨h.refresh, h.idle, h.completion, h.frameTime.trans ht, h.deadline, h.needed, h.passed⟩
  by_cases hstatus : s.status = .scheduled
  · obtain ⟨d, hd, heq⟩ := armRepaintTimer_scheduled (s := { s with clock := t.third }) t hstatus
    rw [heq]
    exact
      { refresh := hpaced.refresh
        idle := hpaced.idle
        completion := hpaced.completion
        frameTime := hpaced.frameTime
        deadline := hpaced.deadline
        needed := hpaced.needed
        passed := hpaced.passed
        armed := fun _ => ⟨d, rfl, hd⟩
        ready := hready }
  · obtain ⟨timer, heq⟩ := armRepaintTimer_timer { s with clock := t.third } t
    rw [heq]
    exact
      { refresh := hpaced.refresh
        idle := hpaced.idle
        completion := hpaced.completion
        frameTime := hpaced.frameTime
        deadline := hpaced.deadline
        needed := hpaced.needed
        passed := hpaced.passed
        armed := fun hs => absurd hs hstatus
        ready := hready }

theorem Paced.scheduleRepaintReset (h : s.Paced) (hstatus : s.status = .scheduled)
    (hunneeded : s.active = true → s.repaintNeeded = false) : s.scheduleRepaintReset.Paced where
  refresh := h.refresh
  idle := by simpa [Loop.scheduleRepaintReset, hstatus] using h.idle
  completion := by simpa [Loop.scheduleRepaintReset, hstatus] using h.completion
  frameTime := h.frameTime
  deadline := h.deadline
  needed hactive hneeded := by
    have := hunneeded hactive
    simp [Loop.scheduleRepaintReset, this] at hneeded
  passed := h.passed

/-- The frame timer gives the output at least the rest of its frame. -/
theorem armFrameTimer_deadline (s : Loop φ ρ) {now : ℤ} (hnow : s.frameTime ≤ now) :
    ∃ d, s.armFrameTimer now = { s with frameTimer := some d } ∧ s.frameTime + s.refresh ≤ d := by
  refine ⟨_, rfl, ?_⟩
  omega

/-- A repaint asks for one source that finishes it. -/
theorem repaint_spec (s : Loop φ ρ) (damage : Region) (shm : UInt32) (t : Times) :
    ∃ b next, b.refresh = s.backend.refresh ∧
      (next = .addIdle ∧ b.consumerReady = false ∨ next = .armFrameTimer) ∧
      s.repaint damage shm t = { observe t { s with backend := b } next with
        repaintNeeded := false, status := .awaitingCompletion } := by
  rcases Backend.outputRepaint_cases s.backend damage shm with heq |
    ⟨hready, hrefresh, effs, next, heffs, hnext, hobserve⟩
  · refine ⟨s.backend, .armFrameTimer, rfl, .inr rfl, ?_⟩
    rw [Loop.repaint, heq]
    rfl
  · refine ⟨(s.backend.outputRepaint damage shm).1, next, hrefresh, ?_, ?_⟩
    · exact hnext.imp (fun h => ⟨h, hready⟩) id
    · have heq : s.backend.outputRepaint damage shm =
          ((s.backend.outputRepaint damage shm).1, effs ++ [next]) := Prod.ext rfl heffs
      have hhandled := handled_eq (s := s) (b := (s.backend.outputRepaint damage shm).1)
        hobserve [next] t
      rw [← heq] at hhandled
      rw [Loop.repaint, hhandled]
      rfl

/-- A repaint awaits its completion from that source. -/
theorem Paced.repaint (h : s.Paced) (hstatus : s.status = .scheduled) {t : Times}
    (ht : s.clock ≤ t.second) (damage : Region) (shm : UInt32) :
    (s.repaint damage shm t).Paced ∧ (s.repaint damage shm t).clock = s.clock ∧
      ((s.repaint damage shm t).backend.consumerReady = true →
        (s.repaint damage shm t).frameTimer.isSome) := by
  obtain ⟨hidle, htimer⟩ := h.no_source (by simp [hstatus])
  have hnone : s.idleRepaint = false := by
    by_contra hnone
    have := h.idle.mp (by simpa using hnone)
    simp [hstatus] at this
  obtain ⟨b, next, hrefresh, hnext, heq⟩ := repaint_spec s damage shm t
  have hsame : ({ s with backend := b } : Loop φ ρ).refresh = s.refresh := by
    rw [Loop.refresh, Loop.refresh, hrefresh]
  rw [heq]
  rcases hnext with ⟨rfl, hready⟩ | rfl
  · refine ⟨?_, rfl, fun hs => absurd (hready.symm.trans hs) (by simp)⟩
    exact
      { refresh := hsame.symm ▸ h.refresh
        idle := by simp [observe, hnone]
        completion := by simp [observe, hidle, htimer]
        frameTime := h.frameTime
        deadline := by simp [observe, htimer]
        needed := by simp
        passed := h.passed }
  · obtain ⟨d, hd, hdeadline⟩ := armFrameTimer_deadline { s with backend := b }
      (h.frameTime.trans ht)
    rw [observe, hd]
    refine ⟨?_, rfl, fun _ => rfl⟩
    exact
      { refresh := hsame.symm ▸ h.refresh
        idle := by simp [hnone]
        completion := by simp [hidle]
        frameTime := h.frameTime
        deadline := by
          intro d' hd'
          obtain rfl := Option.some.inj hd'
          exact hdeadline
        needed := by simp
        passed := h.passed }

/-- A scheduled repaint is early, dropped or done. -/
theorem checkRepaint_cases (s : Loop φ ρ) (barriers : Bool) (t : Times) :
    s.checkRepaint barriers t = (s, false) ∨
    s.status = .scheduled ∧ s.active = false ∧
      s.checkRepaint barriers t = (s.scheduleRepaintReset, false) ∨
    s.status = .scheduled ∧ s.repaintNeeded = false ∧ s.checkRepaint barriers t =
      ({ s with repaintNeeded := false }.scheduleRepaintReset, false) ∨
    s.status = .scheduled ∧ s.active = true ∧
      s.checkRepaint barriers t = ({ s with repaintNeeded := true }, true) := by
  unfold checkRepaint
  by_cases hstatus : s.status = .scheduled
  swap
  · rw [if_pos hstatus]
    exact .inl rfl
  rw [if_neg (by simp [hstatus])]
  dsimp only
  split_ifs with hearly hactive hneeded
  · exact .inl rfl
  · exact .inr (.inl ⟨hstatus, by simpa using hactive, rfl⟩)
  · obtain ⟨hbarriers, hneeded⟩ : barriers = false ∧ s.repaintNeeded = false := by
      simpa using hneeded
    refine .inr (.inr (.inl ⟨hstatus, hneeded, ?_⟩))
    rw [hbarriers, hneeded]
    rfl
  · have hneeded : (barriers || s.repaintNeeded) = true := by
      simpa only [Bool.not_eq_true', Bool.not_eq_false] using hneeded
    refine .inr (.inr (.inr ⟨hstatus, by simpa using hactive, ?_⟩))
    rw [hneeded]

/-- The timer has fired. -/
theorem Paced.repaintTimerHandler (h : s.Paced) {t : Times} (ht : t.From s.clock)
    (hready : s.active = true → s.backend.consumerReady = true →
      s.repaintNeeded = true ∨ s.frameTimer.isSome) (barriers : Bool) (damage : Region)
    (shm : UInt32) : (s.repaintTimerHandler barriers damage shm t).Inv := by
  obtain ⟨hfirst, hsecond, hthird⟩ := ht
  have hclock : s.clock ≤ t.third := hfirst.trans (hsecond.trans hthird)
  unfold Loop.repaintTimerHandler
  rcases checkRepaint_cases s barriers t with heq | ⟨hstatus, hactive, heq⟩ |
    ⟨hstatus, hneeded, heq⟩ | ⟨hstatus, -, heq⟩
  · rw [heq]
    exact h.armRepaintTimer hclock hready
  · rw [heq]
    have hreset := h.scheduleRepaintReset hstatus fun hs => by simp [hactive] at hs
    apply hreset.armRepaintTimer hclock
    exact fun hs => absurd (hactive.symm.trans hs) (by simp)
  · rw [heq]
    have hsame : ({ s with repaintNeeded := false } : Loop φ ρ) = s := by rw [← hneeded]
    rw [hsame]
    exact (h.scheduleRepaintReset hstatus (fun _ => hneeded)).armRepaintTimer hclock hready
  · rw [heq]
    dsimp only [if_true]
    have hpaced : ({ s with repaintNeeded := true } : Loop φ ρ).Paced :=
      ⟨h.refresh, h.idle, h.completion, h.frameTime, h.deadline, by simp [hstatus], h.passed⟩
    obtain ⟨hrepaint, hsame, htimer⟩ := hpaced.repaint hstatus (t := t)
      (hfirst.trans hsecond) damage shm
    exact hrepaint.armRepaintTimer (hsame.le.trans hclock) (fun _ hs => .inr (htimer hs))

/-- One turn of the loop. -/
theorem Inv.step (h : s.Inv) {l : Turn φ ρ} (hstep : s.step l = some u) : u.Inv := by
  cases l with
  | schedule =>
    obtain rfl := Option.some.inj hstep
    exact h.toPaced.scheduleRepaint_inv h.armed
  | idleRepaint t =>
    obtain ⟨⟨hidle, ht⟩, heq⟩ := Option.ite_none_right_eq_some.mp hstep
    exact Option.some.inj heq ▸ h.idleRepaintHandler hidle ht
  | finishIdle t =>
    obtain ⟨⟨hidle, ht⟩, heq⟩ := Option.ite_none_right_eq_some.mp hstep
    exact Option.some.inj heq ▸ h.finishFrameIdle hidle ht
  | frameTimer t =>
    obtain ⟨d, hd, hstep⟩ := Option.bind_eq_some_iff.mp hstep
    obtain ⟨⟨hdue, ht⟩, heq⟩ := Option.ite_none_right_eq_some.mp hstep
    exact Option.some.inj heq ▸ h.finishFrameHandler hd hdue ht
  | repaintTimer barriers damage shm t =>
    obtain ⟨d, hd, hstep⟩ := Option.bind_eq_some_iff.mp hstep
    obtain ⟨⟨-, ht⟩, heq⟩ := Option.ite_none_right_eq_some.mp hstep
    have hpaced : ({ s with repaintTimer := none } : Loop φ ρ).Paced :=
      ⟨h.refresh, h.idle, h.completion, h.frameTime, h.deadline, h.needed, h.passed⟩
    exact Option.some.inj heq ▸ hpaced.repaintTimerHandler ht h.ready barriers damage shm
  | bufReady calls =>
    obtain ⟨fd, -, hstep⟩ := Option.bind_eq_some_iff.mp hstep
    obtain ⟨r, hr, rfl⟩ := Option.map_eq_some_iff.mp hstep
    exact h.bufReady hr s.times
  | inputFd rounds =>
    obtain ⟨-, heq⟩ := Option.ite_none_right_eq_some.mp hstep
    exact Option.some.inj heq ▸ h.quiet (Backend.quiet_inputFdHandler _ rounds) s.times
  | reconnectTimer calls =>
    obtain rfl := Option.some.inj hstep
    exact h.quiet (Backend.quiet_reconnectTimerHandler _ calls) s.times
  | windowEvent event sendOk =>
    obtain rfl := Option.some.inj hstep
    exact h.quiet (Backend.quiet_returned _ _) s.times
  | shutdown =>
    obtain rfl := Option.some.inj hstep
    exact
      { refresh := h.refresh
        idle := h.idle
        completion := h.completion
        frameTime := h.frameTime
        deadline := h.deadline
        needed := by simp
        passed := h.passed
        armed := h.armed
        ready := by simp }

end Steps

/-- No assertion has failed, no frame is from the future, an unfinished repaint has one source
that will finish it, and a needed repaint is on its way. -/
structure KeepsGoing (s : Loop φ ρ) : Prop where
  passed : s.failed = false
  frameTime : s.frameTime ≤ s.clock
  completion : s.finishIdle + s.frameTimer.toList.length =
    if s.status = .awaitingCompletion then 1 else 0
  needed : s.active = true → s.repaintNeeded = true →
    s.status = .beginFromIdle ∧ s.idleRepaint = true ∨ s.status = .awaitingCompletion ∨
      s.status = .scheduled ∧ ∃ d ∈ s.repaintTimer, d ≤ max s.nextRepaint (s.clock + 1)

/-- The repaint loop of an enabled output keeps going, whatever happens around it. -/
theorem keepsGoing_of_run (e : Enabled φ ρ) (ls : List (Turn φ ρ)) :
    Always step KeepsGoing (start e) ls := by
  apply always_of_invariant (fun s l u h hstep => Inv.step h hstep) ?_ (inv_start e)
  intro s h
  refine ⟨h.passed, h.frameTime, h.completion, ?_⟩
  intro hactive hneeded
  cases hstatus : s.status with
  | notScheduled => exact absurd hstatus (h.needed hactive hneeded)
  | beginFromIdle => exact .inl ⟨rfl, h.idle.mpr hstatus⟩
  | scheduled => exact .inr (.inr ⟨rfl, h.armed hstatus⟩)
  | awaitingCompletion => exact .inr (.inl rfl)

end Loop

/-- An output at 60 Hz that is enabled at the first second. -/
def enabledOutput : Enabled ℕ ℕ where
  backend := (backendCreate connected true (.fresh 1080 2400 ∅)).get (by decide)
  repaintMsec := 7
  clock := 1000000000
  quiet := by decide
  refresh_pos := by decide
  clock_nonneg := by decide

/-- A handler that takes no time. -/
def Times.at (now : ℤ) : Times := ⟨now, now, now, false, none⟩

/-- The consumer announces its first buffer, which is painted and finished. -/
def firstFrame : List (Turn ℕ ℕ) :=
  [.bufReady ⟨connected.pickup, [.ready true false],
      ⟨some ⟨dataMsgSize, ⟨.bufsReady, bufInfoSize⟩, [11]⟩, some [⟨4320, 1, 0, 0⟩]⟩, [some 20]⟩,
    .idleRepaint (.at 1000000000),
    .repaintTimer false ∅ 0 (.at 1010000000),
    .frameTimer (.at 1017000000)]

theorem keepsGoing_firstFrame :
    (exec Loop.step (.start enabledOutput) firstFrame).isSome = true ∧
      Always Loop.step Loop.KeepsGoing (.start enabledOutput) firstFrame :=
  ⟨by decide +kernel, Loop.keepsGoing_of_run enabledOutput firstFrame⟩

end Anland
end ACGlass
