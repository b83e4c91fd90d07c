import ACGlass.Anland.Backend
import ACGlass.Transition

/-!
# The repaint loop

What libweston's `compositor.c` does with the one output of the backend: the status of its
repaint, the idle sources and the two timers that carry it on, and the backend's handlers in
between. Times are nanoseconds of one clock. A failed assertion is recorded in `failed`.
-/

namespace ACGlass
namespace Anland

open Transition

variable {φ ρ : Type*}

/-- `enum weston_repaint_status`; this backend never defers. -/
inductive RepaintStatus
  | notScheduled
  | beginFromIdle
  | scheduled
  | awaitingCompletion
  deriving DecidableEq, Repr

/-- `millihz_to_nsec` into an `int`. -/
def refreshNsec (mhz : UInt32) : ℤ := Int.bmod (10 ^ 12 / mhz.toNat : ℕ) (2 ^ 32)

def defaultRefresh : UInt32 := 120000

/-- The clock as one handler reads it, one time after the other, whether a content update
forces its time, and the earliest time that one asks for. -/
structure Times where
  first : ℤ
  second : ℤ
  third : ℤ
  forced : Bool
  requested : Option ℤ
  deriving DecidableEq, Repr

/-- The clock does not go back. -/
def Times.From (t : Times) (clock : ℤ) : Prop :=
  clock ≤ t.first ∧ t.first ≤ t.second ∧ t.second ≤ t.third

instance (t : Times) (clock : ℤ) : Decidable (t.From clock) :=
  inferInstanceAs (Decidable (_ ∧ _ ∧ _))

/-- `active`: the compositor is not `SLEEPING` or `OFFSCREEN`. `idleRepaint` is
`idle_repaint_source`, `finishIdle` counts the idle sources of the backend, and a timer is the
time from which on it fires. -/
structure Loop (φ ρ : Type*) where
  backend : Backend φ ρ
  repaintMsec : ℤ
  status : RepaintStatus
  repaintNeeded : Bool
  active : Bool
  clock : ℤ
  frameTime : ℤ
  nextRepaint : ℤ
  idleRepaint : Bool
  finishIdle : ℕ
  frameTimer : Option ℤ
  repaintTimer : Option ℤ
  failed : Bool

/-- The `while` of `weston_output_finish_frame`: `window` milliseconds are left before the
next presentation. -/
def postpone (refresh window now present : ℤ) : ℤ :=
  if 0 < refresh ∧ (present - now).tdiv 1000000 < window then
    postpone refresh window now (present + refresh)
  else present
termination_by (now + window * 1000000 + 1000000 - present).toNat
decreasing_by
  rename_i h
  obtain ⟨hpos, hlate⟩ := h
  have hsplit := Int.mul_tdiv_add_tmod (present - now) 1000000
  have hrest := Int.tmod_lt_of_pos (present - now) (b := 1000000) (by omega)
  omega

namespace Loop

variable (s : Loop φ ρ)

def assert (p : Bool) : Loop φ ρ := { s with failed := s.failed || !p }

/-- The refresh interval of the current mode. -/
def refresh : ℤ := refreshNsec (if s.backend.refresh = 0 then defaultRefresh else s.backend.refresh)

/-- `weston_output_repaint_msec` -/
def window : ℤ :=
  let refreshMsec := s.refresh.tdiv 1000000
  let msec := if refreshMsec < s.repaintMsec then refreshMsec - 1 else s.repaintMsec
  if msec < 1 then 1 else msec

/-- `weston_output_repaint_from_present` without tearing and variable refresh. -/
def repaintFromPresent (present : ℤ) : ℤ :=
  let framesSince := (present - s.frameTime - 1).tdiv s.refresh
  s.frameTime + s.refresh * (framesSince + 1) - s.window * 1000000

/-- `weston_repaint_timer_arm` -/
def armRepaintTimer (t : Times) : Loop φ ρ :=
  let wanted := t.requested.toList ++ if s.status = .scheduled then [s.nextRepaint] else []
  match wanted.min? with
  | none => s
  | some next => { s with repaintTimer := some (t.third + max 1 (next - t.third)) }

def scheduleRepaintReset : Loop φ ρ := { s with status := .notScheduled }

def scheduleRepaint : Loop φ ρ :=
  if !s.active then s
  else
    let s := { s with repaintNeeded := true }
    if s.status ≠ .notScheduled then s
    else { s.assert (!s.idleRepaint) with status := .beginFromIdle, idleRepaint := true }

/-- `weston_output_finish_frame` with a stamp; `invalid` is
`WP_PRESENTATION_FEEDBACK_INVALID`. -/
def finishFrame (stamp : ℤ) (invalid : Bool) (t : Times) : Loop φ ρ :=
  let s := s.assert (s.status = .awaitingCompletion && s.frameTime ≤ stamp)
  let s := { s with frameTime := stamp }
  let present := stamp + s.refresh
  let ahead := (present - t.second).tdiv 1000000
  let present := if ahead < -1000 ∨ 1000 < ahead then t.second else present
  let present :=
    if invalid && !t.forced then postpone s.refresh s.window t.second present else present
  let s :=
    { s with nextRepaint := s.repaintFromPresent present, status := .scheduled, clock := t.third }
  s.armRepaintTimer t

/-- `weston_output_arm_frame_timer` -/
def armFrameTimer (now : ℤ) : Loop φ ρ :=
  let delay := max 1 (min (s.frameTime + s.refresh - now) s.refresh)
  { s with frameTimer := some (now + (delay + 999999) / 1000000 * 1000000) }

/-- `weston_output_finish_frame_from_timer` -/
def finishFrameFromTimer (t : Times) : Loop φ ρ :=
  let stamp := s.frameTime + s.refresh
  let delta := (t.first - stamp).bmod (2 ^ 32)
  s.finishFrame (if 1500000 < delta then t.first else stamp) false t

/-- `anland_output_start_repaint_loop` -/
def startRepaintLoop (t : Times) : Loop φ ρ := s.finishFrame t.first true t

/-- `idle_repaint` -/
def idleRepaintHandler (t : Times) : Loop φ ρ :=
  let s := s.assert (s.status = .beginFromIdle)
  let s := { s with status := .awaitingCompletion, idleRepaint := false }
  if !s.active then s.scheduleRepaintReset else s.startRepaintLoop t

/-- `finish_frame_idle` -/
def finishFrameIdle (t : Times) : Loop φ ρ :=
  { s with finishIdle := s.finishIdle - 1 }.finishFrame t.first false t

/-- A call of a handler of the backend. -/
def observe (t : Times) (s : Loop φ ρ) : Effect φ ρ → Loop φ ρ
  | .finishFrame => s.finishFrameFromTimer t
  | .scheduleRepaint => s.scheduleRepaint
  | .armFrameTimer => s.armFrameTimer t.second
  | .addIdle => { s with finishIdle := s.finishIdle + 1 }
  | _ => s

/-- A handler of the backend has run. -/
def handled (t : Times) (r : Backend φ ρ × List (Effect φ ρ)) : Loop φ ρ :=
  r.2.foldl (observe t) { s with backend := r.1 }

/-- `weston_output_check_repaint`; `barriers` is `weston_fifo_output_has_barriers`. -/
def checkRepaint (barriers : Bool) (t : Times) : Loop φ ρ × Bool :=
  if s.status ≠ .scheduled then (s, false)
  else if 1 < (s.nextRepaint - t.first).tdiv 1000000 then (s, false)
  else if !s.active then (s.scheduleRepaintReset, false)
  else
    let s := { s with repaintNeeded := barriers || s.repaintNeeded }
    if !s.repaintNeeded then (s.scheduleRepaintReset, false) else (s, true)

/-- `weston_output_repaint` with `anland_output_repaint`, which returns 0. -/
def repaint (damage : Region) (shm : UInt32) (t : Times) : Loop φ ρ :=
  let s := s.handled t (s.backend.outputRepaint damage shm)
  { s with repaintNeeded := false, status := .awaitingCompletion }

/-- `output_repaint_timer_handler` past `weston_compositor_apply_transactions`. -/
def repaintTimerHandler (barriers : Bool) (damage : Region) (shm : UInt32) (t : Times) :
    Loop φ ρ :=
  let (s, due) := s.checkRepaint barriers t
  let s := if due then s.repaint damage shm t else s
  { s with clock := t.third }.armRepaintTimer t

/-- A handler that does not read the clock. -/
def times : Times := ⟨s.clock, s.clock, s.clock, false, none⟩

end Loop

/-- `schedule` stands for everything else that damages the output. -/
inductive Turn (φ ρ : Type*)
  | schedule
  | idleRepaint (t : Times)
  | finishIdle (t : Times)
  | frameTimer (t : Times)
  | repaintTimer (barriers : Bool) (damage : Region) (shm : UInt32) (t : Times)
  | bufReady (calls : BufReadyCalls φ ρ)
  | inputFd (rounds : List InputRound)
  | reconnectTimer (calls : Producer.ReconnectCalls φ)
  | windowEvent (event : Bytes) (sendOk : Bool)
  | shutdown

namespace Loop

variable (s : Loop φ ρ)

/-- The event loop dispatches an idle source that has been added, and a timer that is due. -/
def step (s : Loop φ ρ) : Turn φ ρ → Option (Loop φ ρ)
  | .schedule => some s.scheduleRepaint
  | .idleRepaint t =>
    if s.idleRepaint = true ∧ t.From s.clock then some (s.idleRepaintHandler t) else none
  | .finishIdle t =>
    if 0 < s.finishIdle ∧ t.From s.clock then some (s.finishFrameIdle t) else none
  | .frameTimer t =>
    s.frameTimer.bind fun d =>
      if d ≤ t.first ∧ t.From s.clock then
        some ({ s with frameTimer := none }.handled t (s.backend, s.backend.finishFrameHandler))
      else none
  | .repaintTimer barriers damage shm t =>
    s.repaintTimer.bind fun d =>
      if d ≤ t.first ∧ t.From s.clock then
        some ({ s with repaintTimer := none }.repaintTimerHandler barriers damage shm t)
      else none
  | .bufReady calls =>
    s.backend.bufReadySource.bind fun fd =>
      (s.backend.bufReadyHandler fd calls).map (s.handled s.times)
  | .inputFd rounds =>
    if s.backend.inputFdSource.isSome then
      some (s.handled s.times (s.backend.inputFdHandler rounds))
    else none
  | .reconnectTimer calls => some (s.handled s.times (s.backend.reconnectTimerHandler calls))
  | .windowEvent event sendOk =>
    some (s.handled s.times (s.backend.sendWindowEvent event sendOk))
  | .shutdown => some { s with active := false }

end Loop

end Anland
end ACGlass
