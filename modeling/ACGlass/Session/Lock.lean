import ACGlass.Transition
import Mathlib.Logic.Function.Basic
import Mathlib.Tactic

/-!
# The session lock of `acglass-run`

The script is translated as far as it deals with the lock: every `mkdir`, `cat`, `kill -0`, `rm`,
`rmdir` and the redirected `echo` is one atomic step of one process, and the steps of any number
of processes interleave. A signal runs `cleanup` between two commands, and the script goes on
behind it. The lock directory remembers which process made it. The script cannot see that, but it
is what makes a removal by a waiter a theft or a clean-up.
-/

namespace ACGlass
namespace Session

open Transition

/-- `$LOCK_DIR`: the process whose `mkdir` made it, and the contents of `$LOCK_DIR/pid`. -/
structure LockDir where
  maker : ℕ
  pidFile : Option ℕ
  deriving DecidableEq, Repr

/-- The calls of `stop_weston_session_if_idle`. -/
inductive StopCaller
  | main
  | cleanup
  deriving DecidableEq, Repr

/-- The calls of `lock_session`. -/
inductive LockCaller
  | main
  | stop (caller : StopCaller)
  deriving DecidableEq, Repr

/-- The calls of `unlock_session`. -/
inductive UnlockCaller
  | startFailed
  | launched
  | stop (caller : StopCaller)
  | cleanup
  deriving DecidableEq, Repr

/-- The next command of `lock_session`. -/
inductive LockCommand
  | mkdirLock
  | catPid
  | rmdirUnowned
  | killZero (lockPid : ℕ)
  | rmStalePid
  | rmdirStale
  | echoPid
  | setLockHeld
  deriving DecidableEq, Repr

/-- The next command of `unlock_session`. -/
inductive UnlockCommand
  | clearLockHeld
  | rmPid
  | rmdirLock
  deriving DecidableEq, Repr

/-- Where a process stands in the script. The main part goes from `start` to `exiting`; `idle` and
`stopEnd` know whether their call of `stop_weston_session_if_idle` has taken the lock. -/
inductive ScriptPc
  | start
  | starting
  | launching
  | launched
  | waiting
  | waited
  | exiting
  | locking (caller : LockCaller) (command : LockCommand)
  | unlocking (caller : UnlockCaller) (command : UnlockCommand)
  | stopTest (caller : StopCaller)
  | lockedHere (caller : StopCaller)
  | idle (caller : StopCaller) (locked : Bool)
  | stopEnd (caller : StopCaller) (locked : Bool)
  | cleanupTest
  | cleanupEnd
  | cleanedUp
  | dead
  deriving DecidableEq, Repr

def StopCaller.next : StopCaller → ScriptPc
  | .main => .exiting
  | .cleanup => .cleanupEnd

def LockCaller.next : LockCaller → ScriptPc
  | .main => .starting
  | .stop caller => .lockedHere caller

def UnlockCaller.next : UnlockCaller → ScriptPc
  | .startFailed => .exiting
  | .launched => .waiting
  | .stop caller => caller.next
  | .cleanup => .cleanedUp

namespace ScriptPc

/-- A `lock_session` has returned, and its `unlock_session` has not been called. -/
def inSection : ScriptPc → Bool
  | .starting | .launching | .launched | .lockedHere _ => true
  | .idle _ locked | .stopEnd _ locked => locked
  | _ => false

/-- The code here runs with `LOCK_HELD=1`. -/
def guarded : ScriptPc → Bool
  | .unlocking _ .clearLockHeld | .idle _ _ | .stopEnd _ _ => true
  | c => c.inSection

/-- The lock directory has been made or is still to be removed, but `LOCK_HELD` is 0. -/
def owns : ScriptPc → Bool
  | .locking _ .echoPid | .locking _ .setLockHeld => true
  | .unlocking _ .rmPid | .unlocking _ .rmdirLock => true
  | _ => false

end ScriptPc

/-- A process: `interrupted` is where its signal handlers will return to, the innermost one
first, `appMarker` is `APP_MARKER` being set. -/
structure Process where
  pc : ScriptPc
  interrupted : List ScriptPc
  lockHeld : Bool
  lockedHere : Bool
  appMarker : Bool
  deriving DecidableEq, Repr

def Process.fresh : Process := ⟨.start, [], false, false, false⟩

def Process.gone : Process := ⟨.dead, [], false, false, false⟩

structure LockState where
  proc : ℕ → Process
  dir : Option LockDir

/-- No process has done anything yet and `$LOCK_DIR` does not exist. -/
def LockState.initial : LockState := ⟨fun _ => .fresh, none⟩

namespace LockState

variable (s : LockState) (p : ℕ)

def set (x : Process) : LockState := { s with proc := Function.update s.proc p x }

def goto (c : ScriptPc) : LockState := s.set p { s.proc p with pc := c }

@[simp] theorem set_proc_self (x : Process) : (s.set p x).proc p = x := by simp [set]

theorem set_proc_ne (x : Process) {q : ℕ} (h : q ≠ p) : (s.set p x).proc q = s.proc q := by
  simp [set, h]

/-- `kill -0` succeeds exactly on processes that have not ended. -/
def Alive : Prop := (s.proc p).pc ≠ .dead

instance : Decidable (s.Alive p) := inferInstanceAs (Decidable (_ ≠ _))

/-- `rm -f "$LOCK_DIR/pid"`. -/
def rmPid : LockState := { s with dir := s.dir.map fun d => { d with pidFile := none } }

/-- `rmdir "$LOCK_DIR"` fails on a directory that still holds a pid file. -/
def rmdir : LockState :=
  { s with dir := s.dir.filter fun d => d.pidFile.isSome }

/-- `echo "$$" > "$LOCK_DIR/pid"` fails without a directory, and the script goes on. -/
def writePid : LockState :=
  { s with dir := s.dir.map fun d => { d with pidFile := some p } }

@[simp] theorem rmPid_proc : s.rmPid.proc = s.proc := rfl
@[simp] theorem writePid_proc : (s.writePid p).proc = s.proc := rfl

/-- One command of `lock_session`. `cat` of a missing file reads as empty. -/
def lockSession (caller : LockCaller) : LockCommand → LockState
  | .mkdirLock =>
    match s.dir with
    | none => { s with dir := some ⟨p, none⟩ }.goto p (.locking caller .echoPid)
    | some _ => s.goto p (.locking caller .catPid)
  | .catPid =>
    match s.dir.bind LockDir.pidFile with
    | none => s.goto p (.locking caller .rmdirUnowned)
    | some lockPid => s.goto p (.locking caller (.killZero lockPid))
  | .rmdirUnowned => s.rmdir.goto p (.locking caller .mkdirLock)
  | .killZero lockPid =>
    -- a live owner is waited for with `sleep 0.05` and the loop starts again
    s.goto p (.locking caller (if s.Alive lockPid then .mkdirLock else .rmStalePid))
  | .rmStalePid => s.rmPid.goto p (.locking caller .rmdirStale)
  | .rmdirStale => s.rmdir.goto p (.locking caller .mkdirLock)
  | .echoPid => (s.writePid p).goto p (.locking caller .setLockHeld)
  | .setLockHeld => s.set p { s.proc p with lockHeld := true, pc := caller.next }

/-- One command of `unlock_session`. -/
def unlockSession (caller : UnlockCaller) : UnlockCommand → LockState
  | .clearLockHeld => s.set p { s.proc p with lockHeld := false, pc := .unlocking caller .rmPid }
  | .rmPid => s.rmPid.goto p (.unlocking caller .rmdirLock)
  | .rmdirLock => s.rmdir.goto p caller.next

/-- One command of process `p`. `ok` is whether `start_weston_session` succeeds. -/
def advance (ok : Bool) : Option LockState :=
  let x := s.proc p
  match x.pc with
  | .start => some (s.goto p (.locking .main .mkdirLock))
  | .starting => some (s.goto p (if ok then .launching else .unlocking .startFailed .clearLockHeld))
  | .launching => some (s.set p { x with appMarker := true, pc := .launched })
  | .launched => some (s.goto p (.unlocking .launched .clearLockHeld))
  | .waiting => some (s.set p { x with appMarker := false, pc := .waited })
  | .waited => some (s.goto p (.stopTest .main))
  -- the trap on EXIT
  | .exiting => some (s.goto p .cleanupTest)
  | .locking caller command => some (s.lockSession p caller command)
  | .unlocking caller command => some (s.unlockSession p caller command)
  | .stopTest caller =>
    if x.lockHeld then some (s.set p { x with lockedHere := false, pc := .idle caller false })
    else some (s.goto p (.locking (.stop caller) .mkdirLock))
  | .lockedHere caller => some (s.set p { x with lockedHere := true, pc := .idle caller true })
  | .idle caller locked => some (s.goto p (.stopEnd caller locked))
  | .stopEnd caller _ =>
    some (s.goto p (if x.lockedHere then .unlocking (.stop caller) .clearLockHeld else caller.next))
  | .cleanupTest => some (s.goto p (if x.appMarker then .stopTest .cleanup else .cleanupEnd))
  | .cleanupEnd =>
    some (s.goto p (if x.lockHeld then .unlocking .cleanup .clearLockHeld else .cleanedUp))
  | .cleanedUp =>
    match x.interrupted with
    | [] => some (s.set p .gone)
    | c :: cs => some (s.set p { x with pc := c, interrupted := cs })
  | .dead => none

/-- `INT` or `TERM`: the handler runs, and then the script goes on. -/
def signal : Option LockState :=
  let x := s.proc p
  if x.pc = .dead then none
  else some (s.set p { x with pc := .cleanupTest, interrupted := x.pc :: x.interrupted })

/-- A signal that is not trapped and that the shell can still see, such as `HUP`: only the trap
on EXIT is run. -/
def hangUp : Option LockState :=
  let x := s.proc p
  if x.pc = .dead then none else some (s.set p { x with pc := .cleanupTest, interrupted := [] })

end LockState

/-- A process runs its next command, gets a signal, or ends wherever it stands. -/
inductive LockStep
  | run (p : ℕ) (ok : Bool)
  | signal (p : ℕ)
  | hangUp (p : ℕ)
  | die (p : ℕ)
  deriving DecidableEq, Repr

def lockStep (s : LockState) : LockStep → Option LockState
  | .run p ok => s.advance p ok
  | .signal p => s.signal p
  | .hangUp p => s.hangUp p
  | .die p => some (s.set p .gone)

/-- The process is between the return of a `lock_session` and the matching `unlock_session`,
be it that a handler has interrupted it there. -/
def Process.InSection (x : Process) : Prop := ∃ c ∈ x.pc :: x.interrupted, c.inSection = true

/-- At most one process is between the return of `lock_session` and `unlock_session`. -/
def MutualExclusion (s : LockState) : Prop :=
  ∀ p q, (s.proc p).InSection → (s.proc q).InSection → p = q

/-- The two commands of `unlock_session` leave a lock made by another process alone. -/
def UnlockLeavesOthers (s : LockState) (e : LockStep) (t : LockState) : Prop :=
  ∀ p ok caller d, e = .run p ok →
    ((s.proc p).pc = .unlocking caller .rmPid ∨ (s.proc p).pc = .unlocking caller .rmdirLock) →
    s.dir = some d → d.maker ≠ p → t.dir = s.dir

/-- The lock law of a schedule: mutual exclusion in every state it visits and no
foreign lock removed by any `unlock_session` in it. -/
def LockLaw (es : List LockStep) : Prop :=
  Always lockStep MutualExclusion .initial es ∧
    Along lockStep UnlockLeavesOthers .initial es

/-- The command of a waiter that takes a lock directory away. -/
def ScriptPc.takesAway : ScriptPc → Bool
  | .locking _ .rmdirUnowned | .locking _ .rmdirStale => true
  | _ => false

/-- The waiter `p` is about to take away the lock directory `d`: its `rmdir` is
next and succeeds, because `d` holds no pid file. -/
def AboutToSteal (s : LockState) (p : ℕ) (d : LockDir) : Prop :=
  (s.proc p).pc.takesAway = true ∧ d.pidFile = none

instance (s : LockState) (p : ℕ) (d : LockDir) : Decidable (AboutToSteal s p d) :=
  inferInstanceAs (Decidable (_ ∧ _))

/-- A waiter only takes away a lock directory that a dead process has left behind, and no handler
of a signal finds the lock held by its own process. -/
def Undisturbed (s : LockState) (e : LockStep) (_ : LockState) : Prop :=
  match e, s.dir with
  | .run p _, some d => AboutToSteal s p d → ¬ s.Alive d.maker
  | .signal p, _ => (s.proc p).lockHeld = false
  | _, _ => True

instance (s : LockState) (e : LockStep) (t : LockState) : Decidable (Undisturbed s e t) := by
  unfold Undisturbed
  split <;> infer_instance

namespace Process

/-- What the process relies on the lock directory for: `LOCK_HELD`, and the places in its code
and in what its handlers have interrupted. -/
def tokens (x : Process) : ℕ :=
  x.lockHeld.toNat + (x.pc :: x.interrupted).countP ScriptPc.owns

/-- A process relies on the lock directory once at most, and has `LOCK_HELD=1` where its code
takes that for granted. -/
structure Orderly (x : Process) : Prop where
  single : x.tokens ≤ 1
  guarded : x.pc.guarded = true → x.lockHeld = true
  free : ∀ c ∈ x.interrupted, c.guarded = false ∧ c ≠ .dead
  ended : x.pc = .dead → x.tokens = 0

variable {x : Process}

theorem tokens_eq (x : Process) : x.tokens =
    x.lockHeld.toNat + x.pc.owns.toNat + x.interrupted.countP ScriptPc.owns := by
  rw [tokens, List.countP_cons]
  cases x.pc.owns
  · simp
  · simp
    omega

theorem tokens_pos (h : x.lockHeld = true) : 0 < x.tokens := by
  rw [tokens, h]
  exact Nat.add_pos_left Nat.one_pos _

theorem guarded_of_inSection {c : ScriptPc} (h : c.inSection = true) : c.guarded = true := by
  cases c with
  | unlocking caller command => cases h
  | _ => first | exact h | rfl

theorem orderly_fresh : fresh.Orderly where
  single := Nat.zero_le _
  guarded := by decide
  free := by simp [fresh]
  ended := by decide

theorem orderly_gone : gone.Orderly where
  single := Nat.zero_le _
  guarded := by decide
  free := by simp [gone]
  ended := fun _ => rfl

/-- Nothing of a process in the section is interrupted. -/
theorem Orderly.lockHeld (h : x.Orderly) (hx : x.InSection) : x.lockHeld = true := by
  obtain ⟨c, hc, hsection⟩ := hx
  have hguarded := guarded_of_inSection hsection
  rcases List.mem_cons.mp hc with rfl | hc
  · exact h.guarded hguarded
  · have hfree := (h.free c hc).1
    rw [hguarded] at hfree
    cases hfree

/-- A move to a place that takes no more for granted. -/
theorem Orderly.moved (h : x.Orderly) {y : Process} (hheld : y.lockHeld = x.lockHeld)
    (hinterrupted : y.interrupted = x.interrupted) (how : y.pc.owns = true → x.pc.owns = true)
    (hguarded : y.pc.guarded = true → x.lockHeld = true) (hdead : y.pc ≠ .dead) :
    y.Orderly ∧ y.tokens ≤ x.tokens := by
  have hle : y.tokens ≤ x.tokens := by
    have hown : y.pc.owns.toNat ≤ x.pc.owns.toNat := by
      cases hy : y.pc.owns with
      | false => exact Nat.zero_le _
      | true => rw [how hy]
    rw [tokens_eq, tokens_eq, hheld, hinterrupted]
    omega
  exact ⟨⟨hle.trans h.single, fun hg => hheld.trans (hguarded hg), hinterrupted ▸ h.free,
    fun hy => absurd hy hdead⟩, hle⟩

/-- `lock_session` returns. -/
theorem Orderly.setLockHeld (h : x.Orderly) (how : x.pc.owns = true) {c : ScriptPc}
    (hc : c.owns = false) (hdead : c ≠ .dead) :
    Orderly { x with lockHeld := true, pc := c } ∧ 0 < x.tokens := by
  have hsingle := h.single
  rw [tokens_eq, how] at hsingle
  refine ⟨⟨?_, fun _ => rfl, h.free, fun hy => absurd hy hdead⟩, ?_⟩
  · rw [tokens_eq, hc]
    dsimp only [Bool.toNat_true, Bool.toNat_false] at hsingle ⊢
    omega
  · rw [tokens_eq, how]
    dsimp only [Bool.toNat_true]
    omega

/-- `unlock_session` begins. -/
theorem Orderly.clearLockHeld (h : x.Orderly) (hheld : x.lockHeld = true) {c : ScriptPc}
    (hguarded : c.guarded = false) (hdead : c ≠ .dead) :
    Orderly { x with lockHeld := false, pc := c } := by
  have hsingle := h.single
  have hone := Bool.toNat_le c.owns
  rw [tokens_eq, hheld] at hsingle
  refine ⟨?_, ?_, h.free, fun hy => absurd hy hdead⟩
  · rw [tokens_eq]
    dsimp only [Bool.toNat_true, Bool.toNat_false] at hsingle ⊢
    omega
  · intro hg
    rw [hguarded] at hg
    cases hg

/-- A handler returns. -/
theorem Orderly.resume (h : x.Orderly) {c : ScriptPc} {cs : List ScriptPc}
    (hinterrupted : x.interrupted = c :: cs) :
    Orderly { x with pc := c, interrupted := cs } ∧
      tokens { x with pc := c, interrupted := cs } ≤ x.tokens := by
  have hfree := h.free
  rw [hinterrupted, List.forall_mem_cons] at hfree
  have hle : tokens { x with pc := c, interrupted := cs } ≤ x.tokens := by
    rw [tokens, tokens, hinterrupted]
    exact Nat.add_le_add_left (List.Sublist.countP_le (List.sublist_cons_self _ _)) _
  refine ⟨⟨hle.trans h.single, ?_, hfree.2, fun hc => absurd hc hfree.1.2⟩, hle⟩
  intro hg
  rw [hfree.1.1] at hg
  cases hg

/-- A handler begins. -/
theorem Orderly.signal (h : x.Orderly) (hheld : x.lockHeld = false) (hdead : x.pc ≠ .dead) :
    Orderly { x with pc := .cleanupTest, interrupted := x.pc :: x.interrupted } ∧
      tokens { x with pc := .cleanupTest, interrupted := x.pc :: x.interrupted } = x.tokens := by
  have hfree : x.pc.guarded = false := by
    by_contra hg
    rw [h.guarded (by simpa using hg)] at hheld
    cases hheld
  have hsame : tokens { x with pc := .cleanupTest, interrupted := x.pc :: x.interrupted } =
      x.tokens := by
    rw [tokens, tokens, List.countP_cons_of_neg Bool.false_ne_true]
  refine ⟨⟨hsame.trans_le h.single, (fun hg => by cases hg), ?_, (fun hc => by cases hc)⟩, hsame⟩
  rw [List.forall_mem_cons]
  exact ⟨⟨hfree, hdead⟩, h.free⟩

/-- The trap on `EXIT` begins. -/
theorem Orderly.hangUp (h : x.Orderly) :
    Orderly { x with pc := .cleanupTest, interrupted := [] } ∧
      tokens { x with pc := .cleanupTest, interrupted := [] } ≤ x.tokens := by
  have hle : tokens { x with pc := .cleanupTest, interrupted := [] } ≤ x.tokens :=
    Nat.add_le_add_left (Nat.zero_le _) _
  exact ⟨⟨hle.trans h.single, (fun hg => by cases hg), (by simp), (fun hc => by cases hc)⟩, hle⟩

end Process

/-- Every process that relies on the lock made the directory that is there. -/
structure LockInvariant (s : LockState) : Prop where
  orderly : ∀ p, (s.proc p).Orderly
  made : ∀ p, 0 < (s.proc p).tokens → ∃ d, s.dir = some d ∧ d.maker = p

theorem lockInvariant_initial : LockInvariant .initial where
  orderly := fun _ => Process.orderly_fresh
  made := fun _ h => absurd h (Nat.lt_irrefl 0)

namespace LockInvariant

variable {s : LockState} (h : LockInvariant s)
include h

theorem maker_eq {p : ℕ} {d : LockDir} (hp : 0 < (s.proc p).tokens) (hd : s.dir = some d) :
    d.maker = p := by
  obtain ⟨d', hd', rfl⟩ := h.made p hp
  obtain rfl : d = d' := Option.some.inj (hd.symm.trans hd')
  rfl

theorem mutualExclusion : MutualExclusion s := by
  intro p q hp hq
  have hpos := Process.tokens_pos ((h.orderly p).lockHeld hp)
  have hqos := Process.tokens_pos ((h.orderly q).lockHeld hq)
  obtain ⟨d, hd, rfl⟩ := h.made p hpos
  exact h.maker_eq hqos hd

/-- A change of one process keeps the invariant unless it starts the protected part. -/
theorem set (p : ℕ) {x : Process} (hx : x.Orderly)
    (htokens : 0 < x.tokens → 0 < (s.proc p).tokens) : LockInvariant (s.set p x) where
  orderly := by
    intro q
    by_cases hqp : q = p
    · subst q
      rwa [LockState.set_proc_self]
    · rw [LockState.set_proc_ne _ _ _ hqp]
      exact h.orderly q
  made := by
    intro q hq
    by_cases hqp : q = p
    · subst q
      rw [LockState.set_proc_self] at hq
      exact h.made p (htokens hq)
    · rw [LockState.set_proc_ne _ _ _ hqp] at hq
      exact h.made q hq

theorem moved (p : ℕ) {y : Process} (hheld : y.lockHeld = (s.proc p).lockHeld)
    (hinterrupted : y.interrupted = (s.proc p).interrupted)
    (how : y.pc.owns = true → (s.proc p).pc.owns = true)
    (hguarded : y.pc.guarded = true → (s.proc p).lockHeld = true) (hdead : y.pc ≠ .dead) :
    LockInvariant (s.set p y) := by
  obtain ⟨hy, hle⟩ := (h.orderly p).moved hheld hinterrupted how hguarded hdead
  exact h.set p hy fun hpos => hpos.trans_le hle

theorem goto (p : ℕ) {c : ScriptPc} (how : c.owns = true → (s.proc p).pc.owns = true)
    (hguarded : c.guarded = true → (s.proc p).lockHeld = true) (hdead : c ≠ .dead) :
    LockInvariant (s.goto p c) :=
  h.moved p rfl rfl how hguarded hdead

theorem rmPid : LockInvariant s.rmPid where
  orderly := h.orderly
  made := by
    intro q hq
    obtain ⟨d, hd, hm⟩ := h.made q hq
    exact ⟨{ d with pidFile := none }, by simp [LockState.rmPid, hd], hm⟩

theorem writePid (p : ℕ) : LockInvariant (s.writePid p) where
  orderly := h.orderly
  made := by
    intro q hq
    obtain ⟨d, hd, hm⟩ := h.made q hq
    exact ⟨{ d with pidFile := some p }, by simp [LockState.writePid, hd], hm⟩

/-- `rmdir` is harmless when the directory it would remove is nobody's any more. -/
theorem rmdir (hd : ∀ d, s.dir = some d → d.pidFile = none → (s.proc d.maker).tokens = 0) :
    LockInvariant s.rmdir where
  orderly := h.orderly
  made := by
    intro q hq
    obtain ⟨d, hsd, rfl⟩ := h.made q hq
    cases hf : d.pidFile with
    | none => exact absurd (hd d hsd hf) (Nat.ne_of_gt hq)
    | some _ => exact ⟨d, by simp [LockState.rmdir, hsd, hf], rfl⟩

/-- A successful `mkdir` starts the protected part, and nobody was in it. -/
theorem mkdir (p : ℕ) (hd : s.dir = none) (caller : LockCaller) :
    LockInvariant ({ s with dir := some ⟨p, none⟩ }.goto p (.locking caller .echoPid)) := by
  have hnone : ∀ q, (s.proc q).tokens = 0 := by
    intro q
    by_contra hq
    obtain ⟨d, hsd, -⟩ := h.made q (Nat.pos_of_ne_zero hq)
    rw [hd] at hsd
    cases hsd
  have hp := hnone p
  rw [Process.tokens_eq] at hp
  constructor
  · intro q
    by_cases hqp : q = p
    · subst q
      rw [LockState.goto, LockState.set_proc_self]
      refine ⟨?_, (fun hg => by cases hg), (h.orderly p).free, (fun hc => by cases hc)⟩
      rw [Process.tokens_eq]
      have hone := Bool.toNat_le (ScriptPc.locking caller .echoPid).owns
      dsimp only
      omega
    · rw [LockState.goto, LockState.set_proc_ne _ _ _ hqp]
      exact h.orderly q
  · intro q hq
    by_cases hqp : q = p
    · exact ⟨⟨p, none⟩, rfl, hqp.symm⟩
    · rw [LockState.goto, LockState.set_proc_ne _ _ _ hqp] at hq
      exact absurd (hnone q) (Nat.ne_of_gt hq)

theorem lockSession {p : ℕ} {caller : LockCaller} {command : LockCommand}
    (hpc : (s.proc p).pc = .locking caller command)
    (hg : ∀ d, s.dir = some d → AboutToSteal s p d → ¬ s.Alive d.maker) :
    LockInvariant (s.lockSession p caller command) := by
  -- the places inside of the loop take nothing for granted
  have hloop (s' : LockState) (h' : LockInvariant s') (command' : LockCommand)
      (hc : (ScriptPc.locking caller command').owns = false) :
      LockInvariant (s'.goto p (.locking caller command')) := by
    refine h'.goto p (fun how => ?_) (fun hg => by cases hg) (fun hc => by cases hc)
    rw [hc] at how
    cases how
  have hstolen (htakes : (s.proc p).pc.takesAway = true) : LockInvariant s.rmdir := by
    refine h.rmdir fun d hd hf => (h.orderly d.maker).ended ?_
    by_contra halive
    exact hg d hd ⟨htakes, hf⟩ halive
  cases command with
  | mkdirLock =>
    cases hdir : s.dir with
    | none =>
      simp only [LockState.lockSession, hdir]
      exact h.mkdir p hdir caller
    | some d =>
      simp only [LockState.lockSession, hdir]
      exact hloop s h .catPid rfl
  | catPid =>
    cases hread : s.dir.bind LockDir.pidFile with
    | none =>
      simp only [LockState.lockSession, hread]
      exact hloop s h .rmdirUnowned rfl
    | some lockPid =>
      simp only [LockState.lockSession, hread]
      exact hloop s h (.killZero lockPid) rfl
  | rmdirUnowned => exact hloop s.rmdir (hstolen (by rw [hpc]; rfl)) _ rfl
  | killZero lockPid =>
    refine hloop s h _ ?_
    split_ifs <;> rfl
  | rmStalePid => exact hloop s.rmPid h.rmPid _ rfl
  | rmdirStale => exact hloop s.rmdir (hstolen (by rw [hpc]; rfl)) _ rfl
  | echoPid =>
    exact (h.writePid p).goto p (fun _ => by rw [LockState.writePid_proc, hpc]; rfl)
      (fun hg => by cases hg) (fun hc => by cases hc)
  | setLockHeld =>
    have how : (s.proc p).pc.owns = true := by
      rw [hpc]
      rfl
    have hnext : caller.next.owns = false ∧ caller.next ≠ .dead := by
      rcases caller with _ | caller
      · decide
      · exact ⟨rfl, fun hc => by cases hc⟩
    obtain ⟨hx, hpos⟩ := (h.orderly p).setLockHeld how hnext.1 hnext.2
    exact h.set p hx fun _ => hpos

theorem unlockSession {p : ℕ} {caller : UnlockCaller} {command : UnlockCommand}
    (hpc : (s.proc p).pc = .unlocking caller command) :
    LockInvariant (s.unlockSession p caller command) := by
  cases command with
  | clearLockHeld =>
    have hheld : (s.proc p).lockHeld = true := (h.orderly p).guarded (by rw [hpc]; rfl)
    exact h.set p ((h.orderly p).clearLockHeld hheld rfl (fun hc => by cases hc))
      fun _ => Process.tokens_pos hheld
  | rmPid =>
    exact h.rmPid.goto p (fun _ => by rw [LockState.rmPid_proc, hpc]; rfl) (fun hg => by cases hg)
      (fun hc => by cases hc)
  | rmdirLock =>
    have hnext : caller.next.owns = false ∧ caller.next.guarded = false ∧ caller.next ≠ .dead := by
      rcases caller with _ | _ | (_ | _) | _ <;> decide
    obtain ⟨hnotOwn, hfree, hdead⟩ := hnext
    have how : (s.proc p).pc.owns = true := by
      rw [hpc]
      rfl
    have hsingle := (h.orderly p).single
    have hpos : 0 < (s.proc p).tokens := by
      rw [Process.tokens_eq, how]
      exact Nat.add_pos_left (Nat.add_pos_right _ Nat.one_pos) _
    have hout : LockInvariant (s.goto p caller.next) := by
      refine h.goto p (fun hn => ?_) (fun hn => ?_) hdead
      · rw [hnotOwn] at hn
        cases hn
      · rw [hfree] at hn
        cases hn
    refine hout.rmdir fun d hd _ => ?_
    obtain rfl := h.maker_eq hpos hd
    rw [LockState.goto, LockState.set_proc_self, Process.tokens_eq]
    rw [Process.tokens_eq, how] at hsingle
    dsimp only [Bool.toNat_true] at hsingle ⊢
    rw [hnotOwn, Bool.toNat_false]
    omega

theorem advance {p : ℕ} {ok : Bool} {t : LockState} (ht : s.advance p ok = some t)
    (hg : ∀ d, s.dir = some d → AboutToSteal s p d → ¬ s.Alive d.maker) :
    LockInvariant t := by
  have hheld (hguarded : (s.proc p).pc.guarded = true) : (s.proc p).lockHeld = true :=
    (h.orderly p).guarded hguarded
  have hplain (y : Process) (hyheld : y.lockHeld = (s.proc p).lockHeld)
      (hinterrupted : y.interrupted = (s.proc p).interrupted) (how : y.pc.owns = false)
      (hguarded : y.pc.guarded = true → (s.proc p).lockHeld = true) (hdead : y.pc ≠ .dead) :
      LockInvariant (s.set p y) := by
    refine h.moved p hyheld hinterrupted (fun hy => ?_) hguarded hdead
    rw [how] at hy
    cases hy
  unfold LockState.advance at ht
  cases hpc : (s.proc p).pc with
  | locking caller command =>
    simp only [hpc] at ht
    cases ht
    exact h.lockSession hpc hg
  | unlocking caller command =>
    simp only [hpc] at ht
    cases ht
    exact h.unlockSession hpc
  | cleanedUp =>
    simp only [hpc] at ht
    split at ht
    · cases ht
      exact h.set p Process.orderly_gone fun hpos => absurd hpos (Nat.lt_irrefl 0)
    · rename_i c cs hinterrupted
      cases ht
      obtain ⟨hx, hle⟩ := (h.orderly p).resume hinterrupted
      exact h.set p hx fun hpos => hpos.trans_le hle
  | dead =>
    simp only [hpc] at ht
    cases ht
  | start | waiting | waited | exiting =>
    simp only [hpc] at ht
    cases ht
    exact hplain _ rfl rfl rfl (fun hc => by cases hc) (fun hc => by cases hc)
  | launching | launched =>
    simp only [hpc] at ht
    cases ht
    exact hplain _ rfl rfl rfl (fun _ => hheld (by rw [hpc]; rfl)) (fun hc => by cases hc)
  | starting =>
    simp only [hpc] at ht
    cases ht
    refine hplain _ rfl rfl ?_ (fun _ => hheld (by rw [hpc]; rfl)) ?_
    · cases ok <;> rfl
    · cases ok <;> exact fun hc => by cases hc
  | stopTest caller =>
    simp only [hpc] at ht
    split_ifs at ht with hlock
    · cases ht
      exact hplain _ rfl rfl rfl (fun _ => hlock) (fun hc => by cases hc)
    · cases ht
      exact hplain _ rfl rfl rfl (fun hc => by cases hc) (fun hc => by cases hc)
  | lockedHere caller =>
    simp only [hpc] at ht
    cases ht
    exact hplain _ rfl rfl rfl (fun _ => hheld (by rw [hpc]; rfl)) (fun hc => by cases hc)
  | idle caller locked =>
    simp only [hpc] at ht
    cases ht
    exact hplain _ rfl rfl rfl (fun _ => hheld (by rw [hpc]; rfl)) (fun hc => by cases hc)
  | stopEnd caller locked =>
    simp only [hpc] at ht
    cases ht
    have hnext : caller.next.owns = false ∧ caller.next ≠ .dead := by cases caller <;> decide
    refine hplain _ rfl rfl ?_ (fun _ => hheld (by rw [hpc]; rfl)) ?_
    · dsimp only
      split_ifs
      · rfl
      · exact hnext.1
    · dsimp only
      split_ifs
      · exact fun hc => by cases hc
      · exact hnext.2
  | cleanupTest =>
    simp only [hpc] at ht
    cases ht
    refine hplain _ rfl rfl ?_ ?_ ?_
    · dsimp only
      split_ifs <;> rfl
    · dsimp only
      split_ifs <;> exact fun hc => by cases hc
    · dsimp only
      split_ifs <;> decide
  | cleanupEnd =>
    simp only [hpc] at ht
    cases ht
    refine hplain _ rfl rfl ?_ ?_ ?_
    · dsimp only
      split_ifs <;> rfl
    · dsimp only
      split_ifs with hlock
      · exact fun _ => hlock
      · exact fun hc => by cases hc
    · dsimp only
      split_ifs <;> decide

end LockInvariant

theorem lockInvariant_step {s t : LockState} {e : LockStep} (h : LockInvariant s)
    (ht : lockStep s e = some t) (hg : Undisturbed s e t) : LockInvariant t := by
  cases e with
  | run p ok =>
    apply h.advance ht
    intro d hd hs
    simp only [Undisturbed, hd] at hg
    exact hg hs
  | signal p =>
    rw [lockStep, LockState.signal] at ht
    split_ifs at ht with hdead
    cases ht
    obtain ⟨hx, hsame⟩ := (h.orderly p).signal hg hdead
    exact h.set p hx fun hpos => hsame ▸ hpos
  | hangUp p =>
    rw [lockStep, LockState.hangUp] at ht
    split_ifs at ht with hdead
    cases ht
    obtain ⟨hx, hle⟩ := (h.orderly p).hangUp
    exact h.set p hx fun hpos => hpos.trans_le hle
  | die p =>
    cases ht
    exact h.set p Process.orderly_gone fun hpos => absurd hpos (Nat.lt_irrefl 0)

theorem LockInvariant.unlockLeavesOthers {s t : LockState} {e : LockStep}
    (h : LockInvariant s) : UnlockLeavesOthers s e t := by
  intro p ok caller d _ hpc hd hne
  have how : (s.proc p).pc.owns = true := by rcases hpc with hpc | hpc <;> rw [hpc] <;> rfl
  have hpos : 0 < (s.proc p).tokens := by
    rw [Process.tokens_eq, how]
    exact Nat.add_pos_left (Nat.add_pos_right _ Nat.one_pos) _
  exact absurd (h.maker_eq hpos hd) hne

/-- A waiter reads the pid file between the owner's `mkdir` and its `echo`. -/
def stealBeforeEcho : List LockStep :=
  [.run 1 true, .run 1 true, .run 2 true, .run 2 true, .run 2 true, .run 2 true, .run 2 true,
    .run 1 true, .run 1 true, .run 2 true, .run 2 true]

/-- The owner dies with the lock; a waiter, which is sent `TERM` while it waits, cleans up after
it and gets the lock. -/
def takeOverFromDead : List LockStep :=
  [.run 1 true, .run 1 true, .run 1 true, .run 2 true, .run 2 true, .signal 2, .run 2 true,
    .run 2 true, .run 2 true, .die 1, .run 2 true, .run 2 true, .run 2 true, .run 2 true,
    .run 2 true, .run 2 true, .run 2 true]

end Session
end ACGlass
