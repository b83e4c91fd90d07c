import Mathlib.Data.List.Basic
import Mathlib.Tactic

/-!
# Stopping an idle session

The part of `acglass-run` that decides when the shared Weston session ends. The
apps directory holds the pid markers, but also the launch logs and the `by-id`
directory, and `prune_app_markers` and `has_active_apps` disagree about which of
these entries stand for an app.
-/

namespace ACGlass
namespace Session

abbrev Text := List Char

/-- An entry of `$APPS_DIR`; a regular file is given by its lines. -/
inductive AppEntry
  | directory
  | file (lines : List Text)
  deriving DecidableEq, Repr

/-- The files of one `$SESSION_DIR` that the functions below read or write.
`apps` lists the entries of `$APPS_DIR` by name. -/
structure SessionDir where
  apps : List (Text × AppEntry)
  pidFile : Option Text
  envFile : Bool
  socket : Bool
  deriving DecidableEq, Repr

def SessionDir.initial : SessionDir := ⟨[], none, false, false⟩

/-- The answers of `kill -0 "$pid"` and of `kill -0 -- "-$pgid"`. -/
structure Processes where
  pid : Text → Bool
  group : Text → Bool

/-- `*.log` -/
def isLog (name : Text) : Bool := ['.', 'l', 'o', 'g'].isSuffixOf name

/-- Neither empty nor `*[!0-9]*`. -/
def isNumeric (name : Text) : Bool := !name.isEmpty && name.all Char.isDigit

def pgidKey : Text := ['p', 'g', 'i', 'd', '=']

/-- `sed -n 's/^pgid=//p' | head -n 1`, empty if no line matches. -/
def pgidOf (lines : List Text) : Text :=
  match lines.find? fun line => pgidKey.isPrefixOf line with
  | some line => line.drop pgidKey.length
  | none => []

/-- A pid marker, that is a regular file with a number for a name, which names a
live pid or a live process group. -/
def NamesLive (ps : Processes) : Text × AppEntry → Bool
  | (_, .directory) => false
  | (name, .file lines) =>
    isNumeric name && (ps.pid name || (!(pgidOf lines).isEmpty && ps.group (pgidOf lines)))

/-- The loop body of `prune_app_markers`: `false` where it reaches an `rm -f "$marker"`. -/
def survivesPrune (ps : Processes) : Text × AppEntry → Bool
  | (_, .directory) => true
  | (name, .file lines) =>
    if isLog name then true
    else if !isNumeric name then false
    else if ps.pid name then true
    else if !(pgidOf lines).isEmpty && ps.group (pgidOf lines) then true
    else false

namespace SessionDir

variable (s : SessionDir) (ps : Processes)

/-- `> "$APPS_DIR/name"` -/
def writeApp (name : Text) (lines : List Text) : SessionDir :=
  { s with apps := (name, .file lines) :: s.apps.filter fun x => x.1 ≠ name }

/-- `>> "$APPS_DIR/name"` -/
def appendApp (name : Text) (lines : List Text) : SessionDir :=
  match s.apps.lookup name with
  | some (.file old) => s.writeApp name (old ++ lines)
  | _ => s.writeApp name lines

/-- `rm -f "$APPS_DIR/name"` -/
def rmApp (name : Text) : SessionDir :=
  { s with apps := s.apps.filter fun x => x.1 ≠ name }

/-- `mkdir -p "$APPS_DIR/name"` -/
def mkdirApp (name : Text) : SessionDir :=
  if s.apps.any fun x => x.1 = name then s
  else { s with apps := (name, .directory) :: s.apps }

def pruneAppMarkers : SessionDir := { s with apps := s.apps.filter (survivesPrune ps) }

/-- Any entry at all counts as an active app. -/
def hasActiveApps : SessionDir × Bool :=
  let pruned := s.pruneAppMarkers ps
  (pruned, !pruned.apps.isEmpty)

def westonIsRunning : Bool :=
  match s.pidFile with
  | none => false
  | some pid => !pid.isEmpty && ps.pid pid

/-- `start_weston_session` with the pid that Weston gets if it has to be started. -/
def startWestonSession (westonPid : Text) : SessionDir :=
  let pruned := s.pruneAppMarkers ps
  if pruned.westonIsRunning ps && pruned.socket then pruned
  else { pruned with pidFile := some westonPid, envFile := true, socket := true }

end SessionDir

/-- What `stop_weston_session_if_idle` does besides pruning. -/
inductive StopAction
  | killWeston (pid : Text)
  | rmSessionFiles
  deriving DecidableEq, Repr

def stopWestonSessionIfIdle (s : SessionDir) (ps : Processes) : SessionDir × List StopAction :=
  let (s, active) := s.hasActiveApps ps
  if !active then
    let killed := if s.westonIsRunning ps then s.pidFile.toList.map .killWeston else []
    ({ s with pidFile := none, envFile := false, socket := false }, killed ++ [.rmSessionFiles])
  else (s, [])

/-- The variables of one `acglass-run` process. `commandLines` are the lines of
the marker after the first, and `appPgid` is set where `setsid` exists. -/
structure Launch where
  stamp : Text
  shellPid : ℕ
  appPid : ℕ
  appPgid : Option ℕ
  commandLines : List Text

def decimal (n : ℕ) : Text := Nat.toDigits 10 n

namespace Launch

variable (r : Launch)

/-- `launch-$(date +%Y%m%d-%H%M%S)-$$.log` -/
def appLog : Text :=
  ['l', 'a', 'u', 'n', 'c', 'h', '-'] ++ r.stamp ++ ['-'] ++ decimal r.shellPid ++
    ['.', 'l', 'o', 'g']

def appMarker : Text := decimal r.appPid

def markerLines : List Text :=
  (pgidKey ++ decimal (r.appPgid.getD r.appPid)) :: r.commandLines

end Launch

def byId : Text := ['b', 'y', '-', 'i', 'd']

/-- The session directory and the `acglass-run` processes that wait for their app. -/
structure SessionState where
  dir : SessionDir
  running : List Launch

def SessionState.initial : SessionState := ⟨.initial, []⟩

/-- A launch up to `unlock_session`, the end of a waiting process from `wait` to
`exit`, or its loss without cleanup. The `kill -0` answers are those of that moment. -/
inductive SessionEvent
  | launch (r : Launch) (ps : Processes) (westonPid : Text)
  | exit (index : ℕ) (ps : Processes) (statusLines : List Text)
  | lost (index : ℕ)

def SessionEvent.isLaunch : SessionEvent → Bool
  | .launch .. => true
  | _ => false

def SessionDir.launch (s : SessionDir) (r : Launch) (ps : Processes) (westonPid : Text) :
    SessionDir :=
  let s := s.startWestonSession ps westonPid
  let s := s.mkdirApp byId
  let s := s.writeApp r.appLog []
  s.writeApp r.appMarker r.markerLines

def SessionDir.exit (s : SessionDir) (r : Launch) (ps : Processes) (statusLines : List Text) :
    SessionDir :=
  let s := s.appendApp r.appLog statusLines
  let s := s.rmApp r.appMarker
  (stopWestonSessionIfIdle s ps).1

def sessionStep (s : SessionState) : SessionEvent → SessionState
  | .launch r ps westonPid => ⟨s.dir.launch r ps westonPid, r :: s.running⟩
  | .exit index ps statusLines =>
    match s.running[index]? with
    | some r => ⟨s.dir.exit r ps statusLines, s.running.eraseIdx index⟩
    | none => s
  | .lost index => { s with running := s.running.eraseIdx index }

/-- The state after a history that starts without a session directory. -/
def sessionAfter (es : List SessionEvent) : SessionState := es.foldl sessionStep .initial

/-- The call kills the Weston that is running and removes the session files. -/
def StopsSession (s : SessionDir) (ps : Processes) : Prop :=
  .rmSessionFiles ∈ (stopWestonSessionIfIdle s ps).2 ∧
    ∀ pid ∈ s.pidFile, s.westonIsRunning ps → .killWeston pid ∈ (stopWestonSessionIfIdle s ps).2

instance (s : SessionDir) (ps : Processes) : Decidable (StopsSession s ps) :=
  inferInstanceAs (Decidable (_ ∧ _))

def TracksLiveApp (s : SessionDir) (ps : Processes) : Prop := ∃ m ∈ s.apps, NamesLive ps m

instance (s : SessionDir) (ps : Processes) : Decidable (TracksLiveApp s ps) :=
  inferInstanceAs (Decidable (∃ m ∈ s.apps, NamesLive ps m))

/-- The idle law: the session ends exactly when no marker names a live app. -/
def StopsExactlyWhenIdle (s : SessionDir) (ps : Processes) : Prop :=
  StopsSession s ps ↔ ¬ TracksLiveApp s ps

instance (s : SessionDir) (ps : Processes) : Decidable (StopsExactlyWhenIdle s ps) :=
  inferInstanceAs (Decidable (_ ↔ _))

theorem not_isNumeric_of_isLog {name : Text} (h : isLog name) : isNumeric name = false := by
  have hg : 'g' ∈ name := by
    have hsuffix : ['.', 'l', 'o', 'g'] <:+ name := List.isSuffixOf_iff_suffix.mp h
    exact hsuffix.subset (by simp)
  have hdigit : name.all Char.isDigit = false := by
    rw [List.all_eq_false]
    exact ⟨'g', hg, by decide⟩
  simp [isNumeric, hdigit]

theorem isNumeric_decimal (n : ℕ) : isNumeric (decimal n) := by
  have hall : (decimal n).all Char.isDigit := by
    rw [List.all_eq_true]
    intro c hc
    exact Nat.isDigit_of_mem_toDigits (by decide) (by decide) hc
  have hne : decimal n ≠ [] := Nat.toDigits_ne_nil
  simp [isNumeric, hall, hne]

theorem isLog_decimal (n : ℕ) : isLog (decimal n) = false := by
  by_contra h
  have := not_isNumeric_of_isLog (Bool.not_eq_false _ ▸ h)
  simp [isNumeric_decimal] at this

theorem isLog_appLog (r : Launch) : isLog r.appLog := by
  exact List.isSuffixOf_iff_suffix.mpr (List.suffix_append _ _)

theorem survivesPrune_of_namesLive {ps : Processes} {m : Text × AppEntry}
    (h : NamesLive ps m) : survivesPrune ps m := by
  obtain ⟨name, entry⟩ := m
  cases entry with
  | directory => rfl
  | file lines =>
    simp only [NamesLive, Bool.and_eq_true, Bool.or_eq_true] at h
    obtain ⟨hnum, hpid | hgroup⟩ := h
    · simp [survivesPrune, hnum, hpid]
    · simp [survivesPrune, hnum, hgroup]

/-- A launch log: the kind of entry that pruning spares and nobody removes. -/
def IsLaunchLog : Text × AppEntry → Bool
  | (_, .directory) => false
  | (name, .file _) => isLog name

theorem survivesPrune_of_isLaunchLog {ps : Processes} {m : Text × AppEntry}
    (h : IsLaunchLog m) : survivesPrune ps m := by
  obtain ⟨name, entry⟩ := m
  cases entry with
  | directory => rfl
  | file lines =>
    simp only [IsLaunchLog] at h
    simp [survivesPrune, h]

namespace SessionDir

variable {s : SessionDir} {ps : Processes}

theorem stops_of_pruned_nil (h : (s.pruneAppMarkers ps).apps = []) : StopsSession s ps := by
  have hrun : (s.pruneAppMarkers ps).westonIsRunning ps = s.westonIsRunning ps := rfl
  constructor
  · simp [stopWestonSessionIfIdle, hasActiveApps, h]
  · intro pid hpid hw
    simp only [stopWestonSessionIfIdle, hasActiveApps, h, hrun, hw]
    simpa [pruneAppMarkers] using hpid

theorem not_stops_of_survivor {m : Text × AppEntry} (hm : m ∈ s.apps)
    (h : survivesPrune ps m) : ¬ StopsSession s ps := by
  have hne : (s.pruneAppMarkers ps).apps ≠ [] := by
    apply List.ne_nil_of_mem
    exact List.mem_filter.mpr ⟨hm, h⟩
  intro hs
  simp [StopsSession, stopWestonSessionIfIdle, hasActiveApps, hne] at hs

/-- The session is never stopped over a live app. -/
theorem not_stops_of_tracksLiveApp (h : TracksLiveApp s ps) : ¬ StopsSession s ps := by
  obtain ⟨m, hm, hl⟩ := h
  exact not_stops_of_survivor hm (survivesPrune_of_namesLive hl)

/-- A launch log is in the apps directory. -/
def HasLaunchLog (s : SessionDir) : Prop := ∃ m ∈ s.apps, IsLaunchLog m

theorem HasLaunchLog.prune (h : s.HasLaunchLog) : (s.pruneAppMarkers ps).HasLaunchLog := by
  obtain ⟨m, hm, hl⟩ := h
  exact ⟨m, List.mem_filter.mpr ⟨hm, survivesPrune_of_isLaunchLog hl⟩, hl⟩

theorem HasLaunchLog.writeApp (h : s.HasLaunchLog) (name : Text) (lines : List Text) :
    (s.writeApp name lines).HasLaunchLog := by
  obtain ⟨⟨n, entry⟩, hm, hl⟩ := h
  by_cases hn : n = name
  · subst n
    cases entry with
    | directory => simp [IsLaunchLog] at hl
    | file _ => exact ⟨(name, .file lines), by simp [SessionDir.writeApp], hl⟩
  · exact ⟨(n, entry), by simp [SessionDir.writeApp, hm, hn], hl⟩

theorem HasLaunchLog.appendApp (h : s.HasLaunchLog) (name : Text) (lines : List Text) :
    (s.appendApp name lines).HasLaunchLog := by
  unfold SessionDir.appendApp
  split <;> exact h.writeApp name _

theorem HasLaunchLog.rmApp (h : s.HasLaunchLog) {name : Text} (hn : isLog name = false) :
    (s.rmApp name).HasLaunchLog := by
  obtain ⟨⟨n, entry⟩, hm, hl⟩ := h
  cases entry with
  | directory => simp [IsLaunchLog] at hl
  | file lines =>
    have hne : n ≠ name := by
      rintro rfl
      simp [IsLaunchLog, hn] at hl
    exact ⟨(n, .file lines), by simp [SessionDir.rmApp, hm, hne], hl⟩

theorem stop_apps (s : SessionDir) (ps : Processes) :
    (stopWestonSessionIfIdle s ps).1.apps = (s.pruneAppMarkers ps).apps := by
  unfold stopWestonSessionIfIdle hasActiveApps
  dsimp only
  split <;> rfl

theorem HasLaunchLog.stop (h : s.HasLaunchLog) :
    (stopWestonSessionIfIdle s ps).1.HasLaunchLog := by
  unfold HasLaunchLog
  rw [stop_apps]
  exact h.prune

theorem hasLaunchLog_launch (s : SessionDir) (r : Launch) (ps : Processes) (westonPid : Text) :
    (s.launch r ps westonPid).HasLaunchLog := by
  apply HasLaunchLog.writeApp
  exact ⟨(r.appLog, .file []), by simp [SessionDir.writeApp], isLog_appLog r⟩

theorem HasLaunchLog.exit (h : s.HasLaunchLog) (r : Launch) (ps : Processes)
    (statusLines : List Text) : (s.exit r ps statusLines).HasLaunchLog :=
  ((h.appendApp _ _).rmApp (isLog_decimal _)).stop

end SessionDir

theorem hasLaunchLog_step {s : SessionState} (h : s.dir.HasLaunchLog) (e : SessionEvent) :
    (sessionStep s e).dir.HasLaunchLog := by
  cases e with
  | launch r ps westonPid => exact s.dir.hasLaunchLog_launch r ps westonPid
  | exit index ps statusLines =>
    simp only [sessionStep]
    split
    · exact h.exit _ ps statusLines
    · exact h
  | lost index => exact h

theorem hasLaunchLog_foldl {s : SessionState} (h : s.dir.HasLaunchLog)
    (es : List SessionEvent) : (es.foldl sessionStep s).dir.HasLaunchLog := by
  induction es generalizing s with
  | nil => exact h
  | cons e es ih => exact ih (hasLaunchLog_step h e)

/-- From the first launch on the apps directory holds a launch log for good. -/
theorem hasLaunchLog_of_launch {es : List SessionEvent} (h : ∃ e ∈ es, e.isLaunch) :
    (sessionAfter es).dir.HasLaunchLog := by
  obtain ⟨e, he, hl⟩ := h
  obtain ⟨pre, post, rfl⟩ := List.append_of_mem he
  cases e with
  | launch r ps westonPid =>
    unfold sessionAfter
    rw [List.foldl_append, List.foldl_cons]
    apply hasLaunchLog_foldl
    exact SessionDir.hasLaunchLog_launch _ r ps westonPid
  | exit => simp [SessionEvent.isLaunch] at hl
  | lost => simp [SessionEvent.isLaunch] at hl

/-- Without a launch nothing happens to the session directory. -/
theorem sessionAfter_of_no_launch {es : List SessionEvent} (h : ∀ e ∈ es, e.isLaunch = false) :
    sessionAfter es = .initial := by
  unfold sessionAfter
  induction es with
  | nil => rfl
  | cons e es ih =>
    have he : sessionStep .initial e = .initial := by
      cases e with
      | launch => simp [SessionEvent.isLaunch] at h
      | exit => simp [sessionStep, SessionState.initial]
      | lost => simp [sessionStep, SessionState.initial]
    rw [List.foldl_cons, he]
    exact ih fun e he => h e (List.mem_cons_of_mem _ he)

/-- The idle law holds after a history exactly while nothing has been launched
or some tracked app is alive: once a launch has left its log behind, the session
outlives its last app. -/
theorem stopsExactlyWhenIdle_iff (es : List SessionEvent) (ps : Processes) :
    StopsExactlyWhenIdle (sessionAfter es).dir ps ↔
      (∀ e ∈ es, e.isLaunch = false) ∨ TracksLiveApp (sessionAfter es).dir ps := by
  by_cases hlive : TracksLiveApp (sessionAfter es).dir ps
  · have hstop := SessionDir.not_stops_of_tracksLiveApp hlive
    simp [StopsExactlyWhenIdle, hlive, hstop]
  by_cases hlaunch : ∃ e ∈ es, e.isLaunch
  · obtain ⟨m, hm, hl⟩ := hasLaunchLog_of_launch hlaunch
    have hstop : ¬ StopsSession (sessionAfter es).dir ps :=
      SessionDir.not_stops_of_survivor hm (survivesPrune_of_isLaunchLog hl)
    have hnone : ¬ ∀ e ∈ es, e.isLaunch = false := by simpa using hlaunch
    simp [StopsExactlyWhenIdle, hlive, hstop, hnone]
  · have hnone : ∀ e ∈ es, e.isLaunch = false := by simpa using hlaunch
    have hstop : StopsSession (sessionAfter es).dir ps := by
      rw [sessionAfter_of_no_launch hnone]
      exact SessionDir.stops_of_pruned_nil rfl
    simp only [StopsExactlyWhenIdle, hstop, hlive, not_false_eq_true, iff_self, true_iff, or_false]
    exact hnone

/-- Nothing but the Weston with pid 99 is alive. -/
def onlyWeston : Processes := ⟨fun pid => pid = ['9', '9'], fun _ => false⟩

/-- One app is launched and ends. -/
def oneLaunch : List SessionEvent :=
  [.launch ⟨"20240101-120000".toList, 100, 101, some 101, []⟩ onlyWeston ['9', '9'],
    .exit 0 onlyWeston []]

theorem oneLaunch_not_stopsExactlyWhenIdle :
    ¬ StopsExactlyWhenIdle (sessionAfter oneLaunch).dir onlyWeston := by
  decide

end Session
end ACGlass
