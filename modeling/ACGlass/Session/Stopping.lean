import ACGlass.Session.Idle
import ACGlass.Transition

/-!
# Stopping an app by its id

`acglass-run` writes a marker for its app and a file with the name of the id that names the
marker, and removes both in the end. `stop_app.sh` follows them to the process group. The
system has `setsid`, which gives the app a group, and `pgrep`, by which the end of the group is
awaited.
-/

namespace ACGlass
namespace Session

open Transition

section Model

def isIdChar (c : Char) : Bool := c.isAlphanum || c ∈ ['_', '.', ':', '-']

/-- The app id, unless it is empty or `*[!A-Za-z0-9_.:-]*`. -/
def checkedAppId (appId : Text) : Option Text :=
  if !appId.isEmpty && appId.all isIdChar then some appId else none

/-- `.` and `..` are directories, and no file of `by-id` can have their names. -/
def isFileName (name : Text) : Bool := name ≠ ['.'] ∧ name ≠ ['.', '.']

/-- An `acglass-run` process from `unlock_session` to its end; `alive` says of the app or of its
group that it is there. -/
structure App where
  launch : Launch
  id : Option Text
  alive : Bool

namespace App

variable (a : App)

def pid : ℕ := a.launch.appPid

/-- The entry of `$APPS_DIR` for the app. -/
def entry : AppEntry := .file a.launch.markerLines

end App

/-- `ids` are the files of `by-id`, with the names of the markers in them. -/
structure Registry where
  dir : SessionDir
  ids : Text → Option Text
  running : List App

/-- A launch up to `unlock_session`; the end of an app; a signal for an `acglass-run`, which then
runs `cleanup`; and the end of an `acglass-run` behind its app. -/
inductive RunEvent
  | launch (r : Launch) (appId : Text) (ps : Processes) (westonPid : Text)
  | ended (pid : ℕ)
  | interrupted (pid : ℕ) (ps : Processes)
  | exit (pid : ℕ) (ps : Processes) (statusLines : List Text)

/-- What `stop_app.sh` sends its signals to. -/
inductive Target
  | group (pgid : Text)
  | process (pid : Text)
  deriving DecidableEq, Repr

namespace Registry

variable (s : Registry)

def initial : Registry := ⟨.initial, fun _ => none, []⟩

/-- `kill -0` finds each app that is alive. -/
def Truthful (ps : Processes) : Prop :=
  ∀ a ∈ s.running, a.alive = true →
    ps.pid (decimal a.pid) = true ∨ ps.group (decimal a.pid) = true

instance (ps : Processes) : Decidable (s.Truthful ps) := inferInstanceAs (Decidable (∀ a ∈ _, _))

/-- `printf '%s\n' "$APP_MARKER" > "$APP_ID_FILE"` -/
def writeId (id : Option Text) (marker : Text) : Text → Option Text :=
  match id with
  | some id => if isFileName id then Function.update s.ids id (some marker) else s.ids
  | none => s.ids

/-- `[ -n "$APP_ID_FILE" ] && rm -f "$APP_ID_FILE"` -/
def rmId (id : Option Text) : Text → Option Text :=
  match id with
  | some id => Function.update s.ids id none
  | none => s.ids

/-- The pid of a new app is its own, and that of its group. -/
def launch (r : Launch) (appId : Text) (ps : Processes) (westonPid : Text) : Option Registry :=
  if (∀ a ∈ s.running, a.pid ≠ r.appPid) ∧ r.appPgid = some r.appPid ∧ s.Truthful ps then
    some
      { dir := s.dir.launch r ps westonPid
        ids := s.writeId (checkedAppId appId) r.appMarker
        running := ⟨r, checkedAppId appId, true⟩ :: s.running }
  else none

def ended (pid : ℕ) : Registry where
  dir := s.dir
  ids := s.ids
  running := s.running.map fun a => if a.pid = pid then { a with alive := false } else a

def find (pid : ℕ) : Option App := s.running.find? (·.pid = pid)

/-- `cleanup` kills the app, and behind it the script goes on to its end. -/
def interrupted (pid : ℕ) (ps : Processes) : Option Registry :=
  (s.find pid).bind fun a =>
    if (s.ended pid).Truthful ps then
      some { s.ended pid with
        dir := (stopWestonSessionIfIdle (s.dir.rmApp a.launch.appMarker) ps).1
        ids := s.rmId a.id }
    else none

/-- `wait_for_app_group` has returned, as nothing is left of the group. -/
def exit (pid : ℕ) (ps : Processes) (statusLines : List Text) : Option Registry :=
  (s.find pid).bind fun a =>
    if a.alive = false ∧ s.Truthful ps then
      some
        { dir := s.dir.exit a.launch ps statusLines
          ids := s.rmId a.id
          running := s.running.filter (·.pid ≠ pid) }
    else none

def step : RunEvent → Option Registry
  | .launch r appId ps westonPid => s.launch r appId ps westonPid
  | .ended pid => some (s.ended pid)
  | .interrupted pid ps => s.interrupted pid ps
  | .exit pid ps statusLines => s.exit pid ps statusLines

/-- `stop_app.sh` -/
def stopApp (appId : Text) : Option Target := do
  let id ← checkedAppId appId
  let marker ← s.ids id
  match ← s.dir.apps.lookup marker with
  | .directory => none
  | .file lines =>
    if isNumeric (pgidOf lines) then some (.group (pgidOf lines))
    else if isNumeric marker then some (.process marker)
    else none

/-- Each app that is alive and has an id is stopped by it, and nothing else is ever stopped. -/
structure StopsByIds : Prop where
  reaches : ∀ a ∈ s.running, a.alive = true → ∀ id ∈ a.id, isFileName id = true →
    s.stopApp id = some (.group (decimal a.pid))
  only : ∀ appId, ∀ target ∈ s.stopApp appId, ∃ a ∈ s.running,
    a.id = some appId ∧ target = .group (decimal a.pid)

/-- No app gets an id that another one has while that is alive, and none goes while another is
alive that has its id. -/
def Separate : RunEvent → Prop
  | .launch _ appId _ _ => ∀ a ∈ s.running, a.alive = true → ∀ id ∈ a.id,
    isFileName id = true → checkedAppId appId ≠ some id
  | .interrupted pid _ | .exit pid _ _ => ∀ a ∈ s.running, a.pid = pid → ∀ b ∈ s.running,
    b.pid ≠ pid → b.alive = true → ∀ id ∈ b.id, isFileName id = true → a.id ≠ some id
  | .ended _ => True

end Registry

end Model

section Files

variable {s : SessionDir} {ps : Processes} {name : Text}

theorem decimal_injective : Function.Injective decimal := by
  intro m n h
  calc m = Nat.ofDigitChars 10 (decimal m) 0 := Nat.ofDigitChars_ten_toDigits.symm
    _ = Nat.ofDigitChars 10 (decimal n) 0 := by rw [h]
    _ = n := Nat.ofDigitChars_ten_toDigits

/-- Looking up among some of the entries. -/
theorem lookup_filter {β : Type*} {l : List (Text × β)} (p : Text × β → Bool)
    (hl : (l.map Prod.fst).Nodup) (name : Text) :
    (l.filter p).lookup name = (l.lookup name).filter fun v => p (name, v) := by
  induction l with
  | nil => rfl
  | cons x l ih =>
    obtain ⟨key, v⟩ := x
    rw [List.map_cons, List.nodup_cons] at hl
    have ih := ih hl.2
    by_cases heq : name = key
    · obtain rfl := heq
      have hnone : l.lookup name = none := by
        rw [List.lookup_eq_none_iff]
        intro y hy
        rw [bne_iff_ne]
        rintro rfl
        exact hl.1 (List.mem_map.mpr ⟨y, hy, rfl⟩)
      rw [List.filter_cons, List.lookup_cons_self]
      split_ifs with hp
      · rw [List.lookup_cons_self, Option.filter_some, if_pos hp]
      · rw [ih, hnone, Option.filter_some, if_neg hp, Option.filter_none]
    · have hne : (name == key) = false := beq_eq_false_iff_ne.mpr heq
      rw [List.lookup_cons, hne, List.filter_cons]
      split_ifs with hp
      · rw [List.lookup_cons, hne, ih]
      · exact ih

/-- Where a name is written there is one entry for it. -/
theorem lookup_writeApp (s : SessionDir) (hs : (s.apps.map Prod.fst).Nodup) (written : Text)
    (lines : List Text) (name : Text) : (s.writeApp written lines).apps.lookup name =
      if name = written then some (.file lines) else s.apps.lookup name := by
  rw [SessionDir.writeApp, List.lookup_cons]
  split_ifs with h
  · simp [h]
  · rw [beq_eq_false_iff_ne.mpr h, lookup_filter _ hs]
    cases s.apps.lookup name <;> simp [h]

theorem lookup_rmApp (s : SessionDir) (hs : (s.apps.map Prod.fst).Nodup) (removed name : Text) :
    (s.rmApp removed).apps.lookup name =
      if name = removed then none else s.apps.lookup name := by
  rw [SessionDir.rmApp, lookup_filter _ hs]
  split_ifs with h <;> cases s.apps.lookup name <;> simp [h]

theorem lookup_prune (s : SessionDir) (hs : (s.apps.map Prod.fst).Nodup) (ps : Processes)
    (name : Text) : (s.pruneAppMarkers ps).apps.lookup name =
      (s.apps.lookup name).filter fun e => survivesPrune ps (name, e) :=
  lookup_filter _ hs name

theorem nodup_writeApp (s : SessionDir) (hs : (s.apps.map Prod.fst).Nodup) (written : Text)
    (lines : List Text) : ((s.writeApp written lines).apps.map Prod.fst).Nodup := by
  rw [SessionDir.writeApp, List.map_cons, List.nodup_cons]
  refine ⟨?_, hs.sublist (List.filter_sublist.map _)⟩
  simp

theorem nodup_filter (s : SessionDir) (hs : (s.apps.map Prod.fst).Nodup)
    (p : Text × AppEntry → Bool) : ((s.apps.filter p).map Prod.fst).Nodup :=
  hs.sublist (List.filter_sublist.map _)

theorem mkdirApp_apps (s : SessionDir) (hs : (s.apps.map Prod.fst).Nodup) (made : Text) :
    ((s.mkdirApp made).apps.map Prod.fst).Nodup ∧
      ∀ name ≠ made, (s.mkdirApp made).apps.lookup name = s.apps.lookup name := by
  rw [SessionDir.mkdirApp]
  split_ifs with h
  · exact ⟨hs, fun _ _ => rfl⟩
  · refine ⟨?_, fun name hne => ?_⟩
    · rw [List.map_cons, List.nodup_cons]
      refine ⟨fun hmem => h ?_, hs⟩
      obtain ⟨x, hx, rfl⟩ := List.mem_map.mp hmem
      exact List.any_eq_true.mpr ⟨x, hx, by simp⟩
    · rw [List.lookup_cons, beq_eq_false_iff_ne.mpr hne]

theorem startWestonSession_apps (s : SessionDir) (ps : Processes) (westonPid : Text) :
    (s.startWestonSession ps westonPid).apps = (s.pruneAppMarkers ps).apps := by
  unfold SessionDir.startWestonSession
  dsimp only
  split_ifs <;> rfl

/-- What a launch makes of the marker with a number for a name. -/
theorem lookup_launch (s : SessionDir) (hs : (s.apps.map Prod.fst).Nodup) (r : Launch)
    (ps : Processes) (westonPid : Text) :
    ((s.launch r ps westonPid).apps.map Prod.fst).Nodup ∧
      ∀ pid, (s.launch r ps westonPid).apps.lookup (decimal pid) =
        if pid = r.appPid then some (.file r.markerLines)
        else (s.apps.lookup (decimal pid)).filter fun e => survivesPrune ps (decimal pid, e) := by
  have hpruned : ((s.startWestonSession ps westonPid).apps.map Prod.fst).Nodup := by
    rw [startWestonSession_apps]
    exact nodup_filter s hs _
  obtain ⟨hmade, hmkdir⟩ := mkdirApp_apps _ hpruned byId
  have hlogged := nodup_writeApp _ hmade r.appLog []
  refine ⟨nodup_writeApp _ hlogged _ _, fun pid => ?_⟩
  have hnumber : ∀ name, isNumeric name = false → decimal pid ≠ name := by
    rintro name hname rfl
    rw [isNumeric_decimal] at hname
    cases hname
  have hlog := hnumber r.appLog (not_isNumeric_of_isLog (isLog_appLog r))
  have hdir := hnumber byId (by decide)
  rw [SessionDir.launch, lookup_writeApp _ hlogged, Launch.appMarker]
  simp only [decimal_injective.eq_iff]
  split_ifs with h
  · rfl
  · rw [lookup_writeApp _ hmade, if_neg hlog, hmkdir _ hdir, startWestonSession_apps,
      lookup_prune s hs]

/-- What the end of an `acglass-run` makes of it. -/
theorem lookup_cleaned (s : SessionDir) (hs : (s.apps.map Prod.fst).Nodup) (removed : ℕ)
    (ps : Processes) :
    ((stopWestonSessionIfIdle (s.rmApp (decimal removed)) ps).1.apps.map Prod.fst).Nodup ∧
      ∀ pid, (stopWestonSessionIfIdle (s.rmApp (decimal removed)) ps).1.apps.lookup (decimal pid) =
        if pid = removed then none
        else (s.apps.lookup (decimal pid)).filter fun e => survivesPrune ps (decimal pid, e) := by
  have hrm : ((s.rmApp (decimal removed)).apps.map Prod.fst).Nodup := nodup_filter s hs _
  rw [SessionDir.stop_apps]
  refine ⟨nodup_filter _ hrm _, fun pid => ?_⟩
  rw [lookup_prune _ hrm, lookup_rmApp s hs]
  simp only [decimal_injective.eq_iff]
  split_ifs <;> rfl

theorem lookup_appendApp (s : SessionDir) (hs : (s.apps.map Prod.fst).Nodup) (log : Text)
    (lines : List Text) : ((s.appendApp log lines).apps.map Prod.fst).Nodup ∧
      ∀ name ≠ log, (s.appendApp log lines).apps.lookup name = s.apps.lookup name := by
  unfold SessionDir.appendApp
  split <;>
  · refine ⟨nodup_writeApp s hs _ _, fun name hne => ?_⟩
    rw [lookup_writeApp s hs, if_neg hne]

theorem lookup_exit (s : SessionDir) (hs : (s.apps.map Prod.fst).Nodup) (r : Launch)
    (ps : Processes) (statusLines : List Text) :
    ((s.exit r ps statusLines).apps.map Prod.fst).Nodup ∧
      ∀ pid, (s.exit r ps statusLines).apps.lookup (decimal pid) =
        if pid = r.appPid then none
        else (s.apps.lookup (decimal pid)).filter fun e => survivesPrune ps (decimal pid, e) := by
  obtain ⟨hnodup, hlookup⟩ := lookup_appendApp s hs r.appLog statusLines
  obtain ⟨hcleaned, hrest⟩ := lookup_cleaned _ hnodup r.appPid ps
  refine ⟨hcleaned, fun pid => (hrest pid).trans ?_⟩
  rw [hlookup]
  intro heq
  have hlog := not_isNumeric_of_isLog (isLog_appLog r)
  rw [← heq, isNumeric_decimal] at hlog
  cases hlog

end Files

namespace Registry

variable {s t : Registry} {a : App} {ps : Processes} {pid : ℕ}

/-- The files are those of the processes that run. -/
structure Kept (s : Registry) : Prop where
  names : (s.dir.apps.map Prod.fst).Nodup
  pids : (s.running.map App.pid).Nodup
  checked : ∀ a ∈ s.running, ∀ id ∈ a.id, checkedAppId id = some id
  groups : ∀ a ∈ s.running, a.launch.appPgid = some a.launch.appPid
  marked : ∀ a ∈ s.running, a.alive = true → s.dir.apps.lookup (decimal a.pid) = some a.entry
  entries : ∀ a ∈ s.running, ∀ e ∈ s.dir.apps.lookup (decimal a.pid), e = a.entry
  ids : ∀ id, ∀ name ∈ s.ids id, ∃ a ∈ s.running, a.id = some id ∧ name = decimal a.pid

/-- The file of an id names the app that is alive. -/
def Owned (s : Registry) : Prop :=
  ∀ a ∈ s.running, a.alive = true → ∀ id ∈ a.id, isFileName id = true →
    s.ids id = some (decimal a.pid)

section Stop

theorem pgidOf_markerLines (r : Launch) :
    pgidOf r.markerLines = decimal (r.appPgid.getD r.appPid) := by
  have hprefix : pgidKey.isPrefixOf (pgidKey ++ decimal (r.appPgid.getD r.appPid)) = true :=
    List.isPrefixOf_iff_prefix.mpr (List.prefix_append _ _)
  rw [pgidOf, Launch.markerLines, List.find?_cons, hprefix]
  exact List.drop_left

theorem Kept.eq_of_pid (hs : s.Kept) {b : App} (ha : a ∈ s.running) (hb : b ∈ s.running)
    (h : a.pid = b.pid) : a = b := List.inj_on_of_nodup_map hs.pids ha hb h

/-- The answer of `stop_app.sh` for a file that names a marker. -/
theorem Kept.stopApp_of_ids (hs : s.Kept) (ha : a ∈ s.running) {id : Text} (hid : a.id = some id)
    (hfile : s.ids id = some (decimal a.pid))
    (hmarker : s.dir.apps.lookup (decimal a.pid) = some a.entry) :
    s.stopApp id = some (.group (decimal a.pid)) := by
  have hgroup : pgidOf a.launch.markerLines = decimal a.pid := by
    rw [pgidOf_markerLines, hs.groups a ha]
    rfl
  rw [stopApp, hs.checked a ha id hid, Option.bind_eq_bind, Option.bind_some, hfile,
    Option.bind_eq_bind, Option.bind_some, hmarker, Option.bind_some]
  simp only [App.entry, hgroup]
  rw [if_pos (isNumeric_decimal _)]

/-- It answers only for a file that names the marker of a process that runs. -/
theorem Kept.ids_of_stopApp (hs : s.Kept) {appId : Text} {target : Target}
    (h : s.stopApp appId = some target) : ∃ a ∈ s.running, a.id = some appId ∧
      s.ids appId = some (decimal a.pid) ∧ target = .group (decimal a.pid) := by
  have horiginal := h
  obtain ⟨id, hid, h⟩ := Option.bind_eq_some_iff.mp h
  obtain ⟨name, hname, h⟩ := Option.bind_eq_some_iff.mp h
  obtain ⟨entry, hentry, -⟩ := Option.bind_eq_some_iff.mp h
  obtain rfl : appId = id := by
    unfold checkedAppId at hid
    split_ifs at hid
    exact Option.some.inj hid
  obtain ⟨a, ha, haid, rfl⟩ := hs.ids appId name hname
  obtain rfl := hs.entries a ha entry hentry
  rw [hs.stopApp_of_ids ha haid hname hentry] at horiginal
  exact ⟨a, ha, haid, hname, (Option.some.inj horiginal).symm⟩

/-- Stopping by ids works exactly if the files of the ids name the apps. -/
theorem Kept.stopsByIds_iff (hs : s.Kept) : s.StopsByIds ↔ s.Owned := by
  constructor
  · intro h a ha halive id hid hname
    obtain ⟨b, hb, -, hfile, htarget⟩ := hs.ids_of_stopApp (h.reaches a ha halive id hid hname)
    rw [hfile, Target.group.inj htarget]
  · intro h
    refine ⟨fun a ha halive id hid hname => ?_, fun appId target htarget => ?_⟩
    · exact hs.stopApp_of_ids ha hid (h a ha halive id hid hname) (hs.marked a ha halive)
    · obtain ⟨a, ha, hid, -, heq⟩ := hs.ids_of_stopApp htarget
      exact ⟨a, ha, hid, heq⟩

end Stop

section Steps

/-- Pruning leaves the marker of an app that `kill -0` finds. -/
theorem Kept.survives (hs : s.Kept) (ha : a ∈ s.running)
    (h : ps.pid (decimal a.pid) = true ∨ ps.group (decimal a.pid) = true) :
    survivesPrune ps (decimal a.pid, a.entry) = true := by
  have hgroup : pgidOf a.launch.markerLines = decimal a.pid := by
    rw [pgidOf_markerLines, hs.groups a ha]
    rfl
  have hne : (decimal a.pid).isEmpty = false :=
    List.isEmpty_eq_false_iff.mpr Nat.toDigits_ne_nil
  apply survivesPrune_of_namesLive
  rw [App.entry, NamesLive, isNumeric_decimal, hgroup, hne]
  simpa using h

theorem checkedAppId_eq {appId id : Text} (h : checkedAppId appId = some id) :
    checkedAppId id = some id := by
  have horiginal := h
  unfold checkedAppId at h
  split_ifs at h
  exact Option.some.inj h ▸ horiginal

theorem writeId_self {appId id marker : Text} (h : checkedAppId appId = some id)
    (hname : isFileName id = true) : s.writeId (checkedAppId appId) marker id = some marker := by
  rw [h, writeId, if_pos hname, Function.update_self]

theorem writeId_other {appId id marker : Text}
    (h : isFileName id = true → checkedAppId appId ≠ some id) :
    s.writeId (checkedAppId appId) marker id = s.ids id := by
  cases hchecked : checkedAppId appId with
  | none => rfl
  | some id' =>
    rw [writeId]
    split_ifs with hname
    · rw [Function.update_of_ne]
      rintro rfl
      exact h hname hchecked
    · rfl

theorem Kept.launch (hs : s.Kept) {r : Launch} {appId westonPid : Text}
    (h : s.launch r appId ps westonPid = some t) : t.Kept := by
  obtain ⟨⟨hfresh, hgroup, htrue⟩, h⟩ := Option.ite_none_right_eq_some.mp h
  obtain rfl := Option.some.inj h
  obtain ⟨hnames, hlookup⟩ := lookup_launch s.dir hs.names r ps westonPid
  have hold : ∀ a ∈ s.running, (s.dir.launch r ps westonPid).apps.lookup (decimal a.pid) =
      (s.dir.apps.lookup (decimal a.pid)).filter fun e => survivesPrune ps (decimal a.pid, e) :=
    fun a ha => (hlookup a.pid).trans (if_neg (hfresh a ha))
  have hnew : (s.dir.launch r ps westonPid).apps.lookup (decimal r.appPid) =
      some (.file r.markerLines) := (hlookup r.appPid).trans (if_pos rfl)
  constructor
  · exact hnames
  · rw [List.map_cons, List.nodup_cons]
    refine ⟨fun hmem => ?_, hs.pids⟩
    obtain ⟨a, ha, heq⟩ := List.mem_map.mp hmem
    exact hfresh a ha heq
  · exact List.forall_mem_cons.mpr ⟨fun id hid => checkedAppId_eq hid, hs.checked⟩
  · exact List.forall_mem_cons.mpr ⟨hgroup, hs.groups⟩
  · refine List.forall_mem_cons.mpr ⟨fun _ => hnew, fun a ha halive => ?_⟩
    rw [hold a ha, hs.marked a ha halive, Option.filter_some,
      if_pos (hs.survives ha (htrue a ha halive))]
  · refine List.forall_mem_cons.mpr ⟨fun e he => ?_, fun a ha e he => ?_⟩
    · exact Option.some.inj (he.symm.trans hnew)
    · rw [hold a ha] at he
      exact hs.entries a ha e (Option.filter_eq_some_iff.mp he).1
  · intro id name hname
    change s.writeId (checkedAppId appId) r.appMarker id = some name at hname
    by_cases hsame : checkedAppId appId = some id ∧ isFileName id = true
    · refine ⟨_, List.mem_cons_self, hsame.1, ?_⟩
      rw [writeId_self hsame.1 hsame.2] at hname
      exact (Option.some.inj hname).symm
    · rw [writeId_other fun hfile heq => hsame ⟨heq, hfile⟩] at hname
      obtain ⟨a, ha, hid, heq⟩ := hs.ids id name hname
      exact ⟨a, List.mem_cons_of_mem _ ha, hid, heq⟩

theorem owned_launch_iff (ho : s.Owned) {r : Launch} {appId westonPid : Text}
    (h : s.launch r appId ps westonPid = some t) :
    t.Owned ↔ s.Separate (.launch r appId ps westonPid) := by
  obtain ⟨⟨hfresh, -, -⟩, h⟩ := Option.ite_none_right_eq_some.mp h
  obtain rfl := Option.some.inj h
  constructor
  · intro ht a ha halive id hid hname hsame
    have howned : s.writeId (checkedAppId appId) r.appMarker id = some (decimal a.pid) :=
      ht a (List.mem_cons_of_mem _ ha) halive id hid hname
    rw [writeId_self hsame hname] at howned
    exact hfresh a ha (decimal_injective (Option.some.inj howned)).symm
  · intro hseparate
    refine List.forall_mem_cons.mpr ⟨fun _ id hid hname => writeId_self hid hname, ?_⟩
    intro a ha halive id hid hname
    exact (writeId_other fun _ => hseparate a ha halive id hid hname).trans
      (ho a ha halive id hid hname)

/-- The processes behind the end of an app are those in front of it. -/
theorem mem_ended {b : App} : b ∈ (s.ended pid).running ↔
    ∃ a ∈ s.running, b = if a.pid = pid then { a with alive := false } else a := by
  rw [ended, List.mem_map]
  exact exists_congr fun a => and_congr_right fun _ => eq_comm

theorem ended_cases {b : App} (hb : b ∈ (s.ended pid).running) :
    ∃ a ∈ s.running, b.launch = a.launch ∧ b.id = a.id ∧
      (b.alive = true → b = a ∧ a.pid ≠ pid) := by
  obtain ⟨a, ha, rfl⟩ := mem_ended.mp hb
  refine ⟨a, ha, ?_⟩
  split_ifs with h
  · exact ⟨rfl, rfl, fun halive => by cases halive⟩
  · exact ⟨rfl, rfl, fun _ => ⟨rfl, h⟩⟩

theorem exists_ended (pid : ℕ) {a : App} (ha : a ∈ s.running) :
    ∃ b ∈ (s.ended pid).running, b.launch = a.launch ∧ b.id = a.id := by
  refine ⟨_, mem_ended.mpr ⟨a, ha, rfl⟩, ?_⟩
  split_ifs <;> exact ⟨rfl, rfl⟩

theorem Kept.ended (hs : s.Kept) (pid : ℕ) : (s.ended pid).Kept := by
  have hpids : (s.ended pid).running.map App.pid = s.running.map App.pid := by
    rw [Registry.ended, List.map_map]
    apply List.map_congr_left
    intro a _
    rw [Function.comp_apply]
    split_ifs <;> rfl
  constructor
  · exact hs.names
  · rw [hpids]
    exact hs.pids
  · intro b hb
    obtain ⟨a, ha, -, hid, -⟩ := ended_cases hb
    exact hid ▸ hs.checked a ha
  · intro b hb
    obtain ⟨a, ha, hlaunch, -⟩ := ended_cases hb
    exact hlaunch ▸ hs.groups a ha
  · intro b hb halive
    obtain ⟨a, ha, -, -, hsame⟩ := ended_cases hb
    obtain ⟨rfl, -⟩ := hsame halive
    exact hs.marked b ha halive
  · intro b hb
    obtain ⟨a, ha, hlaunch, -⟩ := ended_cases hb
    have hentries := hs.entries a ha
    rw [App.pid, App.entry, ← hlaunch] at hentries
    exact hentries
  · intro id name hname
    obtain ⟨a, ha, hid, rfl⟩ := hs.ids id name hname
    obtain ⟨b, hb, hlaunch, hbid⟩ := exists_ended pid ha
    exact ⟨b, hb, hbid.trans hid, by rw [App.pid, App.pid, hlaunch]⟩

theorem Owned.ended (ho : s.Owned) (pid : ℕ) : (s.ended pid).Owned := by
  intro b hb halive
  obtain ⟨a, ha, -, -, hsame⟩ := ended_cases hb
  obtain ⟨rfl, -⟩ := hsame halive
  exact ho b ha halive

theorem find_some (h : s.find pid = some a) : a ∈ s.running ∧ a.pid = pid :=
  ⟨List.mem_of_find?_eq_some h, by simpa using List.find?_some h⟩

/-- Removing the file of an id leaves those of the others. -/
theorem rmId_eq (id : Option Text) (other : Text) :
    s.rmId id other = if id = some other then none else s.ids other := by
  cases id with
  | none => rfl
  | some id =>
    rw [rmId, Function.update_apply]
    simp only [Option.some.injEq, eq_comm]

/-- The cleanup behind an app that has ended, whose process may be there for a while. -/
theorem Kept.cleaned (hs : s.Kept) (ha : a ∈ s.running) (halive : a.alive = false)
    (htrue : s.Truthful ps) {dir : SessionDir} {running : List App}
    (hnames : (dir.apps.map Prod.fst).Nodup)
    (hlookup : ∀ pid, dir.apps.lookup (decimal pid) = if pid = a.pid then none
      else (s.dir.apps.lookup (decimal pid)).filter fun e => survivesPrune ps (decimal pid, e))
    (hsub : running.Sublist s.running) (hrest : ∀ b ∈ s.running, b.pid ≠ a.pid → b ∈ running) :
    Kept ⟨dir, s.rmId a.id, running⟩ := by
  constructor
  · exact hnames
  · exact hs.pids.sublist (hsub.map _)
  · exact fun b hb => hs.checked b (hsub.subset hb)
  · exact fun b hb => hs.groups b (hsub.subset hb)
  · intro b hb hb_alive
    have hne : b.pid ≠ a.pid := by
      intro heq
      rw [hs.eq_of_pid (hsub.subset hb) ha heq, halive] at hb_alive
      cases hb_alive
    have hmarked := hs.marked b (hsub.subset hb) hb_alive
    have hfound := htrue b (hsub.subset hb) hb_alive
    rw [hlookup, if_neg hne, hmarked, Option.filter_some,
      if_pos (hs.survives (hsub.subset hb) hfound)]
  · intro b hb e he
    rw [hlookup] at he
    split_ifs at he
    · cases he
    · exact hs.entries b (hsub.subset hb) e (Option.filter_eq_some_iff.mp he).1
  · intro id name hname
    change s.rmId a.id id = some name at hname
    rw [rmId_eq] at hname
    split_ifs at hname with hid
    obtain ⟨b, hb, hbid, rfl⟩ := hs.ids id name hname
    refine ⟨b, hrest b hb fun heq => hid ?_, hbid, rfl⟩
    rw [← hs.eq_of_pid hb ha heq]
    exact hbid

/-- What is left of the files of ids is right unless another app that is alive has the id. -/
theorem Kept.owned_cleaned_iff (hs : s.Kept) (ho : s.Owned) (ha : a ∈ s.running)
    (halive : a.alive = false) {dir : SessionDir} {running : List App}
    (hsub : running.Sublist s.running) (hrest : ∀ b ∈ s.running, b.pid ≠ a.pid → b ∈ running) :
    Owned ⟨dir, s.rmId a.id, running⟩ ↔ ∀ b ∈ s.running, b.pid ≠ a.pid → b.alive = true →
      ∀ id ∈ b.id, isFileName id = true → a.id ≠ some id := by
  constructor
  · intro ht b hb hne hb_alive id hid hname hsame
    have howned : s.rmId a.id id = some (decimal b.pid) :=
      ht b (hrest b hb hne) hb_alive id hid hname
    rw [rmId_eq, if_pos hsame] at howned
    cases howned
  · intro h b hb hb_alive id hid hname
    have hne : b.pid ≠ a.pid := by
      intro heq
      rw [hs.eq_of_pid (hsub.subset hb) ha heq, halive] at hb_alive
      cases hb_alive
    change s.rmId a.id id = _
    rw [rmId_eq, if_neg (h b (hsub.subset hb) hne hb_alive id hid hname)]
    exact ho b (hsub.subset hb) hb_alive id hid hname

theorem Kept.exit (hs : s.Kept) {statusLines : List Text}
    (h : s.exit pid ps statusLines = some t) :
    t.Kept ∧ (s.Owned → (t.Owned ↔ s.Separate (.exit pid ps statusLines))) := by
  obtain ⟨a, hfind, h⟩ := Option.bind_eq_some_iff.mp h
  obtain ⟨⟨halive, htrue⟩, h⟩ := Option.ite_none_right_eq_some.mp h
  obtain rfl := Option.some.inj h
  obtain ⟨ha, rfl⟩ := find_some hfind
  obtain ⟨hnames, hlookup⟩ := lookup_exit s.dir hs.names a.launch ps statusLines
  have hsub : (s.running.filter (·.pid ≠ a.pid)).Sublist s.running := List.filter_sublist
  have hrest : ∀ b ∈ s.running, b.pid ≠ a.pid → b ∈ s.running.filter (·.pid ≠ a.pid) :=
    fun b hb hne => List.mem_filter.mpr ⟨hb, decide_eq_true hne⟩
  refine ⟨hs.cleaned ha halive htrue hnames hlookup hsub hrest, fun ho => ?_⟩
  rw [hs.owned_cleaned_iff ho ha halive hsub hrest]
  constructor
  · intro h b hb heq c hc hne halive id hid hname
    rw [hs.eq_of_pid hb ha heq]
    exact h c hc hne halive id hid hname
  · exact fun h => h a ha rfl

theorem Kept.interrupted (hs : s.Kept) (h : s.interrupted pid ps = some t) :
    t.Kept ∧ (s.Owned → (t.Owned ↔ s.Separate (.interrupted pid ps))) := by
  obtain ⟨a, hfind, h⟩ := Option.bind_eq_some_iff.mp h
  obtain ⟨htrue, h⟩ := Option.ite_none_right_eq_some.mp h
  obtain rfl := Option.some.inj h
  obtain ⟨ha, rfl⟩ := find_some hfind
  obtain ⟨hnames, hlookup⟩ := lookup_cleaned s.dir hs.names a.launch.appPid ps
  have hended := hs.ended a.pid
  have ha' : { a with alive := false } ∈ (s.ended a.pid).running :=
    mem_ended.mpr ⟨a, ha, by rw [if_pos rfl]⟩
  have hrest : ∀ b ∈ (s.ended a.pid).running, b.pid ≠ a.pid → b ∈ (s.ended a.pid).running :=
    fun b hb _ => hb
  refine ⟨hended.cleaned ha' rfl htrue hnames hlookup (List.Sublist.refl _) hrest, fun ho => ?_⟩
  refine (hended.owned_cleaned_iff (ho.ended a.pid) ha' rfl (List.Sublist.refl _) hrest).trans ?_
  constructor
  · intro h b hb heq c hc hne halive id hid hname
    rw [hs.eq_of_pid hb ha heq]
    refine h c (mem_ended.mpr ⟨c, hc, by rw [if_neg hne]⟩) hne halive id hid hname
  · intro h b hb hne halive
    obtain ⟨c, hc, -, -, hsame⟩ := ended_cases hb
    obtain ⟨rfl, -⟩ := hsame halive
    exact h a ha rfl b hc hne halive

theorem Kept.step (hs : s.Kept) {e : RunEvent} (h : s.step e = some t) :
    t.Kept ∧ (s.Owned → (t.Owned ↔ s.Separate e)) := by
  cases e with
  | launch r appId ps westonPid => exact ⟨hs.launch h, fun ho => owned_launch_iff ho h⟩
  | interrupted pid ps => exact hs.interrupted h
  | exit pid ps statusLines => exact hs.exit h
  | ended pid =>
    obtain rfl := Option.some.inj h
    exact ⟨hs.ended pid, fun ho => iff_of_true (ho.ended pid) trivial⟩

theorem kept_initial : initial.Kept where
  names := List.nodup_nil
  pids := List.nodup_nil
  checked := by simp [initial]
  groups := by simp [initial]
  marked := by simp [initial]
  entries := by simp [initial]
  ids := by simp [initial]

end Steps

end Registry

/-- In a run each app that is alive is stopped by its id, and nothing else ever is, if and only if
no app gets an id that one has that is alive, and none goes while its id belongs to such a one. -/
theorem stopsByIds_iff_separate (es : List RunEvent) :
    Along Registry.step (fun _ _ t => t.StopsByIds) .initial es ↔
      Along Registry.step (fun s e _ => s.Separate e) .initial es := by
  apply along_iff_of_invariant (I := fun s => s.Kept ∧ s.Owned)
  · intro s e t hs hstep
    obtain ⟨hkept, howned⟩ := hs.1.step hstep
    rw [hkept.stopsByIds_iff]
    exact howned hs.2
  · intro s e t hs hstep hseparate
    obtain ⟨hkept, howned⟩ := hs.1.step hstep
    exact ⟨hkept, (howned hs.2).mpr hseparate⟩
  · exact ⟨Registry.kept_initial, by simp [Registry.Owned, Registry.initial]⟩

end Session
end ACGlass
