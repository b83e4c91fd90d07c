import ACGlass.Session.Idle
import ACGlass.Shell.Exports
import ACGlass.Transition

/-!
# The environment that the apps of a session share

The launcher that starts Weston writes its variables to `$ENV_FILE`, and every launcher reads that
file before its app. The launches of a session follow one another, as its lock wants it; one that
is killed may leave a Weston with a part of the file or without one.
-/

namespace ACGlass
namespace Session

open Shell Transition

section Model

/-- `${name:-default}` -/
def valueOr (value default : Text) : Text := if value = [] then default else value

/-- `export name="${name:-default}"` for each of the variables. -/
def setDefaults (sh : State) (defaults : List (Text × Text)) : State :=
  defaults.foldl (fun sh v => sh.set v.1 (valueOr (sh.param v.1) v.2)) sh

def display : Text := "DISPLAY".toList

def waylandDisplay : Text := "WAYLAND_DISPLAY".toList

def driverDefaults : List (Text × Text) :=
  [("MESA_LOADER_DRIVER_OVERRIDE".toList, "kgsl".toList), ("GALLIUM_DRIVER".toList, "kgsl".toList),
    ("FD_FORCE_KGSL".toList, "1".toList),
    ("MESA_VK_DEVICE_SELECT_FORCE_DEFAULT_DEVICE".toList, "1".toList),
    ("MESA_VK_DEVICE_SELECT_FORCE_DEFAULT_DEVICE_DRI3".toList, "1".toList)]

def toolkitDefaults : List (Text × Text) :=
  [("QT_QPA_PLATFORM".toList, "wayland".toList), ("SDL_VIDEODRIVER".toList, "wayland".toList),
    ("GDK_BACKEND".toList, "wayland,x11".toList)]

def chromiumVulkanFlags : Text :=
  "--ozone-platform=wayland --enable-features=Vulkan,VulkanFromANGLE,DefaultANGLEVulkan ".toList ++
    "--use-angle=vulkan --ignore-gpu-blocklist --disable-gpu-sandbox".toList

def chromiumNames : List Text :=
  ["ELECTRON_OZONE_PLATFORM_HINT".toList, "CHROME_EXTRA_FLAGS".toList, "CHROMIUM_FLAGS".toList,
    "QTWEBENGINE_CHROMIUM_FLAGS".toList]

def chromiumAuto : Text := "ACGLASS_CHROMIUM_VULKAN_AUTO".toList

def chromiumFlags : Text := "ACGLASS_CHROMIUM_VULKAN_FLAGS".toList

/-- The defaults of `apply_chromium_vulkan_env`. -/
def chromiumDefaults (sh : State) : List (Text × Text) :=
  if valueOr (sh.param chromiumAuto) ['1'] = ['1'] then
    let flags := valueOr (sh.param chromiumFlags) chromiumVulkanFlags
    [("ELECTRON_OZONE_PLATFORM_HINT".toList, "wayland".toList),
      ("CHROME_EXTRA_FLAGS".toList, flags), ("CHROMIUM_FLAGS".toList, flags),
      ("QTWEBENGINE_CHROMIUM_FLAGS".toList, flags)]
  else []

def moduleMap (libdir : Text) : Text :=
  "anland-backend.so=".toList ++ libdir ++ "/libweston-16/anland-backend.so;".toList ++
    "gl-renderer.so=".toList ++ libdir ++ "/libweston-16/gl-renderer.so;".toList ++
    "vulkan-renderer.so=".toList ++ libdir ++ "/libweston-16/vulkan-renderer.so;".toList ++
    "xwayland.so=".toList ++ libdir ++ "/libweston-16/xwayland.so;".toList ++
    "desktop-shell.so=".toList ++ libdir ++ "/weston/desktop-shell.so;".toList ++
    "kiosk-shell.so=".toList ++ libdir ++ "/weston/kiosk-shell.so".toList

/-- What `acglass-run` exports in front of `lock_session`, with the directory that it has found. -/
def launcherShell (libdir runtimeDir : Text) (sh : State) : State :=
  let sh := sh.set "LD_LIBRARY_PATH".toList (libdir ++ [':'] ++ libdir ++
    "/libweston-16:".toList ++ libdir ++ "/weston:".toList ++ sh.param "LD_LIBRARY_PATH".toList)
  let sh := sh.set "XDG_RUNTIME_DIR".toList runtimeDir
  let sh := sh.set "WESTON_MODULE_MAP".toList (moduleMap libdir)
  setDefaults (sh.set display []) driverDefaults

/-- The variables of `write_session_env` with their defaults. -/
def sessionVariables : List (Text × Text) :=
  [("XDG_RUNTIME_DIR".toList, []), (waylandDisplay, []), (display, []),
    ("LD_LIBRARY_PATH".toList, []), ("WESTON_MODULE_MAP".toList, [])] ++
    driverDefaults.map (fun v => (v.1, [])) ++ toolkitDefaults

/-- The lines of `write_session_env`; there is one for `DISPLAY` only if it is set. -/
def sessionExports (sh : State) : List (Text × Text) :=
  (sessionVariables.filter fun v => v.1 ≠ display || sh.param display ≠ []).map fun v =>
    (v.1, valueOr (sh.param v.1) v.2)

def loadSessionEnv (envFile : Option Text) (sh : State) : Option State :=
  match envFile with
  | some text => source sh text
  | none => some sh

/-- The Weston that `$PID_FILE` names: the shell that wrote its variables, and how many lines have
been written; none if there is no file. -/
structure Weston where
  shell : State
  lines : Option ℕ

def Weston.written (w : Weston) : List (Text × Text) :=
  match w.lines with
  | some lines => (sessionExports w.shell).take lines
  | none => []

/-- An app with the shell of its launcher in front of the session, the shell that it was started
in, its Weston, and whether `prepare_app_command` has called `apply_chromium_vulkan_env`. -/
structure SharedApp where
  own : State
  env : State
  weston : Weston
  chromium : Bool

structure SharedSession where
  weston : Option Weston
  envFile : Option Text
  apps : List SharedApp

/-- How `start_weston_session` goes on behind the `rm -f`: the socket appears, and with it maybe
an X display; Weston ends or takes too long; or the launcher is killed before there is a
`$PID_FILE`, before there is an `$ENV_FILE`, or behind some of its lines. -/
inductive WestonStart
  | ready (xNumber : Option Text)
  | failed
  | killedBeforePid
  | killedBeforeEnv
  | killedInEnv (xNumber : Option Text) (lines : ℕ)

/-- `running` and `socket` are the answers of `kill -0` and of `[ -S … ]`, and `chromium` says that
the command is found to be one of Chromium's. -/
inductive SharedEvent
  | launch (runtimeDir : Text) (sh : State) (running socket : Bool) (start : WestonStart)
    (chromium : Bool)
  | stopIdle

/-- The shell of `write_session_env`: `detect_x_display` may have found the number of a display. -/
def withDisplays (sh : State) (westonSocket : Text) (xNumber : Option Text) : State :=
  let sh := sh.set waylandDisplay westonSocket
  match xNumber with
  | some n => sh.set display (':' :: n)
  | none => sh

namespace SharedSession

variable (isPrint : Char → Bool) (libdir : Text) (s : SharedSession)

def initial : SharedSession := ⟨none, none, []⟩

def writeSessionEnv (sh : State) (lines : ℕ) : Option SharedSession :=
  (exportsText isPrint ((sessionExports sh).take lines)).map fun text =>
    { s with weston := some ⟨sh, some lines⟩, envFile := some text }

/-- With the shell of the launcher if it returns 0. -/
def startWestonSession (sh : State) (westonSocket : Text) (running socket : Bool)
    (start : WestonStart) : Option (SharedSession × Option State) :=
  if s.weston.isSome = true ∧ running = true ∧ socket = true then
    (loadSessionEnv s.envFile sh).map fun sh => (s, some sh)
  else
    let s := { s with weston := none, envFile := none }
    match start with
    | .ready xNumber =>
      let sh := withDisplays sh westonSocket xNumber
      (s.writeSessionEnv isPrint sh (sessionExports sh).length).map fun s => (s, some sh)
    | .failed | .killedBeforePid => some (s, none)
    | .killedBeforeEnv => some ({ s with weston := some ⟨sh, none⟩ }, none)
    | .killedInEnv xNumber lines =>
      let sh := withDisplays sh westonSocket xNumber
      (s.writeSessionEnv isPrint sh lines).map fun s => (s, none)

/-- A launch up to `unlock_session`. -/
def launch (own : State) (westonSocket : Text) (running socket : Bool) (start : WestonStart)
    (chromium : Bool) : Option SharedSession := do
  match ← s.startWestonSession isPrint own westonSocket running socket start with
  | (s, none) => return s
  | (s, some sh) =>
    let sh ← loadSessionEnv s.envFile sh
    let sh := setDefaults sh toolkitDefaults
    let env := if chromium then setDefaults sh (chromiumDefaults sh) else sh
    let weston ← s.weston
    return { s with apps := ⟨own, env, weston, chromium⟩ :: s.apps }

/-- `stopIdle` is a `stop_weston_session_if_idle` that finds no app. -/
def step : SharedEvent → Option SharedSession
  | .launch runtimeDir sh running socket start chromium =>
    let own := launcherShell libdir runtimeDir sh
    let westonSocket :=
      valueOr (own.param "ACGLASS_WAYLAND_DISPLAY".toList) "wayland-acglass".toList
    s.launch isPrint own westonSocket running socket start chromium
  | .stopIdle => some { s with weston := none, envFile := none }

end SharedSession

end Model

section Variables

variable {sh : State} {as defaults : List (Text × Text)} {name value : Text}

theorem valueOr_nil (value : Text) : valueOr value [] = value := by
  unfold valueOr
  split_ifs with h
  · exact h.symm
  · rfl

theorem lookup_eq_some_of_mem (hnodup : (as.map Prod.fst).Nodup) (h : (name, value) ∈ as) :
    as.lookup name = some value := by
  obtain ⟨front, back, rfl⟩ := List.append_of_mem h
  rw [List.lookup_eq_some_iff]
  refine ⟨front, back, rfl, fun a ha => ?_⟩
  rw [bne_iff_ne]
  rintro rfl
  rw [List.map_append, List.map_cons, List.nodup_append] at hnodup
  exact hnodup.2.2 a.1 (List.mem_map_of_mem ha) a.1 List.mem_cons_self rfl

theorem lookup_eq_none (h : name ∉ as.map Prod.fst) : as.lookup name = none := by
  rw [List.lookup_eq_none_iff]
  intro a ha
  rw [bne_iff_ne]
  rintro rfl
  exact h (List.mem_map_of_mem ha)

theorem set_param (hname : isName name = true) (sh : State) (value : Text) :
    (sh.set name value).param = Function.update sh.param name value := by
  obtain ⟨-, -, hplus⟩ := isTarget_of_isName hname
  rw [State.set, if_neg hplus, if_neg hplus]

theorem setDefaults_param (hnames : ∀ v ∈ defaults, isName v.1 = true)
    (hnodup : (defaults.map Prod.fst).Nodup) (sh : State) (name : Text) :
    (setDefaults sh defaults).param name =
      valueOr (sh.param name) ((defaults.lookup name).getD []) := by
  induction defaults generalizing sh with
  | nil => exact (valueOr_nil _).symm
  | cons v defaults ih =>
    rw [List.forall_mem_cons] at hnames
    rw [List.map_cons, List.nodup_cons] at hnodup
    have hrest := ih hnames.2 hnodup.2 (sh.set v.1 (valueOr (sh.param v.1) v.2))
    rw [setDefaults] at hrest ⊢
    rw [List.foldl_cons, hrest, set_param hnames.1, List.lookup_cons]
    by_cases heq : name = v.1
    · subst heq
      rw [lookup_eq_none hnodup.1]
      simp [valueOr_nil]
    · simp [heq, beq_eq_false_iff_ne.mpr heq]

theorem driverDefaults_names :
    (∀ v ∈ driverDefaults, isName v.1 = true) ∧ (driverDefaults.map Prod.fst).Nodup := by
  have hall : (driverDefaults.all fun v => isName v.1) = true := by decide +kernel
  exact ⟨List.all_eq_true.mp hall, by decide +kernel⟩

theorem toolkitDefaults_names :
    (∀ v ∈ toolkitDefaults, isName v.1 = true) ∧ (toolkitDefaults.map Prod.fst).Nodup := by
  have hall : (toolkitDefaults.all fun v => isName v.1) = true := by decide +kernel
  exact ⟨List.all_eq_true.mp hall, by decide +kernel⟩

theorem sessionVariables_names :
    (∀ v ∈ sessionVariables, isName v.1 = true) ∧ (sessionVariables.map Prod.fst).Nodup := by
  have hall : (sessionVariables.all fun v => isName v.1) = true := by decide +kernel
  exact ⟨List.all_eq_true.mp hall, by decide +kernel⟩

theorem chromiumDefaults_sublist (sh : State) :
    ((chromiumDefaults sh).map Prod.fst).Sublist chromiumNames := by
  unfold chromiumDefaults
  split_ifs
  · exact List.Sublist.refl chromiumNames
  · exact List.nil_sublist _

theorem chromiumDefaults_names (sh : State) : (∀ v ∈ chromiumDefaults sh, isName v.1 = true) ∧
    ((chromiumDefaults sh).map Prod.fst).Nodup := by
  have hall : (chromiumNames.all fun name => isName name) = true := by decide +kernel
  have hnodup : chromiumNames.Nodup := by decide +kernel
  refine ⟨fun v hv => ?_, hnodup.sublist (chromiumDefaults_sublist sh)⟩
  exact List.all_eq_true.mp hall _
    ((chromiumDefaults_sublist sh).subset (List.mem_map_of_mem hv))

/-- None of them is a variable of the session. -/
theorem lookup_chromiumDefaults {v : Text × Text} (hv : v ∈ sessionVariables) (sh : State) :
    (chromiumDefaults sh).lookup v.1 = none := by
  have hall : (sessionVariables.all fun v => decide (v.1 ∉ chromiumNames)) = true := by
    decide +kernel
  have hnone := of_decide_eq_true (List.all_eq_true.mp hall v hv)
  exact lookup_eq_none fun hmem => hnone ((chromiumDefaults_sublist sh).subset hmem)

/-- A launcher has no display of its own. -/
theorem launcherShell_display (libdir runtimeDir : Text) (sh : State) :
    (launcherShell libdir runtimeDir sh).param display = [] := by
  have hname : isName display = true := by decide
  have hnone : driverDefaults.lookup display = none := by decide
  rw [launcherShell, setDefaults_param driverDefaults_names.1 driverDefaults_names.2, hnone,
    set_param hname, Function.update_self]
  rfl

theorem sessionExports_names (sh : State) (lines : ℕ) :
    (∀ a ∈ (sessionExports sh).take lines, isName a.1 = true) ∧
      (((sessionExports sh).take lines).map Prod.fst).Nodup := by
  obtain ⟨hnames, hnodup⟩ := sessionVariables_names
  have hsub : (((sessionExports sh).take lines).map Prod.fst).Sublist
      (sessionVariables.map Prod.fst) := by
    have hall : ((sessionExports sh).map Prod.fst).Sublist (sessionVariables.map Prod.fst) := by
      rw [sessionExports, List.map_map]
      exact List.filter_sublist.map _
    exact ((List.take_sublist _ _).map _).trans hall
  refine ⟨fun a ha => ?_, hnodup.sublist hsub⟩
  obtain ⟨v, hv, heq⟩ := List.mem_map.mp (hsub.subset (List.mem_map_of_mem ha))
  rw [← heq]
  exact hnames v hv

theorem lookup_sessionExports {v : Text × Text} (hv : v ∈ sessionVariables)
    (hset : v.1 = display → sh.param display ≠ []) :
    (sessionExports sh).lookup v.1 = some (valueOr (sh.param v.1) v.2) := by
  have hnodup : ((sessionExports sh).map Prod.fst).Nodup := by
    have htake := (sessionExports_names sh (sessionExports sh).length).2
    rwa [List.take_length] at htake
  apply lookup_eq_some_of_mem hnodup
  rw [sessionExports, List.mem_map]
  refine ⟨v, List.mem_filter.mpr ⟨hv, ?_⟩, rfl⟩
  simp only [Bool.or_eq_true, decide_eq_true_eq]
  exact (em (v.1 = display)).symm.imp_right hset

theorem lookup_sessionExports_display (h : sh.param display = []) :
    (sessionExports sh).lookup display = none := by
  apply lookup_eq_none
  rw [sessionExports, List.map_map]
  intro hmem
  obtain ⟨v, hv, heq⟩ := List.mem_map.mp hmem
  have hfilter := (List.mem_filter.mp hv).2
  simp [h] at hfilter
  exact hfilter heq

theorem Weston.written_subset (w : Weston) (hmem : name ∈ w.written.map Prod.fst) :
    name ∈ sessionVariables.map Prod.fst := by
  obtain ⟨shell, lines⟩ := w
  cases lines with
  | none => cases hmem
  | some lines =>
    obtain ⟨a, ha, rfl⟩ := List.mem_map.mp hmem
    obtain ⟨v, hv, rfl⟩ := List.mem_map.mp (List.mem_of_mem_take ha)
    exact List.mem_map.mpr ⟨v, List.mem_of_mem_filter hv, rfl⟩

end Variables

namespace SharedSession

variable {isPrint : Char → Bool} {libdir : Text} {s s' : SharedSession} {own sh : State}

/-- What the Weston of the session has in its file. -/
def written (s : SharedSession) : List (Text × Text) := (s.weston.map Weston.written).getD []

/-- A launcher that reads the file gets what is written there, and keeps the rest. -/
def Loads (s : SharedSession) : Prop :=
  ∀ sh, ∃ sh', loadSessionEnv s.envFile sh = some sh' ∧
    ∀ name, sh'.param name = (s.written.lookup name).getD (sh.param name)

theorem loads_nil (henv : s.envFile = none) (hwritten : s.written = []) : s.Loads := by
  intro sh
  rw [henv, hwritten]
  exact ⟨sh, rfl, fun _ => rfl⟩

theorem writeSessionEnv_spec {lines : ℕ} (h : s.writeSessionEnv isPrint sh lines = some s') :
    s'.apps = s.apps ∧ s'.weston = some ⟨sh, some lines⟩ ∧ s'.Loads := by
  obtain ⟨text, htext, rfl⟩ := Option.map_eq_some_iff.mp h
  refine ⟨rfl, rfl, fun sh' => ?_⟩
  obtain ⟨hnames, hnodup⟩ := sessionExports_names sh lines
  exact ⟨_, source_exportsText hnames htext sh', assigned_param hnames hnodup sh'⟩

theorem withDisplays_param {name westonSocket : Text} {xNumber : Option Text}
    (hwayland : name ≠ waylandDisplay) (hdisplay : name ≠ display) :
    (withDisplays sh westonSocket xNumber).param name = sh.param name := by
  have hset : (sh.set waylandDisplay westonSocket).param name = sh.param name := by
    rw [set_param (by decide)]
    exact Function.update_of_ne hwayland _ _
  cases xNumber with
  | none => exact hset
  | some n =>
    rw [withDisplays, set_param (by decide), Function.update_of_ne hdisplay, hset]

/-- The shell that has written its variables differs from the one before in none but these. -/
theorem lookup_withDisplays {westonSocket : Text} {xNumber : Option Text}
    (hown : own.param display = []) (name : Text) :
    ((sessionExports (withDisplays own westonSocket xNumber)).lookup name).getD
        ((withDisplays own westonSocket xNumber).param name) =
      ((sessionExports (withDisplays own westonSocket xNumber)).lookup name).getD
        (own.param name) := by
  cases hlookup : (sessionExports (withDisplays own westonSocket xNumber)).lookup name with
  | some value => rfl
  | none =>
    have hwayland : name ≠ waylandDisplay := by
      rintro rfl
      rw [lookup_sessionExports (v := (waylandDisplay, [])) (by decide)
        fun heq => absurd heq (by decide)] at hlookup
      cases hlookup
    by_cases hdisplay : name = display
    · subst hdisplay
      have hempty : (withDisplays own westonSocket xNumber).param display = [] := by
        by_contra hne
        rw [lookup_sessionExports (v := (display, [])) (by decide) fun _ => hne] at hlookup
        cases hlookup
      rw [Option.getD_none, Option.getD_none, hempty, hown]
    · exact withDisplays_param hwayland hdisplay

/-- What `start_weston_session` leaves: a file that fits the Weston, and a launcher that differs
from the one before in no variable that is not in the file. -/
theorem startWestonSession_spec {westonSocket : Text} {running socket : Bool}
    {start : WestonStart} {r : Option State} (hloads : s.Loads) (hown : own.param display = [])
    (h : s.startWestonSession isPrint own westonSocket running socket start = some (s', r)) :
    s'.apps = s.apps ∧ s'.Loads ∧ ∀ sh ∈ r, ∃ w, s'.weston = some w ∧ ∀ name,
      (w.written.lookup name).getD (sh.param name) =
        (w.written.lookup name).getD (own.param name) := by
  unfold startWestonSession at h
  split_ifs at h with hjoin
  · obtain ⟨sh, hsh, heq⟩ := Option.map_eq_some_iff.mp h
    obtain ⟨rfl, rfl⟩ := Prod.mk.inj heq
    obtain ⟨w, hw⟩ := Option.isSome_iff_exists.mp hjoin.1
    refine ⟨rfl, hloads, ?_⟩
    rintro _ ⟨⟩
    obtain ⟨sh', hsh', hparam⟩ := hloads own
    obtain rfl := Option.some.inj (hsh.symm.trans hsh')
    refine ⟨w, hw, fun name => ?_⟩
    rw [hparam name, written, hw, Option.map_some, Option.getD_some]
    cases w.written.lookup name <;> rfl
  · have hnone : ∀ w : Option Weston, (∀ x ∈ w, x.lines = none) →
        (⟨w, none, s.apps⟩ : SharedSession).Loads := by
      intro w hw
      refine loads_nil rfl ?_
      cases w with
      | none => rfl
      | some w => simp [written, Weston.written, hw w rfl]
    cases start with
    | ready xNumber =>
      obtain ⟨s'', hwrite, heq⟩ := Option.map_eq_some_iff.mp h
      obtain ⟨rfl, rfl⟩ := Prod.mk.inj heq
      obtain ⟨happs, hweston, hloads'⟩ := writeSessionEnv_spec hwrite
      refine ⟨happs, hloads', ?_⟩
      rintro _ ⟨⟩
      refine ⟨_, hweston, fun name => ?_⟩
      rw [Weston.written]
      dsimp only
      rw [List.take_length]
      exact lookup_withDisplays hown name
    | killedInEnv xNumber lines =>
      obtain ⟨s'', hwrite, heq⟩ := Option.map_eq_some_iff.mp h
      obtain ⟨rfl, rfl⟩ := Prod.mk.inj heq
      obtain ⟨happs, -, hloads'⟩ := writeSessionEnv_spec hwrite
      exact ⟨happs, hloads', by simp⟩
    | failed | killedBeforePid | killedBeforeEnv =>
      obtain ⟨rfl, rfl⟩ := Prod.mk.inj (Option.some.inj h)
      exact ⟨rfl, hnone _ (by simp), by simp⟩

end SharedSession

/-- The variables that `acglass-run` looks after: those of the session, and those of Chromium. -/
def appVariables : List Text := sessionVariables.map Prod.fst ++ chromiumNames

/-- A variable of a launcher behind the session: that of the session if it has been written, or
else its own. -/
def SharedApp.shared (a : SharedApp) (name : Text) : Text :=
  valueOr ((a.weston.written.lookup name).getD (a.own.param name))
    ((toolkitDefaults.lookup name).getD [])

/-- A variable of an app. -/
def SharedApp.inherited (a : SharedApp) (name : Text) : Text :=
  if a.chromium then valueOr (a.shared name) (((chromiumDefaults a.own).lookup name).getD [])
  else a.shared name

/-- The app has all variables of the shell that started its Weston. -/
def SharedApp.Shares (a : SharedApp) : Prop :=
  ∀ v ∈ sessionVariables, a.env.param v.1 = valueOr (a.weston.shell.param v.1) v.2

theorem SharedApp.inherited_session (a : SharedApp) {v : Text × Text}
    (hv : v ∈ sessionVariables) : a.inherited v.1 = a.shared v.1 := by
  rw [inherited, lookup_chromiumDefaults hv, Option.getD_none, valueOr_nil, ite_self]

theorem SharedApp.shares_of_whole {a : SharedApp} (hown : a.own.param display = [])
    (henv : ∀ name, a.env.param name = a.inherited name)
    (hwhole : a.weston.written = sessionExports a.weston.shell) : a.Shares := by
  intro v hv
  have hdefault : (toolkitDefaults.lookup v.1).getD [] = v.2 := by
    have hall : (sessionVariables.all fun v =>
        decide ((toolkitDefaults.lookup v.1).getD [] = v.2)) = true := by decide +kernel
    exact of_decide_eq_true (List.all_eq_true.mp hall v hv)
  rw [henv, a.inherited_session hv, shared, hwhole, hdefault]
  by_cases hset : v.1 = display → a.weston.shell.param display ≠ []
  · rw [lookup_sessionExports hv hset, Option.getD_some]
    unfold valueOr
    split_ifs <;> simp_all
  · rw [Classical.not_imp, not_not] at hset
    rw [hset.1, lookup_sessionExports_display hset.2, Option.getD_none, hown, hset.2]

/-- The defaults are those of the shell in front of the session, as no session has these
variables. -/
theorem SharedApp.chromiumDefaults_eq {a : SharedApp} {sh : State}
    (h : ∀ name, sh.param name = a.shared name) : chromiumDefaults sh = chromiumDefaults a.own := by
  have hkept : ∀ name, name ∉ sessionVariables.map Prod.fst →
      name ∉ toolkitDefaults.map Prod.fst → sh.param name = a.own.param name := by
    intro name hsession htoolkit
    have hwritten : a.weston.written.lookup name = none := by
      apply lookup_eq_none
      intro hmem
      exact hsession (a.weston.written_subset hmem)
    rw [h, shared, hwritten, lookup_eq_none htoolkit, Option.getD_none, Option.getD_none,
      valueOr_nil]
  rw [chromiumDefaults, chromiumDefaults, hkept chromiumAuto (by decide +kernel) (by decide +kernel),
    hkept chromiumFlags (by decide +kernel) (by decide +kernel)]

namespace SharedSession

variable {isPrint : Char → Bool} {libdir : Text} {s s' : SharedSession}

/-- The apps have what their launchers were given, and share it if no line is missing. -/
def Inherits (s : SharedSession) : Prop :=
  ∀ a ∈ s.apps, (∀ name ∈ appVariables, a.env.param name = a.inherited name) ∧
    (a.weston.written = sessionExports a.weston.shell → a.Shares)

structure Inv (s : SharedSession) : Prop where
  loads : s.Loads
  apps : ∀ a ∈ s.apps, a.own.param display = [] ∧ ∀ name, a.env.param name = a.inherited name

theorem Inv.inherits (h : s.Inv) : s.Inherits := fun a ha =>
  ⟨fun name _ => (h.apps a ha).2 name,
    SharedApp.shares_of_whole (h.apps a ha).1 (h.apps a ha).2⟩

theorem initial_inv : initial.Inv := ⟨loads_nil rfl rfl, by simp [initial]⟩

theorem Inv.launch {own : State} {westonSocket : Text} {running socket : Bool}
    {start : WestonStart} {chromium : Bool} (h : s.Inv) (hown : own.param display = [])
    (hs : s.launch isPrint own westonSocket running socket start chromium = some s') :
    s'.Inv := by
  obtain ⟨⟨s₁, r⟩, hstart, hs⟩ := Option.bind_eq_some_iff.mp hs
  obtain ⟨happs, hloads, hr⟩ := startWestonSession_spec h.loads hown hstart
  have hinv : s₁.Inv := ⟨hloads, by rw [happs]; exact h.apps⟩
  cases r with
  | none =>
    obtain rfl := Option.some.inj hs
    exact hinv
  | some sh =>
    obtain ⟨w, hw, hsame⟩ := hr sh rfl
    obtain ⟨sh', hload, hs⟩ := Option.bind_eq_some_iff.mp hs
    obtain ⟨w', hw', hs⟩ := Option.bind_eq_some_iff.mp hs
    obtain rfl := Option.some.inj (hw.symm.trans hw')
    obtain rfl := Option.some.inj hs
    refine ⟨hloads, List.forall_mem_cons.mpr ⟨⟨hown, ?_⟩, hinv.apps⟩⟩
    obtain ⟨sh'', hload', hparam⟩ := hloads sh
    obtain rfl := Option.some.inj (hload.symm.trans hload')
    set app : SharedApp := ⟨own, _, w, chromium⟩
    have hshared : ∀ name, (setDefaults sh' toolkitDefaults).param name = app.shared name := by
      intro name
      obtain ⟨hnames, hnodup⟩ := toolkitDefaults_names
      rw [setDefaults_param hnames hnodup, hparam, SharedApp.shared, written, hw, Option.map_some,
        Option.getD_some, hsame]
    intro name
    rw [SharedApp.inherited, ← app.chromiumDefaults_eq hshared, ← hshared]
    cases chromium with
    | false => rfl
    | true =>
      obtain ⟨hnames, hnodup⟩ := chromiumDefaults_names (setDefaults sh' toolkitDefaults)
      exact setDefaults_param hnames hnodup _ _

theorem step_inv (h : s.Inv) {e : SharedEvent} (hs : s.step isPrint libdir e = some s') :
    s'.Inv := by
  cases e with
  | launch runtimeDir sh running socket start chromium =>
    exact h.launch (launcherShell_display libdir runtimeDir sh) hs
  | stopIdle =>
    obtain rfl := Option.some.inj hs
    exact ⟨loads_nil rfl rfl, h.apps⟩

/-- In every run an app has the variables that its session has written, and those of its own
launcher or their defaults for what a start that was killed has left out; if no line is missing, it
has all variables of the launcher that started its Weston. -/
theorem environment_of_run (isPrint : Char → Bool) (libdir : Text) (es : List SharedEvent) :
    Always (step isPrint libdir) Inherits initial es :=
  always_of_invariant (fun _ _ _ h hs => step_inv h hs) (fun _ h => h.inherits) initial_inv es

/-- A launcher that finds a Weston without a file starts its app without a display. -/
example :
    ((exec (step (fun _ => true) []) initial
        [.launch ['/', 'r'] ⟨fun _ => [], fun _ => none⟩ false false .killedBeforeEnv false,
          .launch ['/', 'r'] ⟨fun _ => [], fun _ => none⟩ true true .failed false]).map fun s =>
      s.apps.map fun a => a.env.param waylandDisplay) = some [[]] := by
  decide +kernel

end SharedSession

end Session
end ACGlass
