import ACGlass.Android.SessionScript

/-!
# Launching and stopping an app in a container

What `acglass-run` and `stop_app.sh` go by behind `launchApp` and `stopApp` depends on the user
of the container and on the arguments alone.
-/

namespace ACGlass
namespace Android

open Shell
open Session (decimal checkedAppId)

section Model

/-- The command of `launchApp` for the container. -/
def launchScript (socket command appId : Text) : Text :=
  sessionScript (trim appId) ++
  "ACGLASS_SOCKET=".toList ++ shellQuote socket ++ " ".toList ++
  "ACGLASS_APP_ID=\"$app_id\" ".toList ++
  "ACGLASS_SESSION_DIR=\"/tmp/acglass-runtime-$(id -u)/acglass-session-$session_id\" ".toList ++
  "ACGLASS_WAYLAND_DISPLAY=\"wayland-$session_id\" ".toList ++
  "ACGLASS_START_ANDROID=0 ACGLASS_START_DAEMON=0 ".toList ++
  "acglass-run -- bash -lc ".toList ++ shellQuote command

/-- The command of `stopApp`, if there is one. -/
def stopScript (appId : Text) : Option Text :=
  if (trim appId).isEmpty then none
  else some (sessionScript (trim appId) ++
    "ACGLASS_SESSION_DIR=\"/tmp/acglass-runtime-$(id -u)/acglass-session-$session_id\" ".toList ++
    "ACGLASS_WAYLAND_DISPLAY=\"wayland-$session_id\" ".toList ++
    "/opt/acglass/stop_app.sh \"$app_id\"".toList)

/-- A parameter for a program that is started with assignments in front. -/
def environment (env : Text → Text) (assigns : List (Text × Text)) : Text → Text :=
  assigns.foldl (fun env a => Function.update env a.1 a.2) env

/-- `${name:-default}` -/
def orDefault (value default : Text) : Text := if value.isEmpty then default else value

/-- What `start_app.sh` goes by. -/
structure Start where
  socket : Text
  startAndroid : Bool
  startDaemon : Bool
  sessionDir : Text
  westonSocket : Text
  appId : Option Text
  argv : List Text
  deriving DecidableEq, Repr

section Scripts

variable (runtimeDir : Text) (env : Text → Text)

/-- The file of an id in a session. -/
def idFile (sessionDir id : Text) : Text := sessionDir ++ "/apps/by-id/".toList ++ id

def Start.idFile (s : Start) : Option Text := s.appId.map (Android.idFile s.sessionDir)

def sessionDir : Text :=
  orDefault (env "ACGLASS_SESSION_DIR".toList) (runtimeDir ++ "/acglass-session".toList)

/-- `start_app.sh`, unless it exits with a message on its arguments. -/
def startApp (args : List Text) : Option Start :=
  let sock := orDefault (env "ACGLASS_SOCKET".toList) "/run/display.sock".toList
  let (sock, args) :=
    match args with
    | arg :: rest =>
      if arg ≠ "--".toList ∧ arg.head? = some '/' then (arg, rest) else (sock, args)
    | [] => (sock, args)
  match args with
  | [] => none
  | arg :: rest =>
    let args := if arg = "--".toList then rest else args
    if args.isEmpty then none
    else some
      { socket := sock
        startAndroid := orDefault (env "ACGLASS_START_ANDROID".toList) ['0'] = ['1']
        startDaemon := orDefault (env "ACGLASS_START_DAEMON".toList) ['0'] = ['1']
        sessionDir := sessionDir runtimeDir env
        westonSocket :=
          orDefault (env "ACGLASS_WAYLAND_DISPLAY".toList) "wayland-acglass".toList
        appId := checkedAppId (env "ACGLASS_APP_ID".toList)
        argv := args }

/-- The `ID_FILE` of `stop_app.sh`, unless it exits with a message on its argument. -/
def stopIdFile (args : List Text) : Option Text :=
  (checkedAppId (orDefault (args.headD []) (env "ACGLASS_APP_ID".toList))).map
    (idFile (sessionDir runtimeDir env))

end Scripts

/-- A shell of the container, and the parameters that its programs get from it. -/
structure Login where
  sh : State
  env : Text → Text
  runtimeDir : Text

variable (uid : ℕ) (login : Login)

/-- What `start_app.sh` goes by behind a script that runs it. -/
def started (script : Text) : Option Start :=
  (runScript (containerTools uid) login.sh script).bind fun x =>
    if x.argv.head? = some "acglass-run".toList then
      startApp login.runtimeDir (environment login.env x.assigns) x.argv.tail
    else none

/-- What it goes by behind `launchApp`. -/
def launched (socket command appId : Text) : Option Start :=
  started uid login (cleaned (launchScript socket command appId))

/-- The file that `stop_app.sh` looks for behind `stopApp`. -/
def stopped (appId : Text) : Option Text :=
  ((stopScript appId).bind fun script =>
    runScript (containerTools uid) login.sh (cleaned script)).bind
    fun x => if x.argv.head? = some "/opt/acglass/stop_app.sh".toList then
      stopIdFile login.runtimeDir (environment login.env x.assigns) x.argv.tail
    else none

end Model

section Parts

variable {uid : ℕ} {sh : State} {id socket command : Text}

theorem cleaned_launchScript (socket command appId : Text) :
    cleaned (launchScript socket command appId) =
      sessionScript (withoutZeros (trim appId)) ++
      "ACGLASS_SOCKET=".toList ++ shellQuote (withoutZeros socket) ++ " ".toList ++
      "ACGLASS_APP_ID=\"$app_id\" ".toList ++
      "ACGLASS_SESSION_DIR=\"/tmp/acglass-runtime-$(id -u)/acglass-session-$session_id\" ".toList ++
      "ACGLASS_WAYLAND_DISPLAY=\"wayland-$session_id\" ".toList ++
      "ACGLASS_START_ANDROID=0 ACGLASS_START_DAEMON=0 ".toList ++
      "acglass-run -- bash -lc ".toList ++ shellQuote (withoutZeros command) := by
  rw [launchScript, cleaned_shellQuote]
  simp (disch := decide +kernel) only [withoutZeros_append, withoutZeros_sessionScript,
    withoutZeros_shellQuote, withoutZeros_eq_self]

def doubleQuoted (t : Text) : List Mark := t.map (.char · .double)

/-- `ACGLASS_SESSION_DIR=` -/
def dirFront (uid : ℕ) : List Mark :=
  .quote :: doubleQuoted "/tmp/acglass-runtime-".toList ++
    ((decimal uid).map (.char · .single) ++ doubleQuoted "/acglass-session-".toList)

def dirRaw : List Mark :=
  .quote :: doubleQuoted "/tmp/acglass-runtime-".toList ++
    ((.char '$' .double :: .char '(' .double :: doubleQuoted "id -u".toList ++
      [.char ')' .double]) ++ doubleQuoted "/acglass-session-".toList)

def displayFront : List Mark := .quote :: doubleQuoted "wayland-".toList

/-- The settings that name the session. -/
def sessionSettings (uid : ℕ) (sh : State) : List Setting :=
  [paramSetting sh "ACGLASS_SESSION_DIR".toList (dirFront uid) "session_id".toList,
    paramSetting sh "ACGLASS_WAYLAND_DISPLAY".toList displayFront "session_id".toList]

def dirText : Text := "\"/tmp/acglass-runtime-$(id -u)/acglass-session-$session_id\"".toList

def sessionParts (uid : ℕ) (sh : State) : List Part :=
  [(paramSetting sh "ACGLASS_SESSION_DIR".toList (dirFront uid) "session_id".toList).part
      dirText (dirRaw ++ paramMarks "session_id".toList),
    (paramSetting sh "ACGLASS_WAYLAND_DISPLAY".toList displayFront "session_id".toList).part
      "\"wayland-$session_id\"".toList (displayFront ++ paramMarks "session_id".toList)]

theorem literal_dirFront (uid : ℕ) : (dirFront uid).all Mark.isLiteral = true := by
  have hdigits : ((decimal uid).map (Mark.char · .single)).all Mark.isLiteral = true := by
    simp [Mark.isLiteral]
  have hfirst : (Mark.quote :: doubleQuoted "/tmp/acglass-runtime-".toList).all
      Mark.isLiteral = true := by decide +kernel
  have hlast : (doubleQuoted "/acglass-session-".toList).all Mark.isLiteral = true := by
    decide +kernel
  rw [dirFront, List.all_append, List.all_append, hfirst, hdigits, hlast]
  rfl

theorem substitutes_dirRaw (uid : ℕ) (sh : State) (bare : Bool) :
    Substitutes bare (output (containerTools uid) sh) dirRaw (dirFront uid) := by
  have hfirst : (Mark.quote :: doubleQuoted "/tmp/acglass-runtime-".toList).all
      Mark.isLiteral = true := by decide +kernel
  have hlast : (doubleQuoted "/acglass-session-".toList).all Mark.isLiteral = true := by
    decide +kernel
  have hinner : List.Forall₂
      (fun m m' => innerMark .double m = some m' ∧ m ≠ .char ')' .double)
      (doubleQuoted "id -u".toList) ("id -u".toList.map (.char · .plain)) := by
    have hall : ("id -u".toList.all fun c => decide (innerMark .double (.char c .double) =
        some (.char c .plain) ∧ Mark.char c .double ≠ .char ')' .double)) = true := by
      decide +kernel
    rw [doubleQuoted, List.forall₂_map_left_iff, List.forall₂_map_right_iff, List.forall₂_same]
    intro c hc
    exact of_decide_eq_true (List.all_eq_true.mp hall c hc)
  apply (substitutes_literal hfirst).append
  exact (substitutes_command rfl (fun h => by cases h) hinner output_uid).append
    (substitutes_literal hlast)

theorem sessionParts_fills :
    ∀ p ∈ sessionParts uid sh, p.Fills (output (containerTools uid) sh) := by
  have hdisplay : displayFront.all Mark.isLiteral = true := by decide +kernel
  rw [sessionParts, List.forall_mem_cons, List.forall_mem_singleton]
  constructor
  · exact paramPart_fills (by decide) (literal_dirFront uid) (by decide) (by decide +kernel)
      (by decide +kernel) (substitutes_dirRaw uid sh)
  · exact paramPart_fills (by decide) hdisplay (by decide) (by decide +kernel)
      (by decide +kernel) fun _ => substitutes_literal hdisplay

/-- The names that the last command reads. -/
def readNames : List Text := ["app_id".toList, "session_id".toList]

theorem sessionSettings_reads : ∀ st ∈ sessionSettings uid sh, st.Reads sh readNames := by
  have hdisplay : displayFront.all Mark.isLiteral = true := by decide +kernel
  rw [sessionSettings, List.forall_mem_cons, List.forall_mem_singleton]
  constructor
  · exact paramSetting_reads (by decide) (literal_dirFront uid) (by decide) (by decide)
  · exact paramSetting_reads (by decide) hdisplay (by decide) (by decide)

/-- The words behind the settings of `launchApp`. -/
def launchWords (command : Text) : List (Part × Text) :=
  [(.literal "acglass-run".toList, "acglass-run".toList), (.literal "--".toList, "--".toList),
    (.literal "bash".toList, "bash".toList), (.literal "-lc".toList, "-lc".toList),
    (⟨shellQuote command, wrapped command, wrapped command⟩, command)]

def launchParts (uid : ℕ) (sh : State) (socket command : Text) : List Part :=
  [quotedPart "ACGLASS_SOCKET".toList socket,
    (paramSetting sh "ACGLASS_APP_ID".toList [.quote] "app_id".toList).part
      "\"$app_id\"".toList ([.quote] ++ paramMarks "app_id".toList)] ++ sessionParts uid sh ++
    [plainPart "ACGLASS_START_ANDROID".toList ['0'], plainPart "ACGLASS_START_DAEMON".toList ['0']]
    ++ (launchWords command).map Prod.fst

def launchSettings (uid : ℕ) (sh : State) (socket : Text) : List Setting :=
  [quotedSetting "ACGLASS_SOCKET".toList socket,
    paramSetting sh "ACGLASS_APP_ID".toList [.quote] "app_id".toList] ++ sessionSettings uid sh ++
    [plainSetting "ACGLASS_START_ANDROID".toList ['0'],
      plainSetting "ACGLASS_START_DAEMON".toList ['0']]

theorem expandWord_wrapped (t : Text) : expandWord sh (wrapped t) = some [t] := by
  have hstatic := literal_of_printed (w := wrapped t) fun m hm => printed_of_mem hm
  have hne : wrapped t ≠ [] := List.cons_ne_nil _ _
  rw [expandWord_static hne hstatic.1 hstatic.2, bashText_wrapped]

theorem launchWords_fills {out : List Mark → Option Text} :
    ∀ w ∈ launchWords command, w.1.Fills out := by
  simp only [launchWords, List.forall_mem_cons]
  refine ⟨Part.literal_fills (by decide) (by decide), Part.literal_fills (by decide) (by decide),
    Part.literal_fills (by decide) (by decide), Part.literal_fills (by decide) (by decide), ?_,
    by simp⟩
  exact {
    scans := scan_shellQuote command
    clean := clean_wrapped command
    substitutes := fun _ => substitutes_inert (partOfWord_wrapped command).inert
    nonempty := List.cons_ne_nil _ _
    filledClean := clean_wrapped command }

theorem expandWord_launchWords :
    ∀ w ∈ launchWords command, expandWord sh w.1.filled = some [w.2] := by
  simp only [launchWords, List.forall_mem_cons]
  exact ⟨expandWord_plain (by decide) (by decide), expandWord_plain (by decide) (by decide),
    expandWord_plain (by decide) (by decide), expandWord_plain (by decide) (by decide),
    expandWord_wrapped command, by simp⟩

theorem launchParts_fills :
    ∀ p ∈ launchParts uid sh socket command, p.Fills (output (containerTools uid) sh) := by
  simp only [launchParts, List.forall_mem_append, List.forall_mem_cons]
  refine ⟨⟨⟨⟨quotedPart_fills (by decide), ?_, by simp⟩, sessionParts_fills⟩,
    plainPart_fills (by decide) (by decide), plainPart_fills (by decide) (by decide), by simp⟩, ?_⟩
  · exact paramPart_fills (by decide) (by decide) (by decide) (by decide) (by decide)
      fun _ => substitutes_literal (by decide)
  · intro p hp
    obtain ⟨w, hw, rfl⟩ := List.mem_map.mp hp
    exact launchWords_fills w hw

theorem launchSettings_reads :
    ∀ st ∈ launchSettings uid sh socket, st.Reads sh readNames := by
  simp only [launchSettings, List.forall_mem_append, List.forall_mem_cons]
  exact ⟨⟨⟨quotedSetting_reads (by decide),
    paramSetting_reads (by decide) (by decide) (by decide) (by decide), by simp⟩,
    sessionSettings_reads⟩, plainSetting_reads (by decide) (by decide),
    plainSetting_reads (by decide) (by decide), by simp⟩

theorem command_launchParts :
    Shell.command sh ((launchParts uid sh socket command).map Part.filled) =
      some ⟨(launchSettings uid sh socket).map fun st => (st.target, st.value),
        (launchWords command).map Prod.snd⟩ := by
  have happ : (launchParts uid sh socket command).map Part.filled =
      (launchSettings uid sh socket).map Setting.word ++
        ((launchWords command).map fun w => (w.1.filled, w.2)).map Prod.fst := rfl
  have hsnd : (launchWords command).map Prod.snd =
      ((launchWords command).map fun w => (w.1.filled, w.2)).map Prod.snd := rfl
  rw [happ, hsnd]
  apply command_settings _ launchSettings_reads
  · intro c hc
    obtain ⟨w, hw, rfl⟩ := List.mem_map.mp hc
    exact expandWord_launchWords w hw
  · intro c hc
    obtain rfl := Option.some.inj hc
    decide

/-- The texts of the settings that name the session, with the blanks behind them. -/
theorem sessionTexts_eq :
    "ACGLASS_SESSION_DIR=\"/tmp/acglass-runtime-$(id -u)/acglass-session-$session_id\" ".toList =
        "ACGLASS_SESSION_DIR=".toList ++ dirText ++ [' '] ∧
      "ACGLASS_WAYLAND_DISPLAY=\"wayland-$session_id\" ".toList =
        "ACGLASS_WAYLAND_DISPLAY=\"wayland-$session_id\"".toList ++ [' '] := by
  decide +kernel

theorem launchText_eq (uid : ℕ) (sh : State) (id socket command : Text) :
    sessionScript id ++ "ACGLASS_SOCKET=".toList ++ shellQuote socket ++ " ".toList ++
      "ACGLASS_APP_ID=\"$app_id\" ".toList ++
      "ACGLASS_SESSION_DIR=\"/tmp/acglass-runtime-$(id -u)/acglass-session-$session_id\" ".toList ++
      "ACGLASS_WAYLAND_DISPLAY=\"wayland-$session_id\" ".toList ++
      "ACGLASS_START_ANDROID=0 ACGLASS_START_DAEMON=0 ".toList ++
      "acglass-run -- bash -lc ".toList ++ shellQuote command =
    sessionScript id ++ [' '].intercalate ((launchParts uid sh socket command).map Part.text) := by
  have htexts : (launchParts uid sh socket command).map Part.text =
      ["ACGLASS_SOCKET=".toList ++ shellQuote socket, "ACGLASS_APP_ID=\"$app_id\"".toList,
        "ACGLASS_SESSION_DIR=".toList ++ dirText,
        "ACGLASS_WAYLAND_DISPLAY=\"wayland-$session_id\"".toList,
        "ACGLASS_START_ANDROID=0".toList, "ACGLASS_START_DAEMON=0".toList, "acglass-run".toList,
        "--".toList, "bash".toList, "-lc".toList, shellQuote command] := rfl
  have hid : "ACGLASS_APP_ID=\"$app_id\" ".toList =
      "ACGLASS_APP_ID=\"$app_id\"".toList ++ [' '] := by decide +kernel
  have hstart : "ACGLASS_START_ANDROID=0 ACGLASS_START_DAEMON=0 ".toList =
      "ACGLASS_START_ANDROID=0".toList ++ [' '] ++ ("ACGLASS_START_DAEMON=0".toList ++ [' ']) := by
    decide +kernel
  have hrun : "acglass-run -- bash -lc ".toList = "acglass-run".toList ++ [' '] ++
      ("--".toList ++ [' '] ++ ("bash".toList ++ [' '] ++ ("-lc".toList ++ [' ']))) := by
    decide +kernel
  have hblank : " ".toList = [' '] := rfl
  rewrite [htexts, sessionTexts_eq.1, hid, sessionTexts_eq.2, hstart, hrun, hblank]
  simp only [List.intercalate_cons_cons, List.intercalate_singleton, List.append_assoc]

end Parts

section Main

variable {env : Text → Text}

/-- The last assignment to a name counts. -/
theorem environment_eq {assigns : List (Text × Text)} {name value : Text}
    (h : assigns.reverse.lookup name = some value) : environment env assigns name = value := by
  induction assigns using List.reverseRecOn with
  | nil => cases h
  | append_singleton assigns a ih =>
    rw [List.reverse_append, List.reverse_singleton, List.singleton_append, List.lookup_cons] at h
    rw [environment, List.foldl_append, List.foldl_cons, List.foldl_nil, Function.update_apply]
    by_cases hname : name = a.1
    · rw [if_pos hname]
      rw [hname, beq_self_eq_true] at h
      exact Option.some.inj h
    · rw [if_neg hname]
      rw [beq_eq_false_iff_ne.mpr hname] at h
      exact ih h

/-- The id as it comes to the script. -/
def givenId (appId : Text) : Text := withoutZeros (trim appId)

/-- `ACGLASS_SESSION_DIR` -/
def sessionPath (uid : ℕ) (id : Text) : Text :=
  "/tmp/acglass-runtime-".toList ++ (decimal uid ++ "/acglass-session-".toList) ++ sessionId id

theorem value_session (uid : ℕ) (sh : State) (id : Text) :
    bashText (dirFront uid) ++ (inSession sh id).param "session_id".toList = sessionPath uid id ∧
      bashText displayFront ++ (inSession sh id).param "session_id".toList =
        "wayland-".toList ++ sessionId id := by
  have hfirst : bashText (Mark.quote :: doubleQuoted "/tmp/acglass-runtime-".toList) =
      "/tmp/acglass-runtime-".toList := by decide +kernel
  have hlast : bashText (doubleQuoted "/acglass-session-".toList) =
      "/acglass-session-".toList := by decide +kernel
  have hdisplay : bashText displayFront = "wayland-".toList := by decide +kernel
  rw [(param_inSession sh id).2, hdisplay, dirFront, bashText_append, bashText_append, hfirst,
    bashText_single, hlast]
  exact ⟨rfl, rfl⟩

/-- The settings of `launchApp` as they come to the program. -/
def launchAssigns (uid : ℕ) (socket id : Text) : List (Text × Text) :=
  [("ACGLASS_SOCKET".toList, socket), ("ACGLASS_APP_ID".toList, id),
    ("ACGLASS_SESSION_DIR".toList, sessionPath uid id),
    ("ACGLASS_WAYLAND_DISPLAY".toList, "wayland-".toList ++ sessionId id),
    ("ACGLASS_START_ANDROID".toList, ['0']), ("ACGLASS_START_DAEMON".toList, ['0'])]

theorem runScript_launch (uid : ℕ) (sh : State) (socket command appId : Text) :
    runScript (containerTools uid) sh (cleaned (launchScript socket command appId)) =
      some ⟨launchAssigns uid (withoutZeros socket) (givenId appId),
        ["acglass-run".toList, "--".toList, "bash".toList, "-lc".toList,
          withoutZeros command]⟩ := by
  have hreserved : ∀ sh socket command,
      ((launchParts uid sh socket command).map Part.filled).head?.any isReserved = false :=
    fun sh socket command => Setting.isReserved_word (quotedSetting "ACGLASS_SOCKET".toList socket)
  have hassigns : (launchSettings uid (inSession sh (givenId appId)) (withoutZeros socket)).map
      (fun st => (st.target, st.value)) =
        launchAssigns uid (withoutZeros socket) (givenId appId) := by
    obtain ⟨hdir, hdisplay⟩ := value_session uid sh (givenId appId)
    rw [launchAssigns, ← hdir, ← hdisplay]
    have hid : bashText [.quote] ++ (inSession sh (givenId appId)).param "app_id".toList =
        givenId appId := (param_inSession sh (givenId appId)).1
    simp only [launchSettings, sessionSettings, quotedSetting, paramSetting, plainSetting,
      List.cons_append, List.nil_append, List.map_cons, List.map_nil, hid]
  rw [cleaned_launchScript, launchText_eq uid (inSession sh (givenId appId)),
    ← givenId, runScript_session launchParts_fills (hreserved _ _ _), command_launchParts,
    hassigns]
  rfl

/-- What comes to `acglass-run` does not depend on the shell. -/
theorem launched_eq (uid : ℕ) (login : Login) (socket command appId : Text) :
    launched uid login socket command appId = some
      { socket := orDefault (withoutZeros socket) "/run/display.sock".toList
        startAndroid := false
        startDaemon := false
        sessionDir := sessionPath uid (givenId appId)
        westonSocket := "wayland-".toList ++ sessionId (givenId appId)
        appId := checkedAppId (givenId appId)
        argv := ["bash".toList, "-lc".toList, withoutZeros command] } := by
  have henv : ∀ (name : Text) {value : Text},
      (launchAssigns uid (withoutZeros socket) (givenId appId)).reverse.lookup name = some value →
      environment login.env (launchAssigns uid (withoutZeros socket) (givenId appId)) name =
        value := fun _ _ => environment_eq
  rw [launched, started, runScript_launch, Option.bind_some]
  dsimp only
  rw [if_pos (by rfl), List.tail_cons, startApp]
  simp only [sessionDir]
  rw [henv "ACGLASS_SOCKET".toList rfl, henv "ACGLASS_APP_ID".toList rfl,
    henv "ACGLASS_SESSION_DIR".toList rfl, henv "ACGLASS_WAYLAND_DISPLAY".toList rfl,
    henv "ACGLASS_START_ANDROID".toList rfl, henv "ACGLASS_START_DAEMON".toList rfl]
  rfl

theorem givenId_ne_nil {appId : Text} (h : trim appId ≠ []) : givenId appId ≠ [] := by
  have hlast : ¬ isTrimmed ((trim appId).getLast h) = true :=
    List.rdropWhile_last_not isTrimmed _ h
  have hmem : (trim appId).getLast h ∈ givenId appId := by
    refine List.mem_filter.mpr ⟨List.getLast_mem h, decide_eq_true fun hzero => hlast ?_⟩
    rw [hzero]
    decide
  exact List.ne_nil_of_mem hmem

/-- The words behind the settings of `stopApp`. -/
def stopWords (id : Text) : List (Part × Text) :=
  [(.literal "/opt/acglass/stop_app.sh".toList, "/opt/acglass/stop_app.sh".toList),
    (⟨"\"$app_id\"".toList, .quote :: paramMarks "app_id".toList,
      .quote :: paramMarks "app_id".toList⟩, id)]

def stopParts (uid : ℕ) (sh : State) (id : Text) : List Part :=
  sessionParts uid sh ++ (stopWords id).map Prod.fst

theorem stopWords_fills {out : List Mark → Option Text} {id : Text} :
    ∀ w ∈ stopWords id, w.1.Fills out := by
  have hclean : (Mark.quote :: paramMarks "app_id".toList).all Mark.isClean = true := by decide
  have hquote : ∀ bare, Substitutes bare out [.quote] [.quote] :=
    fun _ => substitutes_literal (by decide)
  simp only [stopWords, List.forall_mem_cons]
  refine ⟨Part.literal_fills (by decide) (by decide), ?_, by simp⟩
  exact {
    scans := scans_of_scan (by decide)
    clean := hclean
    substitutes := fun bare => (hquote bare).append (substitutes_paramMarks (by decide))
    nonempty := List.cons_ne_nil _ _
    filledClean := hclean }

theorem expandWord_stopWords {sh : State} {id : Text} (h : sh.param "app_id".toList = id) :
    ∀ w ∈ stopWords id, expandWord sh w.1.filled = some [w.2] := by
  simp only [stopWords, List.forall_mem_cons]
  refine ⟨expandWord_plain (by decide) (by decide), ?_, by simp⟩
  rw [← h]
  exact expandWord_param (by decide)

theorem cleaned_stopScript {appId : Text} (h : trim appId ≠ []) (uid : ℕ) (sh : State)
    (id : Text) :
    (stopScript appId).map cleaned = some (sessionScript (givenId appId) ++
      [' '].intercalate ((stopParts uid sh id).map Part.text)) := by
  have hempty : (trim appId).isEmpty = false := by simpa using h
  have htexts : (stopParts uid sh id).map Part.text =
      ["ACGLASS_SESSION_DIR=".toList ++ dirText,
        "ACGLASS_WAYLAND_DISPLAY=\"wayland-$session_id\"".toList,
        "/opt/acglass/stop_app.sh".toList, "\"$app_id\"".toList] := rfl
  have hstop : "/opt/acglass/stop_app.sh \"$app_id\"".toList =
      "/opt/acglass/stop_app.sh \"$app_id".toList ++ ['"'] := by decide +kernel
  have hwords : "/opt/acglass/stop_app.sh \"$app_id".toList ++ ['"'] =
      "/opt/acglass/stop_app.sh".toList ++ [' '] ++ "\"$app_id\"".toList := by decide +kernel
  rw [stopScript, hempty, if_neg Bool.false_ne_true, Option.map_some, hstop,
    cleaned_append _ (by decide) (by decide), ← hstop]
  simp (disch := decide +kernel) only [withoutZeros_append, withoutZeros_sessionScript,
    withoutZeros_eq_self]
  rewrite [htexts, sessionTexts_eq.1, sessionTexts_eq.2, hstop, hwords]
  simp only [List.intercalate_cons_cons, List.intercalate_singleton, List.append_assoc]
  rfl

/-- What `launchApp` is given comes to `acglass-run` in the container, whatever characters it
has. -/
theorem launchApp_starts (sh : State) (droidspaces : Text) {container : Text}
    (h : container ≠ []) (user : Option Text) (uid : ℕ) (login : Login)
    (socket command appId : Text) :
    ∃ line front encoded script,
      runInContainer droidspaces container user (launchScript socket command appId) = .ok line ∧
      run sh line = some ⟨[], front ++ ["/opt/acglass/shell_command.sh".toList, encoded]⟩ ∧
      shellCommand [encoded] =
        some [getBytes "/bin/bash".toList, getBytes "-lc".toList, getBytes script] ∧
      started uid login script = some
        { socket := orDefault (withoutZeros socket) "/run/display.sock".toList
          startAndroid := false
          startDaemon := false
          sessionDir := sessionPath uid (givenId appId)
          westonSocket := "wayland-".toList ++ sessionId (givenId appId)
          appId := checkedAppId (givenId appId)
          argv := ["bash".toList, "-lc".toList, withoutZeros command] } := by
  obtain ⟨line, front, hline, hrun⟩ :=
    runInContainer_encoded sh droidspaces h user (launchScript socket command appId)
  exact ⟨line, front, _, _, hline, hrun, shellCommand_encodeToString _, launched_eq ..⟩

/-- An app with a quote in its command and with an id that is none. -/
theorem launchApp_starts_quoted :
    ∃ line front encoded script,
      runInContainer "/data/ds".toList "debian".toList (some "user".toList)
        (launchScript "/run/d.sock".toList "echo 'x' \"$HOME\"".toList " my app ".toList) =
          .ok line ∧
      run ⟨fun _ => ['*'], fun _ => some ['/']⟩ line =
        some ⟨[], front ++ ["/opt/acglass/shell_command.sh".toList, encoded]⟩ ∧
      shellCommand [encoded] =
        some [getBytes "/bin/bash".toList, getBytes "-lc".toList, getBytes script] ∧
      started 1000 ⟨⟨fun _ => ['*'], fun _ => none⟩, fun _ => ['1'], []⟩ script = some
        { socket := "/run/d.sock".toList
          startAndroid := false
          startDaemon := false
          sessionDir := "/tmp/acglass-runtime-1000/acglass-session-my_app".toList
          westonSocket := "wayland-my_app".toList
          appId := none
          argv := ["bash".toList, "-lc".toList, "echo 'x' \"$HOME\"".toList] } := by
  have hname : "debian".toList ≠ [] := by decide
  obtain ⟨line, front, encoded, script, hline, hrun, hcommand, hstart⟩ :=
    launchApp_starts ⟨fun _ => ['*'], fun _ => some ['/']⟩ "/data/ds".toList hname
      (some "user".toList) 1000 ⟨⟨fun _ => ['*'], fun _ => none⟩, fun _ => ['1'], []⟩
      "/run/d.sock".toList "echo 'x' \"$HOME\"".toList " my app ".toList
  exact ⟨line, front, encoded, script, hline, hrun, hcommand, hstart.trans (by decide +kernel)⟩

def stopAssigns (uid : ℕ) (id : Text) : List (Text × Text) :=
  [("ACGLASS_SESSION_DIR".toList, sessionPath uid id),
    ("ACGLASS_WAYLAND_DISPLAY".toList, "wayland-".toList ++ sessionId id)]

theorem runScript_stop {appId : Text} (h : trim appId ≠ []) (uid : ℕ) (sh : State) :
    ((stopScript appId).map cleaned).bind (runScript (containerTools uid) sh) =
      some ⟨stopAssigns uid (givenId appId),
        ["/opt/acglass/stop_app.sh".toList, givenId appId]⟩ := by
  have hparam := (param_inSession sh (givenId appId)).1
  have hfills : ∀ p ∈ stopParts uid (inSession sh (givenId appId)) (givenId appId),
      p.Fills (output (containerTools uid) (inSession sh (givenId appId))) := by
    rw [stopParts, List.forall_mem_append]
    refine ⟨sessionParts_fills, fun p hp => ?_⟩
    obtain ⟨w, hw, rfl⟩ := List.mem_map.mp hp
    exact stopWords_fills w hw
  have hreserved : ((stopParts uid (inSession sh (givenId appId)) (givenId appId)).map
      Part.filled).head?.any isReserved = false :=
    Setting.isReserved_word (paramSetting (inSession sh (givenId appId))
      "ACGLASS_SESSION_DIR".toList (dirFront uid) "session_id".toList)
  have happ : (stopParts uid (inSession sh (givenId appId)) (givenId appId)).map Part.filled =
      (sessionSettings uid (inSession sh (givenId appId))).map Setting.word ++
        ((stopWords (givenId appId)).map fun w => (w.1.filled, w.2)).map Prod.fst := rfl
  have hwords : ∀ c ∈ (stopWords (givenId appId)).map fun w => (w.1.filled, w.2),
      expandWord (inSession sh (givenId appId)) c.1 = some [c.2] := by
    intro c hc
    obtain ⟨w, hw, rfl⟩ := List.mem_map.mp hc
    exact expandWord_stopWords hparam w hw
  have hhead : ∀ c ∈ ((stopWords (givenId appId)).map fun w => (w.1.filled, w.2)).head?,
      isAssignment c.1 = false := by
    intro c hc
    obtain rfl := Option.some.inj hc
    decide
  have hsettings : ∀ st ∈ sessionSettings uid (inSession sh (givenId appId)),
      st.Reads (inSession sh (givenId appId)) readNames := sessionSettings_reads
  have hcommand := command_settings _ hsettings hwords hhead
  have hassigns : (sessionSettings uid (inSession sh (givenId appId))).map
      (fun st => (st.target, st.value)) = stopAssigns uid (givenId appId) := by
    obtain ⟨hdir, hdisplay⟩ := value_session uid sh (givenId appId)
    rw [stopAssigns, ← hdir, ← hdisplay]
    rfl
  rw [cleaned_stopScript h uid (inSession sh (givenId appId)) (givenId appId), Option.bind_some,
    runScript_session hfills hreserved, happ, hcommand, hassigns]
  rfl

theorem orDefault_eq {value : Text} (h : value ≠ []) (default : Text) :
    orDefault value default = value := by
  rw [orDefault, List.isEmpty_eq_false_iff.mpr h, if_neg Bool.false_ne_true]

/-- `stop_app.sh` looks for the file of the id, unless the id is not one. -/
theorem stopped_eq (uid : ℕ) (login : Login) (appId : Text) :
    stopped uid login appId =
      (checkedAppId (givenId appId)).map (idFile (sessionPath uid (givenId appId))) := by
  by_cases hempty : trim appId = []
  · have hgiven : givenId appId = [] := by
      rw [givenId, hempty]
      rfl
    have hscript : stopScript appId = none := by
      rw [stopScript, hempty]
      rfl
    rw [stopped, hscript, hgiven]
    rfl
  · have henv : environment login.env (stopAssigns uid (givenId appId))
        "ACGLASS_SESSION_DIR".toList = sessionPath uid (givenId appId) := environment_eq rfl
    have hrun := runScript_stop hempty uid login.sh
    rw [Option.bind_map] at hrun
    rw [stopped]
    change (((stopScript appId).bind
      (runScript (containerTools uid) login.sh ∘ cleaned)).bind _) = _
    rw [hrun, Option.bind_some]
    dsimp only
    rw [if_pos (by rfl), List.tail_cons, stopIdFile, sessionDir, henv, List.headD_cons,
      orDefault_eq (givenId_ne_nil hempty)]
    rfl

theorem eq_of_checkedAppId {appId id : Text} (h : checkedAppId appId = some id) :
    appId = id ∧ '/' ∉ id := by
  unfold checkedAppId at h
  split_ifs at h with hcheck
  obtain rfl := Option.some.inj h
  rw [Bool.and_eq_true, List.all_eq_true] at hcheck
  refine ⟨rfl, fun hmem => ?_⟩
  cases hcheck.2 _ hmem

/-- A path has one last name. -/
theorem eq_of_path {dir dir' name name' : Text} (h : '/' ∉ name) (h' : '/' ∉ name')
    (heq : dir ++ '/' :: name = dir' ++ '/' :: name') : name = name' := by
  have hlast : ∀ dir name : Text, '/' ∉ name →
      (dir ++ '/' :: name).rtakeWhile (· ≠ '/') = name := by
    intro dir name h
    have hne : ∀ c ∈ name.reverse, decide (c ≠ '/') = true := by
      intro c hc
      refine decide_eq_true ?_
      rintro rfl
      exact h (List.mem_reverse.mp hc)
    rw [List.rtakeWhile, List.reverse_append, List.reverse_cons, List.append_assoc,
      List.takeWhile_append_of_pos hne]
    simp
  rw [← hlast dir name h, heq, hlast dir' name' h']

/-- Stopping an app looks for the file that launching it wrote if and only if both were given
the same id, up to blanks around it, and no character of it is out of place. -/
theorem stop_meets_launch_iff (uid : ℕ) (login login' : Login)
    (socket command appId appId' : Text) :
    (∃ file, (launched uid login socket command appId).bind Start.idFile = some file ∧
      stopped uid login' appId' = some file) ↔
    ∃ id, checkedAppId id = some id ∧ givenId appId = id ∧ givenId appId' = id := by
  have hlaunched : (launched uid login socket command appId).bind Start.idFile =
      (checkedAppId (givenId appId)).map (idFile (sessionPath uid (givenId appId))) := by
    rw [launched_eq]
    rfl
  rw [hlaunched, stopped_eq]
  constructor
  · rintro ⟨file, hlaunch, hstop⟩
    obtain ⟨id, hid, rfl⟩ := Option.map_eq_some_iff.mp hlaunch
    obtain ⟨id', hid', hfile⟩ := Option.map_eq_some_iff.mp hstop
    obtain ⟨hgiven, hslash⟩ := eq_of_checkedAppId hid
    obtain ⟨hgiven', hslash'⟩ := eq_of_checkedAppId hid'
    have hpath : ∀ dir name : Text,
        idFile dir name = (dir ++ "/apps/by-id".toList) ++ '/' :: name := by
      intro dir name
      have hname : "/apps/by-id/".toList = "/apps/by-id".toList ++ ['/'] := by decide
      rw [idFile, hname]
      simp only [List.append_assoc, List.singleton_append]
    rw [hpath, hpath] at hfile
    have hsame : id' = id := eq_of_path hslash' hslash hfile
    rw [hgiven] at hid
    exact ⟨id, hid, hgiven, hgiven'.trans hsame⟩
  · rintro ⟨id, hid, hgiven, hgiven'⟩
    rw [hgiven, hgiven', hid]
    exact ⟨_, rfl, rfl⟩

end Main

end Android
end ACGlass
