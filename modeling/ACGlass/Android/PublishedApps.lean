import ACGlass.Android.AppLists

/-!
# What is read back of a published list

One reader serves two writers. It expects containers with lists of apps in them, and
`acglass-sync-apps` publishes a list of apps.
-/

namespace ACGlass
namespace Android

open Json

/-- A trimmed text of printable characters that is not empty. -/
structure Label where
  text : Text
  ne_nil : text ≠ []
  trimmed : trim text = text
  printable : ∀ c ∈ text, ' ' ≤ c

structure Entry where
  name : Label
  command : Label

def Entry.app (e : Entry) : LinuxApp := ⟨e.name.text, e.command.text⟩

/-- A list that is published by the script, or one list for each container of a listing that
is printed without control characters. -/
inductive Publication
  | syncApps (apps : List Entry)
  | scanApps (containersOutput : Text)
      (printable : ∀ c ∈ containersOutput, isSpace c = false → ' ' ≤ c)
      (apps : Text → List Entry)

namespace Publication

/-- What the preferences hold afterwards. -/
def store (lib : JsonLibrary) (stored : Option Text) : Publication → Option Text
  | syncApps apps => Android.syncApps stored (apps.map Entry.app)
  | scanApps containersOutput _ apps =>
    Android.scanApps lib containersOutput fun container => (apps container).map Entry.app

/-- What is loaded are running containers with exactly the apps that were published, in
order. -/
def ReadsBack (lib : JsonLibrary) (stored : Option Text) (p : Publication) : Prop :=
  let containers := loadContainers lib (p.store lib stored)
  match p with
  | syncApps apps =>
    (∀ container ∈ containers, container.running = true) ∧
      containers.flatMap LinuxContainer.apps = apps.map Entry.app
  | scanApps containersOutput _ apps =>
    containers = (parseContainers containersOutput).map fun container =>
      ⟨container, true, (apps container).map Entry.app⟩

/-- The apps are published inside of containers, or there are none. -/
def Nested : Publication → Prop
  | syncApps apps => apps = []
  | scanApps _ _ _ => True

end Publication

section Escaping

@[simp] theorem replaceChar_nil (c : Char) (by' : Text) : replaceChar c by' [] = [] := rfl

@[simp] theorem replaceChar_cons (c d : Char) (by' s : Text) :
    replaceChar c by' (d :: s) = (if d = c then by' else [d]) ++ replaceChar c by' s := rfl

theorem writesChars_jsonEscape {s : Text} (h : ∀ c ∈ s, ' ' ≤ c) :
    WritesChars s (jsonEscape s) := by
  induction s with
  | nil => exact .nil
  | cons c s ih =>
    rw [List.forall_mem_cons] at h
    have hs := ih h.2
    by_cases hescape : c = '\\'
    · subst c
      exact .escape rfl hs
    by_cases hquote : c = '"'
    · subst c
      exact .escape rfl hs
    · have hplain := WritesChars.plain hquote hescape h.1 hs
      simpa [jsonEscape, hescape, hquote] using hplain

/-- The script may also be given tabs. -/
theorem writesChars_escapeJson {s : Text} (h : ∀ c ∈ s, ' ' ≤ c ∨ c = '\t') :
    WritesChars s (escapeJson s) := by
  induction s with
  | nil => exact .nil
  | cons c s ih =>
    rw [List.forall_mem_cons] at h
    have hs := ih h.2
    by_cases hescape : c = '\\'
    · subst c
      exact .escape rfl hs
    by_cases hquote : c = '"'
    · subst c
      exact .escape rfl hs
    by_cases htab : c = '\t'
    · subst c
      exact .escape rfl hs
    · have hplain := WritesChars.plain hquote hescape (h.1.resolve_right htab) hs
      simpa [escapeJson, hescape, hquote, htab] using hplain

end Escaping

section Writers

variable {α : Type}

theorem foldl_jsonList (item : α → Text) (xs : List α) (acc : Text) :
    xs.foldl (fun r x => (false, (if r.1 then r.2 else r.2 ++ [',']) ++ item x)) (false, acc) =
      (false, acc ++ xs.flatMap fun x => ',' :: item x) := by
  induction xs generalizing acc with
  | nil => simp
  | cons x xs ih =>
    rw [List.foldl_cons]
    simp [ih]

theorem jsonList_cons (item : α → Text) (x : α) (xs : List α) :
    jsonList item (x :: xs) =
      '[' :: (item x ++ xs.flatMap fun y => ',' :: item y) ++ [']'] := by
  simp [jsonList, foldl_jsonList]

theorem writesList_commas {value : α → Json} {item : α → Text} (x : α) (xs : List α)
    (h : ∀ y ∈ x :: xs, (value y).Writes (item y)) :
    WritesList Json.Writes ((x :: xs).map value) (item x ++ xs.flatMap fun y => ',' :: item y) := by
  induction xs generalizing x with
  | nil =>
    rw [List.flatMap_nil, List.append_nil]
    exact .one (h x List.mem_cons_self)
  | cons y ys ih =>
    rw [List.forall_mem_cons] at h
    rw [List.flatMap_cons, List.cons_append]
    exact .more h.1 (ih y h.2)

theorem writes_jsonList {value : α → Json} {item : α → Text} {xs : List α}
    (h : ∀ x ∈ xs, (value x).Writes (item x)) :
    (Json.array (xs.map value)).Writes (jsonList item xs) := by
  cases xs with
  | nil =>
    change (Json.array []).Writes ('[' :: [] ++ [']'])
    exact .array (.nil blank_nil)
  | cons x xs =>
    rw [jsonList_cons]
    exact .array (writesList_commas x xs h)

theorem trim_cons {c : Char} (hc : isTrimmed c = false) (s : Text) :
    trim (c :: s) = (c :: s).rdropWhile isTrimmed := by
  rw [trim, List.dropWhile_cons_of_neg (by simp [hc])]

theorem trim_brackets (t : Text) : trim ('[' :: t ++ [']']) = '[' :: t ++ [']'] :=
  calc trim ('[' :: t ++ [']'])
    _ = ('[' :: t ++ [']']).rdropWhile isTrimmed := trim_cons (by decide) _
    _ = '[' :: t ++ [']'] := List.rdropWhile_concat_neg _ _ _ (by decide)

theorem trim_brackets_line (t : Text) :
    trim ('[' :: t ++ [']'] ++ ['\n']) = '[' :: t ++ [']'] :=
  calc trim ('[' :: t ++ [']'] ++ ['\n'])
    _ = ('[' :: t ++ [']'] ++ ['\n']).rdropWhile isTrimmed := trim_cons (by decide) _
    _ = ('[' :: t ++ [']']).rdropWhile isTrimmed := List.rdropWhile_concat_pos _ _ _ (by decide)
    _ = '[' :: t ++ [']'] := List.rdropWhile_concat_neg _ _ _ (by decide)

theorem jsonList_brackets (item : α → Text) (xs : List α) :
    ∃ t, jsonList item xs = '[' :: t ++ [']'] := by
  cases xs with
  | nil => exact ⟨[], rfl⟩
  | cons x xs => exact ⟨_, jsonList_cons item x xs⟩

theorem setAppsJson_jsonList (item : α → Text) (xs : List α) :
    setAppsJson (some (jsonList item xs)) = some (jsonList item xs) := by
  obtain ⟨t, ht⟩ := jsonList_brackets item xs
  rw [ht, setAppsJson, if_pos]
  simp only [present, Option.any_some, trim_brackets]
  rfl

theorem writesChars_nameKey : WritesChars nameKey nameKey :=
  writesChars_jsonEscape (s := nameKey) (by simp [nameKey])

theorem writesChars_commandKey : WritesChars commandKey commandKey :=
  writesChars_jsonEscape (s := commandKey) (by simp [commandKey])

theorem writesChars_runningKey : WritesChars runningKey runningKey :=
  writesChars_jsonEscape (s := runningKey) (by simp [runningKey])

theorem writesChars_appsKey : WritesChars appsKey appsKey :=
  writesChars_jsonEscape (s := appsKey) (by simp [appsKey])

theorem WritesField.keyText {W : Json → Text → Prop} {key : Text}
    (hkey : WritesChars key key) {v : Json} {t : Text} (h : W v t) :
    WritesField W (key, v) (Android.keyText key ++ t) := by
  have hfield := WritesField.field hkey blank_nil blank_nil h
  simpa [Android.keyText] using hfield

theorem writes_quoted {s t : Text} (h : WritesChars s t) : (Json.string s).Writes (quoted t) :=
  .string h

/-- An app in the layout of the script. -/
theorem writes_appItem (e : Entry) : (appValue e.app).Writes (appItem e.app) := by
  have hname := writes_quoted (writesChars_escapeJson fun c hc => .inl (e.name.printable c hc))
  have hcommand :=
    writes_quoted (writesChars_escapeJson fun c hc => .inl (e.command.printable c hc))
  have hfields := Writes.object (.more (WritesField.keyText writesChars_nameKey hname)
    (.one (WritesField.keyText writesChars_commandKey hcommand)))
  simpa [appItem, Entry.app, appValue] using hfields

/-- A container of a published list. -/
def containerValue (container : Text) (apps : List LinuxApp) : Json :=
  .object [(nameKey, .string container), (runningKey, .bool true),
    (appsKey, .array (apps.map appValue))]

/-- A container in the layout of the Java code. -/
theorem writes_containerItem (lib : JsonLibrary) {container : Text}
    (h : ∀ c ∈ container, ' ' ≤ c) (apps : List LinuxApp) :
    (containerValue container apps).Writes
      (containerItem container (scanContainerApps lib apps)) := by
  have happs := lib.writes_dumps (.array (apps.map appValue))
  have htrim : scanContainerApps lib apps = lib.dumps (.array (apps.map appValue)) := by
    rw [scanContainerApps]
    generalize lib.dumps (.array (apps.map appValue)) = t at happs
    cases happs
    exact trim_brackets_line _
  rw [htrim]
  have hfields := Writes.object (.more (WritesField.keyText writesChars_nameKey
    (writes_quoted (writesChars_jsonEscape h)))
    (.more (WritesField.keyText writesChars_runningKey .true)
    (.one (WritesField.keyText writesChars_appsKey happs))))
  simpa [containerItem, containerValue, trueText] using hfields

end Writers

section Listing

theorem mem_splitOnP {s token : Text} {p : Char → Bool} (h : token ∈ s.splitOnP p) :
    ∀ c ∈ token, c ∈ s ∧ p c = false := by
  induction s generalizing token with
  | nil =>
    obtain rfl : token = [] := by simpa using h
    simp
  | cons d s ih =>
    rw [List.splitOnP_cons_eq_if_modifyHead] at h
    split_ifs at h with hd
    · rcases List.mem_cons.mp h with rfl | h
      · simp
      · exact fun c hc => (ih h c hc).imp_left (List.mem_cons_of_mem d)
    · obtain ⟨first, rest, hsplit⟩ := List.exists_cons_of_ne_nil (List.splitOnP_ne_nil p s)
      rw [hsplit, List.modifyHead_cons] at h
      rcases List.mem_cons.mp h with rfl | h
      · intro c hc
        rcases List.mem_cons.mp hc with rfl | hc
        · exact ⟨List.mem_cons_self, by simpa using hd⟩
        · exact (ih (hsplit ▸ List.mem_cons_self) c hc).imp_left (List.mem_cons_of_mem d)
      · exact fun c hc => (ih (hsplit ▸ List.mem_cons_of_mem first h) c hc).imp_left
          (List.mem_cons_of_mem d)

theorem parseToken_subset {token name : Text} (h : parseToken token = some name) :
    name ⊆ token := by
  rw [parseToken] at h
  split_ifs at h
  · obtain rfl := Option.some.inj h
    exact ((List.drop_sublist _ _).trans (List.takeWhile_sublist _)).subset
  · obtain rfl := Option.some.inj h
    exact List.drop_subset _ _

theorem mem_parseContainerLine {line : Text} {c : Char} (h : c ∈ parseContainerLine line) :
    c ∈ line ∧ isSpace c = false := by
  rw [parseContainerLine] at h
  split at h
  · rename_i name hname
    obtain ⟨token, htoken, hname⟩ := List.exists_of_findSome?_eq_some hname
    obtain ⟨hline, hseparator⟩ := mem_splitOnP htoken c (parseToken_subset hname h)
    exact ⟨hline, (Bool.or_eq_false_iff.mp hseparator).1⟩
  · split_ifs at h
    · cases h
    · exact ⟨List.takeWhile_subset _ h, by simpa using List.mem_takeWhile_imp h⟩

theorem mem_of_mem_trim {s : Text} {c : Char} (h : c ∈ trim s) : c ∈ s :=
  List.dropWhile_subset _ ((List.rdropWhile_prefix _ _).subset h)

/-- The name of a container is not empty, and has no white space in it. -/
theorem mem_parseContainers {output container : Text} (h : container ∈ parseContainers output) :
    container ≠ [] ∧ ∀ c ∈ container, c ∈ output ∧ isSpace c = false := by
  have hlines (lines : List Text) (hlines : ∀ line ∈ lines, line ⊆ output) (containers : List Text)
      (hcontainers : ∀ name ∈ containers, name ≠ [] ∧ ∀ c ∈ name, c ∈ output ∧ isSpace c = false) :
      ∀ name ∈ lines.foldl addContainer containers,
        name ≠ [] ∧ ∀ c ∈ name, c ∈ output ∧ isSpace c = false := by
    induction lines generalizing containers with
    | nil => exact hcontainers
    | cons line lines ih =>
      rw [List.forall_mem_cons] at hlines
      refine ih hlines.2 _ fun name hname => ?_
      rw [addContainer] at hname
      split_ifs at hname with hnew
      · rcases List.mem_append.mp hname with hname | hname
        · exact hcontainers name hname
        · obtain rfl := List.mem_singleton.mp hname
          refine ⟨hnew.1, fun c hc => ?_⟩
          have hc := mem_parseContainerLine hc
          exact ⟨hlines.1 (mem_of_mem_trim hc.1), hc.2⟩
      · exact hcontainers name hname
  refine hlines _ (fun line hline c hc => ?_) [] (by simp) container h
  rw [List.splitOn_eq_splitOnP] at hline
  exact (mem_splitOnP hline c hc).1

end Listing

section Reading

variable (lib : JsonLibrary)

theorem trim_eq_self {s : Text} (h : ∀ c ∈ s, isTrimmed c = false) : trim s = s := by
  have hdrop : s.dropWhile isTrimmed = s :=
    List.dropWhile_eq_self_iff.mpr fun hs => by simp [h _ (List.getElem_mem hs)]
  rw [trim, hdrop, List.rdropWhile_eq_self_iff]
  intro hs
  simp [h _ (List.getLast_mem hs)]

theorem loadApps_cons (e : Entry) (items : List Json) :
    loadApps lib (appValue e.app :: items) = (loadApps lib items).map (e.app :: ·) := by
  have hname : trim (optString lib
      [(nameKey, .string e.app.name), (commandKey, .string e.app.command)] nameKey []) =
      e.name.text := e.name.trimmed
  have hcommand : trim (optString lib
      [(nameKey, .string e.app.name), (commandKey, .string e.app.command)] commandKey []) =
      e.command.text := e.command.trimmed
  rw [appValue, loadApps, hname, hcommand]
  cases loadApps lib items with
  | none => rfl
  | some apps => simp [e.name.ne_nil, e.command.ne_nil, Entry.app]

theorem loadApps_appValue (entries : List Entry) :
    loadApps lib ((entries.map Entry.app).map appValue) = some (entries.map Entry.app) := by
  induction entries with
  | nil => rfl
  | cons e entries ih => simp only [List.map_cons, loadApps_cons, ih, Option.map_some]

theorem loadItems_containerValue {containers : List Text} (apps : Text → List Entry)
    (h : ∀ container ∈ containers, container ≠ [] ∧ trim container = container) :
    loadItems lib (containers.map fun container =>
        containerValue container ((apps container).map Entry.app)) =
      containers.map fun container => ⟨container, true, (apps container).map Entry.app⟩ := by
  induction containers with
  | nil => rfl
  | cons container containers ih =>
    rw [List.forall_mem_cons] at h
    let items := ((apps container).map Entry.app).map appValue
    let fields : Fields := [(nameKey, .string container), (runningKey, .bool true),
      (appsKey, .array items)]
    have hname : trim (optString lib fields nameKey []) = container := h.1.2
    have hitems : (optJSONArray fields appsKey).getD [] = items := rfl
    have hrunning : optBoolean fields runningKey true = true := rfl
    rw [List.map_cons, List.map_cons, ← ih h.2, containerValue, loadItems, hname, if_neg h.1.1,
      hitems, loadApps_appValue, hrunning]

/-- The reader takes the apps of the script for containers. -/
theorem loadItems_appValue (entries : List Entry) :
    loadItems lib (entries.map fun e => appValue e.app) =
      entries.map fun e => ⟨e.name.text, true, []⟩ := by
  induction entries with
  | nil => rfl
  | cons e entries ih =>
    let fields : Fields := [(nameKey, .string e.app.name), (commandKey, .string e.app.command)]
    have hname : trim (optString lib fields nameKey []) = e.name.text := e.name.trimmed
    have happs : loadApps lib ((optJSONArray fields appsKey).getD []) = some [] := rfl
    have hrunning : optBoolean fields runningKey true = true := rfl
    rw [List.map_cons, List.map_cons, ← ih, appValue, loadItems, hname, if_neg e.name.ne_nil,
      happs, hrunning]

theorem loadContainers_jsonList {α : Type} {value : α → Json} {item : α → Text} {xs : List α}
    (h : ∀ x ∈ xs, (value x).Writes (item x)) :
    loadContainers lib (setAppsJson (some (jsonList item xs))) =
      loadItems lib (xs.map value) := by
  rw [setAppsJson_jsonList, loadContainers, getAppsJson, Option.getD_some,
    lib.parse_of_writes _ _ (writes_jsonList h)]

theorem syncApps_eq (stored : Option Text) (apps : List LinuxApp) :
    syncApps stored apps = setAppsJson (some (syncAppsJson apps)) := by
  simp [syncApps, onReceive, actionSyncApps, extraAppsJson]

theorem loadContainers_syncApps (stored : Option Text) (entries : List Entry) :
    loadContainers lib (syncApps stored (entries.map Entry.app)) =
      entries.map fun e => ⟨e.name.text, true, []⟩ := by
  have hitems : ∀ app ∈ entries.map Entry.app, (appValue app).Writes (appItem app) := by
    intro app happ
    obtain ⟨e, -, rfl⟩ := List.mem_map.mp happ
    exact writes_appItem e
  rw [← loadItems_appValue lib entries, syncApps_eq, syncAppsJson,
    loadContainers_jsonList lib hitems, List.map_map]
  rfl

theorem isTrimmed_of_not_isSpace {c : Char} (h : ' ' ≤ c) (hspace : isSpace c = false) :
    isTrimmed c = false := by
  have hne : c ≠ ' ' := by
    rintro rfl
    cases hspace
  have hlt : ¬ c ≤ ' ' := fun hle => hne (Char.le_antisymm hle h)
  simp [isTrimmed, hlt]

theorem loadContainers_scanApps {containersOutput : Text}
    (h : ∀ c ∈ containersOutput, isSpace c = false → ' ' ≤ c) (apps : Text → List Entry) :
    loadContainers lib
        (scanApps lib containersOutput fun container => (apps container).map Entry.app) =
      (parseContainers containersOutput).map fun container =>
        ⟨container, true, (apps container).map Entry.app⟩ := by
  have hprint {container : Text} (hc : container ∈ parseContainers containersOutput) :
      ∀ c ∈ container, ' ' ≤ c ∧ isSpace c = false := by
    intro c hmem
    obtain ⟨houtput, hspace⟩ := (mem_parseContainers hc).2 c hmem
    exact ⟨h c houtput hspace, hspace⟩
  have hcontainers (container : Text) (hc : container ∈ parseContainers containersOutput) :
      container ≠ [] ∧ trim container = container := by
    refine ⟨(mem_parseContainers hc).1, trim_eq_self fun c hmem => ?_⟩
    exact isTrimmed_of_not_isSpace (hprint hc c hmem).1 (hprint hc c hmem).2
  rw [← loadItems_containerValue lib apps hcontainers]
  exact loadContainers_jsonList lib fun container hc =>
    writes_containerItem lib (fun c hmem => (hprint hc c hmem).1) _

end Reading

namespace Publication

/-- A published list is read back if and only if its apps are inside of containers. -/
theorem readsBack_iff_nested (lib : JsonLibrary) (stored : Option Text) (p : Publication) :
    p.ReadsBack lib stored ↔ p.Nested := by
  cases p with
  | syncApps apps =>
    rw [ReadsBack, store, loadContainers_syncApps]
    constructor
    · rintro ⟨-, happs⟩
      have hnone : (apps.map fun e => (⟨e.name.text, true, []⟩ : LinuxContainer)).flatMap
          LinuxContainer.apps = [] := by simp
      rw [hnone] at happs
      exact List.map_eq_nil_iff.mp happs.symm
    · intro h
      rw [Nested] at h
      subst h
      simp
  | scanApps containersOutput printable apps =>
    exact iff_of_true (loadContainers_scanApps lib printable apps) trivial

/-- The label of one character. -/
def letter (c : Char) (h : ' ' ≤ c) (hspace : isSpace c = false) : Label where
  text := [c]
  ne_nil := by simp
  trimmed := trim_eq_self (by simp [isTrimmed_of_not_isSpace h hspace])
  printable := by simp [h]

theorem readsBack_scanApps :
    ReadsBack .standard none (.scanApps ['c', ' ', 'd'] (by simp [isSpace])
      fun _ => [⟨letter 'a' (by simp) rfl, letter 'x' (by simp) rfl⟩]) :=
  (readsBack_iff_nested _ _ _).mpr trivial

/-- One app of the script becomes a container without apps. -/
theorem not_readsBack_syncApps :
    ¬ ReadsBack .standard none (.syncApps [⟨letter 'a' (by simp) rfl, letter 'x' (by simp) rfl⟩]) := by
  intro h
  have happs := h.2
  rw [store, loadContainers_syncApps] at happs
  cases happs

end Publication

end Android
end ACGlass
