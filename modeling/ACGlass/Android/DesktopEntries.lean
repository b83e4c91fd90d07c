import ACGlass.Android.AppLists
import ACGlass.Android.FieldCodes

/-!
# Desktop entries

Of a `.desktop` file, `acglass-sync-apps` reads the first line with a key, wherever it
stands. The scanner of `RootDroidspaces.scanContainerApps` looks at the group
`[Desktop Entry]` only. A file is the list of its lines as `\n` ends them.
-/

namespace ACGlass
namespace Android

inductive Key
  | type
  | noDisplay
  | hidden
  | terminal
  | name
  | exec
  deriving DecidableEq, Repr

def Key.text : Key → Text
  | type => "Type".toList
  | noDisplay => "NoDisplay".toList
  | hidden => "Hidden".toList
  | terminal => "Terminal".toList
  | name => "Name".toList
  | exec => "Exec".toList

def applicationText : Text := "Application".toList

def desktopEntryText : Text := "[Desktop Entry]".toList

/-- `^key=` -/
def keyLine (lines : List Text) (key : Key) : Option Text :=
  lines.find? (key.text ++ ['=']).isPrefixOf

/-- The rest of the first line that begins with `key=`. -/
def desktopValue (lines : List Text) (key : Key) : Text :=
  match keyLine lines key with
  | none => []
  | some line => line.drop (key.text.length + 1)

/-- `grep` prints nothing of a file that it takes for binary, which it does at a NUL in what it
has read up to the line that it looks for. Its buffers decide how far that is. -/
structure Grep where
  binary : List Text → Key → Bool
  nul_of_binary : ∀ file key, binary file key = true → ∃ line ∈ file, '\x00' ∈ line
  binary_of_nul : ∀ file key line, keyLine file key = some line → '\x00' ∈ line →
    binary file key = true

/-- A `grep` that reads the file at once. -/
def Grep.whole : Grep where
  binary file _ := file.any (·.contains '\x00')
  nul_of_binary _ _ h := by simpa using h
  binary_of_nul file key line hline hnul := by
    simp only [List.any_eq_true, List.contains_iff_mem]
    exact ⟨line, List.mem_of_find?_eq_some hline, hnul⟩

namespace Script

/-- `desktop_value` -/
def value (grep : Grep) (file : List Text) (key : Key) : Text :=
  if grep.binary file key then [] else desktopValue file key

/-- What the loop of `acglass-sync-apps` adds for a file; `none` where it continues. -/
def app (loc : Locale) (grep : Grep) (file : List Text) : Option LinuxApp :=
  let value := value grep file
  if value .type ≠ applicationText then none
  else if value .noDisplay = trueText then none
  else if value .hidden = trueText then none
  else if value .terminal = trueText then none
  else if value .name = [] then none
  else if value .exec = [] then none
  else
    let command := cleanExec loc (value .exec)
    if command = [] then none else some ⟨value .name, command⟩

end Script

namespace Scanner

abbrev Data := List (Text × Text)

def setdefault (data : Data) (k v : Text) : Data :=
  if (data.lookup k).isSome then data else data ++ [(k, v)]

/-- `line.startswith('[') and line.endswith(']')` -/
def isHeader (line : Text) : Bool := line.head? = some '[' && line.getLast? = some ']'

/-- The body of the loop of `read_entry`, on `data` and `in_desktop`. -/
def readLine : Data × Bool → Text → Data × Bool
  | (data, inDesktop), line =>
    if line = desktopEntryText then (data, true)
    else
      let inDesktop := if isHeader line then false else inDesktop
      if !inDesktop || !line.contains '=' || line.head? = some '#' then (data, inDesktop)
      else
        let k := line.takeWhile (· ≠ '=')
        (setdefault data k (line.drop (k.length + 1)), inDesktop)

/-- In text mode `\r` and `\r\n` end a line also. -/
def universalNewlines (file : List Text) : List Text :=
  file.flatMap fun line =>
    (if line.getLast? = some '\r' then line.dropLast else line).splitOn '\r'

def readEntry (file : List Text) : Data :=
  ((universalNewlines file).foldl readLine ([], false)).1

/-- `v.lower() == 'true'`; no other characters have theirs in `true`. -/
def isTrue (v : Text) : Bool := v.map Char.toLower = trueText

/-- What the loop of the scanner adds for a file, but for commands that it has seen. -/
def app (file : List Text) : Option LinuxApp :=
  let e := readEntry file
  let get := fun key : Key => (e.lookup key.text).getD []
  if e.lookup Key.type.text ≠ some applicationText then none
  else if isTrue (get .noDisplay) then none
  else if isTrue (get .hidden) then none
  else if isTrue (get .terminal) then none
  else
    let appName := strip (get .name)
    let cmd := cleanExec (get .exec)
    if appName = [] ∨ cmd = [] then none else some ⟨appName, cmd⟩

end Scanner

/-- The lines of the group, whether or not the first one is in it already. -/
def entryLines : Bool → List Text → List Text
  | _, [] => []
  | inside, line :: lines =>
    if line = desktopEntryText then entryLines true lines
    else if Scanner.isHeader line then entryLines false lines
    else if inside then line :: entryLines true lines
    else entryLines false lines

/-- The first line of the group that begins with `key=`. -/
def entryValue (file : List Text) (key : Key) : Text :=
  desktopValue (entryLines false (Scanner.universalNewlines file)) key

section Condition

variable (loc : Locale)

/-- The script passes over the file at one of its keys. -/
def Script.Stops (value : Key → Text) : Prop :=
  value .type ≠ applicationText ∨ value .noDisplay = trueText ∨ value .hidden = trueText ∨
    value .terminal = trueText ∨ value .name = [] ∨
      ∀ p ∈ pieces [] (value .exec), ∀ c ∈ p.scripted, loc.space c = true

/-- The scanner passes over the file at one of its keys. -/
def Scanner.Stops (value : Key → Text) : Prop :=
  value .type ≠ applicationText ∨ isTrue (value .noDisplay) = true ∨
    isTrue (value .hidden) = true ∨ isTrue (value .terminal) = true ∨
      (∀ c ∈ value .name, isspace c = true) ∨
        ∀ p ∈ pieces [] (value .exec), p.visible = false

/-- A line has to be neat. Two different ones have to go side by side, once the white space and
the field codes in front of the scanner's command are left out. -/
def SameCommand (e e' : Text) : Prop :=
  if e = e' then Neat loc (pieces [] e)
  else SideBySide loc false false (pieces [] e) ((pieces [] e').dropWhile (!·.visible))

/-- The scanner's name is the script's with white space around it, which the script's has not. -/
def SameName (n n' : Text) : Prop :=
  (∃ before after, n' = before ++ n ++ after ∧ (∀ c ∈ before, isspace c = true) ∧
    ∀ c ∈ after, isspace c = true) ∧
  (∀ c ∈ n.head?, isspace c = false) ∧ ∀ c ∈ n.getLast?, isspace c = false

/-- The values of the script and of the scanner, key by key. -/
structure Alike (value value' : Key → Text) : Prop where
  type : value .type = applicationText ↔ value' .type = applicationText
  noDisplay : value .noDisplay = trueText ↔ Scanner.isTrue (value' .noDisplay) = true
  hidden : value .hidden = trueText ↔ Scanner.isTrue (value' .hidden) = true
  terminal : value .terminal = trueText ↔ Scanner.isTrue (value' .terminal) = true
  name : SameName (value .name) (value' .name)
  exec : SameCommand loc (value .exec) (value' .exec)

/-- The lines with the keys are alike, or each reader stops at one of its own. -/
def Consistent (grep : Grep) (file : List Text) : Prop :=
  (Script.Stops loc (Script.value grep file) ∧ Scanner.Stops (entryValue file)) ∨
    Alike loc (Script.value grep file) (entryValue file)

end Condition

section Entry

theorem key_text (key : Key) : key.text ≠ [] ∧ '=' ∉ key.text ∧ key.text.head? ≠ some '#' := by
  cases key <;> decide

theorem lookup_append (data data' : Scanner.Data) (k : Text) :
    (data ++ data').lookup k = (data.lookup k).or (data'.lookup k) := by
  induction data with
  | nil => rfl
  | cons entry data ih =>
    obtain ⟨k', v⟩ := entry
    by_cases hk : k = k'
    · simp [hk]
    · have hne : (k == k') = false := by simpa using hk
      rw [List.cons_append, List.lookup_cons, List.lookup_cons, hne]
      exact ih

theorem lookup_setdefault (data : Scanner.Data) (k k' v : Text) :
    (Scanner.setdefault data k v).lookup k' =
      (data.lookup k').or (if k' = k then some v else none) := by
  have hone : [(k, v)].lookup k' = if k' = k then some v else none := by
    by_cases hk : k' = k
    · simp [hk]
    · have hne : (k' == k) = false := by simpa using hk
      simp [List.lookup_cons, hne, hk]
  unfold Scanner.setdefault
  by_cases hhas : (data.lookup k).isSome
  · rw [if_pos hhas]
    obtain ⟨v', hv'⟩ := Option.isSome_iff_exists.mp hhas
    by_cases hk : k' = k
    · rw [hk, hv']
      rfl
    · rw [if_neg hk, Option.or_none]
  · rw [if_neg hhas, lookup_append, hone]

theorem takeWhile_prefix_of_mem {line : Text} (h : '=' ∈ line) :
    line.takeWhile (· ≠ '=') ++ ['='] <+: line := by
  induction line with
  | nil => cases h
  | cons c line ih =>
    by_cases hc : c = '='
    · simp [hc]
    · have hmem : '=' ∈ line := (List.mem_cons.mp h).resolve_left (Ne.symm hc)
      rw [List.takeWhile_cons_of_pos (by simpa using hc), List.cons_append,
        List.prefix_cons_inj]
      exact ih hmem

/-- A line assigns the key that is in front of its first `=`. -/
theorem assigns_iff {key line : Text} (h : '=' ∉ key) :
    (key ++ ['=']).isPrefixOf line = true ↔ '=' ∈ line ∧ line.takeWhile (· ≠ '=') = key := by
  rw [List.isPrefixOf_iff_prefix]
  constructor
  · rintro ⟨rest, rfl⟩
    have hkey : ∀ c ∈ key, decide (c ≠ '=') = true := by
      intro c hc
      simpa using ne_of_mem_of_not_mem hc h
    refine ⟨by simp, ?_⟩
    rw [List.append_assoc, List.takeWhile_append_of_pos hkey]
    simp
  · rintro ⟨hmem, rfl⟩
    exact takeWhile_prefix_of_mem hmem

/-- A comment assigns no key. -/
theorem not_assigns_comment (key : Key) {line : Text} (h : line.head? = some '#') :
    (key.text ++ ['=']).isPrefixOf line = false := by
  obtain ⟨hne, -, hcomment⟩ := key_text key
  by_contra hassigns
  rw [Bool.not_eq_false, List.isPrefixOf_iff_prefix] at hassigns
  obtain ⟨rest, rfl⟩ := hassigns
  rw [List.append_assoc, List.head?_append_of_ne_nil _ hne] at h
  exact hcomment h

theorem readLine_outside {data : Scanner.Data} {inside : Bool} {line : Text}
    (hentry : line ≠ desktopEntryText) (h : Scanner.isHeader line = true ∨ inside = false) :
    Scanner.readLine (data, inside) line = (data, false) := by
  have hleft : (if Scanner.isHeader line then false else inside) = false := by
    rcases h with h | h
    · rw [if_pos h]
    · rw [h, ite_self]
  rw [Scanner.readLine, if_neg hentry]
  simp only [hleft]
  rfl

/-- A line of the group adds the key that it assigns. -/
theorem lookup_readLine (key : Key) (data : Scanner.Data) {line : Text}
    (hentry : line ≠ desktopEntryText) (hheader : Scanner.isHeader line = false) :
    (Scanner.readLine (data, true) line).2 = true ∧
      (Scanner.readLine (data, true) line).1.lookup key.text =
        (data.lookup key.text).or (if (key.text ++ ['=']).isPrefixOf line then
          some (line.drop (key.text.length + 1)) else none) := by
  obtain ⟨-, heq, -⟩ := key_text key
  rw [Scanner.readLine, if_neg hentry]
  simp only [hheader, Bool.false_eq_true, if_false, Bool.not_true, Bool.false_or]
  by_cases hcomment : line.head? = some '#'
  · simp [hcomment, not_assigns_comment key hcomment]
  by_cases hmem : '=' ∈ line
  · rw [if_neg (by simp [hmem, hcomment])]
    refine ⟨rfl, ?_⟩
    rw [lookup_setdefault]
    by_cases hkey : line.takeWhile (· ≠ '=') = key.text
    · rw [if_pos hkey.symm, if_pos ((assigns_iff heq).mpr ⟨hmem, hkey⟩), hkey]
    · rw [if_neg (Ne.symm hkey), if_neg fun h => hkey ((assigns_iff heq).mp h).2]
  · rw [if_pos (by simp [hmem]), if_neg fun h => hmem ((assigns_iff heq).mp h).1]
    simp

theorem lookup_foldl (key : Key) (lines : List Text) (data : Scanner.Data) (inside : Bool) :
    (lines.foldl Scanner.readLine (data, inside)).1.lookup key.text =
      (data.lookup key.text).or (((entryLines inside lines).find?
        (key.text ++ ['=']).isPrefixOf).map (·.drop (key.text.length + 1))) := by
  induction lines generalizing data inside with
  | nil => simp [entryLines]
  | cons line lines ih =>
    rw [List.foldl_cons, entryLines]
    by_cases hentry : line = desktopEntryText
    · rw [Scanner.readLine, if_pos hentry, if_pos hentry]
      exact ih data true
    rw [if_neg hentry]
    by_cases hheader : Scanner.isHeader line = true
    · rw [readLine_outside hentry (.inl hheader), if_pos hheader]
      exact ih data false
    rw [if_neg hheader]
    cases inside with
    | false =>
      rw [readLine_outside hentry (.inr rfl)]
      exact ih data false
    | true =>
      obtain ⟨hinside, hlookup⟩ := lookup_readLine key data hentry (by simpa using hheader)
      obtain ⟨data', hread⟩ : ∃ data', Scanner.readLine (data, true) line = (data', true) :=
        ⟨_, Prod.ext rfl hinside⟩
      rw [hread] at hlookup ⊢
      rw [ih data' true, hlookup, Option.or_assoc, if_pos rfl, List.find?_cons]
      cases (key.text ++ ['=']).isPrefixOf line <;> simp

/-- The value that the scanner gets is the first one of the group. -/
theorem get_readEntry (file : List Text) (key : Key) :
    ((Scanner.readEntry file).lookup key.text).getD [] = entryValue file key := by
  rw [Scanner.readEntry, lookup_foldl, entryValue, desktopValue, keyLine]
  cases (entryLines false (Scanner.universalNewlines file)).find?
      (key.text ++ ['=']).isPrefixOf with
  | none => rfl
  | some line => rfl

end Entry

section Agreement

variable (loc : Locale) (grep : Grep)

/-- A file without a NUL is text to `grep`. -/
theorem script_value_of_text {file : List Text} (h : ∀ line ∈ file, '\x00' ∉ line) (key : Key) :
    Script.value grep file key = desktopValue file key := by
  rw [Script.value, if_neg]
  intro hbinary
  obtain ⟨line, hmem, hnul⟩ := grep.nul_of_binary file key hbinary
  exact h line hmem hnul

/-- No value has a NUL, which a variable of the shell could not hold. -/
theorem nul_not_mem_script_value (file : List Text) (key : Key) :
    '\x00' ∉ Script.value grep file key := by
  rw [Script.value]
  split_ifs with hbinary
  · simp
  · rw [desktopValue]
    cases hline : keyLine file key with
    | none => simp
    | some line =>
      intro hnul
      exact hbinary (grep.binary_of_nul file key line hline (List.mem_of_mem_drop hnul))

theorem script_app_cases (file : List Text) :
    (Script.Stops loc (Script.value grep file) ∧ Script.app loc grep file = none) ∨
      (¬ Script.Stops loc (Script.value grep file) ∧ Script.app loc grep file =
        some ⟨Script.value grep file .name,
          Script.cleanExec loc (Script.value grep file .exec)⟩) := by
  have hempty : Script.value grep file .exec = [] ∨
      Script.cleanExec loc (Script.value grep file .exec) = [] ↔
        ∀ p ∈ pieces [] (Script.value grep file .exec), ∀ c ∈ p.scripted, loc.space c = true := by
    rw [← script_cleanExec_eq_nil, or_iff_right_iff_imp]
    intro h
    rw [h]
    rfl
  unfold Script.Stops Script.app
  simp only [← ite_or, ← hempty]
  split_ifs with h
  · exact .inl ⟨h, rfl⟩
  · exact .inr ⟨h, rfl⟩

theorem strip_eq_nil (s : Text) : Scanner.strip s = [] ↔ ∀ c ∈ s, isspace c = true := by
  rw [Scanner.strip, List.rdropWhile_eq_nil_iff]
  constructor
  · intro h c hc
    rw [← List.takeWhile_append_dropWhile (p := isspace) (l := s)] at hc
    rcases List.mem_append.mp hc with hc | hc
    · exact List.mem_takeWhile_imp hc
    · exact h c hc
  · intro h c hc
    exact h c (List.dropWhile_subset _ hc)

theorem strip_ends (s : Text) :
    (∀ c ∈ (Scanner.strip s).head?, isspace c = false) ∧
      ∀ c ∈ (Scanner.strip s).getLast?, isspace c = false := by
  refine ⟨?_, rdropWhile_last _ _⟩
  intro c hc
  obtain ⟨rest, hrest⟩ : Scanner.strip s <+: s.dropWhile isspace := List.rdropWhile_prefix _ _
  apply dropWhile_head isspace s
  rw [← hrest, List.head?_append, Option.mem_def.mp hc]
  rfl

/-- The names of two lines are equal exactly if the one line is the other with white space. -/
theorem sameName_iff (n n' : Text) : SameName n n' ↔ n = Scanner.strip n' := by
  constructor
  · rintro ⟨⟨before, after, rfl, hbefore, hafter⟩, hhead, hlast⟩
    exact (strip_append hbefore hafter hhead hlast).symm
  · rintro rfl
    refine ⟨⟨n'.takeWhile isspace, (n'.dropWhile isspace).rtakeWhile isspace, ?_, ?_, ?_⟩,
      strip_ends n'⟩
    · rw [Scanner.strip, List.append_assoc, List.rdropWhile_append_rtakeWhile,
        List.takeWhile_append_dropWhile]
    · exact fun _ => List.mem_takeWhile_imp
    · exact fun _ => List.mem_rtakeWhile_imp

theorem type_get (file : List Text) :
    (Scanner.readEntry file).lookup Key.type.text ≠ some applicationText ↔
      entryValue file .type ≠ applicationText := by
  rw [← get_readEntry]
  cases (Scanner.readEntry file).lookup Key.type.text with
  | none => exact iff_of_true nofun (by decide)
  | some v => simp

theorem scanner_app_cases (file : List Text) :
    (Scanner.Stops (entryValue file) ∧ Scanner.app file = none) ∨
      (¬ Scanner.Stops (entryValue file) ∧ Scanner.app file =
        some ⟨Scanner.strip (entryValue file .name),
          Scanner.cleanExec (entryValue file .exec)⟩) := by
  unfold Scanner.Stops Scanner.app
  simp only [type_get, get_readEntry, ← ite_or, ← strip_eq_nil, ← scanner_cleanExec_eq_nil]
  split_ifs with h
  · exact .inl ⟨h, rfl⟩
  · exact .inr ⟨h, rfl⟩

theorem SameCommand.cleanExec_eq {e e' : Text} (h : SameCommand loc e e') :
    Script.cleanExec loc e = Scanner.cleanExec e' := by
  unfold SameCommand at h
  split_ifs at h with heq
  · rw [← heq]
    exact cleanExec_eq_of_neat h
  · exact (cleanExec_eq_iff_sideBySide loc e e').mpr h

/-- The commands of two lines are equal only if the lines are alike, provided that there is
something to run. -/
theorem sameCommand_of_cleanExec {e e' : Text}
    (hvisible : ∃ p ∈ pieces [] e', p.visible = true)
    (h : Script.cleanExec loc e = Scanner.cleanExec e') : SameCommand loc e e' := by
  unfold SameCommand
  split_ifs with heq
  · subst heq
    exact (cleanExec_eq_iff loc hvisible).mp h
  · exact (cleanExec_eq_iff_sideBySide loc e e').mp h

variable {loc}

/-- Alike lines stop both readers or none. -/
theorem Alike.stops_iff {value value' : Key → Text} (h : Alike loc value value') :
    Script.Stops loc value ↔ Scanner.Stops value' := by
  unfold Script.Stops Scanner.Stops
  rw [← script_cleanExec_eq_nil, ← scanner_cleanExec_eq_nil, ← strip_eq_nil,
    (sameName_iff _ _).mp h.name, h.exec.cleanExec_eq, h.noDisplay, h.hidden, h.terminal, Ne, Ne,
    h.type]

theorem Alike.app_eq {value value' : Key → Text} (h : Alike loc value value') :
    (⟨value .name, Script.cleanExec loc (value .exec)⟩ : LinuxApp) =
      ⟨Scanner.strip (value' .name), Scanner.cleanExec (value' .exec)⟩ := by
  rw [(sameName_iff _ _).mp h.name, h.exec.cleanExec_eq]

theorem alike_of_app_eq {value value' : Key → Text} (hs : ¬ Script.Stops loc value)
    (hs' : ¬ Scanner.Stops value')
    (h : (⟨value .name, Script.cleanExec loc (value .exec)⟩ : LinuxApp) =
      ⟨Scanner.strip (value' .name), Scanner.cleanExec (value' .exec)⟩) :
    Alike loc value value' := by
  obtain ⟨hname, hcommand⟩ := LinuxApp.mk.inj h
  simp only [Script.Stops, not_or, not_not] at hs
  simp only [Scanner.Stops, not_or, not_not] at hs'
  obtain ⟨htype, hnoDisplay, hhidden, hterminal, -, -⟩ := hs
  obtain ⟨htype', hnoDisplay', hhidden', hterminal', -, hexec'⟩ := hs'
  constructor
  · exact iff_of_true htype htype'
  · exact iff_of_false hnoDisplay hnoDisplay'
  · exact iff_of_false hhidden hhidden'
  · exact iff_of_false hterminal hterminal'
  · exact (sameName_iff _ _).mpr hname
  · apply sameCommand_of_cleanExec
    · simpa using hexec'
    · exact hcommand

variable (loc)

/-- The readers agree on a file exactly if the lines with the keys are alike or each of them
stops. -/
theorem readers_agree_iff (file : List Text) :
    Script.app loc grep file = Scanner.app file ↔ Consistent loc grep file := by
  unfold Consistent
  rcases script_app_cases loc grep file with ⟨hs, happ⟩ | ⟨hs, happ⟩ <;>
    rcases scanner_app_cases file with ⟨hs', happ'⟩ | ⟨hs', happ'⟩
  all_goals rw [happ, happ']
  · exact iff_of_true rfl (.inl ⟨hs, hs'⟩)
  · apply iff_of_false nofun
    rintro (⟨-, h⟩ | h)
    · exact hs' h
    · exact hs' (h.stops_iff.mp hs)
  · apply iff_of_false nofun
    rintro (⟨h, -⟩ | h)
    · exact hs h
    · exact hs (h.stops_iff.mpr hs')
  · rw [Option.some.injEq]
    constructor
    · intro h
      exact .inr (alike_of_app_eq hs hs' h)
    · rintro (⟨h, -⟩ | h)
      · exact absurd h hs
      · exact h.app_eq

end Agreement

/-- A terminal program in an action of its own. -/
def terminalAction : List Text :=
  ["[Desktop Entry]", "Type=Application", "Name=Files", "Exec=files %U", "Actions=shell;", "",
    "[Desktop Action shell]", "Name=Open a shell", "Exec=sh", "Terminal=true"].map String.toList

/-- The script takes the line of the action for one of the entry. -/
theorem terminalAction_not_agree :
    ¬ Script.app .posix .whole terminalAction = Scanner.app terminalAction := by
  decide

end Android
end ACGlass
