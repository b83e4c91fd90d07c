import ACGlass.Android.Text
import ACGlass.Shell.Commands

/-!
# Commands for a container

`RootDroidspaces.runInContainer` writes the line that `su -c` runs. Names of containers and of
users are quoted, and the command for the container goes through as Base64.
-/

namespace ACGlass
namespace Android

open Shell

/-- `shellQuote` -/
def shellQuote (value : Text) : Text :=
  '\'' :: value.flatMap (fun c => if c = '\'' then ['\'', '"', '\'', '"', '\''] else [c]) ++ ['\'']

section Base64

def alphabet : List Char :=
  "ABCDEFGHIJKLMNOPQRSTUVWXYZabcdefghijklmnopqrstuvwxyz0123456789+/".toList

def digit (n : ℕ) : Char := alphabet.getD n '='

/-- `Base64.encodeToString` with `NO_WRAP` -/
def encodeToString : List UInt8 → Text
  | [] => []
  | [a] => [digit (a.toNat / 4), digit (a.toNat % 4 * 16), '=', '=']
  | [a, b] =>
    [digit (a.toNat / 4), digit (a.toNat % 4 * 16 + b.toNat / 16), digit (b.toNat % 16 * 4), '=']
  | a :: b :: c :: t =>
    digit (a.toNat / 4) :: digit (a.toNat % 4 * 16 + b.toNat / 16) ::
      digit (b.toNat % 16 * 4 + c.toNat / 64) :: digit (c.toNat % 64) :: encodeToString t

/-- `getBytes(StandardCharsets.UTF_8)` -/
def getBytes (s : Text) : List UInt8 := s.flatMap String.utf8EncodeChar

end Base64

def root : Text := "root".toList

/-- The line that `runInContainer` has run, or the message of its exception. -/
def runInContainer (droidspaces container : Text) (user : Option Text) (command : Text) :
    Except Text Text :=
  if container.isEmpty then .error "Droidspaces container name is required".toList
  else
    let droidspacesCommand := shellQuote droidspaces
    let droidspacesCommand := droidspacesCommand ++ " --name=".toList ++ shellQuote container
    let droidspacesCommand :=
      match user with
      | some user =>
        if !(trim user).isEmpty ∧ trim user ≠ root then
          droidspacesCommand ++ " --user=".toList ++ shellQuote (trim user)
        else droidspacesCommand
      | none => droidspacesCommand
    let encodedCommand := encodeToString (getBytes command)
    let droidspacesCommand := droidspacesCommand ++
      " run /usr/bin/env /opt/acglass/shell_command.sh ".toList
    .ok (droidspacesCommand ++ shellQuote encodedCommand)

section Quoting

variable {t : Text}

def wrapped (t : Text) : List Mark :=
  .quote :: t.flatMap fun c =>
    if c = '\'' then [.quote, .char '\'' .double, .quote] else [.char c .single]

theorem scan_shellQuote (t : Text) : Scans (shellQuote t) (wrapped t) := scan_wrapped t

theorem printed_of_mem {m : Mark} (h : m ∈ wrapped t) : m.Printed := printed_wrapped h

theorem bashText_wrapped (t : Text) : bashText (wrapped t) = t := markText_wrapped bashSpecials t

/-- Wherever the marks stand, they are a part of one word, and of the text alone. -/
structure PartOfWord (ms : List Mark) (t : Text) : Prop where
  nonempty : ms ≠ []
  separates : ∀ m ∈ ms, separates bashBlanks m = false
  operator : ∀ m ∈ ms, isOperator m = false
  inert : ∀ m ∈ ms, m.Inert
  tilde : .char '~' .plain ∉ ms
  text : bashText ms = t

theorem partOfWord_wrapped (t : Text) : PartOfWord (wrapped t) t where
  nonempty := List.cons_ne_nil _ _
  separates _ hm := separates_printed (fun _ => isSafe_bashBlanks) (printed_of_mem hm)
  operator _ hm := isOperator_printed (printed_of_mem hm)
  inert _ hm := inert_of_printed (printed_of_mem hm)
  tilde hm := by cases isSafe_of_printed (printed_of_mem hm)
  text := bashText_wrapped t

/-- A quoted text is no assignment and no reserved word. -/
theorem wrapped_head (t : Text) :
    isAssignment (wrapped t) = false ∧ isReserved (wrapped t) = false := by
  constructor
  · rw [Bool.eq_false_iff]
    intro h
    obtain ⟨⟨target, value⟩, hassign⟩ := Option.isSome_iff_exists.mp h
    have hmem : equals ∈ wrapped t := by
      rw [assignment_eq hassign]
      simp
    rcases List.mem_cons.mp hmem with hquote | hchar
    · cases hquote
    · obtain ⟨c, -, hc⟩ := List.mem_flatMap.mp hchar
      split_ifs at hc <;> simp [equals] at hc
  · rw [isReserved, wrapped, List.mapM_cons]
    rfl

end Quoting

section Words

/-- A word of the line: a part that needs no quotes, and a quoted one. -/
structure Argument where
  plain : Text
  quoted : Option Text

namespace Argument

variable (p : Argument)

def text : Text := p.plain ++ (p.quoted.map shellQuote).getD []

def marks : List Mark := p.plain.map (.char · .plain) ++ (p.quoted.map wrapped).getD []

/-- What the shell is to make of it. -/
def word : Text := p.plain ++ p.quoted.getD []

structure WellFormed : Prop where
  safe : p.plain.all isSafe = true
  nonempty : p.plain = [] → p.quoted.isSome

variable {p}

theorem WellFormed.scans (h : p.WellFormed) : Scans p.text p.marks := by
  apply (scan_safe h.safe).append
  cases p.quoted with
  | none => exact fun rest => by simp
  | some t => exact scan_shellQuote t

theorem WellFormed.printed (h : p.WellFormed) : p.marks ≠ [] ∧ ∀ m ∈ p.marks, m.Printed := by
  constructor
  · intro hnil
    obtain ⟨hplain, hquoted⟩ := List.append_eq_nil_iff.mp hnil
    obtain ⟨t, ht⟩ := Option.isSome_iff_exists.mp (h.nonempty (List.map_eq_nil_iff.mp hplain))
    rw [ht] at hquoted
    cases hquoted
  · intro m hm
    rcases List.mem_append.mp hm with hm | hm
    · exact printed_safe h.safe hm
    · cases hquoted : p.quoted with
      | none => simp [hquoted] at hm
      | some t =>
        rw [hquoted] at hm
        exact printed_of_mem hm

theorem bashText_marks : bashText p.marks = p.word := by
  rw [marks, bashText_append, bashText_plain]
  cases hquoted : p.quoted with
  | none => simp [word, hquoted, bashText]
  | some t => simp [word, hquoted, bashText_wrapped]

end Argument

/-- Such words are what the shell reads, whatever their quoted parts hold. -/
theorem run_arguments {t : Text} {ps : List Argument} (h : ∀ p ∈ ps, p.WellFormed) (sh : State) :
    run sh ([' '].intercalate ((⟨[], some t⟩ :: ps).map Argument.text)) =
      some ⟨[], t :: ps.map Argument.word⟩ := by
  have hall : ∀ p ∈ (⟨[], some t⟩ : Argument) :: ps, p.WellFormed :=
    List.forall_mem_cons.mpr ⟨⟨rfl, fun _ => rfl⟩, h⟩
  have hscan : Scans ([' '].intercalate ((⟨[], some t⟩ :: ps).map Argument.text))
      ([.char ' ' .plain].intercalate ((⟨[], some t⟩ :: ps).map Argument.marks)) := by
    apply scan_intercalate
    rw [List.forall₂_map_left_iff, List.forall₂_map_right_iff, List.forall₂_same]
    exact fun p hp => (hall p hp).scans
  have hprinted : ∀ w ∈ (⟨[], some t⟩ :: ps).map Argument.marks,
      w ≠ [] ∧ ∀ m ∈ w, m.Printed := by
    intro w hw
    obtain ⟨p, hp, rfl⟩ := List.mem_map.mp hw
    exact (hall p hp).printed
  have hcommand : command sh ((⟨[], some t⟩ :: ps).map Argument.marks) =
      some ⟨[], ((⟨[], some t⟩ :: ps).map Argument.marks).map bashText⟩ := by
    have hnone : ∀ w ∈ ([] : List (List Mark)),
        isAssignment w = true ∧ (bashText w).all isSafe = true :=
      fun w hw => absurd hw List.not_mem_nil
    apply command_literal hnone
    · intro w hw
      exact ⟨(hprinted w hw).1, literal_of_printed (hprinted w hw).2⟩
    · intro w hw
      obtain rfl := Option.some.inj hw
      exact (wrapped_head t).1
  rw [run_printed hprinted hscan.scan_eq, hcommand, if_neg]
  · simp [Function.comp_def, Argument.bashText_marks, Argument.word]
  · rw [List.map_cons, List.head?_cons, Option.any_some]
    exact (wrapped_head t).2 ▸ Bool.false_ne_true

/-- The words behind the container's name in front of `run`. -/
def userArguments (user : Option Text) : List Argument :=
  ((user.map trim).filter fun u => u ≠ [] ∧ u ≠ root).toList.map
    fun u => ⟨"--user=".toList, some u⟩

def arguments (container : Text) (user : Option Text) (command : Text) : List Argument :=
  [⟨"--name=".toList, some container⟩] ++ userArguments user ++
    [⟨"run".toList, none⟩, ⟨"/usr/bin/env".toList, none⟩,
      ⟨"/opt/acglass/shell_command.sh".toList, none⟩,
      ⟨[], some (encodeToString (getBytes command))⟩]

theorem wellFormed_arguments (container : Text) (user : Option Text) (command : Text) :
    ∀ p ∈ arguments container user command, p.WellFormed := by
  intro p hp
  have hcases : p.plain = "--name=".toList ∨ p.plain = "--user=".toList ∨
      p.plain = "run".toList ∨ p.plain = "/usr/bin/env".toList ∨
      p.plain = "/opt/acglass/shell_command.sh".toList ∨ p.plain = [] ∧ p.quoted.isSome := by
    simp only [arguments, userArguments, List.mem_append, List.mem_cons, List.not_mem_nil,
      or_false, List.mem_map] at hp
    rcases hp with (rfl | ⟨u, -, rfl⟩) | rfl | rfl | rfl | rfl <;> simp
  have hsafe : ∀ t : Text, t.all isSafe = true → t ≠ [] → p.plain = t → p.WellFormed := by
    intro t ht hne hplain
    exact ⟨hplain ▸ ht, fun hnil => absurd (hplain.symm.trans hnil) hne⟩
  rcases hcases with h | h | h | h | h | h
  · exact hsafe _ (by decide) (by decide) h
  · exact hsafe _ (by decide) (by decide) h
  · exact hsafe _ (by decide) (by decide) h
  · exact hsafe _ (by decide) (by decide) h
  · exact hsafe _ (by decide) (by decide) h
  · exact ⟨by rw [h.1]; rfl, fun _ => h.2⟩

theorem intercalate_arguments (p : Argument) (ps : List Argument) :
    [' '].intercalate ((p :: ps).map Argument.text) =
      p.text ++ ps.flatMap fun q => ' ' :: q.text := by
  induction ps generalizing p with
  | nil => simp
  | cons q ps ih =>
    rw [List.map_cons, List.map_cons, List.intercalate_cons_cons, ← List.map_cons, ih]
    simp

theorem flatMap_userArguments (user : Option Text) :
    ((userArguments user).flatMap fun q => ' ' :: q.text) =
      user.elim [] fun user => if !(trim user).isEmpty ∧ trim user ≠ root then
        " --user=".toList ++ shellQuote (trim user) else [] := by
  cases user with
  | none => rfl
  | some u =>
    by_cases hu : !(trim u).isEmpty ∧ trim u ≠ root
    · have hfilter : (some (trim u)).filter (fun u => u ≠ [] ∧ u ≠ root) = some (trim u) := by
        rw [Option.filter_eq_some_iff]
        simpa using hu
      rw [userArguments, Option.map_some, hfilter, Option.elim_some, if_pos hu]
      simp [Argument.text]
    · have hfilter : (some (trim u)).filter (fun u => u ≠ [] ∧ u ≠ root) = none := by
        rw [Option.filter_eq_none_iff]
        simpa using hu
      rw [userArguments, Option.map_some, hfilter, Option.elim_some, if_neg hu]
      rfl

theorem runInContainer_eq (droidspaces : Text) {container : Text} (h : container ≠ [])
    (user : Option Text) (command : Text) :
    runInContainer droidspaces container user command = .ok ([' '].intercalate
      ((⟨[], some droidspaces⟩ :: arguments container user command).map Argument.text)) := by
  have hempty : container.isEmpty = false := by simpa using h
  have hrest : ([⟨"run".toList, none⟩, ⟨"/usr/bin/env".toList, none⟩,
      ⟨"/opt/acglass/shell_command.sh".toList, none⟩,
      ⟨[], some (encodeToString (getBytes command))⟩] : List Argument).flatMap
        (fun q => ' ' :: q.text) = " run /usr/bin/env /opt/acglass/shell_command.sh ".toList ++
          shellQuote (encodeToString (getBytes command)) := by
    simp [Argument.text]
  have hname : ([⟨"--name=".toList, some container⟩] : List Argument).flatMap
      (fun q => ' ' :: q.text) = " --name=".toList ++ shellQuote container := by
    simp [Argument.text]
  have hpath : Argument.text ⟨[], some droidspaces⟩ = shellQuote droidspaces := rfl
  rw [runInContainer, hempty, if_neg Bool.false_ne_true, intercalate_arguments, arguments,
    List.flatMap_append, List.flatMap_append, hrest, hname, flatMap_userArguments, hpath]
  cases user with
  | none => simp only [Option.elim_none, List.append_assoc, List.nil_append]
  | some u =>
    by_cases hu : !(trim u).isEmpty ∧ trim u ≠ root
    · simp only [if_pos hu, Option.elim_some, List.append_assoc]
    · simp only [if_neg hu, Option.elim_some, List.append_assoc, List.nil_append]

/-- Whatever the names and the command are, the line is one command with the intended words,
and a quoted text is a part of one word. -/
theorem runInContainer_words (sh : State) (droidspaces : Text) {container : Text}
    (h : container ≠ []) (user : Option Text) (command : Text) :
    (∃ line, runInContainer droidspaces container user command = .ok line ∧
      run sh line = some ⟨[], [droidspaces, "--name=".toList ++ container] ++
        ((user.map trim).filter fun u => u ≠ [] ∧ u ≠ root).toList.map ("--user=".toList ++ ·) ++
        ["run".toList, "/usr/bin/env".toList, "/opt/acglass/shell_command.sh".toList,
          encodeToString (getBytes command)]⟩) ∧
    ∀ s, ∃ ms, Scans (shellQuote s) ms ∧ PartOfWord ms s := by
  constructor
  · refine ⟨_, runInContainer_eq droidspaces h user command, ?_⟩
    rw [run_arguments (wellFormed_arguments container user command)]
    simp [arguments, userArguments, Argument.word, Function.comp_def]
  · exact fun s => ⟨wrapped s, scan_shellQuote s, partOfWord_wrapped s⟩

/-- A container's name with a quote, and a user's with an expansion. -/
theorem runInContainer_words_hostile :
    ∃ line, runInContainer "/data/ds".toList "a'; id".toList (some " $(id)".toList) [] = .ok line ∧
      run ⟨fun _ => ['*'], fun _ => some ['/']⟩ line = some ⟨[],
        ["/data/ds".toList, "--name=a'; id".toList, "--user=$(id)".toList, "run".toList,
          "/usr/bin/env".toList, "/opt/acglass/shell_command.sh".toList, []]⟩ := by
  have hname : "a'; id".toList ≠ [] := by decide
  obtain ⟨line, hline, hrun⟩ := (runInContainer_words ⟨fun _ => ['*'], fun _ => some ['/']⟩
    "/data/ds".toList hname (some " $(id)".toList) []).1
  exact ⟨line, hline, hrun.trans (by decide)⟩

end Words

end Android
end ACGlass
