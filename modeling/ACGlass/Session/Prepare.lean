import ACGlass.Session.Rewritten

/-!
# The command that `acglass-run` starts

`prepare_app_command` rewrites what is given to `bash -lc`, or else it appends to the words of a
Chromium command the flags that are not among them. A command that has been prepared is not
changed again, and the two ways find the same flags missing.
-/

namespace ACGlass
namespace Session

open Shell

/-- What the functions read: the settings of the Python helper, whether
`ACGLASS_CHROMIUM_VULKAN_AUTO` is 1 and there is a `python3`, the words that bash makes of the two
variables, `tr` to lower case, and the patterns of `case`. -/
structure Launcher where
  helper : Settings
  auto : Bool
  python3 : Bool
  commands : List Chars
  flags : List Chars
  lower : Chars → Chars
  matchesPattern : Chars → Chars → Bool

namespace Launcher

section Statement

variable (l : Launcher)

def isChromiumVulkanCommand (exe : Chars) : Bool :=
  l.commands.any (l.matchesPattern (l.lower (Settings.basename exe)))

/-- `"$key"|"$key"=*` -/
def isFlag (key arg : Chars) : Bool := arg = key || (key ++ ['=']).isPrefixOf arg

def hasChromiumFlag (key : Chars) (args : List Chars) : Bool := args.any (isFlag key)

/-- The flags that are not among the words. -/
def missing (argv : List Chars) : List Chars :=
  l.flags.filter fun flag => !hasChromiumFlag (Settings.key flag) argv

def prepareDirectChromiumVulkanArgv : List Chars → List Chars
  | [] => []
  | exe :: args =>
    if l.auto = true ∧ l.isChromiumVulkanCommand exe = true then
      exe :: args ++ l.missing (exe :: args)
    else exe :: args

def shellNames : List Chars := [['b', 'a', 's', 'h'], ['s', 'h']]

def commandOptions : List Chars := [['-', 'l', 'c'], ['-', 'c']]

def rewriteBashLcChromiumVulkanCommand : List Chars → Option (List Chars)
  | shell :: option :: cmd :: args =>
    if l.auto = true ∧ shellNames.contains (Settings.basename shell) = true ∧
        commandOptions.contains option = true ∧ l.python3 = true then
      (l.helper.rewrite cmd).bind fun r =>
        if r.text = [] then none else some (shell :: option :: r.text :: args)
    else none
  | _ => none

def prepareAppCommand (argv : List Chars) : List Chars :=
  (l.rewriteBashLcChromiumVulkanCommand argv).getD (l.prepareDirectChromiumVulkanArgv argv)

end Statement

variable {l : Launcher} {key flag arg : Chars} {argv : List Chars}

theorem isFlag_self (flag : Chars) : isFlag (Settings.key flag) flag = true := by
  have hsplit : Settings.key flag ++ flag.dropWhile (· ≠ '=') = flag :=
    List.takeWhile_append_dropWhile
  cases hrest : flag.dropWhile (· ≠ '=') with
  | nil =>
    rw [hrest, List.append_nil] at hsplit
    rw [isFlag, hsplit]
    simp
  | cons c rest =>
    have hc := List.head?_dropWhile_not (· ≠ '=') flag
    rw [hrest] at hc
    obtain rfl : c = '=' := by simpa using hc
    rw [isFlag, Bool.or_eq_true]
    refine .inr (List.isPrefixOf_iff_prefix.mpr ⟨rest, ?_⟩)
    rw [List.append_assoc, List.singleton_append, ← hrest, hsplit]

theorem hasChromiumFlag_append (key : Chars) (args args' : List Chars) :
    hasChromiumFlag key (args ++ args') =
      (hasChromiumFlag key args || hasChromiumFlag key args') := List.any_append

/-- With the missing flags none is missing. -/
theorem missing_append_missing (l : Launcher) (argv : List Chars) :
    l.missing (argv ++ l.missing argv) = [] := by
  apply List.filter_eq_nil_iff.mpr
  intro flag hflag
  rw [hasChromiumFlag_append]
  cases hhas : hasChromiumFlag (Settings.key flag) argv with
  | true => simp
  | false =>
    have hmem : flag ∈ l.missing argv := List.mem_filter.mpr ⟨hflag, by simp [hhas]⟩
    have hany : hasChromiumFlag (Settings.key flag) (l.missing argv) = true :=
      List.any_eq_true.mpr ⟨flag, hmem, isFlag_self flag⟩
    simp [hany]

theorem prepareDirect_idem (l : Launcher) (argv : List Chars) :
    l.prepareDirectChromiumVulkanArgv (l.prepareDirectChromiumVulkanArgv argv) =
      l.prepareDirectChromiumVulkanArgv argv := by
  cases argv with
  | nil => rfl
  | cons exe args =>
    by_cases h : l.auto = true ∧ l.isChromiumVulkanCommand exe = true
    · have hmissing := missing_append_missing l (exe :: args)
      rw [List.cons_append] at hmissing
      rw [prepareDirectChromiumVulkanArgv, if_pos h, List.cons_append,
        prepareDirectChromiumVulkanArgv, if_pos h, hmissing, List.append_nil]
    · rw [prepareDirectChromiumVulkanArgv, if_neg h, prepareDirectChromiumVulkanArgv, if_neg h]

end Launcher

section Helper

variable {s : Settings} {cmd : Chars} {r : Rewriting}

theorem isSafe_shlexBlanks {c : Char} (h : c ∈ shlexBlanks) : isSafe c = false := by
  simp only [shlexBlanks, List.mem_cons, List.not_mem_nil, or_false] at h
  rcases h with rfl | rfl | rfl | rfl <;> rfl

/-- `shlex.split` undoes `shlex.join`. -/
theorem split_join (ts : List Chars) : split (join ts) = some ts := by
  have hwords : words shlexBlanks ([.char ' ' .plain].intercalate (ts.map quoteMarks)) =
      ts.map quoteMarks := by
    apply words_intercalate (by decide)
    intro w hw
    obtain ⟨t, -, rfl⟩ := List.mem_map.mp hw
    exact ⟨quoteMarks_ne_nil t,
      fun m hm => separates_printed (fun _ => isSafe_shlexBlanks) (mem_quoteMarks hm)⟩
  have htext : ∀ t, shlexText (quoteMarks t) = t := flatMap_markText_quoteMarks _
  rw [split, scan_join, Option.map_some, hwords, List.map_map]
  simp [Function.comp_def, htext]

theorem skipEnv_congr {front back : List Chars} (back' : List Chars)
    (h : s.skipEnv (front ++ back) < front.length) :
    s.skipEnv (front ++ back') = s.skipEnv (front ++ back) := by
  induction front with
  | nil => cases h
  | cons token front ih =>
    rw [List.cons_append, Settings.skipEnv] at h ⊢
    rw [List.cons_append, Settings.skipEnv]
    rw [List.length_cons] at h
    split_ifs at h ⊢
    · rfl
    · exact congrArg (· + 1) (ih (by omega))
    · exact congrArg (· + 1) (ih (by omega))
    · rfl

theorem length_takeWhile_congr {α : Type*} {p : α → Bool} (front : List α) {back : List α}
    (back' : List α) (h : ((front ++ back).takeWhile p).length < front.length) :
    ((front ++ back').takeWhile p).length = ((front ++ back).takeWhile p).length := by
  induction front with
  | nil => cases h
  | cons a front ih =>
    simp only [List.cons_append, List.takeWhile_cons] at h ⊢
    split_ifs at h ⊢
    · exact congrArg (· + 1) (ih (by simpa using h))
    · rfl

/-- Where the program stands does not depend on what stands behind it. -/
theorem index_congr {front back : List Chars} (back' : List Chars)
    (h : s.index (front ++ back) < front.length) :
    s.index (front ++ back') = s.index (front ++ back) := by
  cases front with
  | nil => cases h
  | cons token front =>
    rw [List.cons_append, Settings.index] at h ⊢
    rw [List.cons_append, Settings.index]
    split_ifs at h ⊢ with henv
    · rw [List.length_cons] at h
      exact congrArg (· + 1) (skipEnv_congr back' (by omega))
    · exact length_takeWhile_congr (token :: front) back' h

/-- The flags of a rewritten command are among its arguments. -/
theorem insert_inserted (s : Settings) (args : List Chars) :
    s.insert (s.insert args ++ args) = [] := by
  apply List.filter_eq_nil_iff.mpr
  intro flag hflag
  simp only [List.map_append, Bool.not_eq_true, Bool.not_eq_false', List.contains_iff_mem,
    List.mem_append]
  by_cases hmem : Settings.key flag ∈ args.map Settings.key
  · exact .inr hmem
  · refine .inl (List.mem_map_of_mem (List.mem_filter.mpr ⟨hflag, ?_⟩))
    simpa using hmem

/-- The helper does not accept what it has printed. -/
theorem rewrite_text (h : s.rewrite cmd = some r) : s.rewrite r.text = none := by
  obtain ⟨-, -, hindex, hinsert, -, program, hprogram, -⟩ := rewrite_eq_some h
  rw [← hindex] at hinsert hprogram
  have hlt : r.index < r.tokens.length := (List.getElem?_eq_some_iff.mp hprogram).1
  have hfront : (r.tokens.take (r.index + 1)).length = r.index + 1 := by
    rw [List.length_take]
    omega
  have hplace : s.index r.inserted = r.index := by
    rw [Rewriting.inserted, List.append_assoc, hindex]
    conv_rhs => rw [← List.take_append_drop (s.index r.tokens + 1) r.tokens]
    apply index_congr
    rw [List.take_append_drop, ← hindex, hfront]
    omega
  have hargs : r.inserted.drop (r.index + 1) =
      s.insert (r.tokens.drop (r.index + 1)) ++ r.tokens.drop (r.index + 1) := by
    rw [Rewriting.inserted, List.append_assoc, List.drop_left' hfront, ← hinsert]
  unfold Settings.rewrite
  split_ifs
  · rfl
  · rw [Rewriting.text, split_join, Option.bind_eq_bind, Option.bind_some]
    dsimp only
    rw [hplace, hargs, insert_inserted]
    cases r.inserted[r.index]? <;> simp

end Helper

namespace Launcher

variable {l : Launcher} {argv argv' : List Chars}

/-- What the helper has printed stands in the same command. -/
theorem rewriteBashLc_eq_some (h : l.rewriteBashLcChromiumVulkanCommand argv = some argv') :
    ∃ shell option cmd args r, argv = shell :: option :: cmd :: args ∧
      Settings.basename shell ∈ shellNames ∧ l.helper.rewrite cmd = some r ∧
      argv' = shell :: option :: r.text :: args := by
  unfold rewriteBashLcChromiumVulkanCommand at h
  split at h
  · rename_i shell option cmd args
    split_ifs at h with hguard
    obtain ⟨r, hr, h⟩ := Option.bind_eq_some_iff.mp h
    split_ifs at h
    have hshell := List.contains_iff_mem.mp hguard.2.1
    exact ⟨shell, option, cmd, args, r, rfl, hshell, hr, (Option.some.inj h).symm⟩
  · cases h

theorem rewriteBashLc_text {shell option cmd : Chars} {args : List Chars} {r : Rewriting}
    (h : l.helper.rewrite cmd = some r) :
    l.rewriteBashLcChromiumVulkanCommand (shell :: option :: r.text :: args) = none := by
  rw [rewriteBashLcChromiumVulkanCommand, rewrite_text h]
  simp

theorem rewriteBashLc_of_head {exe : Chars} {args : List Chars}
    (h : Settings.basename exe ∉ shellNames) :
    l.rewriteBashLcChromiumVulkanCommand (exe :: args) = none := by
  match args with
  | [] | [_] => rfl
  | option :: cmd :: args =>
    rw [rewriteBashLcChromiumVulkanCommand, if_neg]
    rintro ⟨-, hshell, -⟩
    exact h (List.contains_iff_mem.mp hshell)

theorem prepareDirect_of_not {exe : Chars} (h : l.isChromiumVulkanCommand exe = false)
    (args : List Chars) : l.prepareDirectChromiumVulkanArgv (exe :: args) = exe :: args := by
  rw [prepareDirectChromiumVulkanArgv, if_neg]
  simp [h]

end Launcher

/-- Unless the name of a shell is itself among the commands, a command that has been prepared is
left as it is. -/
theorem prepareAppCommand_idem (l : Launcher)
    (h : ∀ shell, Settings.basename shell ∈ Launcher.shellNames →
      l.isChromiumVulkanCommand shell = false) (argv : List Chars) :
    l.prepareAppCommand (l.prepareAppCommand argv) = l.prepareAppCommand argv := by
  cases hrewrite : l.rewriteBashLcChromiumVulkanCommand argv with
  | some argv' =>
    obtain ⟨shell, option, cmd, args, r, -, hshell, hr, rfl⟩ :=
      Launcher.rewriteBashLc_eq_some hrewrite
    have hagain : l.prepareAppCommand (shell :: option :: r.text :: args) =
        shell :: option :: r.text :: args := by
      rw [Launcher.prepareAppCommand, Launcher.rewriteBashLc_text hr, Option.getD_none]
      exact Launcher.prepareDirect_of_not (h shell hshell) _
    rw [show l.prepareAppCommand argv = _ by rw [Launcher.prepareAppCommand, hrewrite]]
    exact hagain
  | none =>
    have hdirect : l.prepareAppCommand argv = l.prepareDirectChromiumVulkanArgv argv := by
      rw [Launcher.prepareAppCommand, hrewrite, Option.getD_none]
    cases argv with
    | nil => rfl
    | cons exe args =>
      by_cases hexe : l.isChromiumVulkanCommand exe = true
      · -- a Chromium command is no shell, also with flags behind it
        have hnot : Settings.basename exe ∉ Launcher.shellNames :=
          fun hshell => Bool.false_ne_true ((h exe hshell).symm.trans hexe)
        have hnone : l.rewriteBashLcChromiumVulkanCommand
            (l.prepareDirectChromiumVulkanArgv (exe :: args)) = none := by
          rw [Launcher.prepareDirectChromiumVulkanArgv]
          split_ifs <;> exact Launcher.rewriteBashLc_of_head hnot
        rw [hdirect, Launcher.prepareAppCommand, hnone, Option.getD_none,
          Launcher.prepareDirect_idem]
      · have hsame := Launcher.prepareDirect_of_not (Bool.eq_false_iff.mpr hexe) args
        rw [hsame] at hdirect
        rw [hdirect, hdirect]

/-- A launcher that knows one command and one flag. -/
def oneCommand : Launcher where
  helper :=
    { commands := ["chromium".toList]
      flags := ["--use-angle=vulkan".toList]
      isAlnum := Char.isAlphanum
      isDigit := Char.isDigit
      lower := List.map Char.toLower
      fnmatchcase := fun name pattern => name == pattern }
  auto := true
  python3 := true
  commands := ["chromium".toList]
  flags := ["--use-angle=vulkan".toList]
  lower := List.map Char.toLower
  matchesPattern := fun pattern name => name == pattern

theorem prepareAppCommand_idem_oneCommand :
    oneCommand.prepareAppCommand (oneCommand.prepareAppCommand
        ["bash".toList, "-lc".toList, "chromium".toList]) =
      oneCommand.prepareAppCommand ["bash".toList, "-lc".toList, "chromium".toList] := by
  apply prepareAppCommand_idem
  intro shell hshell
  simp only [Launcher.shellNames, List.mem_cons, List.not_mem_nil, or_false] at hshell
  rcases hshell with hshell | hshell <;> simp [Launcher.isChromiumVulkanCommand, hshell, oneCommand]

section Agreement

variable {l : Launcher} {exe : Chars} {args : List Chars}

/-- The characters with which the helper accepts no command. -/
def helperSpecials : List Char := ['\n', ';', '|', '&', '<', '>']

/-- Both ways read the same flags and take the word for a Chromium command or not, and the word
is the program in the eyes of the helper, and no flag. -/
structure Launcher.SameSettings (l : Launcher) (exe : Chars) : Prop where
  auto : l.auto = true
  flags : l.helper.flags = l.flags
  commands : l.helper.isChromium exe = l.isChromiumVulkanCommand exe
  program : exe ≠ Settings.envWord ∧ l.helper.isAssignment exe = false
  noFlag : ∀ flag ∈ l.flags, Launcher.isFlag (Settings.key flag) exe = false

theorem mem_join {ts : List Chars} {c : Char} (h : c ∈ join ts) :
    c ∈ [' ', '\'', '"'] ∨ ∃ t ∈ ts, c ∈ t := by
  have hquote : ∀ t : Chars, c ∈ quote t → c ∈ [' ', '\'', '"'] ∨ c ∈ t := by
    intro t hc
    unfold quote at hc
    split_ifs at hc
    · have heq : c = '\'' := by simpa using hc
      simp [heq]
    · exact .inr hc
    · rcases List.mem_append.mp hc with hc | hc
      · rcases List.mem_cons.mp hc with rfl | hc
        · simp
        · obtain ⟨d, hd, hc⟩ := List.mem_flatMap.mp hc
          split_ifs at hc
          · simp only [List.mem_cons, List.not_mem_nil, or_false] at hc
            left
            simp only [List.mem_cons, List.not_mem_nil, or_false]
            tauto
          · exact .inr (List.mem_singleton.mp hc ▸ hd)
      · simp [List.mem_singleton.mp hc]
  induction ts with
  | nil => cases h
  | cons t ts ih =>
    cases ts with
    | nil =>
      rw [join, List.map_singleton, List.intercalate_singleton] at h
      exact (hquote t h).imp_right fun hc => ⟨t, List.mem_singleton_self t, hc⟩
    | cons u us =>
      rw [join, List.map_cons, List.map_cons, List.intercalate_cons_cons, ← List.map_cons] at h
      rcases List.mem_append.mp h with h | h
      · rcases List.mem_append.mp h with h | h
        · exact (hquote t h).imp_right fun hc => ⟨t, List.mem_cons_self, hc⟩
        · exact .inl (by simp [List.mem_singleton.mp h])
      · obtain hc | ⟨v, hv, hc⟩ := ih h
        · exact .inl hc
        · exact .inr ⟨v, List.mem_cons_of_mem _ hv, hc⟩

theorem isFlag_iff (flag arg : Chars) :
    Launcher.isFlag (Settings.key flag) arg = true ↔ Settings.key arg = Settings.key flag := by
  have hkey : ∀ c ∈ Settings.key flag, decide (c ≠ '=') = true := by
    intro c hc
    exact List.mem_takeWhile_imp (p := (decide <| · ≠ '=')) hc
  rw [Launcher.isFlag, Bool.or_eq_true, decide_eq_true_iff, List.isPrefixOf_iff_prefix]
  constructor
  · rintro (rfl | ⟨rest, rfl⟩)
    · exact List.takeWhile_eq_self_iff.mpr hkey
    · rw [Settings.key, List.append_assoc, List.takeWhile_append_of_pos hkey]
      simp
  · intro h
    rw [← h]
    have hself := Launcher.isFlag_self arg
    rw [Launcher.isFlag, Bool.or_eq_true, decide_eq_true_iff, List.isPrefixOf_iff_prefix] at hself
    exact hself

/-- The helper and the loop of bash find the same flags missing. -/
theorem Launcher.SameSettings.insert_eq (h : l.SameSettings exe) (args : List Chars) :
    l.helper.insert args = l.missing (exe :: args) := by
  rw [Settings.insert, Launcher.missing, h.flags]
  apply List.filter_congr
  intro flag hflag
  rw [Launcher.hasChromiumFlag, List.any_cons, h.noFlag flag hflag, Bool.false_or]
  congr 1
  rw [Bool.eq_iff_iff, List.contains_iff_mem, List.mem_map, List.any_eq_true]
  simp only [isFlag_iff]

theorem Launcher.SameSettings.index_eq (h : l.SameSettings exe) (args : List Chars) :
    l.helper.index (exe :: args) = 0 := by
  rw [Settings.index, if_neg h.program.1, List.takeWhile_cons_of_neg]
  · rfl
  · simp [h.program.2]

/-- A command of plain words gets the same flags in both ways: behind the program from the
helper, and behind the arguments from the loop of bash. -/
theorem prepare_agrees (h : l.SameSettings exe)
    (hplain : ∀ t ∈ exe :: args, ∀ c ∈ t, c ∉ helperSpecials) :
    ∃ flags : List Chars, flags.Sublist l.flags ∧
      l.prepareDirectChromiumVulkanArgv (exe :: args) = exe :: args ++ flags ∧
      (l.helper.rewrite (join (exe :: args))).map Rewriting.inserted =
        if flags = [] then none else some (exe :: flags ++ args) := by
  have hspecial : (join (exe :: args)).any (· ∈ helperSpecials) = false := by
    rw [List.any_eq_false]
    intro c hc hmem
    obtain hquote | ⟨t, ht, hct⟩ := mem_join hc
    · have hboth := of_decide_eq_true hmem
      simp only [List.mem_cons, List.not_mem_nil, or_false] at hquote
      rcases hquote with rfl | rfl | rfl <;> exact absurd hboth (by decide)
    · exact hplain t ht c hct (of_decide_eq_true hmem)
  have hrewrite : l.helper.rewrite (join (exe :: args)) =
      if l.helper.isChromium exe = true ∧ l.missing (exe :: args) ≠ [] then
        some ⟨exe :: args, 0, l.missing (exe :: args)⟩ else none := by
    rw [Settings.rewrite]
    change (if (join (exe :: args)).any (· ∈ helperSpecials) = true then none else _) = _
    rw [hspecial, if_neg Bool.false_ne_true, split_join, Option.bind_eq_bind, Option.bind_some]
    dsimp only
    rw [h.index_eq, List.getElem?_cons_zero, Option.bind_eq_bind, Option.bind_some]
    simp only [zero_add, List.drop_one, List.tail_cons, h.insert_eq]
    rfl
  by_cases hchromium : l.isChromiumVulkanCommand exe = true
  · refine ⟨l.missing (exe :: args), List.filter_sublist, ?_, ?_⟩
    · rw [Launcher.prepareDirectChromiumVulkanArgv, if_pos ⟨h.auto, hchromium⟩]
    · rw [hrewrite, h.commands]
      by_cases hnone : l.missing (exe :: args) = []
      · rw [if_neg fun hand => hand.2 hnone, if_pos hnone]
        rfl
      · rw [if_pos ⟨hchromium, hnone⟩, if_neg hnone]
        rfl
  · refine ⟨[], List.nil_sublist _, ?_, ?_⟩
    · rw [Launcher.prepareDirect_of_not (Bool.eq_false_iff.mpr hchromium), List.append_nil]
    · rw [hrewrite, h.commands, if_neg fun hand => hchromium hand.1, if_pos rfl]
      rfl

theorem prepare_agrees_oneCommand : ∃ flags : List Chars, flags.Sublist oneCommand.flags ∧
    oneCommand.prepareDirectChromiumVulkanArgv ["chromium".toList, "a b".toList] =
      ["chromium".toList, "a b".toList] ++ flags ∧
    (oneCommand.helper.rewrite (join ["chromium".toList, "a b".toList])).map Rewriting.inserted =
      if flags = [] then none else some ("chromium".toList :: flags ++ ["a b".toList]) := by
  apply prepare_agrees (l := oneCommand)
  · exact ⟨rfl, rfl, by decide, by decide, by decide⟩
  · have hall : (["chromium".toList, "a b".toList].all fun t =>
        t.all fun c => decide (c ∉ helperSpecials)) = true := by decide +kernel
    intro t ht c hc
    exact of_decide_eq_true (List.all_eq_true.mp (List.all_eq_true.mp hall t ht) c hc)

end Agreement

end Session
end ACGlass
