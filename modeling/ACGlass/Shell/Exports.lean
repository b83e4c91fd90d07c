import ACGlass.Shell.Scripts

/-!
# Files of exports

`printf %q` puts a backslash in front of every character that bash would not take for itself. A
file of lines `export name=value` that has been written so leaves the same values in every shell
that reads it.
-/

namespace ACGlass
namespace Shell

section Model

/-- The characters that `%q` escapes wherever they stand. -/
def backslashed : List Char :=
  ['\t', '\n', ' ', '!', '"', '$', '&', '\'', '(', ')', '*', ',', ';', '<', '>', '?', '[', '\\',
    ']', '^', '`', '{', '|', '}']

/-- A `#` is escaped in front of the text, and a tilde where it could be expanded. -/
def isBackslashed (before : Option Char) (c : Char) : Bool :=
  c ∈ backslashed || (c = '#' && before.isNone) ||
    (c = '~' && before.all fun b => b = ':' || b = '=')

def backslash : Option Char → Chars → Chars
  | _, [] => []
  | before, c :: t =>
    (if isBackslashed before c then ['\\', c] else [c]) ++ backslash (some c) t

/-- `printf %q`. A text with characters that do not print is written in another way, and has no
result. -/
def printfQ (isPrint : Char → Bool) (t : Chars) : Option Chars :=
  if t = [] then some ['\'', '\'']
  else if t.all isPrint then some (backslash none t)
  else none

def exportName : Chars := ['e', 'x', 'p', 'o', 'r', 't']

/-- `printf 'export name=%q\n' "$value"` -/
def exportText (isPrint : Char → Bool) (a : Chars × Chars) : Option Chars :=
  (printfQ isPrint a.2).map fun q => exportName ++ ' ' :: a.1 ++ '=' :: q ++ ['\n']

def exportsText (isPrint : Char → Bool) (as : List (Chars × Chars)) : Option Chars :=
  (as.mapM (exportText isPrint)).map List.flatten

/-- An argument of `export` that assigns. -/
def exported (sh : State) (w : List Mark) : Option (Chars × Chars) := do
  let (target, value) ← assignment w
  let value ← expandValue sh value
  return (target, value)

/-- A line that is empty or an `export`; others have no result. -/
def exportLine (sh : State) (ms : List Mark) : Option State := do
  match ← bashWords ms with
  | [] => return sh
  | w :: ws =>
    if w = exportName.map (.char · .plain) then return sh.assigned ⟨← ws.mapM (exported sh), []⟩
    else none

def lineEnd : Mark := .char '\n' .plain

/-- What `.` makes of the shell with a file of exports. -/
def source (sh : State) (text : Chars) : Option State :=
  (scan .plain text).bind fun ms => (ms.splitOn lineEnd).foldlM exportLine sh

end Model

section Quoted

variable {isPrint : Char → Bool} {before : Option Char} {t s : Chars}

def backslashMarks : Option Char → Chars → List Mark
  | _, [] => []
  | before, c :: t =>
    .char c (if isBackslashed before c then .escaped else .plain) :: backslashMarks (some c) t

theorem not_backslashed {c : Char} (h : ¬ isBackslashed before c = true) : c ∉ backslashed := by
  intro hmem
  simp [isBackslashed, hmem] at h

theorem scan_escaped (c : Char) (t : Chars) :
    scan .plain ('\\' :: c :: t) = (scan .plain t).map (.char c .escaped :: ·) := rfl

theorem scan_backslash (before : Option Char) (t : Chars) :
    Scans (backslash before t) (backslashMarks before t) := by
  induction t generalizing before with
  | nil => exact fun rest => by simp [backslash, backslashMarks]
  | cons c t ih =>
    intro rest
    rw [backslash, backslashMarks]
    split_ifs with hc
    · rw [List.append_assoc, List.cons_append, List.singleton_append, scan_escaped, ih,
        Option.map_map]
      rfl
    · have hmem := not_backslashed hc
      have hne : ∀ d ∈ backslashed, c ≠ d := by
        rintro d hd rfl
        exact hmem hd
      rw [List.append_assoc, List.singleton_append,
        scan_plain (hne _ (by decide)) (hne _ (by decide)) (hne _ (by decide)), ih, Option.map_map]
      rfl

theorem bashText_backslashMarks (before : Option Char) (t : Chars) :
    bashText (backslashMarks before t) = t := by
  induction t generalizing before with
  | nil => rfl
  | cons c t ih =>
    have hrest := ih (some c)
    rw [bashText] at hrest
    rw [backslashMarks, bashText, List.flatMap_cons, hrest]
    split_ifs <;> rfl

theorem mem_backslashMarks {m : Mark} (h : m ∈ backslashMarks before t) :
    ∃ c, m = .char c .escaped ∨ (m = .char c .plain ∧ c ∉ backslashed) := by
  induction t generalizing before with
  | nil => cases h
  | cons c t ih =>
    rw [backslashMarks] at h
    rcases List.mem_cons.mp h with rfl | h
    · refine ⟨c, ?_⟩
      split_ifs with hc
      · exact .inl rfl
      · exact .inr ⟨rfl, not_backslashed hc⟩
    · exact ih h

theorem solid_backslashMarks {m : Mark} (h : m ∈ backslashMarks before t) : m.Solid := by
  obtain ⟨c, rfl | ⟨rfl, hc⟩⟩ := mem_backslashMarks h
  · exact ⟨rfl, rfl⟩
  · have hblank : bashBlanks ⊆ backslashed := by decide
    have hop : ['\n', ';', '|', '&', '<', '>', '(', ')'] ⊆ backslashed := by decide
    exact ⟨decide_eq_false fun hmem => hc (hblank hmem),
      decide_eq_false fun hmem => hc (hop hmem)⟩

theorem inert_backslashMarks {m : Mark} (h : m ∈ backslashMarks before t) : m.Inert := by
  obtain ⟨c, rfl | ⟨rfl, hc⟩⟩ := mem_backslashMarks h
  · rintro _ _ ⟨rfl, rfl⟩ hopen
    cases hopen
  · rintro _ _ ⟨rfl, rfl⟩ -
    constructor <;>
    · rintro rfl
      exact hc (by decide)

theorem tildeName_cons {m : Mark} (h : m ≠ .char '~' .plain) (ms : List Mark) :
    tildeName (m :: ms) = none := by
  unfold tildeName
  split
  · rename_i heq
    exact absurd (List.cons.inj heq).1 h
  · rfl

/-- No part of the value begins with a tilde that is not escaped; the first one may if the text
goes on from something else than a colon. -/
theorem segments_backslashMarks (before : Option Char) (t : Chars) :
    ∃ first rest, segments (backslashMarks before t) = first :: rest ∧
      (∀ s ∈ rest, tildeName s = none) ∧
      ((before.all fun b => b = ':' || b = '=') = true → tildeName first = none) := by
  induction t generalizing before with
  | nil => exact ⟨[], [], rfl, by simp, fun _ => rfl⟩
  | cons c t ih =>
    obtain ⟨first, rest, hsegments, hrest, hfirst⟩ := ih (some c)
    rw [segments, List.splitOn] at hsegments
    rw [backslashMarks, segments, List.splitOn, List.splitOnP_cons_eq_if_modifyHead, hsegments]
    split_ifs with hcolon hc
    · exact absurd (beq_iff_eq.mp hc) (by simp)
    · refine ⟨_, rest, rfl, hrest, fun _ => tildeName_cons (by simp) _⟩
    · rename_i hc'
      obtain ⟨rfl, -⟩ := Mark.char.inj (beq_iff_eq.mp hc')
      refine ⟨[], _, rfl, ?_, fun _ => rfl⟩
      exact List.forall_mem_cons.mpr ⟨hfirst (by decide), hrest⟩
    · refine ⟨_, rest, rfl, hrest, fun hbefore => tildeName_cons ?_ _⟩
      intro htilde
      obtain ⟨rfl, -⟩ := Mark.char.inj htilde
      simp [isBackslashed, hbefore] at hcolon

theorem expandValue_backslashMarks (sh : State) (t : Chars) :
    expandValue sh (backslashMarks none t) = some t := by
  obtain ⟨first, rest, hsegments, hrest, hfirst⟩ := segments_backslashMarks none t
  have htildes : tildes sh (backslashMarks none t) = backslashMarks none t := by
    apply tildes_eq
    rw [hsegments, List.forall_mem_cons]
    refine ⟨?_, fun s hs => ?_⟩
    · rw [hfirst rfl]
      rfl
    · rw [hrest s hs]
      rfl
  rw [expandValue, htildes, expand, pieces_inert fun m hm => inert_backslashMarks hm]
  exact congrArg some ((glyphText_marks _).trans (bashText_backslashMarks none t))

/-- What `%q` has written is one value, and the same in every shell. -/
theorem printfQ_spec (h : printfQ isPrint t = some s) :
    ∃ ms, Scans s ms ∧ (∀ m ∈ ms, m.Solid) ∧ ∀ sh, expandValue sh ms = some t := by
  unfold printfQ at h
  split_ifs at h with hnil hprint
  · obtain rfl := Option.some.inj h
    refine ⟨[.quote], fun rest => by simp [scan], by decide, fun sh => ?_⟩
    rw [hnil]
    rfl
  · obtain rfl := Option.some.inj h
    exact ⟨_, scan_backslash none t, fun m => solid_backslashMarks,
      fun sh => expandValue_backslashMarks sh t⟩

end Quoted

section Names

variable {name : Chars}

theorem isNameChar_of_isName (h : isName name = true) : ∀ c ∈ name, isNameChar c = true := by
  cases name with
  | nil => simp
  | cons c cs =>
    rw [isName, Bool.and_eq_true, List.all_eq_true] at h
    rw [List.forall_mem_cons]
    refine ⟨?_, h.2⟩
    have hc := h.1
    rw [isNameStart, Bool.or_eq_true] at hc
    rw [isNameChar, Bool.or_eq_true]
    exact hc.imp_left fun hc => by rw [Char.isAlphanum, hc, Bool.true_or]

theorem isSafe_of_isNameChar {c : Char} (h : isNameChar c = true) : isSafe c = true := by
  rw [isNameChar, Bool.or_eq_true] at h
  rw [isSafe, Bool.or_eq_true]
  refine h.imp_right fun hc => ?_
  obtain rfl := of_decide_eq_true hc
  decide

theorem isTarget_of_isName (h : isName name = true) :
    isTarget name = true ∧ '=' ∉ name ∧ name.getLast? ≠ some '+' := by
  have hall := isNameChar_of_isName h
  have hplus : name.getLast? ≠ some '+' := by
    intro hlast
    have hc := hall _ (List.mem_of_getLast? hlast)
    cases hc
  have hequals : '=' ∉ name := fun hmem => absurd (hall _ hmem) (by decide)
  refine ⟨?_, hequals, hplus⟩
  have htake : name.takeWhile isNameChar = name := List.takeWhile_eq_self_iff.mpr hall
  have hdrop : name.dropWhile isNameChar = [] := List.dropWhile_eq_nil_iff.mpr hall
  rw [isTarget]
  simp only [hplus, if_false, htake, hdrop, h]
  rfl

end Names

section Lines

variable {isPrint : Char → Bool} {sh : State} {name value line text : Chars}
  {as : List (Chars × Chars)}

theorem exportLine_nil (sh : State) : exportLine sh [] = some sh := rfl

/-- A line sets its variable, however the file goes on. -/
theorem source_exportText (hname : isName name = true)
    (h : exportText isPrint (name, value) = some line) (sh : State) (rest : Chars) :
    source sh (line ++ rest) = source (sh.set name value) rest := by
  obtain ⟨q, hq, rfl⟩ := Option.map_eq_some_iff.mp h
  obtain ⟨ms, hscan, hsolid, hvalue⟩ := printfQ_spec hq
  obtain ⟨htarget, hequals, -⟩ := isTarget_of_isName hname
  let st : Setting := ⟨name, ms, value⟩
  let ws : List (List Mark) := [exportName.map (.char · .plain), st.word]
  have hsafe : (name ++ ['=']).all isSafe = true := by
    rw [List.all_append, List.all_eq_true.mpr fun c hc =>
      isSafe_of_isNameChar (isNameChar_of_isName hname c hc)]
    rfl
  have hline : Scans (exportName ++ ' ' :: name ++ '=' :: q ++ ['\n'])
      ([.char ' ' .plain].intercalate ws ++ [lineEnd]) := by
    have hend : Scans ['\n'] [lineEnd] :=
      fun rest => scan_plain (by decide) (by decide) (by decide) rest
    have hall := ((((scan_safe (t := exportName) (by decide)).append scan_blank).append
      (scan_safe hsafe)).append hscan).append hend
    simpa [ws, st, Setting.word, equals] using hall
  have hclean : ∀ w ∈ ws, SolidWord w := by
    have hfront := solidWord_of_clean (w := (name ++ ['=']).map (.char · .plain)) (by simp)
      (literal_spec (literal_plain hsafe)).1
    have hword : st.word = (name ++ ['=']).map (.char · .plain) ++ ms := by
      simp [st, Setting.word, equals]
    rw [List.forall_mem_cons, List.forall_mem_singleton, hword]
    refine ⟨solidWord_of_clean (by decide) (by decide), by simp, fun m hm => ?_, ?_⟩
    · exact (List.mem_append.mp hm).elim (hfront.solid m) (hsolid m)
    · rw [isComment, List.head?_append_of_ne_nil _ hfront.nonempty]
      exact hfront.comment
  have hreserved : isReserved (exportName.map (.char · .plain)) = false := by decide
  have hwords : bashWords ([.char ' ' .plain].intercalate ws) = some ws :=
    (bashWords_intercalate hclean hreserved).1
  have hexported : [st.word].mapM (exported sh) = some [(name, value)] := by
    rw [List.mapM_cons, exported, assignment_word htarget hequals]
    simp [st, hvalue]
  have hexport : exportLine sh ([.char ' ' .plain].intercalate ws) = some (sh.set name value) := by
    rw [exportLine, hwords, Option.bind_eq_bind, Option.bind_some]
    dsimp only [ws]
    rw [if_pos rfl, hexported]
    rfl
  have hend : ∀ m ∈ [Mark.char ' ' .plain].intercalate ws, (m == lineEnd) = false := by
    intro m hm
    rw [beq_eq_false_iff_ne]
    rintro rfl
    rcases mem_intercalate hm with hblank | ⟨w, hw, hmem⟩
    · revert hblank
      decide
    · have hop := ((hclean w hw).solid _ hmem).2
      cases hop
  rw [source, source, hline rest, Option.bind_map]
  cases scan .plain rest with
  | none => rfl
  | some rest =>
    rw [Option.bind_some, Option.bind_some, Function.comp_apply, List.append_assoc,
      List.singleton_append, List.splitOn,
      List.splitOnP_append_cons_of_forall_mem hend _ (by decide), List.foldlM_cons, hexport]
    rfl

theorem source_nil (sh : State) : source sh [] = some sh := rfl

/-- The round trip: every shell that reads the file gets the values that were written. -/
theorem source_exportsText (hnames : ∀ a ∈ as, isName a.1 = true)
    (h : exportsText isPrint as = some text) (sh : State) :
    source sh text = some (sh.assigned ⟨as, []⟩) := by
  obtain ⟨lines, hlines, rfl⟩ := Option.map_eq_some_iff.mp h
  clear h
  induction as generalizing lines sh with
  | nil =>
    obtain rfl := Option.some.inj hlines
    exact source_nil sh
  | cons a as ih =>
    rw [List.forall_mem_cons] at hnames
    rw [List.mapM_cons] at hlines
    obtain ⟨line, hline, hlines⟩ := Option.bind_eq_some_iff.mp hlines
    obtain ⟨rest, hrest, hlines⟩ := Option.bind_eq_some_iff.mp hlines
    obtain rfl := Option.some.inj hlines
    rw [List.flatten_cons, source_exportText hnames.1 hline, ih hnames.2 _ rest hrest]
    rfl

/-- What a variable is behind assignments to variables of different names. -/
theorem assigned_param (hnames : ∀ a ∈ as, isName a.1 = true) (hnodup : (as.map Prod.fst).Nodup)
    (sh : State) (name : Chars) :
    (sh.assigned ⟨as, []⟩).param name = (as.lookup name).getD (sh.param name) := by
  induction as generalizing sh with
  | nil => rfl
  | cons a as ih =>
    obtain ⟨target, value⟩ := a
    rw [List.forall_mem_cons] at hnames
    rw [List.map_cons, List.nodup_cons] at hnodup
    obtain ⟨-, -, hplus⟩ := isTarget_of_isName hnames.1
    have hset : (sh.set target value).param = Function.update sh.param target value := by
      rw [State.set, if_neg hplus, if_neg hplus]
    have hrest := ih hnames.2 hnodup.2 (sh.set target value)
    rw [State.assigned, List.foldl_cons]
    rw [State.assigned] at hrest
    rw [hrest, hset, List.lookup_cons]
    by_cases heq : name = target
    · subst heq
      have hnone : as.lookup name = none := by
        rw [List.lookup_eq_none_iff]
        intro b hb
        rw [bne_iff_ne]
        intro heq
        exact hnodup.1 (List.mem_map.mpr ⟨b, hb, heq.symm⟩)
      simp [hnone]
    · simp [heq, beq_eq_false_iff_ne.mpr heq]

end Lines

end Shell
end ACGlass
