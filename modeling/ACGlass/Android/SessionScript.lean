import ACGlass.Shell.Scripts
import ACGlass.Android.ShellCommand
import ACGlass.Session.Stopping

/-!
# The session of an app

The scripts of `launchApp` and of `stopApp` begin alike: they make a name for the session of
the app out of its id. Behind that each is one command, whose words may read both.
-/

namespace ACGlass
namespace Android

open Shell
open Session (decimal)

section Model

/-- The beginning of both scripts. -/
def sessionScript (id : Text) : Text :=
  "app_id=".toList ++ shellQuote id ++ "; ".toList ++
  "session_id=$(printf '%s' \"$app_id\" | tr -c 'A-Za-z0-9_.:-' '_'); ".toList

/-- A set of `tr` with single bytes only, and no escapes or classes. -/
def isPlainSet (set : Text) : Bool := set.all fun c => c.toNat < 128 && c ∉ ['\\', '[']

/-- The characters of such a set. -/
def expandSet : Text → Text
  | a :: '-' :: b :: set =>
    (List.range' a.toNat (b.toNat + 1 - a.toNat)).map Char.ofNat ++ expandSet set
  | a :: set => a :: expandSet set
  | [] => []

/-- `tr -c` works on bytes. -/
def trComplement (set : Text) (other : Char) (input : Text) : Text :=
  input.flatMap fun c => if c ∈ expandSet set then [c] else List.replicate c.utf8Size other

/-- The programs of the scripts, run by a user. -/
def containerTools (uid : ℕ) : Tools := fun argv input =>
  match argv with
  | [name, format, t] =>
    if name = "printf".toList ∧ format = "%s".toList then some t else none
  | [name, option, set, [other]] =>
    if name = "tr".toList ∧ option = "-c".toList ∧ isPlainSet (other :: set) = true then
      some (trComplement set other input)
    else none
  | [name, option] =>
    if name = "id".toList ∧ option = "-u".toList then some (decimal uid ++ ['\n']) else none
  | _ => none

/-- `session_id` -/
def sessionId (id : Text) : Text :=
  id.flatMap fun c => if Session.isIdChar c then [c] else List.replicate c.utf8Size '_'

end Model

section SessionId

variable {uid : ℕ} {sh : State} {id : Text}

theorem isAlphanum_cases {c : Char} (h : c.isAlphanum = true) :
    (65 ≤ c.toNat ∧ c.toNat < 65 + 26) ∨ (97 ≤ c.toNat ∧ c.toNat < 97 + 26) ∨
      (48 ≤ c.toNat ∧ c.toNat < 48 + 10) := by
  have hnat : ∀ first last : Char, first.val ≤ c.val ∧ c.val ≤ last.val →
      first.toNat ≤ c.toNat ∧ c.toNat < last.toNat + 1 := by
    rintro first last ⟨hfirst, hlast⟩
    exact ⟨UInt32.le_iff_toNat_le.mp hfirst, Nat.lt_succ_of_le (UInt32.le_iff_toNat_le.mp hlast)⟩
  rcases (Bool.or_eq_true _ _).mp h with hletter | hdigit
  · rcases (Bool.or_eq_true _ _).mp hletter with hupper | hlower
    · exact .inl (hnat 'A' 'Z' (of_decide_eq_true hupper))
    · have hboth := (Bool.and_eq_true _ _).mp hlower
      have hlower := hboth.imp of_decide_eq_true of_decide_eq_true
      exact .inr (.inl (hnat 'a' 'z' hlower))
  · obtain ⟨hfirst, hlast⟩ := Char.isDigit_iff_toNat.mp hdigit
    exact .inr (.inr ⟨hfirst, Nat.lt_succ_of_le hlast⟩)

theorem mem_expandSet (c : Char) :
    c ∈ expandSet "A-Za-z0-9_.:-".toList ↔ Session.isIdChar c = true := by
  have hset : expandSet "A-Za-z0-9_.:-".toList =
      (List.range' 65 26).map Char.ofNat ++ ((List.range' 97 26).map Char.ofNat ++
        ((List.range' 48 10).map Char.ofNat ++ ['_', '.', ':', '-'])) := by decide
  have hrange : ∀ first count, first ≤ c.toNat ∧ c.toNat < first + count →
      c ∈ (List.range' first count).map Char.ofNat := by
    intro first count h
    rw [List.mem_map]
    exact ⟨c.toNat, List.mem_range'_1.mpr h, Char.ofNat_toNat c⟩
  constructor
  · have hall : (expandSet "A-Za-z0-9_.:-".toList).all Session.isIdChar = true := by decide
    exact List.all_eq_true.mp hall c
  · intro h
    rw [Session.isIdChar, Bool.or_eq_true, decide_eq_true_eq] at h
    rw [hset, List.mem_append, List.mem_append, List.mem_append]
    rcases h with h | h
    · rcases isAlphanum_cases h with h | h | h
      · exact .inl (hrange _ _ h)
      · exact .inr (.inl (hrange _ _ h))
      · exact .inr (.inr (.inl (hrange _ _ h)))
    · exact .inr (.inr (.inr h))

theorem trComplement_eq (id : Text) :
    trComplement "A-Za-z0-9_.:-".toList '_' id = sessionId id := by
  simp only [trComplement, sessionId, mem_expandSet]

theorem isIdChar_sessionId {c : Char} (h : c ∈ sessionId id) : Session.isIdChar c = true := by
  obtain ⟨d, -, hd⟩ := List.mem_flatMap.mp h
  split_ifs at hd with hid
  · rw [List.mem_singleton.mp hd]
    exact hid
  · rw [List.eq_of_mem_replicate hd]
    rfl

theorem expandWord_plain {t : Text} (hne : t ≠ []) (h : t.all isSafe = true) :
    expandWord sh (t.map (.char · .plain)) = some [t] := by
  rw [expandWord_literal (by simpa using hne) (literal_plain h), bashText_plain]

/-- A text between single quotes. -/
def singleQuoted (t : Text) : List Mark := .quote :: t.map (.char · .single)

theorem bashText_single (t : Text) : bashText (t.map (.char · .single)) = t := by
  rw [bashText, List.flatMap_map]
  exact List.flatMap_singleton' t

theorem expandWord_singleQuoted (t : Text) : expandWord sh (singleQuoted t) = some [t] := by
  have hliteral : (singleQuoted t).all Mark.isLiteral = true := by
    simp [singleQuoted, Mark.isLiteral]
  have hne : singleQuoted t ≠ [] := List.cons_ne_nil _ _
  rw [expandWord_literal hne hliteral]
  exact congrArg (fun t => some [t]) (bashText_single t)

/-- The words of a command without assignments. -/
theorem command_words (cs : List (List Mark × Text))
    (hcs : ∀ c ∈ cs, expandWord sh c.1 = some [c.2])
    (hhead : ∀ c ∈ cs.head?, isAssignment c.1 = false) :
    command sh (cs.map Prod.fst) = some ⟨[], cs.map Prod.snd⟩ := by
  have hnone : ∀ st ∈ ([] : List Setting), st.Reads sh [] :=
    fun _ h => absurd h List.not_mem_nil
  exact command_settings cs hnone hcs hhead

def printfWords : List (List Mark) :=
  ["printf".toList.map (.char · .plain), singleQuoted "%s".toList,
    .quote :: paramMarks "app_id".toList]

def trWords : List (List Mark) :=
  ["tr".toList.map (.char · .plain), "-c".toList.map (.char · .plain),
    singleQuoted "A-Za-z0-9_.:-".toList, singleQuoted ['_']]

/-- The pipeline behind `session_id=`. -/
def pipeline : List Mark :=
  [.char ' ' .plain].intercalate printfWords ++ [.char ' ' .plain, .char '|' .plain] ++
    .char ' ' .plain :: [.char ' ' .plain].intercalate trWords

theorem stage_printf (h : sh.param "app_id".toList = id) (input : Text) :
    stage (containerTools uid) sh input
      ([.char ' ' .plain].intercalate printfWords ++ [.char ' ' .plain]) = some id := by
  have hcommand : command sh printfWords = some ⟨[], ["printf".toList, "%s".toList, id]⟩ := by
    apply command_words [("printf".toList.map (.char · .plain), "printf".toList),
      (singleQuoted "%s".toList, "%s".toList), (.quote :: paramMarks "app_id".toList, id)]
    · simp only [List.forall_mem_cons]
      refine ⟨expandWord_plain (by decide) (by decide), expandWord_singleQuoted _, ?_, by simp⟩
      rw [expandWord_param (by decide), h]
    · simp [isAssignment, assignment, equals]
  rw [stage_eq (by decide) hcommand (List.cons_ne_nil _ _)]
  rfl

theorem stage_tr (input : Text) :
    stage (containerTools uid) sh input
      (.char ' ' .plain :: [.char ' ' .plain].intercalate trWords) = some (sessionId input) := by
  have hcommand : command sh trWords =
      some ⟨[], ["tr".toList, "-c".toList, "A-Za-z0-9_.:-".toList, ['_']]⟩ := by
    apply command_words [("tr".toList.map (.char · .plain), "tr".toList),
      ("-c".toList.map (.char · .plain), "-c".toList),
      (singleQuoted "A-Za-z0-9_.:-".toList, "A-Za-z0-9_.:-".toList), (singleQuoted ['_'], ['_'])]
    · simp only [List.forall_mem_cons]
      exact ⟨expandWord_plain (by decide) (by decide), expandWord_plain (by decide) (by decide),
        expandWord_singleQuoted _, expandWord_singleQuoted _, by simp⟩
    · simp [isAssignment, assignment, equals]
  rw [stage_eq (by decide) hcommand (List.cons_ne_nil _ _), ← trComplement_eq]
  rfl

theorem output_pipeline (h : sh.param "app_id".toList = id) :
    output (containerTools uid) sh pipeline = some (sessionId id) := by
  have hsplit : pipeline.splitOn (.char '|' .plain) =
      [[.char ' ' .plain].intercalate printfWords ++ [.char ' ' .plain],
        .char ' ' .plain :: [.char ' ' .plain].intercalate trWords] := by decide
  have hzeros : (sessionId id).filter (· ≠ '\x00') = sessionId id := by
    rw [List.filter_eq_self]
    intro c hc
    refine decide_eq_true ?_
    rintro rfl
    cases isIdChar_sessionId hc
  have hlines : (sessionId id).rdropWhile (· = '\n') = sessionId id := by
    rw [List.rdropWhile_eq_self_iff]
    intro hne hlast
    have hc := isIdChar_sessionId (List.getLast_mem hne)
    rw [of_decide_eq_true hlast] at hc
    cases hc
  rw [output, hsplit, List.foldlM_cons, stage_printf h, Option.bind_eq_bind, Option.bind_some,
    List.foldlM_cons, stage_tr, Option.bind_eq_bind, Option.bind_some, List.foldlM_nil]
  change some (((sessionId id).filter (· ≠ '\x00')).rdropWhile (· = '\n')) = _
  rw [hzeros, hlines]

theorem output_uid : output (containerTools uid) sh ("id -u".toList.map (.char · .plain)) =
    some (decimal uid) := by
  have hsplit : ("id -u".toList.map (Mark.char · .plain)).splitOn (.char '|' .plain) =
      ["id -u".toList.map (Mark.char · .plain)] := by decide
  have hcommand : command sh
      ["id".toList.map (.char · .plain), "-u".toList.map (.char · .plain)] =
      some ⟨[], ["id".toList, "-u".toList]⟩ := by
    apply command_words [("id".toList.map (.char · .plain), "id".toList),
      ("-u".toList.map (.char · .plain), "-u".toList)]
    · simp only [List.forall_mem_cons]
      exact ⟨expandWord_plain (by decide) (by decide), expandWord_plain (by decide) (by decide),
        by simp⟩
    · simp [isAssignment, assignment, equals]
  have hdigit : ∀ c ∈ decimal uid, c.isDigit = true :=
    fun c hc => Nat.isDigit_of_mem_toDigits (by decide) (by decide) hc
  have hzeros : (decimal uid ++ ['\n']).filter (· ≠ '\x00') = decimal uid ++ ['\n'] := by
    rw [List.filter_eq_self]
    intro c hc
    refine decide_eq_true ?_
    rintro rfl
    rcases List.mem_append.mp hc with hc | hc
    · cases hdigit _ hc
    · cases List.mem_singleton.mp hc
  have hlines : (decimal uid).rdropWhile (· = '\n') = decimal uid := by
    rw [List.rdropWhile_eq_self_iff]
    intro hne hlast
    have hc := hdigit _ (List.getLast_mem hne)
    rw [of_decide_eq_true hlast] at hc
    cases hc
  rw [output, hsplit, List.foldlM_cons, stage_eq (by decide) hcommand (List.cons_ne_nil _ _)]
  change some (((decimal uid ++ ['\n']).filter (· ≠ '\x00')).rdropWhile (· = '\n')) = _
  rw [hzeros, List.rdropWhile_concat_pos _ _ _ (by simp), hlines]

end SessionId

section Script

variable {uid : ℕ} {sh : State} {id : Text}

/-- The shell behind the beginning of a script. -/
def inSession (sh : State) (id : Text) : State :=
  (sh.set "app_id".toList id).set "session_id".toList (sessionId id)

theorem param_set {target value : Text} (h : target.getLast? ≠ some '+') (name : Text) :
    (sh.set target value).param name = if name = target then value else sh.param name := by
  rw [State.set, if_neg h, if_neg h]
  exact Function.update_apply _ _ _ _

theorem param_inSession (sh : State) (id : Text) :
    (inSession sh id).param "app_id".toList = id ∧
      (inSession sh id).param "session_id".toList = sessionId id := by
  constructor
  · rw [inSession, param_set (by decide), if_neg (by decide), param_set (by decide), if_pos rfl]
  · rw [inSession, param_set (by decide), if_pos rfl]

theorem clean_wrapped (t : Text) : (wrapped t).all Mark.isClean = true := by
  rw [List.all_eq_true]
  intro m hm
  unfold Mark.isClean
  split
  · exact isSafe_of_printed (printed_of_mem hm)
  · rfl

def sessionSetting (id : Text) : Setting :=
  ⟨"session_id".toList, (sessionId id).map (.char · .single), sessionId id⟩

/-- A setting with a quoted text for its value. -/
def quotedSetting (target t : Text) : Setting := ⟨target, wrapped t, t⟩

def quotedPart (target t : Text) : Part := (quotedSetting target t).part (shellQuote t) (wrapped t)

theorem quotedPart_fills {target t : Text} {out : List Mark → Option Chars}
    (h : target.all isSafe = true) : (quotedPart target t).Fills out :=
  Setting.part_fills h (scan_shellQuote t) (clean_wrapped t)
    (fun _ => substitutes_inert (partOfWord_wrapped t).inert) (clean_wrapped t)

/-- The names that a value may be set for, so that it is not read behind it. -/
def Settable (names : List Text) (target : Text) : Prop :=
  (isTarget target = true ∧ '=' ∉ target ∧ target.getLast? ≠ some '+') ∧ target ∉ names

instance (names : List Text) (target : Text) : Decidable (Settable names target) :=
  inferInstanceAs (Decidable (_ ∧ _))

theorem quotedSetting_reads {target t : Text} {names : List Text} (h : Settable names target) :
    (quotedSetting target t).Reads sh names where
  target := h.1
  other := h.2
  value sh' _ := by
    have hpart := partOfWord_wrapped t
    exact (expandValue_inert hpart.tilde hpart.inert).trans (congrArg some hpart.text)

theorem command_setting {st : Setting} (h : st.Reads sh []) :
    command sh [st.word] = some ⟨[(st.target, st.value)], []⟩ := by
  have hall : ∀ st' ∈ [st], st'.Reads sh [] := by simpa using h
  exact command_settings [] hall (by simp) (by simp)

theorem statement_appId (id : Text) :
    statement (containerTools uid) sh (quotedSetting "app_id".toList id).word =
      some ⟨[("app_id".toList, id)], []⟩ := by
  have hfills : ∀ p ∈ [quotedPart "app_id".toList id],
      p.Fills (output (containerTools uid) sh) := by
    intro p hp
    rw [List.mem_singleton.mp hp]
    exact quotedPart_fills (by decide)
  have hreserved : Option.any isReserved
      ([quotedPart "app_id".toList id].map Part.filled).head? = false :=
    Setting.isReserved_word (quotedSetting "app_id".toList id)
  have hparts := (statement_parts hfills hreserved).1
  rw [List.map_singleton, List.intercalate_singleton, List.map_singleton] at hparts
  exact hparts.trans (command_setting (quotedSetting_reads (by decide)))

/-- `session_id=` with the pipeline. -/
def sessionMarks : List Mark :=
  "session_id=".toList.map (.char · .plain) ++
    (.char '$' .plain :: .char '(' .plain :: pipeline ++ [.char ')' .plain])

theorem statement_session (h : sh.param "app_id".toList = id) :
    statement (containerTools uid) sh (.char ' ' .plain :: sessionMarks) =
      some ⟨[("session_id".toList, sessionId id)], []⟩ := by
  have hsafe : "session_id=".toList.all isSafe = true := by decide
  have hplain : List.Forall₂ (fun m m' => innerMark .plain m = some m' ∧ m ≠ .char ')' .plain)
      pipeline pipeline := by
    rw [List.forall₂_same]
    decide
  have hsub : Substitutes true (output (containerTools uid) sh) (.char ' ' .plain :: sessionMarks)
      (.char ' ' .plain :: "session_id=".toList.map (.char · .plain) ++
        (sessionId id).map (.char · .single)) := by
    have hfront : ∀ m ∈ .char ' ' .plain :: "session_id=".toList.map (Mark.char · .plain),
        m.Inert := by
      rw [List.forall_mem_cons]
      exact ⟨by simp [Mark.Inert], (literal_spec (literal_plain hsafe)).2⟩
    exact (substitutes_inert hfront).append
      (substitutes_command rfl (fun _ => rfl) hplain (output_pipeline h))
  have hword : ("session_id=".toList.map (Mark.char · .plain) ++
      (sessionId id).map (.char · .single)) = (sessionSetting id).word := by
    have hequals : "session_id=".toList = "session_id".toList ++ ['='] := by decide
    rw [hequals, List.map_append, List.append_assoc]
    rfl
  have hsingle : ((sessionId id).map (Mark.char · .single)).all Mark.isLiteral = true := by
    simp [Mark.isLiteral]
  have hclean : (sessionSetting id).word.all Mark.isClean = true := by
    rw [← hword, List.all_append, (literal_spec hsingle).1,
      (literal_spec (literal_plain hsafe)).1]
    rfl
  have hreads : (sessionSetting id).Reads sh [] := {
    target := by
      have htarget : Settable [] "session_id".toList := by decide
      exact htarget.1
    other := List.not_mem_nil
    value := fun sh' _ => by
      have hliteral := literal_spec hsingle
      exact (expandValue_inert (not_mem_of_clean hliteral.1 (by decide)) hliteral.2).trans
        (congrArg some (bashText_single _)) }
  have hsolid : ∀ w ∈ [(sessionSetting id).word], SolidWord w := by
    simpa using solidWord_of_clean (by simp [Setting.word]) hclean
  have hwords := (bashWords_intercalate hsolid (Setting.isReserved_word (sessionSetting id))).2
  rw [List.intercalate_singleton] at hwords
  have heq := hsub.eq
  rw [List.cons_append, hword] at heq
  rw [statement_assignments heq hwords]
  · exact command_setting hreads
  · rw [List.all_cons, List.all_nil, Bool.and_true, isAssignment,
      assignment_word hreads.target.1 hreads.target.2.1]
    rfl

theorem scan_session :
    Scans "session_id=$(printf '%s' \"$app_id\" | tr -c 'A-Za-z0-9_.:-' '_'); ".toList
      (sessionMarks ++ [.char ';' .plain, .char ' ' .plain]) :=
  scans_of_scan (by decide +kernel)

/-- A script behind its beginning. -/
theorem runScript_session {ps : List Part}
    (h : ∀ p ∈ ps, p.Fills (output (containerTools uid) (inSession sh id)))
    (hreserved : (ps.map Part.filled).head?.any isReserved = false) :
    runScript (containerTools uid) sh (sessionScript id ++ [' '].intercalate (ps.map Part.text)) =
      command (inSession sh id) (ps.map Part.filled) := by
  have hpart : (quotedPart "app_id".toList id).Fills fun _ => none :=
    quotedPart_fills (by decide)
  have happ : Scans ("app_id=".toList ++ shellQuote id)
      (quotedSetting "app_id".toList id).word := hpart.scans
  have hbreak : Scans "; ".toList [.char ';' .plain, .char ' ' .plain] :=
    scans_of_scan (by decide)
  have hsession := scan_session
  have hlast : Scans ([' '].intercalate (ps.map Part.text))
      ([.char ' ' .plain].intercalate (ps.map Part.marks)) := by
    apply scan_intercalate
    rw [List.forall₂_map_left_iff, List.forall₂_map_right_iff, List.forall₂_same]
    exact fun p hp => (h p hp).scans
  have hscan := (((happ.append hbreak).append hsession).append hlast).scan_eq
  have hid : (.char ';' .plain : Mark) ∉ (quotedSetting "app_id".toList id).word :=
    not_mem_of_clean hpart.clean (by decide)
  have hpipeline : (.char ';' .plain : Mark) ∉ .char ' ' .plain :: sessionMarks := by decide
  have hparts : (.char ';' .plain : Mark) ∉
      .char ' ' .plain :: [.char ' ' .plain].intercalate (ps.map Part.marks) := by
    intro hmem
    rcases List.mem_cons.mp hmem with hblank | hmem
    · cases hblank
    · rcases mem_intercalate hmem with hblank | ⟨w, hw, hmem⟩
      · cases List.mem_singleton.mp hblank
      · obtain ⟨p, hp, rfl⟩ := List.mem_map.mp hw
        exact not_mem_of_clean (h p hp).clean (by decide) hmem
  have hmarks : (((quotedSetting "app_id".toList id).word ++
        [.char ';' .plain, .char ' ' .plain]) ++
        (sessionMarks ++ [.char ';' .plain, .char ' ' .plain])) ++
        [.char ' ' .plain].intercalate (ps.map Part.marks) =
      (quotedSetting "app_id".toList id).word ++ .char ';' .plain ::
        (.char ' ' .plain :: sessionMarks ++ .char ';' .plain ::
          (.char ' ' .plain :: [.char ' ' .plain].intercalate (ps.map Part.marks))) := by
    simp only [List.append_assoc, List.cons_append, List.nil_append]
  have hstatements := hscan.trans (congrArg some hmarks)
  have htext : (("app_id=".toList ++ shellQuote id ++ "; ".toList) ++
      "session_id=$(printf '%s' \"$app_id\" | tr -c 'A-Za-z0-9_.:-' '_'); ".toList) ++
      [' '].intercalate (ps.map Part.text) =
    sessionScript id ++ [' '].intercalate (ps.map Part.text) := rfl
  have hrun : runScript (containerTools uid) sh
      (sessionScript id ++ [' '].intercalate (ps.map Part.text)) =
    script (containerTools uid) sh [(quotedSetting "app_id".toList id).word,
      .char ' ' .plain :: sessionMarks,
      .char ' ' .plain :: [.char ' ' .plain].intercalate (ps.map Part.marks)] := by
    rw [← htext, runScript, hstatements, Option.bind_some,
      List.splitOn_append_cons_self_of_not_mem hid,
      List.splitOn_append_cons_self_of_not_mem hpipeline,
      List.splitOn_eq_singleton hparts]
  have hassigned : ((sh.assigned ⟨[("app_id".toList, id)], []⟩).assigned
      ⟨[("session_id".toList, sessionId id)], []⟩) = inSession sh id := rfl
  have hplus : "app_id".toList.getLast? ≠ some '+' := by decide
  have hparam : (sh.assigned ⟨[("app_id".toList, id)], []⟩).param "app_id".toList = id :=
    (param_set hplus _).trans (if_pos rfl)
  rw [hrun, script_cons (List.cons_ne_nil _ _) (statement_appId id) rfl,
    script_cons (List.cons_ne_nil _ _) (statement_session hparam) rfl, hassigned, script]
  exact (statement_parts h hreserved).2

/-- A setting whose value ends with a parameter. -/
def paramSetting (sh : State) (target : Text) (front : List Mark) (name : Text) : Setting :=
  ⟨target, front ++ paramMarks name, bashText front ++ sh.param name⟩

theorem clean_param {front : List Mark} (hfront : front.all Mark.isLiteral = true) (name : Text) :
    (front ++ paramMarks name).all Mark.isClean = true := by
  rw [List.all_append, (literal_spec hfront).1]
  simp [paramMarks, Mark.isClean]

theorem paramSetting_reads {target name : Text} {front : List Mark} {names : List Text}
    (h : Settable names target) (hfront : front.all Mark.isLiteral = true)
    (hname : isName name = true) (hmem : name ∈ names) :
    (paramSetting sh target front name).Reads sh names where
  target := h.1
  other := h.2
  value sh' hsame := by
    have hliteral := literal_spec hfront
    have hvalue : expandValue sh' (front ++ paramMarks name) =
        some (bashText front ++ sh'.param name) :=
      expandValue_param (not_mem_of_clean hliteral.1 (by decide)) hliteral.2 hname
    rw [hsame name hmem] at hvalue
    exact hvalue

/-- The part for such a setting, with substitutions in front of the parameter. -/
theorem paramPart_fills {target name text : Text} {raw front : List Mark}
    {out : List Mark → Option Chars} (h : target.all isSafe = true)
    (hfront : front.all Mark.isLiteral = true) (hname : isName name = true)
    (hscan : scan .plain text = some (raw ++ paramMarks name))
    (hraw : raw.all Mark.isClean = true) (hsub : ∀ bare, Substitutes bare out raw front) :
    ((paramSetting sh target front name).part text (raw ++ paramMarks name)).Fills out := by
  apply Setting.part_fills h (scans_of_scan hscan)
  · rw [List.all_append, hraw]
    simp [paramMarks, Mark.isClean]
  · exact fun bare => (hsub bare).append (substitutes_paramMarks hname)
  · exact clean_param hfront name

/-- The setting of a text of safe characters. -/
def plainSetting (target t : Text) : Setting := ⟨target, t.map (.char · .plain), t⟩

def plainPart (target t : Text) : Part := (plainSetting target t).part t (t.map (.char · .plain))

theorem plainPart_fills {target t : Text} {out : List Mark → Option Chars}
    (h : target.all isSafe = true) (ht : t.all isSafe = true) : (plainPart target t).Fills out := by
  have hliteral := literal_plain ht
  apply Setting.part_fills h (scan_safe ht) (literal_spec hliteral).1
  · exact fun _ => substitutes_literal hliteral
  · exact (literal_spec hliteral).1

theorem plainSetting_reads {target t : Text} {names : List Text} (h : Settable names target)
    (ht : t.all isSafe = true) : (plainSetting target t).Reads sh names where
  target := h.1
  other := h.2
  value sh' _ := by
    have hliteral := literal_spec (literal_plain ht)
    exact (expandValue_inert (not_mem_of_clean hliteral.1 (by decide)) hliteral.2).trans
      (congrArg some (bashText_plain t))

end Script

section Zeros

variable {t : Text}

theorem withoutZeros_append (s t : Text) :
    withoutZeros (s ++ t) = withoutZeros s ++ withoutZeros t := List.filter_append _ _

theorem withoutZeros_eq_self (h : t.all (· ≠ '\x00') = true) : withoutZeros t = t :=
  List.filter_eq_self.mpr (List.all_eq_true.mp h)

theorem withoutZeros_shellQuote (t : Text) :
    withoutZeros (shellQuote t) = shellQuote (withoutZeros t) := by
  have hbody : withoutZeros (t.flatMap fun c =>
      if c = '\'' then ['\'', '"', '\'', '"', '\''] else [c]) =
      (withoutZeros t).flatMap fun c =>
        if c = '\'' then ['\'', '"', '\'', '"', '\''] else [c] := by
    induction t with
    | nil => rfl
    | cons c t ih =>
      rw [List.flatMap_cons, withoutZeros_append, ih]
      by_cases hzero : c = '\x00'
      · rw [hzero]
        rfl
      · have hcons : ∀ t : Text, withoutZeros (c :: t) = c :: withoutZeros t :=
          fun t => List.filter_cons_of_pos (decide_eq_true hzero)
        rw [hcons, List.flatMap_cons]
        split_ifs with hquote
        · rfl
        · rw [hcons]
          rfl
  rw [shellQuote, List.cons_append, withoutZeros,
    List.filter_cons_of_pos (by decide), ← withoutZeros, withoutZeros_append, hbody]
  rfl

/-- Line feeds go only from the end. -/
theorem cleaned_append (s : Text) {c : Char} (hzero : c ≠ '\x00') (hline : c ≠ '\n')
    (t : Text) :
    cleaned (s ++ (t ++ [c])) = withoutZeros s ++ withoutZeros (t ++ [c]) := by
  have hlast : withoutZeros (s ++ (t ++ [c])) = (withoutZeros s ++ withoutZeros t) ++ [c] := by
    rw [withoutZeros_append, withoutZeros_append, List.append_assoc]
    exact congrArg _ (congrArg _ (List.filter_cons_of_pos (decide_eq_true hzero)))
  rw [cleaned, hlast, List.rdropWhile_concat_neg _ _ _ (by simpa using hline), ← hlast,
    withoutZeros_append]

theorem cleaned_shellQuote (s t : Text) :
    cleaned (s ++ shellQuote t) = withoutZeros s ++ shellQuote (withoutZeros t) := by
  rw [← withoutZeros_shellQuote]
  exact cleaned_append s (by decide) (by decide) _

theorem withoutZeros_sessionScript (id : Text) :
    withoutZeros (sessionScript id) = sessionScript (withoutZeros id) := by
  change withoutZeros ("app_id=".toList ++ shellQuote id ++ "; ".toList ++
    "session_id=$(printf '%s' \"$app_id\" | tr -c 'A-Za-z0-9_.:-' '_'); ".toList) = _
  simp (disch := decide +kernel) only
    [withoutZeros_append, withoutZeros_shellQuote, withoutZeros_eq_self]
  rfl

end Zeros

end Android
end ACGlass
