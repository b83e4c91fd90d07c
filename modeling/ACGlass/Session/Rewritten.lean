import ACGlass.Session.Chromium

/-!
# What a rewritten command launches

The helper prints the tokens of the command as literal words. What the command launches is kept
exactly if bash had read its words literally too, and had found the program where the helper did.
-/

namespace ACGlass
namespace Session

open Shell

section Lists

/-- A list that is also found further behind begins with something from behind it. -/
theorem head_mem_of_shift {α : Type*} [DecidableEq α] {front front' flags rest rest' : List α}
    (h : front ++ (flags ++ rest) = front' ++ (flags ++ rest')) (hlt : front.length < front'.length)
    {f : α} (hf : flags.head? = some f) : f ∈ rest := by
  obtain ⟨between, rfl⟩ : front <+: front' := by
    have hprefix : front <+: front ++ (flags ++ rest) := List.prefix_append _ _
    rw [h] at hprefix
    exact List.prefix_of_prefix_length_le hprefix (List.prefix_append _ _) hlt.le
  rw [List.append_assoc, List.append_cancel_left_eq] at h
  obtain ⟨g, between, rfl⟩ : ∃ g between', between = g :: between' := by
    refine List.exists_cons_of_ne_nil fun hnil => ?_
    simp [hnil] at hlt
  obtain ⟨flags, rfl⟩ := List.head?_eq_some_iff.mp hf
  obtain ⟨rfl, -⟩ := List.cons.inj h
  have hcount := congrArg (List.count f) h
  simp only [List.count_append, List.count_cons_self, List.cons_append] at hcount
  exact List.count_pos_iff.mp (by omega)

end Lists

section Launching

variable {takesArgument : Chars → Bool} {argv rest : List Chars} {place : ℕ} {c : Simple}
  {l : Launched}

theorem envOperands_append (h : envOperands (argv ++ rest) = some place)
    (hlt : place < argv.length) (rest' : List Chars) :
    envOperands (argv ++ rest') = some place := by
  induction argv generalizing place with
  | nil => exact absurd hlt (Nat.not_lt_zero _)
  | cons arg argv ih =>
    rw [List.cons_append, envOperands] at h ⊢
    split_ifs at h ⊢
    · obtain ⟨place, hplace, rfl⟩ := Option.map_eq_some_iff.mp h
      rw [ih hplace (Nat.lt_of_succ_lt_succ hlt)]
      rfl
    · exact h

theorem envDash_append (h : envDash (argv ++ rest) = some place)
    (hlt : place < argv.length) (rest' : List Chars) :
    envDash (argv ++ rest') = some place := by
  cases argv with
  | nil => exact absurd hlt (Nat.not_lt_zero _)
  | cons arg argv =>
    rw [List.cons_append, envDash] at h ⊢
    split_ifs at h ⊢
    · obtain ⟨place, hplace, rfl⟩ := Option.map_eq_some_iff.mp h
      rw [envOperands_append hplace (Nat.lt_of_succ_lt_succ hlt)]
      rfl
    · rw [← List.cons_append] at h ⊢
      exact envOperands_append h hlt rest'

theorem envProgram_append (argv : List Chars) {place : ℕ}
    (h : envProgram takesArgument (argv ++ rest) = some place)
    (hlt : place < argv.length) (rest' : List Chars) :
    envProgram takesArgument (argv ++ rest') = some place := by
  cases argv with
  | nil => exact absurd hlt (Nat.not_lt_zero _)
  | cons arg argv =>
    rw [List.cons_append] at h ⊢
    unfold envProgram at h ⊢
    split_ifs at h ⊢ with hend hoption htakes
    · obtain ⟨place, hplace, rfl⟩ := Option.map_eq_some_iff.mp h
      rw [envDash_append hplace (Nat.lt_of_succ_lt_succ hlt)]
      rfl
    · cases argv with
      | nil =>
        -- the argument of the option would be part of the rest
        cases rest with
        | nil => cases h
        | cons arg' rest =>
          obtain ⟨place, -, rfl⟩ := Option.map_eq_some_iff.mp h
          simp at hlt
      | cons arg' argv =>
        obtain ⟨place, hplace, rfl⟩ := Option.map_eq_some_iff.mp h
        have hlt' : place < argv.length := by simpa using hlt
        dsimp only [List.cons_append]
        rw [envProgram_append argv hplace hlt']
        rfl
    · obtain ⟨place, hplace, rfl⟩ := Option.map_eq_some_iff.mp h
      rw [envProgram_append argv hplace (Nat.lt_of_succ_lt_succ hlt)]
      rfl
    · rw [← List.cons_append] at h ⊢
      exact envDash_append h hlt rest'
termination_by argv.length

/-- The place of the program depends only on what stands in front of it, and on itself. -/
theorem programPlace_append (h : programPlace takesArgument (argv ++ rest) = some place)
    (hlt : place < argv.length) (rest' : List Chars) :
    programPlace takesArgument (argv ++ rest') = some place := by
  cases argv with
  | nil => exact absurd hlt (Nat.not_lt_zero _)
  | cons arg argv =>
    rw [List.cons_append, programPlace] at h ⊢
    split_ifs at h ⊢
    · obtain ⟨place, hplace, rfl⟩ := Option.map_eq_some_iff.mp h
      rw [envProgram_append argv hplace (Nat.lt_of_succ_lt_succ hlt)]
      rfl
    · exact h

theorem launch_eq_some (h : launch takesArgument c = some l) :
    programPlace takesArgument c.argv = some l.wrapper.length ∧
      c.argv = l.wrapper ++ l.program :: l.args ∧ c.assigns = l.assigns := by
  obtain ⟨place, hplace, h⟩ := Option.bind_eq_some_iff.mp h
  obtain ⟨program, hprogram, h⟩ := Option.bind_eq_some_iff.mp h
  obtain rfl := Option.some.inj h
  obtain ⟨hlt, hget⟩ := List.getElem?_eq_some_iff.mp hprogram
  refine ⟨?_, ?_, rfl⟩
  · simpa [hlt.le] using hplace
  · rw [← hget, List.cons_getElem_drop_succ, List.take_append_drop]

theorem launch_of {wrapper args : List Chars} {program : Chars}
    (h : programPlace takesArgument (wrapper ++ program :: args) = some wrapper.length)
    (assigns : List (Chars × Chars)) :
    launch takesArgument ⟨assigns, wrapper ++ program :: args⟩ =
      some ⟨assigns, wrapper, program, args⟩ := by
  simp [launch, h]

end Launching

/-- The texts of the words that bash finds. -/
def bashTexts (ms : List Mark) : List Chars := (words bashBlanks ms).map bashText

/-- The place of the program among literal words. -/
def literalPlace (takesArgument : Chars → Bool) (ts : List Chars) : Option ℕ :=
  (programPlace takesArgument (ts.dropWhile printsAssignment)).map
    ((ts.takeWhile printsAssignment).length + ·)

/-- Bash reads the word as its text, and the helper reads the same. -/
structure Literal (w : List Mark) : Prop where
  static : Static w
  tilde : hasTilde w = false
  escapes : ∀ m ∈ w, ¬ m.unescaped

instance (w : List Mark) : Decidable (Literal w) :=
  decidable_of_iff (Static w ∧ hasTilde w = false ∧ ∀ m ∈ w, ¬ m.unescaped)
    ⟨fun h => ⟨h.1, h.2.1, h.2.2⟩, fun h => ⟨h.static, h.tilde, h.escapes⟩⟩

/-- The helper's tokens are words that bash reads literally, and printing them makes and
unmakes no assignment. -/
structure Verbatim (ms : List Mark) : Prop where
  simple : bashWords ms = some (words bashBlanks ms)
  returns : .char '\r' .plain ∉ ms
  literal : ∀ w ∈ words bashBlanks ms, Literal w
  reserved : (bashTexts ms).head?.any printsReserved = false
  assigned : ((bashTexts ms).takeWhile printsAssignment).length =
    ((words bashBlanks ms).takeWhile isAssignment).length

/-- Behind the program the flags come out where the helper puts them. Words in between are
repetitions of the flags. -/
structure Settings.Fits (s : Settings) (ts : List Chars) (place : ℕ) : Prop where
  le : place ≤ s.index ts
  comm : (ts.take (s.index ts + 1)).drop (place + 1) ++ s.insert (ts.drop (s.index ts + 1)) =
    s.insert (ts.drop (s.index ts + 1)) ++ (ts.take (s.index ts + 1)).drop (place + 1)

/-- Bash reads the tokens literally, and the flags fit the program it finds. -/
structure Settings.Plain (s : Settings) (takesArgument : Chars → Bool) (ms : List Mark) : Prop
    extends Verbatim ms where
  place : ∃ place, literalPlace takesArgument (bashTexts ms) = some place ∧
    s.Fits (bashTexts ms) place

section Words

variable {ms : List Mark} {cmd : Chars} {sh : State}

theorem words_congr {blanks blanks' : List Char}
    (h : ∀ m ∈ ms, separates blanks m = separates blanks' m) :
    words blanks ms = words blanks' ms := by
  have hsplit : ms.splitOnP (separates blanks) = ms.splitOnP (separates blanks') := by
    induction ms with
    | nil => rfl
    | cons m ms ih =>
      rw [List.forall_mem_cons] at h
      rw [List.splitOnP_cons_eq_if_modifyHead, List.splitOnP_cons_eq_if_modifyHead, h.1, ih h.2]
  rw [words, words, hsplit]

/-- Without a newline only a carriage return separates tokens but not words. -/
theorem words_shlexBlanks (hscan : scan .plain cmd = some ms) (hline : '\n' ∉ cmd)
    (hreturn : .char '\r' .plain ∉ ms) : words shlexBlanks ms = words bashBlanks ms := by
  refine words_congr fun m hm => ?_
  cases m with
  | quote => rfl
  | char c q =>
    cases q with
    | plain =>
      have hc_return : c ≠ '\r' := fun hc => hreturn (hc ▸ hm)
      have hc_line : c ≠ '\n' := fun hc => hline (hc ▸ mem_of_scan hscan hm)
      simp [separates, shlexBlanks, bashBlanks, hc_return, hc_line]
    | escaped | single | double | doubleEscaped => rfl

theorem ne_nil_of_mem_words {blanks : List Char} {w : List Mark} (h : w ∈ words blanks ms) :
    w ≠ [] := by
  simpa using (List.mem_filter.mp h).2

theorem run_join_append {front back : List Chars} (hfront : ∀ t ∈ front, printsAssignment t = true)
    (hback : ∀ t ∈ back.head?, printsAssignment t = false)
    (hreserved : (front ++ back).head?.any printsReserved = false) (sh : State) :
    run sh (join (front ++ back)) = some ⟨front.map splitAssignment, back⟩ := by
  obtain ⟨htake, hdrop⟩ := span_append hfront hback
  rw [run_join, hreserved, if_neg Bool.false_ne_true, htake, hdrop]

theorem bashTexts_split (h : ((bashTexts ms).takeWhile printsAssignment).length =
      ((words bashBlanks ms).takeWhile isAssignment).length) :
    (bashTexts ms).takeWhile printsAssignment =
        ((words bashBlanks ms).takeWhile isAssignment).map bashText ∧
      (bashTexts ms).dropWhile printsAssignment =
        ((words bashBlanks ms).dropWhile isAssignment).map bashText := by
  refine List.append_inj ?_ (h.trans (List.length_map _).symm)
  rw [List.takeWhile_append_dropWhile, ← List.map_append, List.takeWhile_append_dropWhile,
    bashTexts]

theorem safe_of_assigned (h : ((bashTexts ms).takeWhile printsAssignment).length =
      ((words bashBlanks ms).takeWhile isAssignment).length) :
    ∀ w ∈ (words bashBlanks ms).takeWhile isAssignment, (bashText w).all isSafe = true := by
  intro w hw
  have hmem : bashText w ∈ (bashTexts ms).takeWhile printsAssignment := by
    rw [(bashTexts_split h).1]
    exact List.mem_map_of_mem hw
  have hprints : printsAssignment (bashText w) = true := List.mem_takeWhile_imp hmem
  exact safe_of_isAssignment hprints

/-- Bash finds in such a command what it finds in the printed one. -/
theorem run_verbatim (h : Verbatim ms) (hscan : scan .plain cmd = some ms) (sh : State) :
    run sh cmd = run sh (join (bashTexts ms)) := by
  have hsplit : words bashBlanks ms = (words bashBlanks ms).takeWhile isAssignment ++
      (words bashBlanks ms).dropWhile isAssignment := List.takeWhile_append_dropWhile.symm
  obtain ⟨htake, hdrop⟩ := bashTexts_split h.assigned
  have hassigns : ∀ w ∈ (words bashBlanks ms).takeWhile isAssignment,
      isAssignment w = true ∧ (bashText w).all isSafe = true :=
    fun w hw => ⟨List.mem_takeWhile_imp hw, safe_of_assigned h.assigned w hw⟩
  have hliteral : ∀ w ∈ (words bashBlanks ms).dropWhile isAssignment,
      w ≠ [] ∧ Static w ∧ hasTilde w = false := by
    intro w hw
    have hmem := (List.dropWhile_suffix _).subset hw
    exact ⟨ne_nil_of_mem_words hmem, (h.literal w hmem).static, (h.literal w hmem).tilde⟩
  have hhead : ∀ w ∈ ((words bashBlanks ms).dropWhile isAssignment).head?,
      isAssignment w = false := by
    intro w hw
    have hnot := List.head?_dropWhile_not isAssignment (words bashBlanks ms)
    rw [Option.mem_def.mp hw] at hnot
    simpa using hnot
  have hcommand := command_literal hassigns hliteral hhead sh
  rw [← hsplit] at hcommand
  rw [run, hscan, Option.bind_some, h.simple, Option.bind_some, hcommand, run_join, h.reserved,
    if_neg Bool.false_ne_true, htake, hdrop, List.map_map]
  rfl

end Words

section Sufficient

variable {s : Settings} {takesArgument : Chars → Bool} {cmd : Chars} {ms : List Mark}
  {r : Rewriting} {ts : List Chars} {place : ℕ}

theorem rewrite_eq_some (h : s.rewrite cmd = some r) :
    '\n' ∉ cmd ∧ split cmd = some r.tokens ∧ r.index = s.index r.tokens ∧
      r.insert = s.insert (r.tokens.drop (s.index r.tokens + 1)) ∧ r.insert ≠ [] ∧
      ∃ program, r.tokens[s.index r.tokens]? = some program ∧ s.isChromium program = true := by
  unfold Settings.rewrite at h
  split_ifs at h with hany
  obtain ⟨tokens, htokens, h⟩ := Option.bind_eq_some_iff.mp h
  obtain ⟨program, hprogram, h⟩ := Option.bind_eq_some_iff.mp h
  dsimp only at h
  split_ifs at h with hfound
  obtain rfl := Option.some.inj h
  refine ⟨fun hline => hany ?_, htokens, rfl, rfl, hfound.2, program, hprogram, hfound.1⟩
  exact List.any_eq_true.mpr ⟨_, hline, by simp⟩

theorem tokens_eq (hscan : scan .plain cmd = some ms) (hline : '\n' ∉ cmd)
    (hreturn : .char '\r' .plain ∉ ms)
    (hescapes : ∀ w ∈ words bashBlanks ms, ∀ m ∈ w, ¬ m.unescaped)
    (hsplit : split cmd = some ts) : ts = bashTexts ms := by
  rw [split, hscan, Option.map_some, words_shlexBlanks hscan hline hreturn] at hsplit
  rw [← Option.some.inj hsplit]
  exact List.map_congr_left fun w hw => shlexText_eq (hescapes w hw)

/-- How bash reads literal words. -/
structure Parsed (takesArgument : Chars → Bool) (front wrapper : List Chars) (program : Chars)
    (args : List Chars) : Prop where
  front : ∀ t ∈ front, printsAssignment t = true
  head : ∀ t ∈ (wrapper ++ program :: args).head?, printsAssignment t = false
  place : programPlace takesArgument (wrapper ++ program :: args) = some wrapper.length

variable {front wrapper args : List Chars} {program : Chars}

/-- Behind the program there can be other arguments. -/
theorem Parsed.append (h : Parsed takesArgument front wrapper program args)
    (args' : List Chars) : Parsed takesArgument front wrapper program args' := by
  refine ⟨h.front, ?_, ?_⟩
  · cases wrapper with
    | nil => exact h.head
    | cons arg wrapper => exact h.head
  · have hplace := h.place
    rw [List.append_cons] at hplace ⊢
    exact programPlace_append hplace (by simp) args'

theorem Parsed.launch_eq (h : Parsed takesArgument front wrapper program args)
    (hreserved : (front ++ (wrapper ++ program :: args)).head?.any printsReserved = false)
    (sh : State) :
    (run sh (join (front ++ (wrapper ++ program :: args)))).bind (launch takesArgument) =
      some ⟨front.map splitAssignment, wrapper, program, args⟩ := by
  rw [run_join_append h.front h.head hreserved, Option.bind_some, launch_of h.place]

theorem exists_parsed (h : literalPlace takesArgument ts = some place)
    (hlt : place < ts.length) :
    ∃ front wrapper program args, Parsed takesArgument front wrapper program args ∧
      ts = front ++ (wrapper ++ program :: args) ∧ place = front.length + wrapper.length := by
  obtain ⟨behind, hbehind, rfl⟩ := Option.map_eq_some_iff.mp h
  have happ : ts = ts.takeWhile printsAssignment ++ ts.dropWhile printsAssignment :=
    List.takeWhile_append_dropWhile.symm
  have hlength := congrArg List.length happ
  rw [List.length_append] at hlength
  have hlt' : behind < (ts.dropWhile printsAssignment).length := by omega
  have hback : (ts.dropWhile printsAssignment).take behind ++
      (ts.dropWhile printsAssignment)[behind] ::
        (ts.dropWhile printsAssignment).drop (behind + 1) =
      ts.dropWhile printsAssignment := by
    rw [List.cons_getElem_drop_succ, List.take_append_drop]
  have hwrapper : ((ts.dropWhile printsAssignment).take behind).length = behind :=
    List.length_take_of_le hlt'.le
  refine ⟨ts.takeWhile printsAssignment, (ts.dropWhile printsAssignment).take behind,
    (ts.dropWhile printsAssignment)[behind], (ts.dropWhile printsAssignment).drop (behind + 1),
    ⟨fun t ht => List.mem_takeWhile_imp ht, ?_, ?_⟩, ?_, ?_⟩
  · intro t ht
    have hnot := List.head?_dropWhile_not printsAssignment ts
    rw [hback] at ht
    rw [Option.mem_def.mp ht] at hnot
    simpa using hnot
  · rw [hback, hwrapper]
    exact hbehind
  · rw [hback]
    exact happ
  · rw [hwrapper]

/-- The flags stand behind the program that bash finds. -/
theorem Settings.Fits.inserted_eq (h : s.Fits ts place) (hlt : s.index ts < ts.length) :
    ts.take (s.index ts + 1) ++ s.insert (ts.drop (s.index ts + 1)) ++
        ts.drop (s.index ts + 1) =
      ts.take (place + 1) ++ (s.insert (ts.drop (s.index ts + 1)) ++ ts.drop (place + 1)) := by
  obtain ⟨hle, hcomm⟩ := h
  have htake : ts.take (s.index ts + 1) =
      ts.take (place + 1) ++ (ts.take (s.index ts + 1)).drop (place + 1) := by
    have happ := List.take_append_drop (place + 1) (ts.take (s.index ts + 1))
    rwa [List.take_take, min_eq_left (by omega), eq_comm] at happ
  have hdrop : ts.drop (place + 1) =
      (ts.take (s.index ts + 1)).drop (place + 1) ++ ts.drop (s.index ts + 1) := by
    have hlength : place + 1 ≤ (ts.take (s.index ts + 1)).length := by
      rw [List.length_take]
      omega
    rw [← List.drop_append_of_le_length hlength, List.take_append_drop]
  calc ts.take (s.index ts + 1) ++ s.insert (ts.drop (s.index ts + 1)) ++
        ts.drop (s.index ts + 1)
    _ = ts.take (place + 1) ++ ((ts.take (s.index ts + 1)).drop (place + 1) ++
          s.insert (ts.drop (s.index ts + 1))) ++ ts.drop (s.index ts + 1) := by
        rw [← List.append_assoc, ← htake]
    _ = ts.take (place + 1) ++ (s.insert (ts.drop (s.index ts + 1)) ++
          ((ts.take (s.index ts + 1)).drop (place + 1) ++ ts.drop (s.index ts + 1))) := by
        rw [hcomm]
        simp only [List.append_assoc]
    _ = _ := by rw [← hdrop]

/-- A plain command is rewritten to one that launches the same. -/
theorem preserves_of_plain (h : s.rewrite cmd = some r) (hscan : scan .plain cmd = some ms)
    (hplain : s.Plain takesArgument ms) : Preserves takesArgument cmd r := by
  obtain ⟨hline, hsplit, hindex, hinsert, -, found, hfound, -⟩ := rewrite_eq_some h
  obtain ⟨place, hplace, hfits⟩ := hplain.place
  have htokens : r.tokens = bashTexts ms :=
    tokens_eq hscan hline hplain.returns (fun w hw => (hplain.literal w hw).escapes) hsplit
  rw [htokens] at hindex hinsert hfound
  obtain ⟨hlt, -⟩ := List.getElem?_eq_some_iff.mp hfound
  obtain ⟨front, wrapper, program, args, hparsed, htexts, hat⟩ :=
    exists_parsed hplace (hfits.le.trans_lt hlt)
  have hlength : (front ++ wrapper ++ [program]).length = place + 1 := by
    simp [hat, Nat.add_assoc]
  have htexts' : bashTexts ms = front ++ wrapper ++ [program] ++ args := by simp [htexts]
  have htake : (bashTexts ms).take (place + 1) = front ++ wrapper ++ [program] := by
    rw [htexts', List.take_left' hlength]
  have hdrop : (bashTexts ms).drop (place + 1) = args := by
    rw [htexts', List.drop_left' hlength]
  have hinserted : r.inserted = front ++ (wrapper ++ program :: (r.insert ++ args)) := by
    rw [Rewriting.inserted, htokens, hindex, hinsert, hfits.inserted_eq hlt, htake, hdrop]
    simp
  have hreserved := hplain.reserved
  rw [htexts] at hreserved
  have hreserved' : (front ++ (wrapper ++ program :: (r.insert ++ args))).head?.any
      printsReserved = false := by
    rw [← hreserved]
    cases front <;> cases wrapper <;> rfl
  intro sh
  refine ⟨⟨front.map splitAssignment, wrapper, program, args⟩, ?_, ?_⟩
  · rw [run_verbatim hplain.toVerbatim hscan, htexts, hparsed.launch_eq hreserved]
  · rw [Rewriting.text, hinserted, (hparsed.append _).launch_eq hreserved']

end Sufficient

section Necessary

variable {s : Settings} {takesArgument : Chars → Bool} {cmd : Chars} {ms : List Mark}
  {r : Rewriting} {sh : State} {x : Simple} {c : Char}

theorem assignmentText_splitAssignment {t : Chars} (h : printsAssignment t = true) :
    assignmentText (splitAssignment t) = t := by
  obtain ⟨⟨target, value⟩, hassign⟩ := Option.isSome_iff_exists.mp h
  have htext := bashText_assignment hassign
  have hsplit := splitAssignment_bashText hassign
  rw [bashText_quoteMarks] at htext hsplit
  rw [hsplit, assignmentText, ← htext]

def printedAssigns (r : Rewriting) : List Chars := r.inserted.takeWhile printsAssignment

theorem count_printedAssigns (hc : isSafe c = false) :
    (printedAssigns r).flatten.count c = 0 := by
  rw [List.count_eq_zero]
  intro hmem
  obtain ⟨t, ht, hmem⟩ := List.mem_flatten.mp hmem
  have hprints : printsAssignment t = true := List.mem_takeWhile_imp ht
  rw [List.all_eq_true.mp (safe_of_isAssignment hprints) c hmem] at hc
  cases hc

/-- In some state of the shell the two commands launch the same. -/
structure Kept (takesArgument : Chars → Bool) (r : Rewriting) (x : Simple)
    (wrapper : List Chars) (program : Chars) (args : List Chars) : Prop where
  assigns : x.assigns.length = (printedAssigns r).length
  texts : x.texts = printedAssigns r ++ (wrapper ++ program :: args)
  place : programPlace takesArgument x.argv = some wrapper.length
  inserted : r.inserted = printedAssigns r ++ (wrapper ++ program :: (r.insert ++ args))
  head : ∀ t ∈ (wrapper ++ program :: (r.insert ++ args)).head?, printsAssignment t = false

theorem Preserves.kept (h : Preserves takesArgument cmd r) (sh : State) :
    r.inserted.head?.any printsReserved = false ∧
      ∃ x wrapper program args, run sh cmd = some x ∧
        Kept takesArgument r x wrapper program args := by
  obtain ⟨l, hcmd, htext⟩ := h sh
  obtain ⟨x, hx, hl⟩ := Option.bind_eq_some_iff.mp hcmd
  rw [Rewriting.text, run_join] at htext
  split_ifs at htext with hreserved
  · cases htext
  · obtain ⟨hplace, hargv, hassigns⟩ := launch_eq_some hl
    obtain ⟨-, hargv', hassigns'⟩ := launch_eq_some htext
    dsimp only at hargv' hassigns'
    refine ⟨by simpa using hreserved, x, l.wrapper, l.program, l.args, hx, ?_, ?_, hplace, ?_, ?_⟩
    · rw [hassigns, ← hassigns', List.length_map, printedAssigns]
    · have hmap : ((r.inserted.takeWhile printsAssignment).map splitAssignment).map
          assignmentText = printedAssigns r := by
        rw [List.map_map]
        refine (List.map_congr_left fun t ht => ?_).trans (List.map_id _)
        exact assignmentText_splitAssignment (List.mem_takeWhile_imp ht)
      rw [Simple.texts, hassigns, ← hassigns', hmap, hargv]
    · rw [← hargv', printedAssigns, List.takeWhile_append_dropWhile]
    · intro t ht
      have hnot := List.head?_dropWhile_not printsAssignment r.inserted
      rw [hargv', Option.mem_def.mp ht] at hnot
      simpa using hnot

variable {wrapper args : List Chars} {program : Chars}

theorem Kept.argv_eq (h : Kept takesArgument r x wrapper program args) :
    x.argv = wrapper ++ program :: args := by
  have htexts := h.texts
  rw [Simple.texts] at htexts
  exact List.append_inj_right htexts ((List.length_map _).trans h.assigns)

/-- The texts of both commands have the same characters. -/
theorem Kept.count_texts (h : Kept takesArgument r x wrapper program args) (c : Char) :
    x.texts.flatten.count c = r.tokens.flatten.count c := by
  have hcount := congrArg (fun ts => ts.flatten.count c) h.inserted
  have happ := congrArg (fun ts => ts.flatten.count c)
    (List.take_append_drop (r.index + 1) r.tokens)
  simp only [Rewriting.inserted, List.flatten_append, List.flatten_cons, List.count_append]
    at hcount happ
  rw [h.texts]
  simp only [List.flatten_append, List.flatten_cons, List.count_append]
  omega

theorem Kept.count_argv (h : Kept takesArgument r x wrapper program args)
    (hc : isSafe c = false) : x.argv.flatten.count c = r.tokens.flatten.count c := by
  have hcount := h.count_texts c
  rw [h.texts, List.flatten_append, List.count_append, count_printedAssigns hc, Nat.zero_add]
    at hcount
  rw [h.argv_eq, hcount]

theorem count_bashText (hspecial : c ∉ bashSpecials) (w : List Mark) :
    (bashText w).count c = w.countP (·.is c) :=
  count_flatMap_markText hspecial (fun h => hspecial (by simp [h, bashSpecials])) w

theorem flatten_map_shlexText (ws : List (List Mark)) :
    (ws.map shlexText).flatten = shlexText ws.flatten := by
  induction ws with
  | nil => rfl
  | cons w ws ih =>
    rw [List.map_cons, List.flatten_cons, List.flatten_cons, ih, shlexText, shlexText, shlexText,
      List.flatMap_append]

theorem countP_words (blanks : List Char) (hc : c ∉ blanks) (ms : List Mark) :
    (words blanks ms).flatten.countP (·.is c) = ms.countP (·.is c) := by
  rw [flatten_words, List.countP_filter]
  refine List.countP_congr fun m _ => ?_
  cases m with
  | quote => simp [Mark.is]
  | char d q =>
    have hne : d = c → d ∉ blanks := by
      rintro rfl
      exact hc
    cases q with
    | plain => simpa [Mark.is, separates] using hne
    | escaped | single | double | doubleEscaped => simp [Mark.is, separates]

theorem count_tokens (hscan : scan .plain cmd = some ms) (hsplit : split cmd = some r.tokens)
    (hspecial : c ∉ ['"', '\\']) :
    r.tokens.flatten.count c = (words shlexBlanks ms).flatten.countP (·.is c) := by
  rw [split, hscan, Option.map_some] at hsplit
  rw [← Option.some.inj hsplit, flatten_map_shlexText]
  exact count_flatMap_markText hspecial (fun h => hspecial (by simp [h])) _

theorem run_eq_some (h : run sh cmd = some x) (hscan : scan .plain cmd = some ms) :
    bashWords ms = some ((words bashBlanks ms).takeWhile (!isComment ·)) ∧
      command sh ((words bashBlanks ms).takeWhile (!isComment ·)) = some x := by
  rw [run, hscan, Option.bind_some] at h
  obtain ⟨ws, hws, h⟩ := Option.bind_eq_some_iff.mp h
  have hbash := hws
  unfold bashWords at hws
  dsimp only at hws
  split_ifs at hws
  obtain rfl := Option.some.inj hws
  exact ⟨hbash, h⟩

/-- Without parameters and home directories nothing can take the place of a comment. -/
def emptyState : State := ⟨fun _ => [], fun _ => none⟩

/-- Everything that is expanded leaves `k` carriage returns. -/
def returnState (k : ℕ) : State := ⟨fun _ => .replicate k '\r', fun _ => some (.replicate k '\r')⟩

theorem takeWhile_comment {ws : List (List Mark)} (h : ws.flatten.countP (·.is '#') ≤
    (ws.takeWhile (!isComment ·)).flatten.countP (·.is '#')) :
    ws.takeWhile (!isComment ·) = ws := by
  induction ws with
  | nil => rfl
  | cons w ws ih =>
    rw [List.takeWhile_cons] at h ⊢
    split_ifs at h ⊢ with hcomment
    · rw [List.flatten_cons, List.flatten_cons, List.countP_append, List.countP_append] at h
      rw [ih (by omega)]
    · have hhead : w.head? = some (.char '#' .plain) := by simpa [isComment] using hcomment
      obtain ⟨w, rfl⟩ := List.head?_eq_some_iff.mp hhead
      simp [Mark.is] at h

theorem Kept.simple (h : Kept takesArgument r x wrapper program args)
    (hrun : run emptyState cmd = some x) (hscan : scan .plain cmd = some ms)
    (hsplit : split cmd = some r.tokens) : bashWords ms = some (words bashBlanks ms) := by
  obtain ⟨hbash, hcommand⟩ := run_eq_some hrun hscan
  have hargv : x.argv.flatten.count '#' ≤
      (bashText ((words bashBlanks ms).takeWhile (!isComment ·)).flatten).count '#' :=
    count_command (fun _ => rfl) (fun _ => rfl) hcommand (by decide)
  rw [h.count_argv rfl, count_tokens hscan hsplit (by decide), countP_words _ (by decide),
    count_bashText (by decide), ← countP_words bashBlanks (by decide)] at hargv
  rw [hbash, takeWhile_comment hargv]

theorem command_of_run (hrun : run sh cmd = some x) (hscan : scan .plain cmd = some ms)
    (hsimple : bashWords ms = some (words bashBlanks ms)) :
    command sh (words bashBlanks ms) = some x := by
  rwa [run, hscan, Option.bind_some, hsimple, Option.bind_some] at hrun

theorem Kept.returns (h : Kept takesArgument r x wrapper program args)
    (hcommand : command emptyState (words bashBlanks ms) = some x)
    (hscan : scan .plain cmd = some ms) (hsplit : split cmd = some r.tokens) :
    .char '\r' .plain ∉ ms := by
  intro hmem
  have hle : (words bashBlanks ms).flatten.countP (·.is '\r') ≤ x.texts.flatten.count '\r' :=
    returns_command (fun _ _ => rfl) hcommand
  rw [h.count_texts, count_tokens hscan hsplit (by decide), countP_words _ (by decide),
    flatten_words] at hle
  obtain ⟨before, behind, rfl⟩ := List.append_of_mem hmem
  have hbefore : (before.filter (!separates shlexBlanks ·)).countP (·.is '\r') ≤
      before.countP (·.is '\r') := List.filter_sublist.countP_le
  have hbehind : (behind.filter (!separates shlexBlanks ·)).countP (·.is '\r') ≤
      behind.countP (·.is '\r') := List.filter_sublist.countP_le
  have hseparates : separates shlexBlanks (.char '\r' .plain) = true := rfl
  have his : (Mark.char '\r' .plain).is '\r' = true := rfl
  simp only [List.filter_append, List.countP_append, List.countP_cons, his, if_true,
    List.filter_cons, hseparates, Bool.not_true, Bool.false_eq_true, if_false] at hle
  omega

theorem Kept.escapes (h : Kept takesArgument r x wrapper program args)
    (hcommand : command emptyState (words bashBlanks ms) = some x)
    (hscan : scan .plain cmd = some ms) (hsplit : split cmd = some r.tokens)
    (hline : '\n' ∉ cmd) : ∀ w ∈ words bashBlanks ms, ∀ m ∈ w, ¬ m.unescaped := by
  intro w hw m hm hunescaped
  have hargv : x.argv.flatten.count '\\' ≤ (bashText (words bashBlanks ms).flatten).count '\\' :=
    count_command (fun _ => rfl) (fun _ => rfl) hcommand (by decide)
  have hwords := words_shlexBlanks hscan hline (h.returns hcommand hscan hsplit)
  rw [split, hscan, Option.map_some, hwords] at hsplit
  rw [h.count_argv rfl, ← Option.some.inj hsplit, flatten_map_shlexText] at hargv
  have hlt := (count_escape_text (words bashBlanks ms).flatten).2
    ⟨m, List.mem_flatten_of_mem hw hm, hunescaped⟩
  omega

/-- The flags of the helper are not behind the program that bash finds. -/
theorem Kept.le_index (h : Kept takesArgument r x wrapper program args)
    (hrewrite : s.rewrite cmd = some r) :
    (printedAssigns r).length + wrapper.length ≤ r.index := by
  obtain ⟨-, -, hindex, hinsert, hflags, found, hfound, -⟩ := rewrite_eq_some hrewrite
  rw [← hindex] at hinsert hfound
  obtain ⟨hlt, -⟩ := List.getElem?_eq_some_iff.mp hfound
  by_contra hle
  obtain ⟨flag, flags, hcons⟩ := List.exists_cons_of_ne_nil hflags
  have hshift : r.tokens.take (r.index + 1) ++ (r.insert ++ r.tokens.drop (r.index + 1)) =
      (printedAssigns r ++ wrapper ++ [program]) ++ (r.insert ++ args) := by
    have hinserted := h.inserted
    rw [Rewriting.inserted] at hinserted
    simpa using hinserted
  have hmem : flag ∈ r.tokens.drop (r.index + 1) := by
    refine head_mem_of_shift hshift ?_ (by rw [hcons, List.head?_cons])
    simp only [List.length_take, List.length_append, List.length_singleton]
    omega
  have hflag : flag ∈ s.insert (r.tokens.drop (r.index + 1)) := by
    rw [← hinsert, hcons]
    exact List.mem_cons_self
  rw [Settings.insert, List.mem_filter, Bool.not_eq_true', ← Bool.not_eq_true,
    List.contains_iff_mem] at hflag
  exact hflag.2 (List.mem_map_of_mem hmem)

/-- The tokens begin like the words that bash finds. -/
theorem Kept.exists_rest (h : Kept takesArgument r x wrapper program args)
    (hrewrite : s.rewrite cmd = some r) :
    ∃ between, r.tokens.take (r.index + 1) = printedAssigns r ++ wrapper ++ [program] ++ between ∧
      r.tokens.takeWhile printsAssignment = printedAssigns r ∧
      r.tokens.dropWhile printsAssignment =
        wrapper ++ program :: (between ++ r.tokens.drop (r.index + 1)) := by
  have hle := h.le_index hrewrite
  obtain ⟨-, -, hindex, -, -, found, hfound, -⟩ := rewrite_eq_some hrewrite
  obtain ⟨hlt, -⟩ := List.getElem?_eq_some_iff.mp hfound
  obtain ⟨between, hbetween⟩ : printedAssigns r ++ wrapper ++ [program] <+:
      r.tokens.take (r.index + 1) := by
    have hprefix : printedAssigns r ++ wrapper ++ [program] <+: r.inserted := by
      rw [h.inserted]
      exact ⟨r.insert ++ args, by simp⟩
    refine List.prefix_of_prefix_length_le hprefix ?_ ?_
    · rw [Rewriting.inserted, List.append_assoc]
      exact List.prefix_append _ _
    · simp only [List.length_take, List.length_append, List.length_singleton]
      omega
  have htokens : r.tokens = printedAssigns r ++
      (wrapper ++ program :: (between ++ r.tokens.drop (r.index + 1))) := by
    have happ := List.take_append_drop (r.index + 1) r.tokens
    rw [← hbetween] at happ
    simpa using happ.symm
  have hhead : ∀ t ∈ (wrapper ++ program :: (between ++ r.tokens.drop (r.index + 1))).head?,
      printsAssignment t = false := by
    have hhead := h.head
    cases wrapper with
    | nil => exact hhead
    | cons arg wrapper => exact hhead
  have hfront : ∀ t ∈ printedAssigns r, printsAssignment t = true :=
    fun t ht => List.mem_takeWhile_imp ht
  have hspan := span_append hfront hhead
  rw [← htokens] at hspan
  exact ⟨between, hbetween.symm, hspan⟩

theorem literal_of_assigned (h : ((bashTexts ms).takeWhile printsAssignment).length =
      ((words bashBlanks ms).takeWhile isAssignment).length) :
    ∀ w ∈ (words bashBlanks ms).takeWhile isAssignment, Static w ∧ hasTilde w = false := by
  intro w hw
  have hinert := inert_of_safe (safe_of_assigned h w hw)
  exact ⟨pieces_inert fun m hm => (hinert m hm).1,
    hasTilde_of_not_mem fun hm => (hinert _ hm).2 rfl⟩

/-- A parameter or a tilde would take more carriage returns than the printed command has. -/
theorem Preserves.literal_of_command (h : Preserves takesArgument cmd r)
    (hscan : scan .plain cmd = some ms) (hsimple : bashWords ms = some (words bashBlanks ms)) :
    ∀ w ∈ (words bashBlanks ms).dropWhile isAssignment, Static w ∧ hasTilde w = false := by
  obtain ⟨-, x, wrapper, program, args, hrun, hkept⟩ :=
    h.kept (returnState (r.tokens.flatten.count '\r' + 1))
  have hcount : x.argv.flatten.count '\r' < r.tokens.flatten.count '\r' + 1 := by
    rw [hkept.count_argv rfl]
    exact Nat.lt_succ_self _
  exact static_of_command (fun _ => rfl) (fun _ => rfl)
    (command_of_run hrun hscan hsimple) hcount

theorem Preserves.verbatim (h : Preserves takesArgument cmd r) (hrewrite : s.rewrite cmd = some r)
    (hscan : scan .plain cmd = some ms) : Verbatim ms := by
  obtain ⟨hline, hsplit, -⟩ := rewrite_eq_some hrewrite
  obtain ⟨hreserved, x, wrapper, program, args, hrun, hkept⟩ := h.kept emptyState
  have hsimple := hkept.simple hrun hscan hsplit
  have hcommand := command_of_run hrun hscan hsimple
  have hreturns := hkept.returns hcommand hscan hsplit
  have hescapes := hkept.escapes hcommand hscan hsplit hline
  have htokens := tokens_eq hscan hline hreturns hescapes hsplit
  obtain ⟨between, htake, hassigns, -⟩ := hkept.exists_rest hrewrite
  have hassigned : ((bashTexts ms).takeWhile printsAssignment).length =
      ((words bashBlanks ms).takeWhile isAssignment).length := by
    rw [← htokens, hassigns, ← hkept.assigns, length_command hcommand]
  refine ⟨hsimple, hreturns, fun w hw => ?_, ?_, hassigned⟩
  · have hliteral : Static w ∧ hasTilde w = false := by
      have happ : (words bashBlanks ms).takeWhile isAssignment ++
          (words bashBlanks ms).dropWhile isAssignment = words bashBlanks ms :=
        List.takeWhile_append_dropWhile
      rw [← happ] at hw
      rcases List.mem_append.mp hw with hw | hw
      · exact literal_of_assigned hassigned w hw
      · exact h.literal_of_command hscan hsimple w hw
    exact ⟨hliteral.1, hliteral.2, hescapes w hw⟩
  · have hhead : r.inserted.head? = r.tokens.head? := by
      have hmem : r.tokens.take (r.index + 1) ≠ [] := by simp [htake]
      have happ := List.take_append_drop (r.index + 1) r.tokens
      rw [Rewriting.inserted, List.append_assoc, List.head?_append_of_ne_nil _ hmem, ← happ,
        List.head?_append_of_ne_nil _ hmem, happ]
    rw [← htokens, ← hhead]
    exact hreserved

theorem Preserves.plain (h : Preserves takesArgument cmd r) (hrewrite : s.rewrite cmd = some r)
    (hscan : scan .plain cmd = some ms) : s.Plain takesArgument ms := by
  have hverbatim := h.verbatim hrewrite hscan
  obtain ⟨hline, hsplit, hindex, hinsert, -⟩ := rewrite_eq_some hrewrite
  have htokens := tokens_eq hscan hline hverbatim.returns
    (fun w hw => (hverbatim.literal w hw).escapes) hsplit
  obtain ⟨hreserved, x, wrapper, program, args, hrun, hkept⟩ := h.kept emptyState
  obtain ⟨between, htake, hassigns, hrest⟩ := hkept.exists_rest hrewrite
  have hle := hkept.le_index hrewrite
  have hx : x.argv = r.tokens.dropWhile printsAssignment := by
    rw [run_verbatim hverbatim hscan, run_join, hverbatim.reserved, if_neg Bool.false_ne_true]
      at hrun
    rw [← Option.some.inj hrun, htokens]
  have hargs : args = between ++ r.tokens.drop (r.index + 1) := by
    have hargv := hkept.argv_eq
    rw [hx, hrest] at hargv
    simpa using hargv.symm
  have hdrop : (r.tokens.take (r.index + 1)).drop
      ((printedAssigns r).length + wrapper.length + 1) = between := by
    rw [htake]
    exact List.drop_left' (by simp [Nat.add_assoc])
  refine ⟨hverbatim, (printedAssigns r).length + wrapper.length, ?_, ?_, ?_⟩
  · rw [← htokens, literalPlace, ← hx, hkept.place, hassigns]
    rfl
  · rw [← htokens, ← hindex]
    exact hle
  · rw [← htokens, ← hinsert, ← hindex, hdrop]
    have hinserted := hkept.inserted
    rw [Rewriting.inserted, htake, hargs] at hinserted
    have hcancel : between ++ r.insert ++ r.tokens.drop (r.index + 1) =
        r.insert ++ between ++ r.tokens.drop (r.index + 1) := by simpa using hinserted
    exact List.append_cancel_right hcancel

end Necessary

section Preservation

variable {s : Settings} {takesArgument : Chars → Bool} {cmd : Chars} {r : Rewriting} {place : ℕ}

/-- The rewriting keeps what a command launches exactly if the command is plain. -/
theorem preserves_iff_plain (h : s.rewrite cmd = some r) :
    Preserves takesArgument cmd r ↔
      ∃ ms, scan .plain cmd = some ms ∧ s.Plain takesArgument ms := by
  constructor
  · intro hpreserves
    obtain ⟨-, hsplit, -⟩ := rewrite_eq_some h
    obtain ⟨ms, hscan, -⟩ := Option.map_eq_some_iff.mp hsplit
    exact ⟨ms, hscan, hpreserves.plain h hscan⟩
  · rintro ⟨ms, hscan, hplain⟩
    exact preserves_of_plain h hscan hplain

/-- Settings with one command and one flag. -/
def oneFlag : Settings where
  commands := ["chromium".toList]
  flags := ["--use-angle=vulkan".toList]
  isAlnum := Char.isAlphanum
  isDigit := Char.isDigit
  lower := List.map Char.toLower
  fnmatchcase := fun name pattern => name == pattern

theorem preserves_literal :
    Preserves (fun _ => false) "LANG=C chromium 'a b'".toList
      ⟨["LANG=C".toList, "chromium".toList, "a b".toList], 1, ["--use-angle=vulkan".toList]⟩ := by
  have hrewrite : oneFlag.rewrite "LANG=C chromium 'a b'".toList =
      some ⟨["LANG=C".toList, "chromium".toList, "a b".toList], 1,
        ["--use-angle=vulkan".toList]⟩ := by decide
  have hscan : scan .plain "LANG=C chromium 'a b'".toList =
      some ("LANG=C chromium ".toList.map (.char · .plain) ++
        .quote :: "a b".toList.map (.char · .single)) := by decide
  exact (preserves_iff_plain hrewrite).mpr
    ⟨_, hscan, ⟨by decide, by decide, by decide, by decide, by decide⟩, 1, by decide, by decide,
      by decide⟩

/-- A quoted assignment becomes the name of the program. -/
theorem not_preserves_assignment :
    oneFlag.rewrite "A=\"x y\" chromium".toList =
        some ⟨["A=x y".toList, "chromium".toList], 1, ["--use-angle=vulkan".toList]⟩ ∧
      ¬ Preserves (fun _ => false) "A=\"x y\" chromium".toList
        ⟨["A=x y".toList, "chromium".toList], 1, ["--use-angle=vulkan".toList]⟩ := by
  refine ⟨by decide, fun h => ?_⟩
  obtain ⟨l, hcmd, htext⟩ := h emptyState
  have horiginal : (run emptyState "A=\"x y\" chromium".toList).bind (launch fun _ => false) =
      some ⟨[("A".toList, "x y".toList)], [], "chromium".toList, []⟩ := by decide
  have hrewritten : (run emptyState "'A=x y' chromium --use-angle=vulkan".toList).bind
      (launch fun _ => false) =
      some ⟨[], [], "A=x y".toList, ["chromium".toList, "--use-angle=vulkan".toList]⟩ := by decide
  have hjoin : Rewriting.text ⟨["A=x y".toList, "chromium".toList], 1,
      ["--use-angle=vulkan".toList]⟩ = "'A=x y' chromium --use-angle=vulkan".toList := by decide
  rw [horiginal] at hcmd
  rw [hjoin, hrewritten] at htext
  obtain rfl := Option.some.inj hcmd
  revert htext
  decide

/-- Flags that are no commands fit only where the helper puts them. -/
theorem fits_iff (h : s.rewrite cmd = some r)
    (hflags : ∀ flag ∈ s.flags, s.isChromium flag = false) :
    s.Fits r.tokens place ↔ place = s.index r.tokens := by
  obtain ⟨-, -, hindex, hinsert, hne, program, hprogram, hchromium⟩ := rewrite_eq_some h
  constructor
  · rintro ⟨hle, hcomm⟩
    by_contra hplace
    rw [← hinsert] at hcomm
    obtain ⟨hlt, hget⟩ := List.getElem?_eq_some_iff.mp hprogram
    have hlength : place + 1 < (r.tokens.take (s.index r.tokens + 1)).length := by
      rw [List.length_take]
      omega
    have hlast : ((r.tokens.take (s.index r.tokens + 1)).drop (place + 1)).getLast? =
        some program := by
      rw [List.getLast?_drop, if_neg (by omega), List.getLast?_eq_getElem?, List.length_take,
        min_eq_left (by omega), Nat.add_sub_cancel, List.getElem?_take_of_succ, hprogram]
    have hmem : program ∈ r.insert := by
      have hboth := congrArg List.getLast? hcomm
      rw [List.getLast?_append_of_ne_nil _ hne, List.getLast?_append, hlast, Option.some_or]
        at hboth
      exact List.mem_of_getLast? hboth
    rw [hinsert, Settings.insert, List.mem_filter] at hmem
    rw [hflags program hmem.1] at hchromium
    cases hchromium
  · rintro rfl
    refine ⟨le_rfl, ?_⟩
    rw [List.drop_of_length_le (List.length_take_le _ _)]
    simp

end Preservation

end Session
end ACGlass
