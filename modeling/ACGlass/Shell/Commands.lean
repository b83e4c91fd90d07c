import ACGlass.Shell.Expansion

/-!
# Commands of literal words

What `run` makes of a command whose words are their own texts, as those are that
`shlex.join` prints; and what it keeps of every other command.
-/

namespace ACGlass
namespace Shell

variable {sh : State} {w : List Mark} {fs : List Chars}

section Words

theorem expandWord_static (hnil : w ≠ []) (hstatic : Static w) (htilde : hasTilde w = false)
    (sh : State) : expandWord sh w = some [bashText w] := by
  obtain ⟨gs, hgs, htext, hseparates, hgs_nil⟩ := expand_static hstatic sh
  rw [expandWord, tildeWord_eq htilde, hgs, Option.map_some,
    fields_eq (hgs_nil hnil) hseparates, htext]

theorem count_expandWord (hparam : ∀ name, sh.param name = [])
    (hhome : ∀ login, sh.home login = none) (h : expandWord sh w = some fs) {c : Char}
    (hc : c ∉ [' ', '\t', '\n']) : fs.flatten.count c ≤ (bashText w).count c := by
  rw [expandWord, tildeWord_eq_of_home hhome] at h
  obtain ⟨gs, hgs, rfl⟩ := Option.map_eq_some_iff.mp h
  rw [count_fields hc]
  exact count_expand hparam hgs c

theorem returns_tildeWord (hhome : ∀ login ≠ [], sh.home login = none) (w : List Mark) :
    w.countP (·.is '\r') ≤ (tildeWord sh w).countP (·.is '\r') := by
  unfold tildeWord
  split
  · rename_i target value hassign
    have hle := returns_tildes hhome value
    have hw := congrArg (·.countP (·.is '\r')) (assignment_eq hassign)
    simp only [List.countP_append, List.countP_cons] at hw ⊢
    omega
  · exact returns_tilde hhome w

theorem returns_expandWord (hhome : ∀ login ≠ [], sh.home login = none)
    (h : expandWord sh w = some fs) : w.countP (·.is '\r') ≤ fs.flatten.count '\r' := by
  obtain ⟨gs, hgs, rfl⟩ := Option.map_eq_some_iff.mp h
  rw [count_fields (by decide)]
  exact (returns_tildeWord hhome w).trans (returns_expand hgs)

/-- A word with something to expand is as long as its value. -/
theorem static_of_expandWord {k : ℕ} (hparam : ∀ name, sh.param name = .replicate k '\r')
    (hhome : ∀ login, sh.home login = some (.replicate k '\r'))
    (h : expandWord sh w = some fs) (hcount : fs.flatten.count '\r' < k) :
    Static w ∧ hasTilde w = false := by
  obtain ⟨gs, hgs, rfl⟩ := Option.map_eq_some_iff.mp h
  rw [count_fields (by decide)] at hcount
  have htilde := hasTilde_of_returns hhome ((returns_expand hgs).trans_lt hcount)
  rw [tildeWord_eq htilde] at hgs
  exact ⟨static_of_returns hparam hgs hcount, htilde⟩

end Words

section Assignments

variable {target value : Chars} {ms : List Mark}

/-- The two sides of an assignment. -/
def splitAssignment (t : Chars) : Chars × Chars :=
  (t.takeWhile (· ≠ '='), (t.dropWhile (· ≠ '=')).tail)

def assignmentText (a : Chars × Chars) : Chars := a.1 ++ '=' :: a.2

theorem splitAssignment_eq (h : '=' ∉ target) (value : Chars) :
    splitAssignment (target ++ '=' :: value) = (target, value) := by
  have hne : ∀ c ∈ target, decide (c ≠ '=') = true := by
    intro c hc
    refine decide_eq_true fun heq => h (heq ▸ hc)
  rw [splitAssignment, List.takeWhile_append_of_pos hne, List.dropWhile_append_of_pos hne]
  simp

theorem isTarget_of_assignment {ms : List Mark} (h : assignment w = some (target, ms)) :
    isTarget target = true ∧ '=' ∉ target := by
  unfold assignment at h
  split at h
  · cases h
  · obtain ⟨t, ht, h⟩ := Option.bind_eq_some_iff.mp h
    split_ifs at h with htarget
    obtain ⟨rfl, -⟩ := Prod.mk.inj (Option.some.inj h)
    refine ⟨htarget, fun hmem => ?_⟩
    have heq : equals ∈ w.takeWhile (· ≠ equals) := by
      rw [mapM_plainChar ht]
      exact List.mem_map_of_mem hmem
    simpa using List.mem_takeWhile_imp heq

theorem bashText_plain (t : Chars) : bashText (t.map (.char · .plain)) = t := by
  rw [bashText, List.flatMap_map]
  exact List.flatMap_singleton' t

theorem bashText_assignment (h : assignment w = some (target, ms)) :
    bashText w = target ++ '=' :: bashText ms := by
  rw [assignment_eq h, bashText, List.flatMap_append, ← bashText, bashText_plain]
  rfl

theorem splitAssignment_bashText (h : assignment w = some (target, ms)) :
    splitAssignment (bashText w) = (target, bashText ms) := by
  rw [bashText_assignment h, splitAssignment_eq (isTarget_of_assignment h).2]

theorem mem_markText {c : Char} {q : Quoting} (specials : List Char) :
    c ∈ markText specials (.char c q) := by
  cases q <;> simp [markText]
  split_ifs <;> simp

/-- A text of safe characters has nothing to expand in it. -/
theorem inert_of_safe (h : (bashText w).all isSafe = true) :
    ∀ m ∈ w, m.Inert ∧ m ≠ .char '~' .plain := by
  have hsafe : ∀ c q, Mark.char c q ∈ w → isSafe c = true := by
    intro c q hm
    exact List.all_eq_true.mp h c (List.mem_flatMap.mpr ⟨_, hm, mem_markText _⟩)
  intro m hm
  refine ⟨?_, ?_⟩
  · rintro c q rfl -
    have hc := hsafe c q hm
    constructor <;>
    · rintro rfl
      cases hc
  · rintro rfl
    cases hsafe _ _ hm

theorem sublist_segments {s : List Mark} (h : s ∈ segments ms) : s.Sublist ms := by
  have hsub : s.Sublist ([.char ':' .plain].intercalate (segments ms)) := sublist_intercalate h
  rwa [segments, List.intercalate_splitOn] at hsub

theorem tildeName_of_not_mem (h : .char '~' .plain ∉ w) : tildeName w = none := by
  unfold tildeName
  split
  · exact absurd List.mem_cons_self h
  · rfl

theorem expandValue_safe (h : (bashText ms).all isSafe = true) (sh : State) :
    expandValue sh ms = some (bashText ms) := by
  have hinert := inert_of_safe h
  have htilde : ∀ s ∈ segments ms, (tildeName s).bind sh.home = none := by
    intro s hs
    have hsub : s.Sublist ms := sublist_segments hs
    rw [tildeName_of_not_mem fun hmem => (hinert _ (hsub.subset hmem)).2 rfl]
    rfl
  obtain ⟨gs, hgs, htext, -⟩ := expand_static (pieces_inert fun m hm => (hinert m hm).1) sh
  rw [expandValue, tildes_eq htilde, hgs, Option.map_some]
  exact congrArg some htext

/-- Assignments of safe characters, from left to right. -/
theorem assign_safe {ws : List (List Mark)}
    (h : ∀ w ∈ ws, isAssignment w = true ∧ (bashText w).all isSafe = true) (sh : State) :
    assign sh ws = some (ws.map fun w => splitAssignment (bashText w)) := by
  induction ws generalizing sh with
  | nil => rfl
  | cons w ws ih =>
    rw [List.forall_mem_cons] at h
    obtain ⟨⟨target, ms⟩, hassign⟩ := Option.isSome_iff_exists.mp h.1.1
    have hsafe : (bashText ms).all isSafe = true := by
      have hall := h.1.2
      rw [bashText_assignment hassign, List.all_append, List.all_cons] at hall
      simp only [Bool.and_eq_true] at hall
      exact hall.2.2
    rw [assign, hassign, List.map_cons, splitAssignment_bashText hassign]
    simp [expandValue_safe hsafe, ih h.2]

theorem set_home (hhome : ∀ login ≠ [], sh.home login = none) (target value : Chars) :
    ∀ login ≠ [], (sh.set target value).home login = none := by
  intro login hlogin
  simp only [State.set]
  split_ifs
  any_goals exact hhome login hlogin
  all_goals rw [Function.update_of_ne hlogin, hhome login hlogin]

theorem returns_assign {ws : List (List Mark)} {assigns : List (Chars × Chars)}
    (hhome : ∀ login ≠ [], sh.home login = none) (h : assign sh ws = some assigns) :
    ws.flatten.countP (·.is '\r') ≤ (assigns.map assignmentText).flatten.count '\r' := by
  induction ws generalizing sh assigns with
  | nil => exact Nat.zero_le _
  | cons w ws ih =>
    obtain ⟨⟨target, ms⟩, hassign, h⟩ := Option.bind_eq_some_iff.mp h
    obtain ⟨value, hvalue, h⟩ := Option.bind_eq_some_iff.mp h
    obtain ⟨rest, hrest, h⟩ := Option.bind_eq_some_iff.mp h
    obtain rfl := Option.some.inj h
    obtain ⟨gs, hgs, rfl⟩ := Option.map_eq_some_iff.mp hvalue
    have hms : ms.countP (·.is '\r') ≤ (glyphText gs).count '\r' :=
      (returns_tildes hhome ms).trans (returns_expand hgs)
    have hws := ih (set_home hhome _ _) hrest
    have htarget : (target.map (Mark.char · .plain)).countP (·.is '\r') = target.count '\r' := by
      rw [List.countP_map]
      rfl
    have hequals : equals.is '\r' = false := rfl
    have hw : w.countP (·.is '\r') = target.count '\r' + ms.countP (·.is '\r') := by
      rw [assignment_eq hassign, List.countP_append, htarget, List.countP_cons, hequals]
      simp
    have htext : (assignmentText (target, gs.flatMap Glyph.text)).count '\r' =
        target.count '\r' + (glyphText gs).count '\r' := by
      rw [assignmentText, List.count_append, List.count_cons_of_ne (by decide)]
      rfl
    rw [List.flatten_cons, List.countP_append, List.map_cons, List.flatten_cons,
      List.count_append, hw, htext]
    omega

theorem length_assign {ws : List (List Mark)} {assigns : List (Chars × Chars)}
    (h : assign sh ws = some assigns) : assigns.length = ws.length := by
  induction ws generalizing sh assigns with
  | nil =>
    obtain rfl := Option.some.inj h
    rfl
  | cons w ws ih =>
    obtain ⟨⟨target, ms⟩, -, h⟩ := Option.bind_eq_some_iff.mp h
    obtain ⟨value, -, h⟩ := Option.bind_eq_some_iff.mp h
    obtain ⟨rest, hrest, h⟩ := Option.bind_eq_some_iff.mp h
    obtain rfl := Option.some.inj h
    exact congrArg (· + 1) (ih hrest)

end Assignments

section Runs

variable {ws : List (List Mark)} {x : Simple} {c : Char}

def Simple.texts (x : Simple) : List Chars := x.assigns.map assignmentText ++ x.argv

theorem forall₂_of_mapM {α β : Type*} {f : α → Option β} {as : List α} {bs : List β}
    (h : as.mapM f = some bs) : List.Forall₂ (fun a b => f a = some b) as bs := by
  induction as generalizing bs with
  | nil =>
    obtain rfl := Option.some.inj h
    exact .nil
  | cons a as ih =>
    rw [List.mapM_cons] at h
    obtain ⟨b, hb, h⟩ := Option.bind_eq_some_iff.mp h
    obtain ⟨rest, hrest, h⟩ := Option.bind_eq_some_iff.mp h
    obtain rfl := Option.some.inj h
    exact .cons hb (ih hrest)

theorem command_eq_some (h : command sh ws = some x) :
    assign sh (ws.takeWhile isAssignment) = some x.assigns ∧
      ∃ fss, List.Forall₂ (fun w fs => expandWord sh w = some fs)
        (ws.dropWhile isAssignment) fss ∧ x.argv = fss.flatten := by
  obtain ⟨fss, hfss, h⟩ := Option.bind_eq_some_iff.mp h
  obtain ⟨assigns, hassigns, h⟩ := Option.bind_eq_some_iff.mp h
  obtain rfl := Option.some.inj h
  exact ⟨hassigns, fss, forall₂_of_mapM hfss, rfl⟩

theorem length_command (h : command sh ws = some x) :
    x.assigns.length = (ws.takeWhile isAssignment).length :=
  length_assign (command_eq_some h).1

theorem bashText_append (v w : List Mark) : bashText (v ++ w) = bashText v ++ bashText w :=
  List.flatMap_append

theorem count_command (hparam : ∀ name, sh.param name = [])
    (hhome : ∀ login, sh.home login = none) (h : command sh ws = some x)
    (hc : c ∉ [' ', '\t', '\n']) : x.argv.flatten.count c ≤ (bashText ws.flatten).count c := by
  obtain ⟨-, fss, hfss, hargv⟩ := command_eq_some h
  have hrest : fss.flatten.flatten.count c ≤
      (bashText (ws.dropWhile isAssignment).flatten).count c := by
    generalize ws.dropWhile isAssignment = cs at hfss
    clear hargv
    induction hfss with
    | nil => exact le_rfl
    | cons hw _ ih =>
      have hle := count_expandWord hparam hhome hw hc
      simp only [List.flatten_cons, List.flatten_append, List.count_append, bashText_append]
      omega
  have hsub : (bashText (ws.dropWhile isAssignment).flatten).Sublist (bashText ws.flatten) :=
    ((List.dropWhile_suffix _).sublist.flatten).flatMap _
  rw [hargv]
  exact hrest.trans (hsub.count_le c)

theorem returns_command (hhome : ∀ login ≠ [], sh.home login = none)
    (h : command sh ws = some x) :
    ws.flatten.countP (·.is '\r') ≤ x.texts.flatten.count '\r' := by
  obtain ⟨hassigns, fss, hfss, hargv⟩ := command_eq_some h
  have hassign := returns_assign hhome hassigns
  have hrest : (ws.dropWhile isAssignment).flatten.countP (·.is '\r') ≤
      fss.flatten.flatten.count '\r' := by
    generalize ws.dropWhile isAssignment = cs at hfss
    clear hargv
    induction hfss with
    | nil => exact le_rfl
    | cons hw _ ih =>
      have hle := returns_expandWord hhome hw
      simp only [List.flatten_cons, List.flatten_append, List.count_append, List.countP_append]
      omega
  have happ : ws.flatten = (ws.takeWhile isAssignment).flatten ++
      (ws.dropWhile isAssignment).flatten := by
    rw [← List.flatten_append, List.takeWhile_append_dropWhile]
  rw [happ, Simple.texts, hargv, List.flatten_append, List.countP_append, List.count_append]
  omega

theorem static_of_command {k : ℕ} (hparam : ∀ name, sh.param name = .replicate k '\r')
    (hhome : ∀ login, sh.home login = some (.replicate k '\r'))
    (h : command sh ws = some x) (hcount : x.argv.flatten.count '\r' < k) :
    ∀ w ∈ ws.dropWhile isAssignment, Static w ∧ hasTilde w = false := by
  obtain ⟨-, fss, hfss, hargv⟩ := command_eq_some h
  rw [hargv] at hcount
  generalize ws.dropWhile isAssignment = cs at hfss
  clear hargv
  induction hfss with
  | nil => exact fun w hw => absurd hw List.not_mem_nil
  | cons hw _ ih =>
    simp only [List.flatten_cons, List.flatten_append, List.count_append] at hcount
    refine List.forall_mem_cons.mpr ⟨?_, ih (by omega)⟩
    exact static_of_expandWord hparam hhome hw (by omega)

end Runs

section Printing

variable {t : Chars}

theorem hasTilde_of_not_mem (h : .char '~' .plain ∉ w) : hasTilde w = false := by
  unfold hasTilde
  split
  · rename_i target value hassign
    rw [List.any_eq_false]
    intro s hs
    have hsub : s.Sublist value := sublist_segments hs
    have hvalue : value ⊆ w := by
      rw [assignment_eq hassign]
      exact fun m hm => List.mem_append_right _ (List.mem_cons_of_mem _ hm)
    simp [tildeName_of_not_mem fun hm => h (hvalue (hsub.subset hm))]
  · simp [tildeName_of_not_mem h]

/-- A printed mark is quoted or safe. -/
theorem isSafe_of_printed {c : Char} (h : Mark.Printed (.char c .plain)) : isSafe c = true := by
  rcases h with h | h | ⟨d, h⟩ | ⟨d, h, hd⟩
  · cases h
  · cases h
  · cases h
  · obtain ⟨rfl, -⟩ := Mark.char.inj h
    exact hd

theorem inert_of_printed {m : Mark} (h : m.Printed) : m.Inert := by
  rintro c q rfl hq
  rcases h with h | h | ⟨d, h⟩ | ⟨d, h, hd⟩
  · cases h
  · obtain ⟨rfl, -⟩ := Mark.char.inj h
    decide
  · obtain ⟨-, rfl⟩ := Mark.char.inj h
    cases hq
  · obtain ⟨rfl, rfl⟩ := Mark.char.inj h
    constructor <;>
    · rintro rfl
      cases hd

theorem isOperator_printed {m : Mark} (h : m.Printed) : isOperator m = false := by
  by_contra hop
  unfold isOperator at hop
  split at hop
  · rename_i c
    have hsafe := isSafe_of_printed h
    simp only [List.mem_cons, List.not_mem_nil, or_false, Bool.not_eq_false,
      decide_eq_true_eq] at hop
    rcases hop with rfl | rfl | rfl | rfl | rfl | rfl | rfl | rfl <;> cases hsafe
  · exact hop rfl

theorem literal_of_printed (h : ∀ m ∈ w, m.Printed) : Static w ∧ hasTilde w = false := by
  refine ⟨pieces_inert fun m hm => inert_of_printed (h m hm), hasTilde_of_not_mem fun hm => ?_⟩
  cases isSafe_of_printed (h _ hm)

theorem bashText_quoteMarks (t : Chars) : bashText (quoteMarks t) = t :=
  flatMap_markText_quoteMarks bashSpecials t

/-- Only a text of safe characters is printed as an assignment. -/
theorem safe_of_isAssignment (h : isAssignment (quoteMarks t) = true) : t.all isSafe = true := by
  obtain ⟨⟨target, value⟩, hassign⟩ := Option.isSome_iff_exists.mp h
  have hmem : equals ∈ quoteMarks t := by
    rw [assignment_eq hassign]
    simp
  unfold quoteMarks at hmem
  split_ifs at hmem with hnil hsafe
  · simp [equals] at hmem
  · exact hsafe
  · rcases List.mem_cons.mp hmem with h | h
    · cases h
    · obtain ⟨c, -, h⟩ := List.mem_flatMap.mp h
      split_ifs at h <;> simp [equals] at h

theorem span_append {α : Type*} {p : α → Bool} {front back : List α}
    (hfront : ∀ a ∈ front, p a = true) (hback : ∀ a ∈ back.head?, p a = false) :
    (front ++ back).takeWhile p = front ∧ (front ++ back).dropWhile p = back := by
  rw [List.takeWhile_append_of_pos hfront, List.dropWhile_append_of_pos hfront]
  cases back with
  | nil => simp
  | cons a back => simp [hback a rfl]

theorem command_literal {as cs : List (List Mark)}
    (has : ∀ w ∈ as, isAssignment w = true ∧ (bashText w).all isSafe = true)
    (hcs : ∀ w ∈ cs, w ≠ [] ∧ Static w ∧ hasTilde w = false)
    (hhead : ∀ w ∈ cs.head?, isAssignment w = false) (sh : State) :
    command sh (as ++ cs) =
      some ⟨as.map fun w => splitAssignment (bashText w), cs.map bashText⟩ := by
  obtain ⟨htake, hdrop⟩ := span_append (fun w hw => (has w hw).1) hhead
  have hargv : cs.mapM (expandWord sh) = some (cs.map fun w => [bashText w]) := by
    clear hhead htake hdrop
    induction cs with
    | nil => rfl
    | cons w cs ih =>
      rw [List.forall_mem_cons] at hcs
      rw [List.mapM_cons, expandWord_static hcs.1.1 hcs.1.2.1 hcs.1.2.2, ih hcs.2]
      rfl
  have hflatten : (cs.map fun w => [bashText w]).flatten = cs.map bashText := by
    clear hcs hhead htake hdrop hargv
    induction cs with
    | nil => rfl
    | cons w cs ih => simp [ih]
  rw [command, htake, hdrop, hargv, assign_safe has]
  simp [hflatten]

/-- The text is printed as an assignment. -/
def printsAssignment (t : Chars) : Bool := isAssignment (quoteMarks t)

def printsReserved (t : Chars) : Bool := isReserved (quoteMarks t)

theorem command_quoteMarks (ts : List Chars) (sh : State) :
    command sh (ts.map quoteMarks) =
      some ⟨(ts.takeWhile printsAssignment).map splitAssignment,
        ts.dropWhile printsAssignment⟩ := by
  have happ : ts.map quoteMarks = (ts.takeWhile printsAssignment).map quoteMarks ++
      (ts.dropWhile printsAssignment).map quoteMarks := by
    rw [← List.map_append, List.takeWhile_append_dropWhile]
  rw [happ, command_literal]
  · simp [List.map_map, Function.comp_def, bashText_quoteMarks]
  · intro w hw
    obtain ⟨t, ht, rfl⟩ := List.mem_map.mp hw
    have hprints : printsAssignment t = true := List.mem_takeWhile_imp ht
    exact ⟨hprints, by rw [bashText_quoteMarks]; exact safe_of_isAssignment hprints⟩
  · intro w hw
    obtain ⟨t, -, rfl⟩ := List.mem_map.mp hw
    exact ⟨quoteMarks_ne_nil t, literal_of_printed fun m => mem_quoteMarks⟩
  · intro w hw
    rw [List.head?_map] at hw
    obtain ⟨t, ht, rfl⟩ := Option.map_eq_some_iff.mp hw
    have hnot := List.head?_dropWhile_not printsAssignment ts
    rw [ht] at hnot
    simpa [printsAssignment] using hnot

theorem isSafe_bashBlanks {c : Char} (h : c ∈ bashBlanks) : isSafe c = false := by
  simp only [bashBlanks, List.mem_cons, List.not_mem_nil, or_false] at h
  rcases h with rfl | rfl <;> rfl

/-- Printed words are the words of the command. -/
theorem run_printed {cmd : Chars} {ws : List (List Mark)}
    (h : ∀ w ∈ ws, w ≠ [] ∧ ∀ m ∈ w, m.Printed)
    (hscan : scan .plain cmd = some ([.char ' ' .plain].intercalate ws)) (sh : State) :
    run sh cmd = if ws.head?.any isReserved = true then none else command sh ws := by
  have hwords : words bashBlanks ([.char ' ' .plain].intercalate ws) = ws :=
    words_intercalate (by decide) fun w hw =>
      ⟨(h w hw).1, fun m hm => separates_printed (fun _ => isSafe_bashBlanks) ((h w hw).2 m hm)⟩
  have hcomment : ws.takeWhile (!isComment ·) = ws := by
    rw [List.takeWhile_eq_self_iff]
    intro w hw
    simp only [isComment, Bool.not_eq_true', decide_eq_false_iff_not]
    intro hhead
    cases isSafe_of_printed ((h w hw).2 _ (List.mem_of_mem_head? hhead))
  have hoperator : ws.any (·.any isOperator) = false := by
    rw [List.any_eq_false]
    intro w hw
    rw [List.any_eq_true]
    rintro ⟨m, hm, hop⟩
    rw [isOperator_printed ((h w hw).2 m hm)] at hop
    cases hop
  rw [run, hscan, Option.bind_some, bashWords]
  simp only [hwords, hcomment, hoperator]
  split_ifs
  all_goals simp_all

/-- A joined command is read as its texts. -/
theorem run_join (ts : List Chars) (sh : State) :
    run sh (join ts) = if ts.head?.any printsReserved = true then none
      else some ⟨(ts.takeWhile printsAssignment).map splitAssignment,
        ts.dropWhile printsAssignment⟩ := by
  have hprinted : ∀ w ∈ ts.map quoteMarks, w ≠ [] ∧ ∀ m ∈ w, m.Printed := by
    intro w hw
    obtain ⟨t, -, rfl⟩ := List.mem_map.mp hw
    exact ⟨quoteMarks_ne_nil t, fun m => mem_quoteMarks⟩
  have hreserved : (ts.map quoteMarks).head?.any isReserved = ts.head?.any printsReserved := by
    rw [List.head?_map]
    cases ts.head? <;> rfl
  rw [run_printed hprinted (scan_join ts), hreserved, command_quoteMarks]

end Printing

end Shell
end ACGlass
