import ACGlass.Shell.Commands
import Mathlib.Data.List.DropRight

/-!
# Scripts with command substitutions

Simple commands stand one behind the other, all but the last being assignments. A value or a
part between double quotes may hold the output of a pipeline of simple commands. Scripts of
another kind have no result.
-/

namespace ACGlass
namespace Shell

/-- What a program prints, given its words and its input; none if it is not known or fails. -/
abbrev Tools := List Chars → Chars → Option Chars

section Substitution

/-- Outside of a command substitution, behind a `$`, or inside of one. -/
inductive Nesting
  | text
  | dollar (q : Quoting)
  | inside (q : Quoting) (cmd : List Mark)

/-- A `$` that is special. -/
def dollarOf : Mark → Option Quoting
  | .char '$' .plain => some .plain
  | .char '$' .double => some .double
  | _ => none

/-- Between double quotes the command is read anew. Further parentheses have no result, and no
more do quotes between double quotes. -/
def innerMark (q : Quoting) (m : Mark) : Option Mark :=
  match q, m with
  | .plain, m => if m = .char '(' .plain then none else some m
  | .double, .char c .double => if c ∈ ['(', '\''] then none else some (.char c .plain)
  | _, _ => none

/-- The marks with the outputs in place of the commands. Outputs are not read again; where a
bare one could be split, `bare` is false. -/
def substitute (bare : Bool) (output : List Mark → Option Chars) :
    Nesting → List Mark → Option (List Mark)
  | .text, [] => some []
  | .dollar q, [] => some [.char '$' q]
  | .inside _ _, [] => none
  | .text, m :: ms =>
    match dollarOf m with
    | some q => substitute bare output (.dollar q) ms
    | none => (substitute bare output .text ms).map (m :: ·)
  | .dollar q, m :: ms =>
    if m = .char '(' q then
      if q = .plain ∧ bare = false then none else substitute bare output (.inside q []) ms
    else if m = .char '$' q then
      (substitute bare output .text ms).map ([.char '$' q, m] ++ ·)
    else
      match dollarOf m with
      | some q' => (substitute bare output (.dollar q') ms).map (.char '$' q :: ·)
      | none => (substitute bare output .text ms).map ([.char '$' q, m] ++ ·)
  | .inside q cmd, m :: ms =>
    if m = .char ')' q then
      (output cmd).bind fun text =>
        (substitute bare output .text ms).map (text.map (.char · .single) ++ ·)
    else
      (innerMark q m).bind fun m => substitute bare output (.inside q (cmd ++ [m])) ms

end Substitution

section Running

variable (tools : Tools) (sh : State)

/-- One command of a pipeline. -/
def stage (input : Chars) (ms : List Mark) : Option Chars := do
  let ws ← bashWords ms
  let x ← command sh ws
  if x.assigns = [] ∧ x.argv ≠ [] then tools x.argv input else none

/-- What stands for a pipeline: no zeros, and no line feeds at the end. -/
def output (cmd : List Mark) : Option Chars :=
  ((cmd.splitOn (.char '|' .plain)).foldlM (stage tools sh) []).map fun text =>
    (text.filter (· ≠ '\x00')).rdropWhile (· = '\n')

/-- One command of a script. Only assignments may hold bare substitutions. -/
def statement (ms : List Mark) : Option Simple := do
  let ws ← (substitute true (output tools sh) .text ms).bind bashWords
  if ws.all isAssignment = true then command sh ws
  else ((substitute false (output tools sh) .text ms).bind bashWords).bind (command sh)

/-- The shell behind assignments. -/
def State.assigned (sh : State) (x : Simple) : State :=
  x.assigns.foldl (fun sh a => sh.set a.1 a.2) sh

/-- The last command of a script. -/
def script (sh : State) : List (List Mark) → Option Simple
  | [] => none
  | [ms] => statement tools sh ms
  | ms :: mss =>
    (statement tools sh ms).bind fun x => if x.argv = [] then script (sh.assigned x) mss else none

/-- What `bash -c` makes of a script. -/
def runScript (text : Chars) : Option Simple :=
  (scan .plain text).bind fun ms => script tools sh (ms.splitOn (.char ';' .plain))

end Running

section Substituting

variable {bare : Bool} {out : List Mark → Option Chars} {ms ms' ns ns' : List Mark}

/-- The marks become others, however the command goes on. -/
def Substitutes (bare : Bool) (out : List Mark → Option Chars) (ms ms' : List Mark) : Prop :=
  ∀ rest, substitute bare out .text (ms ++ rest) = (substitute bare out .text rest).map (ms' ++ ·)

theorem Substitutes.eq (h : Substitutes bare out ms ms') :
    substitute bare out .text ms = some ms' := by
  have hall := h []
  simpa [substitute] using hall

theorem Substitutes.append (h : Substitutes bare out ms ms') (h' : Substitutes bare out ns ns') :
    Substitutes bare out (ms ++ ns) (ms' ++ ns') := by
  intro rest
  rw [List.append_assoc, h, h', Option.map_map]
  simp [Function.comp_def]

theorem dollarOf_inert {m : Mark} (h : m.Inert) : dollarOf m = none := by
  unfold dollarOf
  split
  · exact absurd rfl (h '$' .plain rfl rfl).2
  · exact absurd rfl (h '$' .double rfl rfl).2
  · rfl

theorem substitutes_inert (h : ∀ m ∈ ms, m.Inert) : Substitutes bare out ms ms := by
  intro rest
  induction ms with
  | nil => simp
  | cons m ms ih =>
    rw [List.forall_mem_cons] at h
    rw [List.cons_append, substitute, dollarOf_inert h.1]
    dsimp only
    rw [ih h.2, Option.map_map]
    rfl

/-- A parameter is left for later. -/
theorem substitutes_dollar {q : Quoting} {m : Mark} (hq : dollarOf (.char '$' q) = some q)
    (hm : m.Inert) (hopen : m ≠ .char '(' q) :
    Substitutes bare out [.char '$' q, m] [.char '$' q, m] := by
  have hdollar : m ≠ .char '$' q := by
    rintro rfl
    rw [dollarOf_inert hm] at hq
    cases hq
  intro rest
  rw [List.cons_append, List.singleton_append, substitute, hq]
  dsimp only
  rw [substitute, if_neg hopen, if_neg hdollar, dollarOf_inert hm]

theorem substitute_inside {q : Quoting} {cmd inner acc rest : List Mark}
    (h : List.Forall₂ (fun m m' => innerMark q m = some m' ∧ m ≠ .char ')' q) cmd inner) :
    substitute bare out (.inside q acc) (cmd ++ .char ')' q :: rest) =
      (out (acc ++ inner)).bind fun text =>
        (substitute bare out .text rest).map (text.map (.char · .single) ++ ·) := by
  induction h generalizing acc with
  | nil =>
    rw [List.nil_append, substitute, if_pos rfl, List.append_nil]
  | cons hm _ ih =>
    rw [List.cons_append, substitute, if_neg hm.2, hm.1, Option.bind_some, ih]
    simp

/-- A command is replaced by its output. -/
theorem substitutes_command {q : Quoting} {cmd inner : List Mark} {text : Chars}
    (hq : dollarOf (.char '$' q) = some q) (hbare : q = .plain → bare = true)
    (h : List.Forall₂ (fun m m' => innerMark q m = some m' ∧ m ≠ .char ')' q) cmd inner)
    (hout : out inner = some text) :
    Substitutes bare out (.char '$' q :: .char '(' q :: cmd ++ [.char ')' q])
      (text.map (.char · .single)) := by
  intro rest
  rw [List.append_assoc, List.singleton_append, List.cons_append, List.cons_append, substitute, hq]
  dsimp only
  rw [substitute, if_pos rfl, if_neg fun hand => by simp [hbare hand.1] at hand,
    substitute_inside h, List.nil_append, hout, Option.bind_some]

end Substituting

section Values

variable {sh : State} {ms : List Mark}

/-- What has been read without an open quote is read so in front of anything. -/
theorem scans_of_scan {t : Chars} (h : scan .plain t = some ms) : Scans t ms := by
  have hall : ∀ (mode : Mode) (ms : List Mark), scan mode t = some ms →
      ∀ rest, scan mode (t ++ rest) = (scan .plain rest).map (ms ++ ·) := by
    clear h
    induction t with
    | nil =>
      intro mode ms h rest
      cases mode with
      | plain =>
        obtain rfl := Option.some.inj h
        simp
      | escape | single | double | doubleEscape => cases h
    | cons c t ih =>
      have hmark : ∀ {mode : Mode} {m : Mark} {ms : List Mark},
          (scan mode t).map (m :: ·) = some ms → ∀ rest,
            (scan mode (t ++ rest)).map (m :: ·) = (scan .plain rest).map (ms ++ ·) := by
        intro mode m ms h rest
        obtain ⟨ms', hms', rfl⟩ := Option.map_eq_some_iff.mp h
        rw [ih mode ms' hms', Option.map_map]
        rfl
      intro mode ms h rest
      cases mode with
      | plain =>
        rw [scan] at h
        rw [List.cons_append, scan]
        split_ifs at h ⊢
        · exact hmark h rest
        · exact hmark h rest
        · exact ih .escape ms h rest
        · exact hmark h rest
      | escape => exact hmark h rest
      | doubleEscape => exact hmark h rest
      | single =>
        rw [scan] at h
        rw [List.cons_append, scan]
        split_ifs at h ⊢
        · exact ih .plain ms h rest
        · exact hmark h rest
      | double =>
        rw [scan] at h
        rw [List.cons_append, scan]
        split_ifs at h ⊢
        · exact ih .plain ms h rest
        · exact ih .doubleEscape ms h rest
        · exact hmark h rest
  exact hall .plain ms h

theorem pieces_inert_append (h : ∀ m ∈ ms, m.Inert) (rest : List Mark) :
    pieces .text (ms ++ rest) = (pieces .text rest).map (ms.map .mark ++ ·) := by
  induction ms with
  | nil => simp
  | cons m ms ih =>
    rw [List.forall_mem_cons] at h
    rw [List.cons_append, pieces, read, readText_inert h.1, Option.bind_some, ih h.2,
      Option.map_map]
    rfl

theorem pieces_name {q : Quoting} {name cs : Chars} (h : ∀ c ∈ cs, isNameChar c = true) :
    pieces (.name q name) (cs.map (.char · q)) = some [.param (name ++ cs) q] := by
  induction cs generalizing name with
  | nil => simp [pieces, readEnd]
  | cons c cs ih =>
    rw [List.forall_mem_cons] at h
    rw [List.map_cons, pieces, read, if_pos ⟨rfl, h.1⟩, Option.bind_some, ih h.2]
    simp

/-- A parameter between double quotes. -/
def paramMarks (name : Chars) : List Mark := .char '$' .double :: name.map (.char · .double)

theorem pieces_paramMarks {name : Chars} (h : isName name = true) :
    pieces .text (paramMarks name) = some [.param name .double] := by
  cases name with
  | nil => cases h
  | cons c cs =>
    rw [isName, Bool.and_eq_true, List.all_eq_true] at h
    have hdollar : read .text (.char '$' .double) = some (.dollar .double, []) := by decide
    have hname : read (.dollar .double) (.char c .double) = some (.name .double [c], []) := by
      rw [read, if_neg (by simp), if_pos h.1]
    rw [paramMarks, pieces, hdollar, Option.bind_some, List.map_cons, pieces, hname,
      Option.bind_some, pieces_name h.2]
    rfl

theorem expandValue_eq (htilde : .char '~' .plain ∉ ms) {ps : List Piece}
    (h : pieces .text ms = some ps) :
    expandValue sh ms = some (glyphText (ps.flatMap (Piece.glyphs sh))) := by
  have htildes : tildes sh ms = ms := by
    apply tildes_eq
    intro segment hsegment
    have hsub : segment.Sublist ms := sublist_segments hsegment
    rw [tildeName_of_not_mem fun hmem => htilde (hsub.subset hmem)]
    rfl
  rw [expandValue, htildes, expand, h]
  rfl

theorem glyphText_marks (ms : List Mark) :
    glyphText ((ms.map Piece.mark).flatMap (Piece.glyphs sh)) = bashText ms := by
  induction ms with
  | nil => rfl
  | cons m ms ih =>
    rw [List.map_cons, List.flatMap_cons, glyphText_append, glyphs_mark, ih]
    rfl

theorem glyphText_param (name : Chars) (q : Quoting) :
    glyphText ((Piece.param name q).glyphs sh) = sh.param name := by
  simp [Piece.glyphs, glyphText, List.flatMap_map, Glyph.text]

theorem expandValue_inert (htilde : .char '~' .plain ∉ ms) (h : ∀ m ∈ ms, m.Inert) :
    expandValue sh ms = some (bashText ms) := by
  rw [expandValue_eq htilde (pieces_inert h), glyphText_marks]

/-- A value that ends with a parameter between double quotes. -/
theorem expandValue_param (htilde : .char '~' .plain ∉ ms) (h : ∀ m ∈ ms, m.Inert)
    {name : Chars} (hname : isName name = true) :
    expandValue sh (ms ++ paramMarks name) = some (bashText ms ++ sh.param name) := by
  have htilde' : .char '~' .plain ∉ ms ++ paramMarks name := by
    rw [List.mem_append]
    rintro (hmem | hmem)
    · exact htilde hmem
    · simp [paramMarks] at hmem
  have hpieces : pieces .text (ms ++ paramMarks name) =
      some (ms.map .mark ++ [.param name .double]) := by
    rw [pieces_inert_append h, pieces_paramMarks hname, Option.map_some]
  rw [expandValue_eq htilde' hpieces, List.flatMap_append, glyphText_append, glyphText_marks,
    List.flatMap_singleton, glyphText_param]

/-- A word that is a parameter between double quotes stays one word. -/
theorem expandWord_param {name : Chars} (hname : isName name = true) :
    expandWord sh (.quote :: paramMarks name) = some [sh.param name] := by
  have htilde : .char '~' .plain ∉ Mark.quote :: paramMarks name := by simp [paramMarks]
  have hpieces : pieces .text (.quote :: paramMarks name) =
      some [.mark .quote, .param name .double] := by
    have hquote : ∀ m ∈ [Mark.quote], m.Inert := by simp [Mark.Inert]
    have happ := pieces_inert_append hquote (paramMarks name)
    rw [List.singleton_append, pieces_paramMarks hname] at happ
    exact happ
  rw [expandWord, tildeWord_eq (hasTilde_of_not_mem htilde), expand, hpieces, Option.map_some,
    Option.map_some, fields_eq]
  · simp [glyphText, Piece.glyphs, Glyph.text, List.flatMap_map]
  · simp [Piece.glyphs]
  · intro g hg
    simp only [Piece.glyphs, List.flatMap_cons, List.flatMap_nil, List.append_nil,
      List.singleton_append, List.mem_cons, List.mem_map] at hg
    rcases hg with rfl | ⟨c, -, rfl⟩ <;> rfl

end Values

section Statements

variable {tools : Tools} {sh : State}

/-- A mark inside of a word. -/
def Mark.Solid (m : Mark) : Prop := separates bashBlanks m = false ∧ isOperator m = false

instance (m : Mark) : Decidable m.Solid := inferInstanceAs (Decidable (_ ∧ _))

/-- A word of a simple command. -/
structure SolidWord (w : List Mark) : Prop where
  nonempty : w ≠ []
  solid : ∀ m ∈ w, m.Solid
  comment : isComment w = false

theorem words_blank (ms : List Mark) :
    words bashBlanks (.char ' ' .plain :: ms) = words bashBlanks ms := by
  rw [words, List.splitOnP_cons_eq_if_modifyHead, if_pos (by decide)]
  rfl

/-- Words with blanks between them, and maybe in front. -/
theorem bashWords_intercalate {ws : List (List Mark)} (h : ∀ w ∈ ws, SolidWord w)
    (hreserved : ws.head?.any isReserved = false) :
    bashWords ([.char ' ' .plain].intercalate ws) = some ws ∧
      bashWords (.char ' ' .plain :: [.char ' ' .plain].intercalate ws) = some ws := by
  have hwords : words bashBlanks ([.char ' ' .plain].intercalate ws) = ws :=
    words_intercalate (by decide) fun w hw =>
      ⟨(h w hw).nonempty, fun m hm => ((h w hw).solid m hm).1⟩
  have hcomment : ws.takeWhile (!isComment ·) = ws := by
    rw [List.takeWhile_eq_self_iff]
    intro w hw
    simp [(h w hw).comment]
  have hoperator : ws.any (·.any isOperator) = false := by
    rw [List.any_eq_false]
    intro w hw
    rw [List.any_eq_true]
    rintro ⟨m, hm, hop⟩
    rw [((h w hw).solid m hm).2] at hop
    cases hop
  have hsome : bashWords ([.char ' ' .plain].intercalate ws) = some ws := by
    rw [bashWords]
    simp only [hwords, hcomment]
    rw [if_neg]
    simp [hoperator, hreserved]
  refine ⟨hsome, ?_⟩
  rw [← hsome, bashWords, words_blank]
  rfl

/-- Quoted, or in need of no quotes. -/
def Mark.isClean : Mark → Bool
  | .char c .plain => isSafe c
  | _ => true

theorem not_mem_of_clean {w : List Mark} (h : w.all Mark.isClean = true) {c : Char}
    (hc : isSafe c = false) : .char c .plain ∉ w := by
  intro hmem
  have hclean : isSafe c = true := List.all_eq_true.mp h _ hmem
  rw [hc] at hclean
  cases hclean

theorem solidWord_of_clean {w : List Mark} (hne : w ≠ []) (h : w.all Mark.isClean = true) :
    SolidWord w where
  nonempty := hne
  solid m hm := by
    have hplain : ∀ c, isSafe c = false → m ≠ .char c .plain := by
      rintro c hc rfl
      exact not_mem_of_clean h hc hm
    constructor
    · unfold separates
      split
      · rename_i c
        refine decide_eq_false fun hblank => ?_
        exact hplain c (isSafe_bashBlanks hblank) rfl
      · rfl
    · unfold isOperator
      split
      · rename_i c
        refine decide_eq_false fun hop => ?_
        have hbare : (['\n', ';', '|', '&', '<', '>', '(', ')'].all fun c => !isSafe c) = true := by
          decide
        have hsafe : isSafe c = false := by simpa using List.all_eq_true.mp hbare c hop
        exact hplain c hsafe rfl
      · rfl
  comment := by
    rw [isComment, decide_eq_false_iff_not]
    intro hhead
    exact not_mem_of_clean h (by decide) (List.mem_of_mem_head? hhead)

/-- A statement without bare substitutions. -/
theorem statement_eq {ms ms' : List Mark} {ws : List (List Mark)}
    (h : ∀ bare, substitute bare (output tools sh) .text ms = some ms')
    (hws : bashWords ms' = some ws) : statement tools sh ms = command sh ws := by
  rw [statement, h true, h false, Option.bind_some, hws]
  simp

/-- A statement of assignments. -/
theorem statement_assignments {ms ms' : List Mark} {ws : List (List Mark)}
    (h : substitute true (output tools sh) .text ms = some ms') (hws : bashWords ms' = some ws)
    (hall : ws.all isAssignment = true) : statement tools sh ms = command sh ws := by
  rw [statement, h, Option.bind_some, hws, Option.bind_eq_bind, Option.bind_some, if_pos hall]

/-- Clean, and not special between double quotes. -/
def Mark.isLiteral : Mark → Bool
  | .char c .plain => isSafe c
  | .char c .double => c ∉ ['$', '`']
  | _ => true

theorem literal_spec {w : List Mark} (h : w.all Mark.isLiteral = true) :
    w.all Mark.isClean = true ∧ ∀ m ∈ w, m.Inert := by
  rw [List.all_eq_true] at h
  rw [List.all_eq_true]
  constructor
  · intro m hm
    have hliteral := h m hm
    unfold Mark.isClean
    split
    · exact hliteral
    · rfl
  · rintro m hm c q rfl hq
    have hliteral := h _ hm
    cases q with
    | plain =>
      change isSafe c = true at hliteral
      constructor <;>
      · rintro rfl
        cases hliteral
    | double =>
      have hmem : c ∉ ['$', '`'] := of_decide_eq_true hliteral
      constructor <;>
      · rintro rfl
        simp at hmem
    | single | escaped | doubleEscaped => cases hq

theorem literal_plain {t : Chars} (h : t.all isSafe = true) :
    (t.map (Mark.char · .plain)).all Mark.isLiteral = true := by
  rw [List.all_map]
  exact h

theorem expandWord_literal {w : List Mark} (hne : w ≠ []) (h : w.all Mark.isLiteral = true) :
    expandWord sh w = some [bashText w] := by
  obtain ⟨hclean, hinert⟩ := literal_spec h
  have htilde : hasTilde w = false := hasTilde_of_not_mem (not_mem_of_clean hclean (by decide))
  exact expandWord_static hne (pieces_inert hinert) htilde sh

theorem substitutes_literal {bare : Bool} {out : List Mark → Option Chars} {w : List Mark}
    (h : w.all Mark.isLiteral = true) : Substitutes bare out w w :=
  substitutes_inert (literal_spec h).2

theorem substitutes_paramMarks {bare : Bool} {out : List Mark → Option Chars} {name : Chars}
    (h : isName name = true) :
    Substitutes bare out (paramMarks name) (paramMarks name) := by
  cases name with
  | nil => cases h
  | cons c cs =>
    rw [isName, Bool.and_eq_true, List.all_eq_true] at h
    have hname : ∀ c, isNameChar c = true → c ≠ '$' ∧ c ≠ '`' ∧ c ≠ '(' := by
      intro c hc
      refine ⟨?_, ?_, ?_⟩ <;>
      · rintro rfl
        cases hc
    have hstart : isNameChar c = true := by
      have hc := h.1
      rw [isNameStart, Bool.or_eq_true] at hc
      rw [isNameChar, Bool.or_eq_true]
      exact hc.imp_left fun hc => by rw [Char.isAlphanum, hc, Bool.true_or]
    have hinert : ∀ c, isNameChar c = true → Mark.Inert (.char c .double) := by
      rintro c hc _ _ ⟨rfl, rfl⟩ -
      exact ⟨(hname c hc).2.1, (hname c hc).1⟩
    have hcs : ∀ m ∈ cs.map (Mark.char · .double), m.Inert := by
      intro m hm
      obtain ⟨d, hd, rfl⟩ := List.mem_map.mp hm
      exact hinert d (h.2 d hd)
    apply (substitutes_dollar rfl (hinert c hstart) ?_).append (substitutes_inert hcs)
    exact fun hopen => (hname c hstart).2.2 (Mark.char.inj hopen).1

/-- A word of a script, and what becomes of it behind substitution. -/
structure Part where
  text : Chars
  marks : List Mark
  filled : List Mark

structure Part.Fills (p : Part) (out : List Mark → Option Chars) : Prop where
  scans : Scans p.text p.marks
  clean : p.marks.all Mark.isClean = true
  substitutes : ∀ bare, Substitutes bare out p.marks p.filled
  nonempty : p.filled ≠ []
  filledClean : p.filled.all Mark.isClean = true

theorem substitutes_intercalate {bare : Bool} {out : List Mark → Option Chars} {ps : List Part}
    (h : ∀ p ∈ ps, Substitutes bare out p.marks p.filled) :
    Substitutes bare out ([.char ' ' .plain].intercalate (ps.map Part.marks))
      ([.char ' ' .plain].intercalate (ps.map Part.filled)) := by
  have hblank : Substitutes bare out [.char ' ' .plain] [.char ' ' .plain] :=
    substitutes_inert (by simp [Mark.Inert])
  induction ps with
  | nil => exact substitutes_inert (by simp)
  | cons p ps ih =>
    rw [List.forall_mem_cons] at h
    cases ps with
    | nil => simpa using h.1
    | cons q ps =>
      simp only [List.map_cons, List.intercalate_cons_cons]
      exact (h.1.append hblank).append (ih h.2)

theorem mem_intercalate {α : Type*} {sep : List α} {ls : List (List α)} {a : α}
    (h : a ∈ sep.intercalate ls) : a ∈ sep ∨ ∃ l ∈ ls, a ∈ l := by
  induction ls with
  | nil => cases h
  | cons l ls ih =>
    cases ls with
    | nil => exact .inr ⟨l, List.mem_cons_self, by simpa using h⟩
    | cons l' ls =>
      rw [List.intercalate_cons_cons, List.mem_append, List.mem_append] at h
      rcases h with (h | h) | h
      · exact .inr ⟨l, List.mem_cons_self, h⟩
      · exact .inl h
      · exact (ih h).imp_right fun ⟨l'', hl'', hmem⟩ => ⟨l'', List.mem_cons_of_mem _ hl'', hmem⟩

/-- Parts with blanks between them, and maybe in front. -/
theorem statement_parts {ps : List Part} (h : ∀ p ∈ ps, p.Fills (output tools sh))
    (hreserved : (ps.map Part.filled).head?.any isReserved = false) :
    statement tools sh ([.char ' ' .plain].intercalate (ps.map Part.marks)) =
        command sh (ps.map Part.filled) ∧
      statement tools sh (.char ' ' .plain :: [.char ' ' .plain].intercalate (ps.map Part.marks)) =
        command sh (ps.map Part.filled) := by
  have hsub : ∀ bare, Substitutes bare (output tools sh)
      ([.char ' ' .plain].intercalate (ps.map Part.marks))
      ([.char ' ' .plain].intercalate (ps.map Part.filled)) :=
    fun bare => substitutes_intercalate fun p hp => (h p hp).substitutes bare
  have hblank : ∀ bare, Substitutes bare (output tools sh) [.char ' ' .plain]
      [.char ' ' .plain] := fun bare => substitutes_inert (by simp [Mark.Inert])
  have hsolid : ∀ w ∈ ps.map Part.filled, SolidWord w := by
    intro w hw
    obtain ⟨p, hp, rfl⟩ := List.mem_map.mp hw
    exact solidWord_of_clean (h p hp).nonempty (h p hp).filledClean
  obtain ⟨hwords, hblankWords⟩ := bashWords_intercalate hsolid hreserved
  constructor
  · exact statement_eq (fun bare => (hsub bare).eq) hwords
  · exact statement_eq (fun bare => ((hblank bare).append (hsub bare)).eq) hblankWords

/-- An assignment with the marks and the text of its value. -/
structure Setting where
  target : Chars
  marks : List Mark
  value : Chars

namespace Setting

variable (st : Setting)

def word : List Mark := st.target.map (.char · .plain) ++ equals :: st.marks

/-- The value is the same in all shells in which the parameters with the names are, and it is
set for another name. -/
structure Reads (st : Setting) (sh : State) (names : List Chars) : Prop where
  target : isTarget st.target = true ∧ '=' ∉ st.target ∧ st.target.getLast? ≠ some '+'
  other : st.target ∉ names
  value : ∀ sh' : State, (∀ name ∈ names, sh'.param name = sh.param name) →
    expandValue sh' st.marks = some st.value

end Setting

theorem assignment_word {st : Setting} (htarget : isTarget st.target = true)
    (heq : '=' ∉ st.target) : assignment st.word = some (st.target, st.marks) := by
  have hne : ∀ m ∈ st.target.map (.char · .plain), decide (m ≠ equals) = true := by
    intro m hm
    obtain ⟨c, hc, rfl⟩ := List.mem_map.mp hm
    refine decide_eq_true fun hequals => heq ?_
    obtain ⟨rfl, -⟩ := Mark.char.inj hequals
    exact hc
  have hplain : ∀ t : Chars, (t.map (.char · .plain)).mapM Mark.plainChar = some t := by
    intro t
    induction t with
    | nil => rfl
    | cons c t ih =>
      rw [List.map_cons, List.mapM_cons, ih]
      rfl
  rw [assignment, Setting.word, List.dropWhile_append_of_pos hne, List.takeWhile_append_of_pos hne]
  simp [hplain, htarget]

/-- No reserved word holds an equals sign. -/
theorem Setting.isReserved_word (st : Setting) : isReserved st.word = false := by
  rw [isReserved, Bool.eq_false_iff]
  intro hany
  obtain ⟨t, ht, hreserved⟩ := (Option.any_eq_true _ _).mp hany
  have hequals : equals ∈ t.map (Mark.char · .plain) := by
    rw [← mapM_plainChar ht]
    simp [word]
  obtain ⟨c, hc, heq⟩ := List.mem_map.mp hequals
  obtain ⟨rfl, -⟩ := Mark.char.inj heq
  have hnone : ∀ w ∈ reservedWords, '=' ∉ w := by decide
  exact hnone t (List.contains_iff_mem.mp hreserved) hc

/-- The part for a setting whose value is written so. -/
def Setting.part (st : Setting) (text : Chars) (marks : List Mark) : Part :=
  ⟨st.target ++ '=' :: text, st.target.map (.char · .plain) ++ equals :: marks, st.word⟩

theorem Setting.part_fills {st : Setting} {text : Chars} {marks : List Mark}
    {out : List Mark → Option Chars} (htarget : st.target.all isSafe = true)
    (hscan : Scans text marks) (hclean : marks.all Mark.isClean = true)
    (hfills : ∀ bare, Substitutes bare out marks st.marks)
    (hfilled : st.marks.all Mark.isClean = true) : (st.part text marks).Fills out := by
  have hfront : (st.target ++ ['=']).all isSafe = true := by
    rw [List.all_append, htarget]
    rfl
  have hmarks : ∀ ms : List Mark, st.target.map (.char · .plain) ++ equals :: ms =
      (st.target ++ ['=']).map (.char · .plain) ++ ms := by simp [equals]
  have hliteral := literal_plain hfront
  refine ⟨?_, ?_, fun bare => ?_, by simp [part, word], ?_⟩
  · have htext : (st.part text marks).text = (st.target ++ ['=']) ++ text := by simp [part]
    have hpart : (st.part text marks).marks =
        (st.target ++ ['=']).map (.char · .plain) ++ marks := hmarks marks
    rw [htext, hpart]
    exact (scan_safe hfront).append hscan
  · rw [part, hmarks, List.all_append, (literal_spec hliteral).1, hclean]
    rfl
  · rw [part, word, hmarks, hmarks]
    exact (substitutes_literal hliteral).append (hfills bare)
  · change (st.target.map (Mark.char · .plain) ++ equals :: st.marks).all Mark.isClean = true
    rw [hmarks, List.all_append, (literal_spec hliteral).1, hfilled]
    rfl

/-- The part for a word that needs no quotes. -/
def Part.literal (t : Chars) : Part := ⟨t, t.map (.char · .plain), t.map (.char · .plain)⟩

theorem Part.literal_fills {t : Chars} {out : List Mark → Option Chars}
    (h : t.all isSafe = true) (hne : t ≠ []) : (Part.literal t).Fills out where
  scans := scan_safe h
  clean := (literal_spec (literal_plain h)).1
  substitutes _ := substitutes_literal (literal_plain h)
  nonempty := by simpa [literal] using hne
  filledClean := (literal_spec (literal_plain h)).1

/-- Settings one behind the other, none of which is read by another. -/
theorem assign_settings {names : List Chars} {sts : List Setting}
    (h : ∀ st ∈ sts, st.Reads sh names) {sh' : State}
    (hsame : ∀ name ∈ names, sh'.param name = sh.param name) :
    assign sh' (sts.map Setting.word) = some (sts.map fun st => (st.target, st.value)) := by
  induction sts generalizing sh' with
  | nil => rfl
  | cons st sts ih =>
    rw [List.forall_mem_cons] at h
    obtain ⟨htarget, heq, hplus⟩ := h.1.target
    have hset : ∀ name ∈ names,
        (sh'.set st.target st.value).param name = sh.param name := by
      intro name hname
      have hne : name ≠ st.target := by
        rintro rfl
        exact h.1.other hname
      rw [State.set, if_neg hplus, if_neg hplus]
      exact (Function.update_of_ne hne _ _).trans (hsame name hname)
    have hrest := ih h.2 hset
    rw [List.map_cons, assign, assignment_word htarget heq, Option.bind_eq_bind, Option.bind_some]
    dsimp only
    rw [h.1.value sh' hsame, Option.bind_eq_bind, Option.bind_some, hrest]
    rfl

/-- Settings in front of words that each stay one word. -/
theorem command_settings {names : List Chars} {sts : List Setting}
    (cs : List (List Mark × Chars)) (h : ∀ st ∈ sts, st.Reads sh names)
    (hcs : ∀ c ∈ cs, expandWord sh c.1 = some [c.2])
    (hhead : ∀ c ∈ cs.head?, isAssignment c.1 = false) :
    command sh (sts.map Setting.word ++ cs.map Prod.fst) =
      some ⟨sts.map fun st => (st.target, st.value), cs.map Prod.snd⟩ := by
  have hfront : ∀ w ∈ sts.map Setting.word, isAssignment w = true := by
    intro w hw
    obtain ⟨st, hst, rfl⟩ := List.mem_map.mp hw
    rw [isAssignment, assignment_word (h st hst).target.1 (h st hst).target.2.1]
    rfl
  have hback : ∀ w ∈ (cs.map Prod.fst).head?, isAssignment w = false := by
    intro w hw
    rw [List.head?_map] at hw
    obtain ⟨c, hc, rfl⟩ := Option.map_eq_some_iff.mp hw
    exact hhead c hc
  obtain ⟨htake, hdrop⟩ := span_append hfront hback
  have hargv : (cs.map Prod.fst).mapM (expandWord sh) = some (cs.map fun c => [c.2]) := by
    clear hhead hback htake hdrop
    induction cs with
    | nil => rfl
    | cons c cs ih =>
      rw [List.forall_mem_cons] at hcs
      rw [List.map_cons, List.mapM_cons, hcs.1, ih hcs.2]
      rfl
  have hflatten : (cs.map fun c => [c.2]).flatten = cs.map Prod.snd := by
    clear hcs hhead hback htake hdrop hargv
    induction cs with
    | nil => rfl
    | cons c cs ih => simp [ih]
  rw [command, htake, hdrop, hargv, assign_settings h fun _ _ => rfl]
  simp [hflatten]

theorem stage_eq {input : Chars} {ms : List Mark} {ws : List (List Mark)} {argv : List Chars}
    (hws : bashWords ms = some ws) (h : command sh ws = some ⟨[], argv⟩) (hne : argv ≠ []) :
    stage tools sh input ms = tools argv input := by
  rw [stage, hws, Option.bind_eq_bind, Option.bind_some, h, Option.bind_eq_bind,
    Option.bind_some, if_pos ⟨rfl, hne⟩]

theorem script_cons {ms : List Mark} {mss : List (List Mark)} {x : Simple} (hmss : mss ≠ [])
    (h : statement tools sh ms = some x) (hx : x.argv = []) :
    script tools sh (ms :: mss) = script tools (sh.assigned x) mss := by
  cases mss with
  | nil => exact absurd rfl hmss
  | cons ms' mss =>
    rw [script, h, Option.bind_some, if_pos hx]
    simp

end Statements

end Shell
end ACGlass
