import ACGlass.Shell.Bash

/-!
# What expansion does to a word

A word without tildes and parameters is its own text. In every word the carriage returns are
kept, and nothing but parameters and tildes brings characters in.
-/

namespace ACGlass
namespace Shell

section Pieces

def Piece.mark? : Piece → Option Mark
  | .mark m => some m
  | .param _ _ => none

/-- The marks that stand for themselves. -/
def marksOf (ps : List Piece) : List Mark := ps.filterMap Piece.mark?

@[simp] theorem marksOf_append (ps qs : List Piece) :
    marksOf (ps ++ qs) = marksOf ps ++ marksOf qs := List.filterMap_append

/-- What has been read and is not yet among the pieces. -/
def Reading.pending : Reading → List Mark
  | .dollar q => [.char '$' q]
  | _ => []

/-- Not inside of a parameter. -/
def Reading.isText : Reading → Bool
  | .text | .dollar _ => true
  | _ => false

/-- The mark does not begin an expansion. -/
def Mark.Inert (m : Mark) : Prop :=
  ∀ c q, m = .char c q → q.opens = true → c ≠ '`' ∧ c ≠ '$'

variable {r r' : Reading} {m : Mark} {ms : List Mark} {ps ps' : List Piece}

theorem readText_inert (h : m.Inert) (ps : List Piece) :
    readText ps m = some (.text, ps ++ [.mark m]) := by
  cases m with
  | quote => rfl
  | char c q =>
    rw [readText, if_neg fun hc => (h c q rfl hc.1).1 hc.2,
      if_neg fun hc => (h c q rfl hc.1).2 hc.2]

theorem pieces_inert (h : ∀ m ∈ ms, m.Inert) : pieces .text ms = some (ms.map .mark) := by
  induction ms with
  | nil => rfl
  | cons m ms ih =>
    rw [List.forall_mem_cons] at h
    rw [pieces, read, readText_inert h.1, Option.bind_some, ih h.2]
    rfl

theorem readText_marks (h : readText ps m = some (r', ps')) :
    marksOf ps' ++ r'.pending = marksOf ps ++ [m] := by
  cases m with
  | quote =>
    obtain ⟨rfl, rfl⟩ := Prod.mk.inj (Option.some.inj h)
    simp [marksOf, Piece.mark?, Reading.pending]
  | char c q =>
    rw [readText] at h
    split_ifs at h with hback hdollar
    · obtain ⟨rfl, rfl⟩ := Prod.mk.inj (Option.some.inj h)
      simp [Reading.pending, hdollar.2]
    · obtain ⟨rfl, rfl⟩ := Prod.mk.inj (Option.some.inj h)
      simp [marksOf, Piece.mark?, Reading.pending]

/-- A mark is among the pieces, is pending, or is part of a parameter. -/
theorem read_marks (h : read r m = some (r', ps')) :
    (marksOf ps' ++ r'.pending).Sublist (r.pending ++ [m]) := by
  have hnil : (marksOf [] ++ ([] : List Mark)).Sublist (r.pending ++ [m]) := List.nil_sublist _
  cases r with
  | text => exact (readText_marks h).symm ▸ .refl _
  | dollar q =>
    cases m with
    | quote =>
      rw [read] at h
      split_ifs at h
      exact (readText_marks h).symm ▸ .refl _
    | char c q' =>
      rw [read] at h
      split_ifs at h
      case pos => exact (readText_marks h).symm ▸ .refl _
      case neg => exact (readText_marks h).symm ▸ .refl _
      all_goals
        obtain ⟨rfl, rfl⟩ := Prod.mk.inj (Option.some.inj h)
        exact hnil
  | name q name =>
    cases m with
    | quote =>
      rw [read] at h
      exact (readText_marks h).symm ▸ .refl _
    | char c q' =>
      rw [read] at h
      split_ifs at h
      · obtain ⟨rfl, rfl⟩ := Prod.mk.inj (Option.some.inj h)
        exact hnil
      · exact (readText_marks h).symm ▸ .refl _
  | brace q name =>
    cases m with
    | quote => cases h
    | char c q' =>
      rw [read] at h
      split_ifs at h
      all_goals
        obtain ⟨rfl, rfl⟩ := Prod.mk.inj (Option.some.inj h)
        exact hnil

theorem pieces_marks (h : pieces r ms = some ps) : (marksOf ps).Sublist (r.pending ++ ms) := by
  induction ms generalizing r ps with
  | nil =>
    cases r <;> cases h <;> exact List.Sublist.refl _
  | cons m ms ih =>
    obtain ⟨⟨r', ps'⟩, hread, h⟩ := Option.bind_eq_some_iff.mp h
    obtain ⟨qs, hqs, rfl⟩ := Option.map_eq_some_iff.mp h
    have hrest : (marksOf ps' ++ marksOf qs).Sublist (marksOf ps' ++ (r'.pending ++ ms)) :=
      (ih hqs).append_left _
    have hfirst : (marksOf ps' ++ r'.pending ++ ms).Sublist (r.pending ++ [m] ++ ms) :=
      (read_marks hread).append_right _
    rw [marksOf_append]
    rw [← List.append_assoc] at hrest
    simpa using hrest.trans hfirst

def Mark.is (c : Char) : Mark → Bool
  | .quote => false
  | .char d _ => d = c

theorem eq_of_is {c : Char} (h : m.is c = true) : ∃ q, m = .char c q := by
  cases m with
  | quote => cases h
  | char d q => exact ⟨q, by rw [of_decide_eq_true h]⟩

/-- A carriage return is no part of a parameter. -/
theorem read_return (hm : m.is '\r' = true) (h : read r m = some (r', ps')) :
    m ∈ marksOf ps' := by
  have hinert : m.Inert := by
    obtain ⟨q, rfl⟩ := eq_of_is hm
    rintro c q' hc -
    obtain ⟨rfl, rfl⟩ := Mark.char.inj hc
    decide
  have htext {ps : List Piece} (h : readText ps m = some (r', ps')) : m ∈ marksOf ps' := by
    rw [readText_inert hinert] at h
    obtain ⟨-, rfl⟩ := Prod.mk.inj (Option.some.inj h)
    simp [marksOf, Piece.mark?]
  obtain ⟨q, rfl⟩ := eq_of_is hm
  have hstart : isNameStart '\r' = false := by decide
  have hchar : isNameChar '\r' = false := by decide
  have hspecial : isSpecial '\r' = false := by decide
  cases r with
  | text => exact htext h
  | dollar q' =>
    rw [read] at h
    simp only [hstart, hspecial, Bool.false_eq_true, if_false] at h
    split_ifs at h with hq hbrace
    · exact htext h
    · cases hbrace
    · exact htext h
  | name q' name =>
    rw [read] at h
    rw [if_neg (by simp [hchar])] at h
    exact htext h
  | brace q' name =>
    rw [read] at h
    simp [hchar, hspecial] at h

theorem pieces_returns (h : pieces r ms = some ps) :
    ms.countP (·.is '\r') ≤ (marksOf ps).countP (·.is '\r') := by
  induction ms generalizing r ps with
  | nil => simp
  | cons m ms ih =>
    obtain ⟨⟨r', ps'⟩, hread, h⟩ := Option.bind_eq_some_iff.mp h
    obtain ⟨qs, hqs, rfl⟩ := Option.map_eq_some_iff.mp h
    have hrest := ih hqs
    dsimp only
    rw [marksOf_append, List.countP_append, List.countP_cons]
    split_ifs with hm
    · have hpos : 0 < (marksOf ps').countP (·.is '\r') :=
        List.countP_pos_iff.mpr ⟨m, read_return hm hread, hm⟩
      omega
    · omega

theorem readText_literal (h : readText ps m = some (r', ps')) :
    r'.isText = true ∧ ps' ++ r'.pending.map .mark = ps ++ [.mark m] := by
  cases m with
  | quote =>
    obtain ⟨rfl, rfl⟩ := Prod.mk.inj (Option.some.inj h)
    simp [Reading.isText, Reading.pending]
  | char c q =>
    rw [readText] at h
    split_ifs at h with hback hdollar
    · obtain ⟨rfl, rfl⟩ := Prod.mk.inj (Option.some.inj h)
      simp [Reading.isText, Reading.pending, hdollar.2]
    · obtain ⟨rfl, rfl⟩ := Prod.mk.inj (Option.some.inj h)
      simp [Reading.isText, Reading.pending]

theorem readText_subset (h : readText ps m = some (r', ps')) : ps ⊆ ps' := by
  cases m with
  | quote =>
    obtain ⟨rfl, rfl⟩ := Prod.mk.inj (Option.some.inj h)
    exact List.subset_append_left _ _
  | char c q =>
    rw [readText] at h
    split_ifs at h
    · obtain ⟨rfl, rfl⟩ := Prod.mk.inj (Option.some.inj h)
      exact List.Subset.refl _
    · obtain ⟨rfl, rfl⟩ := Prod.mk.inj (Option.some.inj h)
      exact List.subset_append_left _ _

def Piece.isMark : Piece → Bool
  | .mark _ => true
  | .param _ _ => false

/-- Outside of parameters every mark stands for itself. -/
theorem read_literal (h : read r m = some (r', ps')) (hps : ps'.all Piece.isMark = true)
    (hr' : r'.isText = true) :
    r.isText = true ∧ ps' ++ r'.pending.map .mark = (r.pending ++ [m]).map .mark := by
  cases r with
  | text => exact ⟨rfl, (readText_literal h).2⟩
  | dollar q =>
    refine ⟨rfl, ?_⟩
    cases m with
    | quote =>
      rw [read] at h
      split_ifs at h
      exact (readText_literal h).2
    | char c q' =>
      rw [read] at h
      split_ifs at h with hq hstart hspecial hbrace
      · exact (readText_literal h).2
      · obtain ⟨rfl, rfl⟩ := Prod.mk.inj (Option.some.inj h)
        cases hr'
      · obtain ⟨rfl, rfl⟩ := Prod.mk.inj (Option.some.inj h)
        simp [Piece.isMark] at hps
      · obtain ⟨rfl, rfl⟩ := Prod.mk.inj (Option.some.inj h)
        cases hr'
      · exact (readText_literal h).2
  | name q name =>
    exfalso
    have htext (h : readText [.param name q] m = some (r', ps')) : False := by
      have hmem : .param name q ∈ ps' := readText_subset h (List.mem_singleton_self _)
      cases List.all_eq_true.mp hps _ hmem
    cases m with
    | quote =>
      rw [read] at h
      exact htext h
    | char c q' =>
      rw [read] at h
      split_ifs at h
      · obtain ⟨rfl, rfl⟩ := Prod.mk.inj (Option.some.inj h)
        cases hr'
      · exact htext h
  | brace q name =>
    exfalso
    cases m with
    | quote => cases h
    | char c q' =>
      rw [read] at h
      split_ifs at h
      · obtain ⟨rfl, rfl⟩ := Prod.mk.inj (Option.some.inj h)
        cases hr'
      · obtain ⟨rfl, rfl⟩ := Prod.mk.inj (Option.some.inj h)
        simp [Piece.isMark] at hps

/-- Without parameters a word is read as its marks. -/
theorem pieces_literal (h : pieces r ms = some ps) (hps : ps.all Piece.isMark = true) :
    r.isText = true ∧ ps = (r.pending ++ ms).map .mark := by
  induction ms generalizing r ps with
  | nil =>
    cases r with
    | text | dollar =>
      obtain rfl := Option.some.inj h
      exact ⟨rfl, rfl⟩
    | name q name =>
      obtain rfl := Option.some.inj h
      simp [Piece.isMark] at hps
    | brace q name => cases h
  | cons m ms ih =>
    obtain ⟨⟨r', ps'⟩, hread, h⟩ := Option.bind_eq_some_iff.mp h
    obtain ⟨qs, hqs, rfl⟩ := Option.map_eq_some_iff.mp h
    rw [List.all_append, Bool.and_eq_true] at hps
    obtain ⟨hr', rfl⟩ := ih hqs hps.2
    obtain ⟨hr, hfirst⟩ := read_literal hread hps.1 hr'
    refine ⟨hr, ?_⟩
    rw [List.map_append, ← List.append_assoc, hfirst]
    simp

end Pieces

section Texts

variable {specials : List Char} {c : Char}

theorem count_flatMap_markText (hspecial : c ∉ specials) (hescape : c ≠ '\\') (ms : List Mark) :
    (ms.flatMap (markText specials)).count c = ms.countP (·.is c) := by
  induction ms with
  | nil => rfl
  | cons m ms ih =>
    rw [List.flatMap_cons, List.count_append, List.countP_cons, ih, add_comm]
    congr 1
    cases m with
    | quote => rfl
    | char d q =>
      by_cases hd : d = c
      · subst d
        cases q <;> simp [markText, Mark.is, hspecial, hescape.symm]
      · cases q <;> simp [markText, Mark.is, hd]
        split_ifs <;> simp [hd, hescape.symm]

/-- A backslash that `shlex` keeps in front of a character that bash takes it from. -/
def Mark.unescaped (m : Mark) : Prop := m = .char '$' .doubleEscaped ∨ m = .char '`' .doubleEscaped

instance (m : Mark) : Decidable m.unescaped := inferInstanceAs (Decidable (_ ∨ _))

theorem markText_eq {m : Mark} (h : ¬ m.unescaped) :
    markText ['"', '\\'] m = markText bashSpecials m := by
  cases m with
  | quote => rfl
  | char d q =>
    cases q with
    | doubleEscaped =>
      rw [Mark.unescaped, not_or] at h
      have hdollar : d ≠ '$' := by
        rintro rfl
        exact h.1 rfl
      have hback : d ≠ '`' := by
        rintro rfl
        exact h.2 rfl
      simp [markText, bashSpecials, hdollar, hback]
    | _ => rfl

theorem shlexText_eq {ms : List Mark} (h : ∀ m ∈ ms, ¬ m.unescaped) :
    shlexText ms = bashText ms := by
  unfold shlexText bashText
  exact List.flatMap_congr fun m hm => markText_eq (h m hm)

theorem count_escape_markText (m : Mark) :
    (markText bashSpecials m).count '\\' ≤ (markText ['"', '\\'] m).count '\\' ∧
      (m.unescaped → (markText bashSpecials m).count '\\' <
        (markText ['"', '\\'] m).count '\\') := by
  by_cases h : m.unescaped
  · rcases h with rfl | rfl <;> decide
  · rw [markText_eq h]
    exact ⟨le_rfl, fun hm => absurd hm h⟩

/-- `shlex` finds more backslashes. -/
theorem count_escape_text (ms : List Mark) :
    (bashText ms).count '\\' ≤ (shlexText ms).count '\\' ∧
      ((∃ m ∈ ms, m.unescaped) → (bashText ms).count '\\' < (shlexText ms).count '\\') := by
  induction ms with
  | nil => simp [bashText, shlexText]
  | cons m ms ih =>
    have hm := count_escape_markText m
    simp only [bashText, shlexText, List.flatMap_cons, List.count_append] at ih ⊢
    refine ⟨by omega, ?_⟩
    rintro ⟨n, hn, hun⟩
    rcases List.mem_cons.mp hn with rfl | hn
    · have := hm.2 hun
      omega
    · have := ih.2 ⟨n, hn, hun⟩
      omega

end Texts

section Glyphs

variable {sh : State} {ps : List Piece} {gs : List Glyph}

def glyphText (gs : List Glyph) : Chars := gs.flatMap Glyph.text

theorem flatten_fields (gs : List Glyph) :
    (fields gs).flatten = glyphText (gs.filter (!Glyph.separates ·)) := by
  have hmap : ∀ ls : List (List Glyph),
      (ls.map fun g => g.flatMap Glyph.text).flatten = ls.flatten.flatMap Glyph.text := by
    intro ls
    induction ls with
    | nil => rfl
    | cons g ls ih => simp [ih]
  rw [fields, hmap, List.flatten_filter_not_isEmpty, flatten_splitOnP, glyphText]

/-- Splitting takes away blanks only. -/
theorem count_fields {c : Char} (hc : c ∉ [' ', '\t', '\n']) (gs : List Glyph) :
    (fields gs).flatten.count c = (glyphText gs).count c := by
  rw [flatten_fields]
  induction gs with
  | nil => rfl
  | cons g gs ih =>
    cases hg : g.separates with
    | false => simpa [hg, glyphText] using ih
    | true =>
      have hzero : g.text.count c = 0 := by
        refine List.count_eq_zero.mpr fun hmem => hc ?_
        cases g with
        | quote => cases hmem
        | char d splits =>
          obtain rfl := List.mem_singleton.mp hmem
          cases splits with
          | false => cases hg
          | true => simpa [Glyph.separates] using hg
      simpa [hg, glyphText, hzero] using ih

/-- What is not split is one field. -/
theorem fields_eq (hnil : gs ≠ []) (h : ∀ g ∈ gs, g.separates = false) :
    fields gs = [glyphText gs] := by
  rw [fields, List.splitOnP_eq_singleton h]
  simp [hnil, glyphText]

theorem glyphs_mark (sh : State) (m : Mark) :
    glyphText ((Piece.mark m).glyphs sh) = markText bashSpecials m := by
  cases m with
  | quote => rfl
  | char c q => simp [Piece.glyphs, glyphText, List.flatMap_map, Glyph.text]

theorem glyphs_mark_ne_nil (sh : State) (m : Mark) : (Piece.mark m).glyphs sh ≠ [] := by
  cases m with
  | quote => simp [Piece.glyphs]
  | char c q =>
    cases q <;> simp [Piece.glyphs, markText]
    split_ifs <;> simp

theorem glyphs_mark_separates {m : Mark} {g : Glyph} (h : g ∈ (Piece.mark m).glyphs sh) :
    g.separates = false := by
  cases m with
  | quote =>
    obtain rfl := List.mem_singleton.mp h
    rfl
  | char c q =>
    obtain ⟨d, -, rfl⟩ := List.mem_map.mp h
    rfl

theorem glyphText_append (gs gs' : List Glyph) :
    glyphText (gs ++ gs') = glyphText gs ++ glyphText gs' := List.flatMap_append

/-- Parameters only add to the text of the marks. -/
theorem glyphText_flatMap (hparam : ∀ name, sh.param name = []) (ps : List Piece) :
    glyphText (ps.flatMap (Piece.glyphs sh)) = bashText (marksOf ps) := by
  induction ps with
  | nil => rfl
  | cons p ps ih =>
    rw [List.flatMap_cons, glyphText_append, ih]
    cases p with
    | mark m =>
      rw [glyphs_mark]
      rfl
    | param name q =>
      rw [Piece.glyphs, hparam]
      rfl

theorem count_glyphs (sh : State) (c : Char) (ps : List Piece) :
    (bashText (marksOf ps)).count c ≤ (glyphText (ps.flatMap (Piece.glyphs sh))).count c := by
  induction ps with
  | nil => exact le_rfl
  | cons p ps ih =>
    rw [List.flatMap_cons, glyphText_append, List.count_append]
    cases p with
    | mark m =>
      have hmark : bashText (marksOf (.mark m :: ps)) =
          markText bashSpecials m ++ bashText (marksOf ps) := rfl
      rw [hmark, List.count_append, glyphs_mark]
      omega
    | param name q => exact ih.trans (Nat.le_add_left _ _)

theorem count_param (sh : State) {name : Chars} {q : Quoting} (h : .param name q ∈ ps) (c : Char) :
    (sh.param name).count c ≤ (glyphText (ps.flatMap (Piece.glyphs sh))).count c := by
  obtain ⟨before, behind, rfl⟩ := List.append_of_mem h
  have htext : glyphText ((Piece.param name q).glyphs sh) = sh.param name := by
    simp [Piece.glyphs, glyphText, List.flatMap_map, Glyph.text]
  rw [List.flatMap_append, List.flatMap_cons, glyphText_append, glyphText_append, htext,
    List.count_append, List.count_append]
  omega

variable {ms : List Mark}

/-- No mark of the word begins an expansion. -/
def Static (ms : List Mark) : Prop := pieces .text ms = some (ms.map .mark)

instance (ms : List Mark) : Decidable (Static ms) := inferInstanceAs (Decidable (_ = _))

theorem count_expand (hparam : ∀ name, sh.param name = []) (h : expand sh ms = some gs)
    (c : Char) : (glyphText gs).count c ≤ (bashText ms).count c := by
  obtain ⟨ps, hps, rfl⟩ := Option.map_eq_some_iff.mp h
  have hsub : (bashText (marksOf ps)).Sublist (bashText ms) :=
    (pieces_marks hps).flatMap _
  rw [glyphText_flatMap hparam]
  exact hsub.count_le c

theorem returns_expand (h : expand sh ms = some gs) :
    ms.countP (·.is '\r') ≤ (glyphText gs).count '\r' := by
  obtain ⟨ps, hps, rfl⟩ := Option.map_eq_some_iff.mp h
  calc ms.countP (·.is '\r')
    _ ≤ (marksOf ps).countP (·.is '\r') := pieces_returns hps
    _ = (bashText (marksOf ps)).count '\r' :=
        (count_flatMap_markText (by decide) (by decide) _).symm
    _ ≤ _ := count_glyphs sh '\r' ps

/-- A word with a parameter is as long as the value of it. -/
theorem static_of_returns {k : ℕ} (hparam : ∀ name, sh.param name = .replicate k '\r')
    (h : expand sh ms = some gs) (hcount : (glyphText gs).count '\r' < k) : Static ms := by
  obtain ⟨ps, hps, rfl⟩ := Option.map_eq_some_iff.mp h
  have hmarks : ps.all Piece.isMark = true := by
    rw [List.all_eq_true]
    intro p hp
    cases p with
    | mark m => rfl
    | param name q =>
      have hle := count_param sh hp '\r'
      rw [hparam, List.count_replicate_self] at hle
      omega
  obtain ⟨-, rfl⟩ := pieces_literal hps hmarks
  exact hps

theorem expand_static (h : Static ms) (sh : State) :
    ∃ gs, expand sh ms = some gs ∧ glyphText gs = bashText ms ∧
      (∀ g ∈ gs, g.separates = false) ∧ (ms ≠ [] → gs ≠ []) := by
  refine ⟨_, by rw [expand, h, Option.map_some], ?_, ?_, ?_⟩
  · clear h
    induction ms with
    | nil => rfl
    | cons m ms ih =>
      rw [List.map_cons, List.flatMap_cons, glyphText_append, glyphs_mark, ih]
      rfl
  · intro g hg
    obtain ⟨p, hp, hg⟩ := List.mem_flatMap.mp hg
    obtain ⟨m, -, rfl⟩ := List.mem_map.mp hp
    exact glyphs_mark_separates hg
  · intro hnil hgs
    obtain ⟨m, ms, rfl⟩ := List.exists_cons_of_ne_nil hnil
    rw [List.map_cons, List.flatMap_cons] at hgs
    exact glyphs_mark_ne_nil sh m (List.append_eq_nil_iff.mp hgs).1

end Glyphs

section Tildes

variable {sh : State} {w value : List Mark} {target : Chars}

theorem mapM_plainChar {ms : List Mark} {t : Chars} (h : ms.mapM Mark.plainChar = some t) :
    ms = t.map (.char · .plain) := by
  induction ms generalizing t with
  | nil =>
    obtain rfl := Option.some.inj h
    rfl
  | cons m ms ih =>
    rw [List.mapM_cons] at h
    obtain ⟨c, hc, h⟩ := Option.bind_eq_some_iff.mp h
    obtain ⟨cs, hcs, h⟩ := Option.bind_eq_some_iff.mp h
    obtain rfl := Option.some.inj h
    rw [List.map_cons, ← ih hcs]
    cases m with
    | quote => cases hc
    | char d q =>
      cases q with
      | plain =>
        obtain rfl := Option.some.inj hc
        rfl
      | _ => cases hc

theorem assignment_eq (h : assignment w = some (target, value)) :
    w = target.map (.char · .plain) ++ equals :: value := by
  unfold assignment at h
  split at h
  · cases h
  · rename_i m rest hdrop
    obtain ⟨t, ht, h⟩ := Option.bind_eq_some_iff.mp h
    split_ifs at h
    obtain ⟨rfl, rfl⟩ := Prod.mk.inj (Option.some.inj h)
    have hm : m = equals := by
      have hhead := List.head_dropWhile_not (p := fun x => decide (x ≠ equals)) (l := w)
        (by rw [hdrop]; simp)
      simp only [hdrop, List.head_cons] at hhead
      simpa using hhead
    have happ := List.takeWhile_append_dropWhile (p := fun x => decide (x ≠ equals)) (l := w)
    rw [hdrop, mapM_plainChar ht, hm] at happ
    exact happ.symm

theorem tilde_eq (h : (tildeName w).bind sh.home = none) : tilde sh w = w := by
  rw [tilde, h]

theorem tildes_eq (h : ∀ s ∈ segments value, (tildeName s).bind sh.home = none) :
    tildes sh value = value := by
  have hmap : (segments value).map (tilde sh) = segments value :=
    (List.map_congr_left fun s hs => (tilde_eq (h s hs) : tilde sh s = id s)).trans (List.map_id _)
  rw [tildes, hmap, segments, List.intercalate_splitOn]

theorem tildeName_of_hasTilde (h : hasTilde w = false) :
    (assignment w = none → tildeName w = none) ∧
      ∀ target value, assignment w = some (target, value) →
        ∀ s ∈ segments value, tildeName s = none := by
  unfold hasTilde at h
  refine ⟨fun hassign => ?_, fun target value hassign s hs => ?_⟩
  · rw [hassign] at h
    simpa using h
  · rw [hassign] at h
    simpa using List.any_eq_false.mp h s hs

theorem tildeWord_congr (hnone : assignment w = none → (tildeName w).bind sh.home = none)
    (hsome : ∀ target value, assignment w = some (target, value) →
      ∀ s ∈ segments value, (tildeName s).bind sh.home = none) : tildeWord sh w = w := by
  unfold tildeWord
  split
  · rename_i target value hassign
    rw [tildes_eq (hsome target value hassign), ← assignment_eq hassign]
  · rename_i hassign
    exact tilde_eq (hnone hassign)

/-- A word without tildes stays as it is. -/
theorem tildeWord_eq (h : hasTilde w = false) (sh : State) : tildeWord sh w = w := by
  obtain ⟨hnone, hsome⟩ := tildeName_of_hasTilde h
  refine tildeWord_congr (fun hassign => ?_) fun target value hassign s hs => ?_
  · rw [hnone hassign]
    rfl
  · rw [hsome target value hassign s hs]
    rfl

theorem tildeWord_eq_of_home (hhome : ∀ login, sh.home login = none) (w : List Mark) :
    tildeWord sh w = w := by
  refine tildeWord_congr (fun _ => ?_) fun _ _ _ s _ => ?_ <;>
    exact Option.bind_eq_none_iff.mpr fun login _ => hhome login

theorem countP_intercalate (p : Mark → Bool) {f : List Mark → List Mark} {sep : List Mark}
    (ls : List (List Mark)) (h : ∀ l, l.countP p ≤ (f l).countP p) :
    (sep.intercalate ls).countP p ≤ (sep.intercalate (ls.map f)).countP p := by
  induction ls with
  | nil => exact le_rfl
  | cons l ls ih =>
    cases ls with
    | nil => simpa using h l
    | cons l' ls =>
      have hl := h l
      rw [List.map_cons, List.map_cons, List.intercalate_cons_cons, List.intercalate_cons_cons,
        ← List.map_cons]
      simp only [List.countP_append]
      omega

theorem sublist_intercalate {l sep : List Mark} {ls : List (List Mark)} (h : l ∈ ls) :
    l.Sublist (sep.intercalate ls) := by
  induction ls with
  | nil => cases h
  | cons l' ls ih =>
    cases ls with
    | nil =>
      obtain rfl := List.mem_singleton.mp h
      simp
    | cons l'' ls =>
      rw [List.intercalate_cons_cons, List.append_assoc]
      rcases List.mem_cons.mp h with rfl | h
      · exact List.sublist_append_left _ _
      · exact (ih h).trans ((List.sublist_append_right _ _).trans (List.sublist_append_right _ _))

/-- Without other users only a tilde is taken away. -/
theorem returns_tilde (hhome : ∀ login ≠ [], sh.home login = none) (w : List Mark) :
    w.countP (·.is '\r') ≤ (tilde sh w).countP (·.is '\r') := by
  unfold tilde
  split
  · rename_i dir hdir
    obtain ⟨login, hlogin, hdir⟩ := Option.bind_eq_some_iff.mp hdir
    have hnil : login = [] := by
      by_contra hne
      rw [hhome login hne] at hdir
      cases hdir
    subst hnil
    unfold tildeName at hlogin
    split at hlogin
    · rename_i ms
      have htake : ms.takeWhile (· ≠ slash) = [] := mapM_plainChar hlogin
      have hdrop : ms.dropWhile (· ≠ slash) = ms := by
        have happ := List.takeWhile_append_dropWhile (p := fun x => decide (x ≠ slash)) (l := ms)
        rwa [htake, List.nil_append] at happ
      rw [List.tail_cons, hdrop, List.countP_append]
      simp [Mark.is]
    · cases hlogin
  · exact le_rfl

theorem returns_tildes (hhome : ∀ login ≠ [], sh.home login = none) (value : List Mark) :
    value.countP (·.is '\r') ≤ (tildes sh value).countP (·.is '\r') := by
  have hle : ([.char ':' .plain].intercalate (segments value)).countP (·.is '\r') ≤
      (tildes sh value).countP (·.is '\r') :=
    countP_intercalate _ (segments value) (returns_tilde hhome)
  rwa [segments, List.intercalate_splitOn] at hle

theorem returns_of_tildeName {k : ℕ} (hhome : ∀ login, sh.home login = some (.replicate k '\r'))
    (h : tildeName w ≠ none) : k ≤ (tilde sh w).countP (·.is '\r') := by
  obtain ⟨login, hlogin⟩ := Option.ne_none_iff_exists'.mp h
  rw [tilde, hlogin, Option.bind_some, hhome]
  have hcount : ((List.replicate k '\r').map (Mark.char · .single)).countP (·.is '\r') = k := by
    simp [List.countP_replicate, Mark.is]
  dsimp only
  rw [List.countP_append, List.countP_cons, hcount]
  omega

/-- A tilde is as long as the home directory. -/
theorem hasTilde_of_returns {k : ℕ}
    (hhome : ∀ login, sh.home login = some (.replicate k '\r'))
    (h : (tildeWord sh w).countP (·.is '\r') < k) : hasTilde w = false := by
  by_contra htilde
  rw [Bool.not_eq_false] at htilde
  unfold hasTilde at htilde
  unfold tildeWord at h
  split at htilde
  · rename_i target value hassign
    rw [hassign] at h
    dsimp only at h
    obtain ⟨s, hs, hname⟩ := List.any_eq_true.mp htilde
    have hle := returns_of_tildeName (w := s) hhome (Option.isSome_iff_ne_none.mp hname)
    have hsub : (tilde sh s).Sublist (tildes sh value) :=
      sublist_intercalate (List.mem_map_of_mem hs)
    have hcount := hsub.countP_le (p := (·.is '\r'))
    rw [List.countP_append, List.countP_cons] at h
    omega
  · rename_i hassign
    rw [hassign] at h
    dsimp only at h
    have hle := returns_of_tildeName (w := w) hhome (Option.isSome_iff_ne_none.mp htilde)
    omega

end Tildes

end Shell
end ACGlass
