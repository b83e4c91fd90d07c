import ACGlass.Android.Text

/-!
# Field codes of an `Exec` line

`clean_exec` of `acglass-sync-apps` and `clean_exec` of the scanner in
`RootDroidspaces.scanContainerApps`. The one is written with `sed`, the other with `re`.
-/

namespace ACGlass
namespace Android

/-- `[fFuUdDnNickvm]` -/
def isFieldCode (c : Char) : Bool := "fFuUdDnNickvm".toList.contains c

/-- `s/%%/%/g` and `replace('%%', '%')` -/
def unescape : Text → Text
  | '%' :: '%' :: s => '%' :: unescape s
  | c :: s => c :: unescape s
  | [] => []

/-- `str.isspace`, which is `\s` also. -/
def isspace (c : Char) : Bool :=
  ['\t', '\n', '\x0b', '\x0c', '\r', '\x1c', '\x1d', '\x1e', '\x1f', ' ', '\u0085', '\u00a0',
    '\u1680', '\u2028', '\u2029', '\u202f', '\u205f', '\u3000'].contains c ||
      ('\u2000' ≤ c && c ≤ '\u200a')

/-- The class `[[:space:]]` of the locale that the script runs in. -/
structure Locale where
  space : Char → Bool
  isspace_of_space : ∀ c, space c = true → isspace c = true

def posixSpace (c : Char) : Bool := [' ', '\t', '\n', '\x0b', '\x0c', '\r'].contains c

theorem isspace_of_posixSpace (c : Char) (h : posixSpace c = true) : isspace c = true := by
  simp only [posixSpace, List.contains_eq_mem, List.mem_cons, List.not_mem_nil, or_false,
    decide_eq_true_eq] at h
  rcases h with rfl | rfl | rfl | rfl | rfl | rfl <;> decide

def Locale.posix : Locale := ⟨posixSpace, isspace_of_posixSpace⟩

namespace Script

/-- `s/ %[fFuUdDnNickvm]//g` -/
def dropFieldCodes : Text → Text
  | ' ' :: '%' :: c :: s =>
    if isFieldCode c then dropFieldCodes s else ' ' :: dropFieldCodes ('%' :: c :: s)
  | c :: s => c :: dropFieldCodes s
  | [] => []

/-- The last substitution is `s/[[:space:]]*$//`. -/
def cleanExec (loc : Locale) (execLine : Text) : Text :=
  (unescape (dropFieldCodes execLine)).rdropWhile loc.space

end Script

namespace Scanner

/-- `re.sub(r'\s+%[fFuUdDnNickvm]', '', cmd)`, with the white space in front of what is left
to read. A `%` is no white space, so that the greedy `\s+` has nothing to give back. -/
def dropFieldCodes : Text → Text → Text
  | run, '%' :: c :: s =>
    if run ≠ [] ∧ isFieldCode c = true then dropFieldCodes [] s
    else run ++ '%' :: dropFieldCodes [] (c :: s)
  | run, c :: s =>
    if isspace c then dropFieldCodes (run ++ [c]) s else run ++ c :: dropFieldCodes [] s
  | run, [] => run

def strip (s : Text) : Text := (s.dropWhile isspace).rdropWhile isspace

def cleanExec (cmd : Text) : Text := strip (unescape (dropFieldCodes [] cmd))

end Scanner

/-- A field code with the white space in front of it, or a character. -/
inductive Piece
  | code (gap : Text) (letter : Char)
  | char (c : Char)
  deriving DecidableEq, Repr

namespace Piece

/-- What the scanner leaves of a piece. -/
def scanned : Piece → Text
  | code _ _ => []
  | char c => [c]

/-- What the script leaves of a piece. -/
def scripted : Piece → Text
  | code gap letter => if gap.getLast? = some ' ' then gap.dropLast else gap ++ ['%', letter]
  | char c => [c]

/-- The piece is text of the command. -/
def visible : Piece → Bool
  | code _ _ => false
  | char c => !isspace c

end Piece

/-- A line in pieces, with the white space in front of what is left to read. -/
def pieces : Text → Text → List Piece
  | run, '%' :: c :: s =>
    if run ≠ [] ∧ isFieldCode c = true then .code run c :: pieces [] s
    else run.map .char ++ .char '%' :: pieces [] (c :: s)
  | run, c :: s =>
    if isspace c then pieces (run ++ [c]) s else run.map .char ++ .char c :: pieces [] s
  | run, [] => run.map .char

/-- The pieces in front of the command, of the command and behind it. -/
def lead (ps : List Piece) : List Piece := ps.takeWhile (!·.visible)

def body (ps : List Piece) : List Piece :=
  (ps.dropWhile (!·.visible)).rdropWhile (!·.visible)

def trail (ps : List Piece) : List Piece :=
  (ps.dropWhile (!·.visible)).rtakeWhile (!·.visible)

/-- In front of the command are only field codes, and there and inside of it each has one
blank in front of it. Of what is behind, `sed` leaves white space that it drops at the end. -/
structure Neat (loc : Locale) (ps : List Piece) : Prop where
  lead : ∀ p ∈ lead ps, ∃ letter, p = .code [' '] letter
  body : ∀ gap letter, .code gap letter ∈ body ps → gap = [' ']
  trail : ∀ p ∈ trail ps, ∀ c ∈ p.scripted, loc.space c = true

/-- The lines of the script and of the scanner, read side by side from the first characters
that count. The flags say that a `%` was read last that the next one would pair with. -/
inductive SideBySide (loc : Locale) : Bool → Bool → List Piece → List Piece → Prop
  | ends {h h' ps ps'} (script : ∀ p ∈ ps, ∀ c ∈ p.scripted, loc.space c = true)
      (scanner : ∀ p ∈ ps', p.visible = false) : SideBySide loc h h' ps ps'
  -- the script's field code counts as the characters that `sed` leaves of it
  | left {h h' gap letter ps ps'} :
      SideBySide loc h h' ((Piece.code gap letter).scripted.map .char ++ ps) ps' →
        SideBySide loc h h' (.code gap letter :: ps) ps'
  | right {h h' gap letter ps ps'} :
      SideBySide loc h h' ps ps' → SideBySide loc h h' ps (.code gap letter :: ps')
  | leftPair {h' ps ps'} :
      SideBySide loc false h' ps ps' → SideBySide loc true h' (.char '%' :: ps) ps'
  | rightPair {h ps ps'} :
      SideBySide loc h false ps ps' → SideBySide loc h true ps (.char '%' :: ps')
  -- white space counts where the command goes on behind it
  | char {h h' c ps ps'} (single : c = '%' → h = false ∧ h' = false)
      (inner : isspace c = true → ∃ p ∈ ps', p.visible = true) :
      SideBySide loc (c = '%') (c = '%') ps ps' →
        SideBySide loc h h' (.char c :: ps) (.char c :: ps')

section Unescape

variable {q : Char → Bool}

theorem unescape_cons {c : Char} (h : c ≠ '%') (s : Text) : unescape (c :: s) = c :: unescape s := by
  apply unescape.eq_2
  intro _ hc
  exact absurd hc h

theorem unescape_append {w : Text} (hw : ∀ c ∈ w, c ≠ '%') (s : Text) :
    unescape (w ++ s) = w ++ unescape s := by
  induction w with
  | nil => rfl
  | cons c w ih =>
    rw [List.forall_mem_cons] at hw
    rw [List.cons_append, unescape_cons hw.1, ih hw.2]
    rfl

theorem unescape_append_right {w : Text} (hw : ∀ c ∈ w, c ≠ '%') (s : Text) :
    unescape (s ++ w) = unescape s ++ w := by
  induction s using unescape.induct with
  | case1 s ih => simp [unescape, ih]
  | case2 c s h ih =>
    have hleft : unescape (c :: s) = c :: unescape s := unescape.eq_2 c s h
    have hright : unescape (c :: (s ++ w)) = c :: unescape (s ++ w) := by
      apply unescape.eq_2
      intro t hc ht
      cases s with
      | nil => exact hw '%' (by simp [show w = '%' :: t from ht]) rfl
      | cons d s => exact h s hc (by rw [(List.cons.inj ht).1])
    rw [List.cons_append, hright, ih, hleft]
    rfl
  | case3 => simpa [unescape] using unescape_append hw []

theorem head?_unescape (s : Text) : (unescape s).head? = s.head? := by
  induction s using unescape.induct with
  | case1 s ih => rfl
  | case2 c s h ih => rw [unescape.eq_2 c s h]; rfl
  | case3 => rfl

theorem getLast?_unescape (s : Text) : (unescape s).getLast? = s.getLast? := by
  induction s using unescape.induct with
  | case1 s ih => simp [unescape, List.getLast?_cons, ih]
  | case2 c s h ih => simp [unescape.eq_2 c s h, List.getLast?_cons, ih]
  | case3 => rfl

theorem unescape_eq_nil {s : Text} : unescape s = [] ↔ s = [] := by
  rw [← List.head?_eq_none_iff, head?_unescape, List.head?_eq_none_iff]

theorem countP_unescape (hq : q '%' = false) (s : Text) :
    (unescape s).countP q = s.countP q := by
  induction s using unescape.induct with
  | case1 s ih => simp [unescape, hq, ih]
  | case2 c s h ih => simp [unescape.eq_2 c s h, List.countP_cons, ih]
  | case3 => rfl

theorem dropWhile_eq_self {α : Type*} {p : α → Bool} {l : List α}
    (h : ∀ x ∈ l.head?, p x = false) : l.dropWhile p = l := by
  cases l with
  | nil => rfl
  | cons x l => simp [h x rfl]

theorem rdropWhile_append {α : Type*} {p : α → Bool} {l : List α}
    (h : ∀ x ∈ l.getLast?, p x = false) (w : List α) :
    (l ++ w).rdropWhile p = l ++ w.rdropWhile p := by
  induction w using List.reverseRecOn with
  | nil =>
    rw [List.append_nil, List.rdropWhile_nil, List.append_nil, List.rdropWhile_eq_self_iff]
    intro hl
    simp [h (l.getLast hl) (List.getLast?_eq_getLast_of_ne_nil hl)]
  | append_singleton w x ih =>
    rw [← List.append_assoc, List.rdropWhile_concat, List.rdropWhile_concat, ih]
    split_ifs <;> simp

theorem rdropWhile_last {α : Type*} (p : α → Bool) (l : List α) :
    ∀ x ∈ (l.rdropWhile p).getLast?, p x = false := by
  intro x hx
  have hne : l.rdropWhile p ≠ [] := by
    intro hnil
    simp [hnil] at hx
  rw [List.getLast?_eq_getLast_of_ne_nil hne] at hx
  have hlast := List.rdropWhile_last_not p l hne
  rw [Option.some.inj hx] at hlast
  simpa using hlast

theorem rdropWhile_cons {α : Type*} (p : α → Bool) (x : α) (l : List α) :
    (x :: l).rdropWhile p =
      if l.rdropWhile p = [] ∧ p x = true then [] else x :: l.rdropWhile p := by
  induction l using List.reverseRecOn with
  | nil =>
    rw [← List.nil_append [x], List.rdropWhile_concat]
    simp
  | append_singleton l y ih =>
    rw [← List.cons_append, List.rdropWhile_concat, List.rdropWhile_concat, ih]
    split_ifs <;> simp_all

theorem rdropWhile_cons_of_ne_nil {α : Type*} {p : α → Bool} {x : α} {l : List α}
    (h : (x :: l).rdropWhile p ≠ []) : (x :: l).rdropWhile p = x :: l.rdropWhile p := by
  rw [rdropWhile_cons] at h ⊢
  split_ifs at h ⊢
  · exact absurd rfl h
  · rfl

theorem rdropWhile_cons_of_neg {α : Type*} {p : α → Bool} {x : α} (h : p x = false)
    (l : List α) : (x :: l).rdropWhile p = x :: l.rdropWhile p := by
  rw [rdropWhile_cons, if_neg]
  rintro ⟨-, hx⟩
  rw [h] at hx
  cases hx

theorem rdropWhile_flatMap_eq_nil {α β : Type*} {p : β → Bool} {f : α → List β} {l : List α} :
    (l.flatMap f).rdropWhile p = [] ↔ ∀ x ∈ l, ∀ y ∈ f x, p y = true := by
  rw [List.rdropWhile_eq_nil_iff]
  simp only [List.mem_flatMap]
  constructor
  · intro hall x hx y hy
    exact hall y ⟨x, hx, hy⟩
  · rintro hall y ⟨x, hx, hy⟩
    exact hall x hx y hy

theorem dropWhile_head {α : Type*} (p : α → Bool) (l : List α) :
    ∀ x ∈ (l.dropWhile p).head?, p x = false := by
  intro x hx
  have hnot := List.head?_dropWhile_not p l
  rw [Option.mem_def.mp hx] at hnot
  exact hnot

theorem dropWhile_unescape (hq : q '%' = false) (s : Text) :
    (unescape s).dropWhile q = unescape (s.dropWhile q) := by
  have htake : ∀ c ∈ s.takeWhile q, q c = true := fun _ => List.mem_takeWhile_imp
  have hne : ∀ c ∈ s.takeWhile q, c ≠ '%' := by
    intro c hc heq
    have hyes := htake c hc
    rw [heq, hq] at hyes
    cases hyes
  calc (unescape s).dropWhile q
      = (s.takeWhile q ++ unescape (s.dropWhile q)).dropWhile q := by
        rw [← unescape_append hne, List.takeWhile_append_dropWhile]
    _ = (unescape (s.dropWhile q)).dropWhile q := List.dropWhile_append_of_pos htake
    _ = unescape (s.dropWhile q) := by
        apply dropWhile_eq_self
        rw [head?_unescape]
        exact dropWhile_head q s

theorem rdropWhile_unescape (hq : q '%' = false) (s : Text) :
    (unescape s).rdropWhile q = unescape (s.rdropWhile q) := by
  have htake : ∀ c ∈ s.rtakeWhile q, q c = true := fun _ => List.mem_rtakeWhile_imp
  have hne : ∀ c ∈ s.rtakeWhile q, c ≠ '%' := by
    intro c hc heq
    have hyes := htake c hc
    rw [heq, hq] at hyes
    cases hyes
  have hlast : ∀ c ∈ (unescape (s.rdropWhile q)).getLast?, q c = false := by
    rw [getLast?_unescape]
    exact rdropWhile_last q s
  calc (unescape s).rdropWhile q
      = (unescape (s.rdropWhile q) ++ s.rtakeWhile q).rdropWhile q := by
        rw [← unescape_append_right hne, List.rdropWhile_append_rtakeWhile]
    _ = unescape (s.rdropWhile q) := by
        rw [rdropWhile_append hlast, List.rdropWhile_eq_nil_iff.mpr htake, List.append_nil]

end Unescape

section Pieces

@[simp] theorem flatMap_scanned_char (s : Text) :
    (s.map Piece.char).flatMap Piece.scanned = s := by
  simp [List.flatMap_map, Piece.scanned]

@[simp] theorem flatMap_scripted_char (s : Text) :
    (s.map Piece.char).flatMap Piece.scripted = s := by
  simp [List.flatMap_map, Piece.scripted]

theorem scanned_pieces (run s : Text) :
    Scanner.dropFieldCodes run s = (pieces run s).flatMap Piece.scanned := by
  induction run, s using pieces.induct with
  | case1 run c s h ih =>
    rw [Scanner.dropFieldCodes, pieces, if_pos h, if_pos h, ih]
    rfl
  | case2 run c s h ih =>
    rw [Scanner.dropFieldCodes, pieces, if_neg h, if_neg h, ih]
    simp [Piece.scanned]
  | case3 run c s hcode hspace ih =>
    rw [Scanner.dropFieldCodes, pieces, if_pos hspace, if_pos hspace, ih]
    · exact hcode
    · exact hcode
  | case4 run c s hcode hspace ih =>
    rw [Scanner.dropFieldCodes, pieces, if_neg hspace, if_neg hspace, ih]
    · simp [Piece.scanned]
    · exact hcode
    · exact hcode
  | case5 run => simp [Scanner.dropFieldCodes, pieces]

/-- The text goes on with a field code. -/
def startsCode : Text → Bool
  | '%' :: c :: _ => isFieldCode c
  | _ => false

theorem startsCode_eq_false {s : Text} (h : ∀ c t, s = '%' :: c :: t → isFieldCode c = false) :
    startsCode s = false := by
  unfold startsCode
  split
  · exact h _ _ rfl
  · rfl

theorem isspace_ne_percent {c : Char} (h : isspace c = true) : c ≠ '%' := by
  rintro rfl
  revert h
  decide

theorem script_keeps {c : Char} {s : Text} (h : c ≠ ' ' ∨ startsCode s = false) :
    Script.dropFieldCodes (c :: s) = c :: Script.dropFieldCodes s := by
  by_cases hcode : c = ' ' ∧ ∃ x t, s = '%' :: x :: t
  · obtain ⟨rfl, x, t, rfl⟩ := hcode
    have hno : isFieldCode x = false := h.resolve_left (by simp)
    rw [Script.dropFieldCodes, hno]
    rfl
  · apply Script.dropFieldCodes.eq_2
    intro x t hc hs
    exact hcode ⟨hc, x, t, hs⟩

theorem script_keeps_percent (s : Text) :
    Script.dropFieldCodes ('%' :: s) = '%' :: Script.dropFieldCodes s :=
  script_keeps (.inl (by decide))

theorem script_keeps_run {run s : Text} (hrun : ∀ c ∈ run, isspace c = true)
    (h : startsCode s = false) :
    Script.dropFieldCodes (run ++ s) = run ++ Script.dropFieldCodes s := by
  induction run with
  | nil => rfl
  | cons c run ih =>
    rw [List.forall_mem_cons] at hrun
    have hnext : startsCode (run ++ s) = false := by
      cases run with
      | nil => exact h
      | cons d run =>
        apply startsCode_eq_false
        intro x t hs
        exact absurd (List.cons.inj hs).1 (isspace_ne_percent (hrun.2 d (by simp)))
    rw [List.cons_append, script_keeps (.inr hnext), ih hrun.2]
    rfl

/-- Of the white space in front of a field code, `sed` takes the last blank. -/
theorem script_code {run : Text} (hrun : ∀ c ∈ run, isspace c = true) (hne : run ≠ []) {c : Char}
    (hc : isFieldCode c = true) (s : Text) :
    Script.dropFieldCodes (run ++ '%' :: c :: s) =
      (Piece.code run c).scripted ++ Script.dropFieldCodes s := by
  obtain ⟨gap, d, rfl⟩ := List.eq_nil_or_concat run |>.resolve_left hne
  have hgap : ∀ c ∈ gap, isspace c = true := fun c hc => hrun c (by simp [hc])
  have hd : d ≠ '%' := isspace_ne_percent (hrun d (by simp))
  have hblank : c ≠ ' ' := by
    rintro rfl
    revert hc
    decide
  have hstart : startsCode (d :: '%' :: c :: s) = false := by
    apply startsCode_eq_false
    intro x t hs
    exact absurd (List.cons.inj hs).1 hd
  rw [List.concat_eq_append, List.append_assoc, List.singleton_append, script_keeps_run hgap hstart]
  by_cases hlast : d = ' '
  · subst d
    rw [Script.dropFieldCodes, if_pos hc]
    simp [Piece.scripted]
  · rw [script_keeps (.inl hlast), script_keeps_percent, script_keeps (.inl hblank)]
    simp [Piece.scripted, hlast]

theorem scripted_pieces {run : Text} (hrun : ∀ c ∈ run, isspace c = true) (s : Text) :
    Script.dropFieldCodes (run ++ s) = (pieces run s).flatMap Piece.scripted := by
  have hnil : ∀ c ∈ ([] : Text), isspace c = true := by simp
  induction run, s using pieces.induct with
  | case1 run c s h ih =>
    rw [pieces, if_pos h, script_code hrun h.1 h.2, ← List.nil_append s, ih hnil]
    rfl
  | case2 run c s h ih =>
    have hkeep : Script.dropFieldCodes (run ++ '%' :: c :: s) =
        run ++ Script.dropFieldCodes ('%' :: c :: s) := by
      by_cases hne : run = []
      · rw [hne]
        rfl
      · exact script_keeps_run hrun (by simpa [hne, startsCode] using h)
    have hrest : Script.dropFieldCodes (c :: s) = (pieces [] (c :: s)).flatMap Piece.scripted :=
      ih hnil
    rw [pieces, if_neg h, hkeep, script_keeps_percent, hrest]
    simp [Piece.scripted]
  | case3 run c s hcode hspace ih =>
    have hrun' : ∀ d ∈ run ++ [c], isspace d = true := by
      simpa [or_imp, forall_and] using And.intro hrun hspace
    rw [pieces, if_pos hspace, ← ih hrun']
    · simp
    · exact hcode
  | case4 run c s hcode hspace ih =>
    have hstart : startsCode (c :: s) = false := by
      apply startsCode_eq_false
      intro x t hs
      obtain ⟨rfl, rfl⟩ := List.cons.inj hs
      exact (hcode x t rfl rfl).elim
    have hblank : c ≠ ' ' := by
      rintro rfl
      exact hspace (by decide)
    have hrest : Script.dropFieldCodes s = (pieces [] s).flatMap Piece.scripted := ih hnil
    rw [pieces, if_neg hspace, script_keeps_run hrun hstart, script_keeps (.inl hblank), hrest]
    · simp [Piece.scripted]
    · exact hcode
  | case5 run =>
    rw [script_keeps_run hrun rfl, pieces]
    simp [Script.dropFieldCodes]

/-- What stands in front of a field code is white space. -/
theorem gap_of_mem_pieces {run : Text} (hrun : ∀ c ∈ run, isspace c = true) {s gap : Text}
    {letter : Char} (h : .code gap letter ∈ pieces run s) :
    gap ≠ [] ∧ ∀ c ∈ gap, isspace c = true := by
  have hnil : ∀ c ∈ ([] : Text), isspace c = true := by simp
  induction run, s using pieces.induct with
  | case1 run c s hcode ih =>
    rw [pieces, if_pos hcode, List.mem_cons] at h
    rcases h with heq | h
    · obtain ⟨rfl, rfl⟩ := Piece.code.inj heq
      exact ⟨hcode.1, hrun⟩
    · exact ih hnil h
  | case2 run c s hcode ih =>
    rw [pieces, if_neg hcode] at h
    exact ih hnil (by simpa using h)
  | case3 run c s hcode hspace ih =>
    have hrun' : ∀ d ∈ run ++ [c], isspace d = true := by
      simpa [or_imp, forall_and] using And.intro hrun hspace
    rw [pieces, if_pos hspace] at h
    · exact ih hrun' h
    · exact hcode
  | case4 run c s hcode hspace ih =>
    rw [pieces, if_neg hspace] at h
    · exact ih hnil (by simpa using h)
    · exact hcode
  | case5 run => simp [pieces] at h

end Pieces

section Whites

/-- How much white space a text has. -/
def whites (s : Text) : ℕ := s.countP isspace

theorem whites_append (s t : Text) : whites (s ++ t) = whites s + whites t := List.countP_append

theorem whites_unescape (s : Text) : whites (unescape s) = whites s :=
  countP_unescape (by decide) s

theorem whites_eq_length {s : Text} (h : ∀ c ∈ s, isspace c = true) : whites s = s.length :=
  List.countP_eq_length.mpr h

theorem whites_scanned_le (p : Piece) : whites p.scanned ≤ whites p.scripted := by
  cases p with
  | code gap letter => exact Nat.zero_le _
  | char c => exact le_rfl

theorem whites_flatMap_le (ps : List Piece) :
    whites (ps.flatMap Piece.scanned) ≤ whites (ps.flatMap Piece.scripted) := by
  induction ps with
  | nil => exact le_rfl
  | cons p ps ih =>
    rw [List.flatMap_cons, List.flatMap_cons, whites_append, whites_append]
    exact Nat.add_le_add (whites_scanned_le p) ih

theorem whites_eq_of_flatMap {ps : List Piece}
    (h : whites (ps.flatMap Piece.scripted) ≤ whites (ps.flatMap Piece.scanned)) :
    ∀ p ∈ ps, whites p.scripted = whites p.scanned := by
  induction ps with
  | nil => simp
  | cons p ps ih =>
    rw [List.flatMap_cons, List.flatMap_cons, whites_append, whites_append] at h
    have hp := whites_scanned_le p
    have hps := whites_flatMap_le ps
    rw [List.forall_mem_cons]
    exact ⟨by omega, ih (by omega)⟩

/-- The script leaves white space of a field code unless there is one blank in front of it. -/
theorem whites_code_eq_zero {gap : Text} {letter : Char} (hne : gap ≠ [])
    (hgap : ∀ c ∈ gap, isspace c = true) :
    whites (Piece.code gap letter).scripted = 0 ↔ gap = [' '] := by
  obtain ⟨init, d, rfl⟩ := List.eq_nil_or_concat' gap |>.resolve_left hne
  have hinit : ∀ c ∈ init, isspace c = true := fun c hc => hgap c (by simp [hc])
  by_cases hlast : d = ' '
  · subst d
    simp [Piece.scripted, whites_eq_length hinit]
  · have hpos : 0 < whites (init ++ [d]) := by
      rw [whites_eq_length hgap]
      simp
    have hscripted : (Piece.code (init ++ [d]) letter).scripted = init ++ [d] ++ ['%', letter] := by
      simp [Piece.scripted, hlast]
    rw [hscripted, whites_append]
    constructor
    · intro hzero
      omega
    · intro heq
      exact absurd (by simpa using congrArg List.getLast? heq) hlast

end Whites

section Clean

/-- What the pieces of a line are known to be. -/
def Gapped (ps : List Piece) : Prop :=
  ∀ gap letter, .code gap letter ∈ ps → gap ≠ [] ∧ ∀ c ∈ gap, isspace c = true

variable {loc : Locale} {ps : List Piece}

theorem lead_body_trail (ps : List Piece) : lead ps ++ body ps ++ trail ps = ps := by
  rw [lead, body, trail, List.append_assoc, List.rdropWhile_append_rtakeWhile,
    List.takeWhile_append_dropWhile]

theorem visible_lead {p : Piece} (h : p ∈ lead ps) : p.visible = false := by
  simpa using List.mem_takeWhile_imp h

theorem visible_trail {p : Piece} (h : p ∈ trail ps) : p.visible = false := by
  simpa using List.mem_rtakeWhile_imp h

theorem body_getLast? : ∀ p ∈ (body ps).getLast?, p.visible = true := by
  intro p hp
  simpa using rdropWhile_last (fun p : Piece => !p.visible) _ p hp

theorem body_head? : ∀ p ∈ (body ps).head?, p.visible = true := by
  intro p hp
  obtain ⟨t, ht⟩ : body ps <+: ps.dropWhile (!·.visible) := List.rdropWhile_prefix _ _
  have hhead : p ∈ (ps.dropWhile (!·.visible)).head? := by
    rw [← ht, List.head?_append, Option.mem_def.mp hp]
    rfl
  simpa using dropWhile_head (fun p : Piece => !p.visible) ps p hhead

theorem body_eq_nil_iff : body ps = [] ↔ ∀ p ∈ ps, p.visible = false := by
  constructor
  · intro h p hp
    rw [← lead_body_trail ps, h] at hp
    rcases List.mem_append.mp hp with hp | hp
    · exact visible_lead (by simpa using hp)
    · exact visible_trail hp
  · intro h
    cases hb : (body ps).head? with
    | none => exact List.head?_eq_none_iff.mp hb
    | some p =>
      have hp : p ∈ ps := by
        rw [← lead_body_trail ps]
        simp [List.mem_of_head? hb]
      have hno := h p hp
      rw [body_head? p hb] at hno
      cases hno

variable {f : Piece → Text}

theorem visible_eq {p : Piece} (h : p.visible = true) :
    ∃ c, p = .char c ∧ isspace c = false := by
  cases p with
  | code gap letter => cases h
  | char c => exact ⟨c, rfl, by simpa [Piece.visible] using h⟩

theorem flatMap_head? (hf : ∀ c, f (.char c) = [c]) (h : ∀ p ∈ ps.head?, p.visible = true) :
    ∀ c ∈ (ps.flatMap f).head?, isspace c = false := by
  cases ps with
  | nil => simp
  | cons p ps =>
    obtain ⟨c, rfl, hc⟩ := visible_eq (h p rfl)
    intro d hd
    rw [List.flatMap_cons, hf] at hd
    rwa [← Option.some.inj hd]

theorem flatMap_getLast? (hf : ∀ c, f (.char c) = [c])
    (h : ∀ p ∈ ps.getLast?, p.visible = true) :
    ∀ c ∈ (ps.flatMap f).getLast?, isspace c = false := by
  rcases List.eq_nil_or_concat' ps with rfl | ⟨init, p, rfl⟩
  · simp
  · obtain ⟨c, rfl, hc⟩ := visible_eq (h p (by simp))
    intro d hd
    rw [List.flatMap_append, List.flatMap_singleton, hf, List.getLast?_concat] at hd
    rwa [← Option.some.inj hd]

theorem strip_append {a b mid : Text} (ha : ∀ c ∈ a, isspace c = true)
    (hb : ∀ c ∈ b, isspace c = true) (hhead : ∀ c ∈ mid.head?, isspace c = false)
    (hlast : ∀ c ∈ mid.getLast?, isspace c = false) : Scanner.strip (a ++ mid ++ b) = mid := by
  rw [Scanner.strip, List.append_assoc, List.dropWhile_append_of_pos ha]
  cases mid with
  | nil => simp [List.dropWhile_eq_nil_iff.mpr hb]
  | cons c mid =>
    have hdrop : (c :: mid ++ b).dropWhile isspace = c :: mid ++ b := dropWhile_eq_self hhead
    rw [hdrop, rdropWhile_append hlast, List.rdropWhile_eq_nil_iff.mpr hb, List.append_nil]

theorem scanned_white (h : ∀ p ∈ ps, p.visible = false) :
    ∀ c ∈ ps.flatMap Piece.scanned, isspace c = true := by
  intro c hc
  obtain ⟨p, hp, hcp⟩ := List.mem_flatMap.mp hc
  have hvisible := h p hp
  cases p with
  | code gap letter => cases hcp
  | char d =>
    rw [List.mem_singleton.mp hcp]
    simpa [Piece.visible] using hvisible

/-- The scanner keeps the characters from the first visible one to the last. -/
theorem strip_scanned (ps : List Piece) :
    Scanner.strip (ps.flatMap Piece.scanned) = (body ps).flatMap Piece.scanned := by
  conv_lhs => rw [← lead_body_trail ps, List.flatMap_append, List.flatMap_append]
  apply strip_append
  · exact scanned_white fun _ => visible_lead
  · exact scanned_white fun _ => visible_trail
  · exact flatMap_head? (fun _ => rfl) body_head?
  · exact flatMap_getLast? (fun _ => rfl) body_getLast?

theorem Locale.space_eq_false {c : Char} (h : isspace c = false) : loc.space c = false := by
  by_contra hspace
  rw [loc.isspace_of_space c (by simpa using hspace)] at h
  cases h

/-- `sed` keeps all in front of the last visible character. -/
theorem rdropWhile_scripted (hbody : body ps ≠ []) :
    (ps.flatMap Piece.scripted).rdropWhile loc.space =
      (lead ps).flatMap Piece.scripted ++ (body ps).flatMap Piece.scripted ++
        ((trail ps).flatMap Piece.scripted).rdropWhile loc.space := by
  have hlast : ∀ c ∈ ((lead ps).flatMap Piece.scripted ++
      (body ps).flatMap Piece.scripted).getLast?, loc.space c = false := by
    intro c hc
    apply Locale.space_eq_false
    have hvisible : ∀ p ∈ (lead ps ++ body ps).getLast?, p.visible = true := by
      intro p hp
      rw [List.getLast?_append_of_ne_nil _ hbody] at hp
      exact body_getLast? p hp
    rw [← List.flatMap_append] at hc
    exact flatMap_getLast? (fun _ => rfl) hvisible c hc
  conv_lhs => rw [← lead_body_trail ps, List.flatMap_append, List.flatMap_append]
  exact rdropWhile_append hlast _

theorem script_cleanExec (loc : Locale) (e : Text) :
    Script.cleanExec loc e =
      unescape (((pieces [] e).flatMap Piece.scripted).rdropWhile loc.space) := by
  have hnil : ∀ c ∈ ([] : Text), isspace c = true := by simp
  have hpieces : Script.dropFieldCodes e = (pieces [] e).flatMap Piece.scripted :=
    scripted_pieces hnil e
  rw [Script.cleanExec, rdropWhile_unescape (Locale.space_eq_false (by decide)), hpieces]

theorem scanner_cleanExec (e : Text) :
    Scanner.cleanExec e = unescape ((body (pieces [] e)).flatMap Piece.scanned) := by
  have hpercent : isspace '%' = false := by decide
  rw [← strip_scanned, ← scanned_pieces, Scanner.cleanExec, Scanner.strip, Scanner.strip,
    dropWhile_unescape hpercent, rdropWhile_unescape hpercent]

theorem script_cleanExec_eq_nil (loc : Locale) (e : Text) :
    Script.cleanExec loc e = [] ↔ ∀ p ∈ pieces [] e, ∀ c ∈ p.scripted, loc.space c = true := by
  rw [script_cleanExec, unescape_eq_nil, rdropWhile_flatMap_eq_nil]

theorem scanner_cleanExec_eq_nil (e : Text) :
    Scanner.cleanExec e = [] ↔ ∀ p ∈ pieces [] e, p.visible = false := by
  rw [scanner_cleanExec, unescape_eq_nil, ← body_eq_nil_iff]
  constructor
  · intro h
    cases hb : body (pieces [] e) with
    | nil => rfl
    | cons p ps =>
      obtain ⟨c, rfl, -⟩ := visible_eq (body_head? p (by rw [hb]; rfl))
      rw [hb, List.flatMap_cons] at h
      cases (List.append_eq_nil_iff.mp h).1
  · intro h
    rw [h]
    rfl

theorem gapped_pieces (e : Text) : Gapped (pieces [] e) :=
  fun _ _ h => gap_of_mem_pieces (by simp) h

/-- A piece that is not visible leaves nothing of its white space only as a field code behind
one blank. -/
theorem whites_eq_zero_iff {p : Piece} (hp : p.visible = false)
    (hgap : ∀ gap letter, p = .code gap letter → gap ≠ [] ∧ ∀ c ∈ gap, isspace c = true) :
    whites p.scripted = 0 ↔ ∃ letter, p = .code [' '] letter := by
  cases p with
  | code gap letter =>
    obtain ⟨hne, hwhite⟩ := hgap gap letter rfl
    rw [whites_code_eq_zero hne hwhite]
    simp
  | char c =>
    have hc : isspace c = true := by simpa [Piece.visible] using hp
    simp [Piece.scripted, whites, hc]

theorem whites_flatMap_eq_zero (f : Piece → Text) :
    whites (ps.flatMap f) = 0 ↔ ∀ p ∈ ps, whites (f p) = 0 := by
  simp only [whites, List.countP_eq_zero, List.mem_flatMap]
  constructor
  · intro h p hp c hc
    exact h c ⟨p, hp, hc⟩
  · rintro h c ⟨p, hp, hc⟩
    exact h p hp c hc

theorem mem_of_mem_part {p : Piece} (h : p ∈ lead ps ∨ p ∈ body ps ∨ p ∈ trail ps) : p ∈ ps := by
  rw [← lead_body_trail ps]
  simpa [or_assoc] using h

theorem lead_of_whites (hps : Gapped ps) (h : whites ((lead ps).flatMap Piece.scripted) = 0) :
    ∀ p ∈ lead ps, ∃ letter, p = .code [' '] letter := by
  intro p hp
  have hgap : ∀ gap letter, p = .code gap letter → gap ≠ [] ∧ ∀ c ∈ gap, isspace c = true := by
    rintro gap letter rfl
    exact hps gap letter (mem_of_mem_part (.inl hp))
  exact (whites_eq_zero_iff (visible_lead hp) hgap).mp ((whites_flatMap_eq_zero _).mp h p hp)

theorem scripted_body (h : ∀ gap letter, .code gap letter ∈ body ps → gap = [' ']) :
    (body ps).flatMap Piece.scripted = (body ps).flatMap Piece.scanned := by
  apply List.flatMap_congr
  intro p hp
  cases p with
  | code gap letter =>
    rw [h gap letter hp]
    rfl
  | char c => rfl

theorem body_of_whites (hps : Gapped ps)
    (h : whites ((body ps).flatMap Piece.scripted) ≤ whites ((body ps).flatMap Piece.scanned)) :
    ∀ gap letter, .code gap letter ∈ body ps → gap = [' '] := by
  intro gap letter hmem
  obtain ⟨hne, hgap⟩ := hps gap letter (mem_of_mem_part (.inr (.inl hmem)))
  exact (whites_code_eq_zero hne hgap).mp (whites_eq_of_flatMap h _ hmem)

/-- Without visible pieces, what the script leaves begins with white space. -/
theorem scripted_head? (hps : Gapped ps) (hvisible : ∀ p ∈ ps, p.visible = false) :
    ∀ c ∈ (ps.flatMap Piece.scripted).head?, isspace c = true := by
  induction ps with
  | nil => simp
  | cons p ps ih =>
    rw [List.forall_mem_cons] at hvisible
    have htail : Gapped ps := fun gap letter h => hps gap letter (List.mem_cons_of_mem p h)
    intro c hc
    rw [List.flatMap_cons, List.head?_append, Option.mem_def, Option.or_eq_some_iff] at hc
    rcases hc with hc | ⟨-, hc⟩
    · cases p with
      | code gap letter =>
        obtain ⟨hne, hgap⟩ := hps gap letter (by simp)
        rw [Piece.scripted] at hc
        split_ifs at hc
        · exact hgap c (List.dropLast_subset gap (List.mem_of_head? hc))
        · rw [List.head?_append_of_ne_nil _ hne] at hc
          exact hgap c (List.mem_of_head? hc)
      | char d =>
        rw [← Option.some.inj hc]
        simpa [Piece.visible] using hvisible.1
    · exact ih htail hvisible.2 c hc

theorem trail_of_whites (hps : Gapped ps)
    (h : whites (((trail ps).flatMap Piece.scripted).rdropWhile loc.space) = 0) :
    ∀ p ∈ trail ps, ∀ c ∈ p.scripted, loc.space c = true := by
  have htrail : Gapped (trail ps) :=
    fun gap letter hmem => hps gap letter (mem_of_mem_part (.inr (.inr hmem)))
  have hnil : ((trail ps).flatMap Piece.scripted).rdropWhile loc.space = [] := by
    cases hleft : ((trail ps).flatMap Piece.scripted).rdropWhile loc.space with
    | nil => rfl
    | cons c s =>
      obtain ⟨t, ht⟩ := List.rdropWhile_prefix loc.space ((trail ps).flatMap Piece.scripted)
      have hhead : c ∈ ((trail ps).flatMap Piece.scripted).head? := by
        rw [← ht, hleft]
        rfl
      have hc := scripted_head? htrail (fun _ => visible_trail) c hhead
      rw [hleft] at h
      simp [whites, hc] at h
  exact rdropWhile_flatMap_eq_nil.mp hnil

/-- The commands of a neat line agree. -/
theorem cleanExec_eq_of_neat {e : Text} (h : Neat loc (pieces [] e)) :
    Script.cleanExec loc e = Scanner.cleanExec e := by
  have hlead : (lead (pieces [] e)).flatMap Piece.scripted = [] := by
    rw [List.flatMap_eq_nil_iff]
    intro p hp
    obtain ⟨letter, rfl⟩ := h.lead p hp
    rfl
  rw [script_cleanExec, scanner_cleanExec]
  by_cases hbody : body (pieces [] e) = []
  · have hall : lead (pieces [] e) = pieces [] e := by
      rw [lead, List.takeWhile_eq_self_iff]
      intro p hp
      simpa using body_eq_nil_iff.mp hbody p hp
    rw [hall] at hlead
    rw [hlead, hbody]
    rfl
  · have htrail : ((trail (pieces [] e)).flatMap Piece.scripted).rdropWhile loc.space = [] :=
      rdropWhile_flatMap_eq_nil.mpr h.trail
    rw [rdropWhile_scripted hbody, hlead, htrail, scripted_body h.body, List.nil_append,
      List.append_nil]

/-- On a line with something to run, the commands agree exactly if the line is neat. -/
theorem cleanExec_eq_iff (loc : Locale) {e : Text} (h : ∃ p ∈ pieces [] e, p.visible = true) :
    Script.cleanExec loc e = Scanner.cleanExec e ↔ Neat loc (pieces [] e) := by
  have hps := gapped_pieces e
  have hbody : body (pieces [] e) ≠ [] := by
    rw [Ne, body_eq_nil_iff]
    intro hno
    obtain ⟨p, hp, hvisible⟩ := h
    rw [hno p hp] at hvisible
    cases hvisible
  constructor
  · intro heq
    rw [script_cleanExec, scanner_cleanExec, rdropWhile_scripted hbody] at heq
    have hwhites := congrArg whites heq
    have hle := whites_flatMap_le (body (pieces [] e))
    rw [whites_unescape, whites_unescape, whites_append, whites_append] at hwhites
    constructor
    · apply lead_of_whites hps
      omega
    · apply body_of_whites hps
      omega
    · apply trail_of_whites hps
      omega
  · exact cleanExec_eq_of_neat

end Clean

section SideBySide

variable {loc : Locale} {h h' : Bool} {ps ps' : List Piece}

/-- `unescape` behind a `%` that is still to be paired. -/
def unescapeFrom : Bool → Text → Text
  | true, '%' :: s => unescape s
  | _, s => unescape s

theorem unescape_cons_eq (c : Char) (s : Text) :
    unescape (c :: s) = c :: unescapeFrom (c = '%') s := by
  by_cases hc : c = '%'
  · subst hc
    cases s with
    | nil => rfl
    | cons d s =>
      by_cases hd : d = '%'
      · subst hd
        rfl
      · have hfrom : unescapeFrom true (d :: s) = unescape (d :: s) := by
          apply unescapeFrom.eq_2
          intro t _ ht
          exact hd (List.cons.inj ht).1
        have hkeep : unescape ('%' :: d :: s) = '%' :: unescape (d :: s) := by
          apply unescape.eq_2
          intro t _ ht
          exact hd (List.cons.inj ht).1
        rw [hkeep, decide_eq_true rfl, hfrom]
  · rw [unescape_cons hc, decide_eq_false hc]
    rfl

theorem unescapeFrom_nil (h : Bool) : unescapeFrom h [] = [] := by
  cases h <;> rfl

theorem unescapeFrom_of_head {h : Bool} {s : Text} (hs : s.head? = some '%' → h = false) :
    unescapeFrom h s = unescape s := by
  apply unescapeFrom.eq_2
  rintro t rfl rfl
  cases hs rfl

/-- What `sed` and `strip` leave at the end of the pieces. -/
def Script.left (loc : Locale) (ps : List Piece) : Text :=
  (ps.flatMap Piece.scripted).rdropWhile loc.space

def Scanner.left (ps : List Piece) : Text := (ps.flatMap Piece.scanned).rdropWhile isspace

theorem script_left_char (c : Char) (ps : List Piece) :
    Script.left loc (.char c :: ps) =
      if Script.left loc ps = [] ∧ loc.space c = true then [] else c :: Script.left loc ps :=
  rdropWhile_cons loc.space c _

theorem scanner_left_char (c : Char) (ps : List Piece) :
    Scanner.left (.char c :: ps) =
      if Scanner.left ps = [] ∧ isspace c = true then [] else c :: Scanner.left ps :=
  rdropWhile_cons isspace c _

theorem script_left_code (gap : Text) (letter : Char) (ps : List Piece) :
    Script.left loc ((Piece.code gap letter).scripted.map .char ++ ps) =
      Script.left loc (.code gap letter :: ps) := by
  rw [Script.left, Script.left, List.flatMap_append, flatMap_scripted_char, List.flatMap_cons]

theorem script_left_eq_nil :
    Script.left loc ps = [] ↔ ∀ p ∈ ps, ∀ c ∈ p.scripted, loc.space c = true := by
  rw [Script.left, rdropWhile_flatMap_eq_nil]

theorem scanner_left_eq_nil : Scanner.left ps = [] ↔ ∀ p ∈ ps, p.visible = false := by
  rw [Scanner.left, List.rdropWhile_eq_nil_iff]
  constructor
  · intro hall p hp
    cases p with
    | code gap letter => rfl
    | char c => simp [Piece.visible, hall c (List.mem_flatMap.mpr ⟨_, hp, by simp [Piece.scanned]⟩)]
  · exact scanned_white

theorem scanner_left_ne_nil (hp : ∃ p ∈ ps, p.visible = true) : Scanner.left ps ≠ [] := by
  obtain ⟨p, hmem, hvisible⟩ := hp
  intro hnil
  rw [scanner_left_eq_nil.mp hnil p hmem] at hvisible
  cases hvisible

theorem script_left_percent (ps : List Piece) :
    Script.left loc (.char '%' :: ps) = '%' :: Script.left loc ps :=
  rdropWhile_cons_of_neg (Locale.space_eq_false (by decide)) _

theorem scanner_left_percent (ps : List Piece) :
    Scanner.left (.char '%' :: ps) = '%' :: Scanner.left ps :=
  rdropWhile_cons_of_neg (by decide) _

/-- Lines side by side leave the same command. -/
theorem SideBySide.left_eq (hside : SideBySide loc h h' ps ps') :
    unescapeFrom h (Script.left loc ps) = unescapeFrom h' (Scanner.left ps') := by
  induction hside with
  | ends hscript hscanner =>
    rw [script_left_eq_nil.mpr hscript, scanner_left_eq_nil.mpr hscanner, unescapeFrom_nil,
      unescapeFrom_nil]
  | left _ ih => rwa [script_left_code] at ih
  | right _ ih => exact ih
  | leftPair _ ih =>
    rw [script_left_percent]
    exact ih
  | rightPair _ ih =>
    rw [scanner_left_percent]
    exact ih
  | @char h h' c ps ps' hsingle hinner _ ih =>
    have hhead : ∀ s : Text, (c :: s).head? = some '%' → h = false ∧ h' = false := by
      intro s hs
      exact hsingle (Option.some.inj hs)
    have hscanner : Scanner.left (.char c :: ps') = c :: Scanner.left ps' := by
      rw [scanner_left_char, if_neg]
      rintro ⟨hnil, hspace⟩
      exact scanner_left_ne_nil (hinner hspace) hnil
    have hscript : Script.left loc (.char c :: ps) = c :: Script.left loc ps := by
      rw [script_left_char, if_neg]
      rintro ⟨hnil, hspace⟩
      have hwhite : isspace c = true := loc.isspace_of_space c hspace
      rw [hnil, unescapeFrom_nil, decide_eq_false (isspace_ne_percent hwhite)] at ih
      exact scanner_left_ne_nil (hinner hwhite) (unescape_eq_nil.mp ih.symm)
    rw [hscript, hscanner, unescapeFrom_of_head fun hs => (hhead _ hs).1,
      unescapeFrom_of_head fun hs => (hhead _ hs).2, unescape_cons_eq, unescape_cons_eq, ih]

/-- A field code weighs more than what `sed` leaves of it. -/
def Piece.weight : Piece → ℕ
  | code gap letter => (code gap letter).scripted.length + 1
  | char _ => 1

def weight (ps : List Piece) : ℕ := (ps.map Piece.weight).sum

theorem weight_cons (p : Piece) (ps : List Piece) : weight (p :: ps) = p.weight + weight ps :=
  rfl

theorem weight_char (s : Text) (ps : List Piece) :
    weight (s.map .char ++ ps) = s.length + weight ps := by
  induction s with
  | nil => simp
  | cons c s ih =>
    rw [List.map_cons, List.cons_append, weight_cons, ih, List.length_cons, Piece.weight]
    omega

theorem sideBySide_ends (hscript : unescape (Script.left loc ps) = [])
    (hscanner : unescape (Scanner.left ps') = []) : SideBySide loc h h' ps ps' :=
  .ends (script_left_eq_nil.mp (unescape_eq_nil.mp hscript))
    (scanner_left_eq_nil.mp (unescape_eq_nil.mp hscanner))

theorem unescapeFrom_rdropWhile {c : Char} (hkeep : ¬ (h = true ∧ c = '%')) (p : Char → Bool)
    (s : Text) : unescapeFrom h ((c :: s).rdropWhile p) = unescape ((c :: s).rdropWhile p) := by
  rw [rdropWhile_cons]
  apply unescapeFrom_of_head
  split_ifs
  · nofun
  · intro hc
    simpa using fun hflag => hkeep ⟨hflag, Option.some.inj hc⟩

theorem unescapeFrom_script {c : Char} (hkeep : ¬ (h = true ∧ c = '%')) :
    unescapeFrom h (Script.left loc (.char c :: ps)) = unescape (Script.left loc (.char c :: ps)) :=
  unescapeFrom_rdropWhile hkeep loc.space _

theorem unescapeFrom_scanner {c : Char} (hkeep : ¬ (h = true ∧ c = '%')) :
    unescapeFrom h (Scanner.left (.char c :: ps)) = unescape (Scanner.left (.char c :: ps)) :=
  unescapeFrom_rdropWhile hkeep isspace _

/-- Two characters that are both to be read are the same, or both lines end there. -/
theorem sideBySide_char {c c' : Char}
    (heq : unescape (Script.left loc (.char c :: ps)) = unescape (Scanner.left (.char c' :: ps')))
    (hleft : ¬ (h = true ∧ c = '%')) (hright : ¬ (h' = true ∧ c' = '%'))
    (ih : unescapeFrom (c = '%') (Script.left loc ps) = unescapeFrom (c = '%') (Scanner.left ps') →
      SideBySide loc (c = '%') (c = '%') ps ps') :
    SideBySide loc h h' (.char c :: ps) (.char c' :: ps') := by
  by_cases hends : Scanner.left (.char c' :: ps') = []
  · rw [hends] at heq
    exact sideBySide_ends heq (unescape_eq_nil.mpr hends)
  have hgoes : Script.left loc (.char c :: ps) ≠ [] := by
    intro hnil
    rw [hnil] at heq
    exact hends (unescape_eq_nil.mp heq.symm)
  have hscanner : Scanner.left (.char c' :: ps') = c' :: Scanner.left ps' :=
    rdropWhile_cons_of_ne_nil hends
  have hscript : Script.left loc (.char c :: ps) = c :: Script.left loc ps :=
    rdropWhile_cons_of_ne_nil hgoes
  rw [hscript, hscanner, unescape_cons_eq, unescape_cons_eq] at heq
  obtain ⟨rfl, hrest⟩ := List.cons.inj heq
  apply SideBySide.char
  · intro hpercent
    exact ⟨by simpa [hpercent] using hleft, by simpa [hpercent] using hright⟩
  · intro hspace
    by_contra hnone
    have hnil : Scanner.left ps' = [] := by
      rw [scanner_left_eq_nil]
      simpa using hnone
    rw [scanner_left_char, if_pos ⟨hnil, hspace⟩] at hends
    exact hends rfl
  · exact ih hrest

/-- The walk ends, as each step of it makes one of the lines lighter. -/
theorem sideBySide_of_left_eq {n : ℕ} (hn : weight ps + weight ps' = n)
    (heq : unescapeFrom h (Script.left loc ps) = unescapeFrom h' (Scanner.left ps')) :
    SideBySide loc h h' ps ps' := by
  induction n using Nat.strong_induction_on generalizing h h' ps ps' with
  | _ n ih =>
    by_cases hpair : ∃ rest, h = true ∧ ps = .char '%' :: rest
    · obtain ⟨ps, rfl, rfl⟩ := hpair
      apply SideBySide.leftPair
      refine ih _ ?_ rfl ?_
      · rw [← hn, weight_cons, Piece.weight]
        omega
      · rwa [script_left_percent] at heq
    by_cases hpair' : ∃ rest, h' = true ∧ ps' = .char '%' :: rest
    · obtain ⟨ps', rfl, rfl⟩ := hpair'
      apply SideBySide.rightPair
      refine ih _ ?_ rfl ?_
      · rw [← hn, weight_cons, Piece.weight]
        omega
      · rwa [scanner_left_percent] at heq
    match ps, ps' with
    | .code gap letter :: ps, ps' =>
      apply SideBySide.left
      refine ih _ ?_ rfl ?_
      · rw [weight_char, ← hn, weight_cons, Piece.weight]
        omega
      · rwa [script_left_code]
    | ps, .code gap letter :: ps' =>
      apply SideBySide.right
      refine ih _ ?_ rfl heq
      rw [← hn, weight_cons, Piece.weight]
      omega
    | [], [] => exact sideBySide_ends rfl rfl
    | [], .char c' :: ps' =>
      have hnil : unescapeFrom h (Script.left loc []) = [] := unescapeFrom_nil h
      rw [hnil, unescapeFrom_scanner (by simpa using hpair')] at heq
      exact sideBySide_ends rfl heq.symm
    | .char c :: ps, [] =>
      have hnil : unescapeFrom h' (Scanner.left []) = [] := unescapeFrom_nil h'
      rw [hnil, unescapeFrom_script (by simpa using hpair)] at heq
      exact sideBySide_ends heq rfl
    | .char c :: ps, .char c' :: ps' =>
      have hleft : ¬ (h = true ∧ c = '%') := by simpa using hpair
      have hright : ¬ (h' = true ∧ c' = '%') := by simpa using hpair'
      rw [unescapeFrom_script hleft, unescapeFrom_scanner hright] at heq
      refine sideBySide_char heq hleft hright fun hrest => ih _ ?_ rfl hrest
      rw [← hn, weight_cons, weight_cons, Piece.weight]
      omega

theorem scanner_left_dropWhile (ps : List Piece) :
    Scanner.left (ps.dropWhile (!·.visible)) = (body ps).flatMap Piece.scanned := by
  have hsplit : ps.dropWhile (!·.visible) = body ps ++ trail ps :=
    List.rdropWhile_append_rtakeWhile.symm
  rw [Scanner.left, hsplit, List.flatMap_append,
    rdropWhile_append (flatMap_getLast? (fun _ => rfl) body_getLast?),
    List.rdropWhile_eq_nil_iff.mpr (scanned_white fun _ => visible_trail), List.append_nil]

/-- Two lines give the same command exactly if they go side by side from the first character of
the one and the first visible character of the other. -/
theorem cleanExec_eq_iff_sideBySide (loc : Locale) (e e' : Text) :
    Script.cleanExec loc e = Scanner.cleanExec e' ↔
      SideBySide loc false false (pieces [] e) ((pieces [] e').dropWhile (!·.visible)) := by
  rw [script_cleanExec, scanner_cleanExec, ← scanner_left_dropWhile]
  constructor
  · intro heq
    exact sideBySide_of_left_eq rfl heq
  · intro hside
    exact hside.left_eq

end SideBySide

end Android
end ACGlass
