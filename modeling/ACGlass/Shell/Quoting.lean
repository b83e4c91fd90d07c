import Mathlib.Data.List.Infix
import Mathlib.Data.List.TakeWhile
import Mathlib.Tactic

/-!
# Quoting in shell words

A command is read as a list of marks: characters with the way in which they are quoted, and
the places where a quoted part starts. Shells and Python's `shlex` find the same marks, and
differ in what they make of them.
-/

namespace ACGlass
namespace Shell

abbrev Chars := List Char

/-- `escaped` stands behind a backslash, `doubleEscaped` behind one between double quotes. -/
inductive Quoting
  | plain
  | escaped
  | single
  | double
  | doubleEscaped
  deriving DecidableEq, Repr

inductive Mark
  | quote
  | char (c : Char) (q : Quoting)
  deriving DecidableEq, Repr

/-- Outside of quotes or between two of a kind, and behind a backslash. -/
inductive Mode
  | plain
  | escape
  | single
  | double
  | doubleEscape
  deriving DecidableEq, Repr

/-- The marks of a text; there are none if a quote or a backslash is left open. -/
def scan : Mode → Chars → Option (List Mark)
  | .plain, [] => some []
  | .escape, [] | .single, [] | .double, [] | .doubleEscape, [] => none
  | .plain, c :: t =>
    if c = '\'' then (scan .single t).map (.quote :: ·)
    else if c = '"' then (scan .double t).map (.quote :: ·)
    else if c = '\\' then scan .escape t
    else (scan .plain t).map (.char c .plain :: ·)
  | .escape, c :: t => (scan .plain t).map (.char c .escaped :: ·)
  | .single, c :: t =>
    if c = '\'' then scan .plain t else (scan .single t).map (.char c .single :: ·)
  | .double, c :: t =>
    if c = '"' then scan .plain t
    else if c = '\\' then scan .doubleEscape t
    else (scan .double t).map (.char c .double :: ·)
  | .doubleEscape, c :: t => (scan .double t).map (.char c .doubleEscaped :: ·)

def separates (blanks : List Char) : Mark → Bool
  | .char c .plain => c ∈ blanks
  | _ => false

/-- The runs of marks between unquoted blanks. -/
def words (blanks : List Char) (ms : List Mark) : List (List Mark) :=
  (ms.splitOnP (separates blanks)).filter (!·.isEmpty)

/-- The text of a mark, if a backslash between double quotes quotes `specials`. -/
def markText (specials : List Char) : Mark → Chars
  | .quote => []
  | .char c .doubleEscaped => if c ∈ specials then [c] else ['\\', c]
  | .char c _ => [c]

section Shlex

def shlexBlanks : List Char := [' ', '\t', '\r', '\n']

def shlexText (w : List Mark) : Chars := w.flatMap (markText ['"', '\\'])

/-- `shlex.split`; `none` is a `ValueError`. -/
def split (s : Chars) : Option (List Chars) :=
  (scan .plain s).map fun ms => (words shlexBlanks ms).map shlexText

/-- What `shlex.quote` leaves as it is. -/
def isSafe (c : Char) : Bool :=
  c.isAlphanum || c ∈ ['_', '@', '%', '+', '=', ':', ',', '.', '/', '-']

/-- `shlex.quote` -/
def quote (t : Chars) : Chars :=
  if t = [] then ['\'', '\'']
  else if t.all isSafe then t
  else '\'' :: t.flatMap (fun c => if c = '\'' then ['\'', '"', '\'', '"', '\''] else [c]) ++ ['\'']

/-- `shlex.join` -/
def join (ts : List Chars) : Chars := [' '].intercalate (ts.map quote)

end Shlex

/-- The marks of a quoted text. -/
def quoteMarks (t : Chars) : List Mark :=
  if t = [] then [.quote]
  else if t.all isSafe then t.map (.char · .plain)
  else .quote :: t.flatMap fun c =>
    if c = '\'' then [.quote, .char '\'' .double, .quote] else [.char c .single]

section Scanning

theorem scan_plain {c : Char} (hsingle : c ≠ '\'') (hdouble : c ≠ '"') (hescape : c ≠ '\\')
    (t : Chars) : scan .plain (c :: t) = (scan .plain t).map (.char c .plain :: ·) := by
  rw [scan, if_neg hsingle, if_neg hdouble, if_neg hescape]

theorem isSafe_ne {c : Char} (h : isSafe c = true) : c ≠ '\'' ∧ c ≠ '"' ∧ c ≠ '\\' := by
  refine ⟨?_, ?_, ?_⟩ <;>
    · rintro rfl
      cases h

/-- The text is read as the marks, however the command goes on. -/
def Scans (t : Chars) (ms : List Mark) : Prop :=
  ∀ rest, scan .plain (t ++ rest) = (scan .plain rest).map (ms ++ ·)

theorem Scans.scan_eq {t : Chars} {ms : List Mark} (h : Scans t ms) :
    scan .plain t = some ms := by
  have hscan := h []
  simpa [scan] using hscan

theorem Scans.append {t t' : Chars} {ms ms' : List Mark} (h : Scans t ms) (h' : Scans t' ms') :
    Scans (t ++ t') (ms ++ ms') := by
  intro rest
  rw [List.append_assoc, h, h', Option.map_map]
  simp [Function.comp_def]

theorem scan_safe {t : Chars} (h : t.all isSafe = true) : Scans t (t.map (.char · .plain)) := by
  intro rest
  induction t with
  | nil => simp
  | cons c t ih =>
    rw [List.all_cons, Bool.and_eq_true] at h
    obtain ⟨hsingle, hdouble, hescape⟩ := isSafe_ne h.1
    rw [List.cons_append, scan_plain hsingle hdouble hescape, ih h.2, Option.map_map]
    rfl

theorem scan_blank : Scans [' '] [.char ' ' .plain] :=
  fun rest => scan_plain (by decide) (by decide) (by decide) rest

theorem scan_single (t rest : Chars) :
    scan .single (t.flatMap (fun c => if c = '\'' then ['\'', '"', '\'', '"', '\''] else [c]) ++
      '\'' :: rest) =
      (scan .plain rest).map ((t.flatMap fun c =>
        if c = '\'' then [.quote, .char '\'' .double, .quote] else [.char c .single]) ++ ·) := by
  induction t with
  | nil => simp [scan]
  | cons c t ih =>
    by_cases hc : c = '\''
    · subst c
      simp [scan, ih, Function.comp_def]
    · simp [scan, ih, hc, Function.comp_def]

/-- A text between single quotes, with its own quotes between double ones. -/
theorem scan_wrapped (t : Chars) :
    Scans ('\'' :: t.flatMap (fun c => if c = '\'' then ['\'', '"', '\'', '"', '\''] else [c]) ++
      ['\'']) (.quote :: t.flatMap fun c =>
        if c = '\'' then [.quote, .char '\'' .double, .quote] else [.char c .single]) := by
  intro rest
  rw [List.append_assoc, List.cons_append, scan, if_pos rfl]
  rw [List.singleton_append, scan_single, Option.map_map]
  rfl

theorem scan_quote (t : Chars) : Scans (quote t) (quoteMarks t) := by
  unfold quote quoteMarks
  split_ifs with hnil hsafe
  · exact fun rest => by simp [scan]
  · exact scan_safe hsafe
  · exact scan_wrapped t

theorem scan_intercalate {ts : List Chars} {ws : List (List Mark)}
    (h : List.Forall₂ Scans ts ws) :
    Scans ([' '].intercalate ts) ([.char ' ' .plain].intercalate ws) := by
  induction h with
  | nil => exact fun rest => by simp
  | @cons t w ts ws ht hts ih =>
    cases hts with
    | nil => simpa using ht
    | cons hu hus =>
      rw [List.intercalate_cons_cons, List.intercalate_cons_cons]
      exact (ht.append scan_blank).append ih

theorem scan_join (ts : List Chars) :
    scan .plain (join ts) = some ([.char ' ' .plain].intercalate (ts.map quoteMarks)) := by
  apply Scans.scan_eq
  apply scan_intercalate
  rw [List.forall₂_map_left_iff, List.forall₂_map_right_iff, List.forall₂_same]
  exact fun t _ => scan_quote t

theorem mem_of_scan {t : Chars} {mode : Mode} {ms : List Mark} (h : scan mode t = some ms)
    {c : Char} {q : Quoting} (hm : .char c q ∈ ms) : c ∈ t := by
  induction t generalizing mode ms with
  | nil =>
    cases mode with
    | plain =>
      obtain rfl := Option.some.inj h
      cases hm
    | escape | single | double | doubleEscape => cases h
  | cons d t ih =>
    have hhead : ∀ {mode q'}, (scan mode t).map (.char d q' :: ·) = some ms → c ∈ d :: t := by
      intro mode q' h
      obtain ⟨rest, hrest, rfl⟩ := Option.map_eq_some_iff.mp h
      rcases List.mem_cons.mp hm with heq | hm
      · exact List.mem_cons.mpr (.inl (Mark.char.inj heq).1)
      · exact List.mem_cons_of_mem _ (ih hrest hm)
    have hquote : ∀ {mode}, (scan mode t).map (.quote :: ·) = some ms → c ∈ d :: t := by
      intro mode h
      obtain ⟨rest, hrest, rfl⟩ := Option.map_eq_some_iff.mp h
      rcases List.mem_cons.mp hm with heq | hm
      · cases heq
      · exact List.mem_cons_of_mem _ (ih hrest hm)
    cases mode with
    | plain =>
      rw [scan] at h
      split_ifs at h
      · exact hquote h
      · exact hquote h
      · exact List.mem_cons_of_mem _ (ih h hm)
      · exact hhead h
    | escape | doubleEscape => exact hhead h
    | single =>
      rw [scan] at h
      split_ifs at h
      · exact List.mem_cons_of_mem _ (ih h hm)
      · exact hhead h
    | double =>
      rw [scan] at h
      split_ifs at h
      · exact List.mem_cons_of_mem _ (ih h hm)
      · exact List.mem_cons_of_mem _ (ih h hm)
      · exact hhead h

end Scanning

section Words

variable {blanks : List Char}

theorem flatten_splitOnP {α : Type*} (p : α → Bool) (l : List α) :
    (l.splitOnP p).flatten = l.filter (!p ·) := by
  induction l with
  | nil => simp
  | cons a l ih =>
    rw [List.splitOnP_cons_eq_if_modifyHead]
    split_ifs with h
    · simp [h, ih]
    · obtain ⟨first, rest, hsplit⟩ := List.exists_cons_of_ne_nil (List.splitOnP_ne_nil p l)
      rw [hsplit] at ih ⊢
      simp [h, ← ih]

/-- Only the blanks are left out of the words. -/
theorem flatten_words (blanks : List Char) (ms : List Mark) :
    (words blanks ms).flatten = ms.filter (!separates blanks ·) := by
  rw [words, List.flatten_filter_not_isEmpty, flatten_splitOnP]

theorem words_intercalate (hspace : ' ' ∈ blanks) {ws : List (List Mark)}
    (h : ∀ w ∈ ws, w ≠ [] ∧ ∀ m ∈ w, separates blanks m = false) :
    words blanks ([.char ' ' .plain].intercalate ws) = ws := by
  have hsep : separates blanks (.char ' ' .plain) = true := by simp [separates, hspace]
  induction ws with
  | nil => rfl
  | cons w ws ih =>
    rw [List.forall_mem_cons] at h
    cases ws with
    | nil => simp [words, List.splitOnP_eq_singleton h.1.2, h.1.1]
    | cons v vs =>
      have hrest := ih h.2
      rw [words] at hrest ⊢
      rw [List.intercalate_cons_cons, List.append_assoc, List.singleton_append,
        List.splitOnP_append_cons_of_forall_mem h.1.2 _ hsep]
      simp [h.1.1, hrest]

/-- A mark as `quote` writes it: in quotes, or of a safe character. -/
def Mark.Printed (m : Mark) : Prop :=
  m = .quote ∨ m = .char '\'' .double ∨ (∃ c, m = .char c .single) ∨
    ∃ c, m = .char c .plain ∧ isSafe c = true

theorem printed_safe {t : Chars} (h : t.all isSafe = true) {m : Mark}
    (hm : m ∈ t.map (.char · .plain)) : m.Printed := by
  obtain ⟨c, hc, rfl⟩ := List.mem_map.mp hm
  exact .inr (.inr (.inr ⟨c, rfl, List.all_eq_true.mp h c hc⟩))

theorem printed_wrapped {t : Chars} {m : Mark} (h : m ∈ Mark.quote :: t.flatMap fun c =>
    if c = '\'' then [.quote, .char '\'' .double, .quote] else [.char c .single]) :
    m.Printed := by
  rcases List.mem_cons.mp h with rfl | h
  · exact .inl rfl
  · obtain ⟨c, -, hm⟩ := List.mem_flatMap.mp h
    split_ifs at hm
    · simp only [List.mem_cons, List.not_mem_nil, or_false] at hm
      rcases hm with rfl | rfl | rfl <;> simp [Mark.Printed]
    · exact .inr (.inr (.inl ⟨c, List.mem_singleton.mp hm⟩))

theorem mem_quoteMarks {t : Chars} {m : Mark} (h : m ∈ quoteMarks t) : m.Printed := by
  unfold quoteMarks at h
  split_ifs at h with hnil hsafe
  · exact .inl (List.mem_singleton.mp h)
  · exact printed_safe hsafe h
  · exact printed_wrapped h

theorem quoteMarks_ne_nil (t : Chars) : quoteMarks t ≠ [] := by
  unfold quoteMarks
  split_ifs with hnil hsafe
  · simp
  · simpa using hnil
  · simp

theorem separates_printed (hblanks : ∀ c ∈ blanks, isSafe c = false) {m : Mark}
    (h : m.Printed) : separates blanks m = false := by
  rcases h with rfl | rfl | ⟨c, rfl⟩ | ⟨c, rfl, hc⟩
  · rfl
  · rfl
  · rfl
  · by_contra hsep
    have hmem : c ∈ blanks := by simpa [separates] using hsep
    rw [hblanks c hmem] at hc
    cases hc

theorem markText_wrapped (specials : List Char) (t : Chars) :
    (Mark.quote :: t.flatMap fun c => if c = '\'' then [.quote, .char '\'' .double, .quote]
      else [.char c .single]).flatMap (markText specials) = t := by
  rw [List.flatMap_cons, List.flatMap_assoc]
  have hchar : ∀ c : Char, (if c = '\'' then [.quote, .char '\'' .double, .quote]
      else [.char c .single]).flatMap (markText specials) = [c] := by
    intro c
    split_ifs with hc
    · simp [markText, hc]
    · simp [markText]
  simp only [hchar]
  exact List.flatMap_singleton' t

theorem flatMap_markText_quoteMarks (specials : List Char) (t : Chars) :
    (quoteMarks t).flatMap (markText specials) = t := by
  unfold quoteMarks
  split_ifs with hnil hsafe
  · simp [hnil, markText]
  · rw [List.flatMap_map]
    exact List.flatMap_singleton' t
  · exact markText_wrapped specials t

end Words

end Shell
end ACGlass
