import Mathlib.Data.List.DropRight
import Mathlib.Tactic

/-!
# JSON texts

What a text stands for is a relation, with white space wherever the format allows it. Numbers
and pairs of surrogates are left out.
-/

namespace ACGlass

inductive Json
  | null
  | bool (b : Bool)
  | string (s : List Char)
  | array (items : List Json)
  | object (fields : List (List Char × Json))

namespace Json

def isBlank (c : Char) : Bool := c ∈ [' ', '\t', '\n', '\r']

/-- The character that stands behind a backslash. -/
def unescape : Char → Option Char
  | '"' => some '"'
  | '\\' => some '\\'
  | '/' => some '/'
  | 'b' => some '\x08'
  | 'f' => some '\x0c'
  | 'n' => some '\n'
  | 'r' => some '\r'
  | 't' => some '\t'
  | _ => none

def hexDigits : List Char :=
  ['0', '1', '2', '3', '4', '5', '6', '7', '8', '9', 'a', 'b', 'c', 'd', 'e', 'f']

def hexValue (c : Char) : Option ℕ := hexDigits.findIdx? (· = c.toLower)

/-- The character of the four digits behind a `\u`. -/
def unescapeHex (digits : List Char) : Option Char := do
  let values ← digits.mapM hexValue
  let n := values.foldl (fun n v => 16 * n + v) 0
  if n.isValidChar then return .ofNat n else none

/-- The text between two quotes and what it stands for. -/
inductive WritesChars : List Char → List Char → Prop
  | nil : WritesChars [] []
  | plain {c : Char} {s t : List Char} (hquote : c ≠ '"') (hescape : c ≠ '\\') (hprint : ' ' ≤ c)
      (h : WritesChars s t) : WritesChars (c :: s) (c :: t)
  | escape {c e : Char} {s t : List Char} (he : unescape e = some c) (h : WritesChars s t) :
      WritesChars (c :: s) ('\\' :: e :: t)
  | hex {c d₁ d₂ d₃ d₄ : Char} {s t : List Char} (hd : unescapeHex [d₁, d₂, d₃, d₄] = some c)
      (h : WritesChars s t) : WritesChars (c :: s) ('\\' :: 'u' :: d₁ :: d₂ :: d₃ :: d₄ :: t)

def Blank (t : List Char) : Prop := ∀ c ∈ t, isBlank c = true

/-- A list with commas between its elements. -/
inductive WritesList {α : Type} (W : α → List Char → Prop) : List α → List Char → Prop
  | nil {b : List Char} (hb : Blank b) : WritesList W [] b
  | last {a : α} {b t b' : List Char} (hb : Blank b) (h : W a t) (hb' : Blank b') :
      WritesList W [a] (b ++ t ++ b')
  | cons {a a' : α} {as : List α} {b t b' u : List Char} (hb : Blank b) (h : W a t)
      (hb' : Blank b') (hs : WritesList W (a' :: as) u) :
      WritesList W (a :: a' :: as) (b ++ t ++ b' ++ ',' :: u)

/-- A name and a value with a colon between them. -/
inductive WritesField {α : Type} (W : α → List Char → Prop) : List Char × α → List Char → Prop
  | field {k : List Char} {a : α} {t b b' u : List Char} (hk : WritesChars k t) (hb : Blank b)
      (hb' : Blank b') (h : W a u) :
      WritesField W (k, a) ('"' :: t ++ '"' :: b ++ ':' :: b' ++ u)

inductive Writes : Json → List Char → Prop
  | null : Writes .null ['n', 'u', 'l', 'l']
  | true : Writes (.bool true) ['t', 'r', 'u', 'e']
  | false : Writes (.bool false) ['f', 'a', 'l', 's', 'e']
  | string {s t : List Char} (h : WritesChars s t) : Writes (.string s) ('"' :: t ++ ['"'])
  | array {vs : List Json} {t : List Char} (h : WritesList Writes vs t) :
      Writes (.array vs) ('[' :: t ++ [']'])
  | object {fs : List (List Char × Json)} {t : List Char} (h : WritesList (WritesField Writes) fs t) :
      Writes (.object fs) ('{' :: t ++ ['}'])

section Reading

/-- The characters of a string up to the closing quote. -/
def readChars : List Char → Option (List Char × List Char)
  | [] => none
  | c :: t =>
    if c = '"' then some ([], t)
    else if c = '\\' then
      match t with
      | [] => none
      | e :: t =>
        if e = 'u' then
          match t with
          | d₁ :: d₂ :: d₃ :: d₄ :: t => do
            let c ← unescapeHex [d₁, d₂, d₃, d₄]
            (readChars t).map fun r => (c :: r.1, r.2)
          | _ => none
        else do
          let c ← unescape e
          (readChars t).map fun r => (c :: r.1, r.2)
    else if ' ' ≤ c then (readChars t).map fun r => (c :: r.1, r.2)
    else none

variable {α : Type}

/-- The elements up to the closing bracket. -/
def readList (close : Char) (read : List Char → Option (α × List Char)) :
    ℕ → List Char → Option (List α × List Char)
  | 0, _ => none
  | fuel + 1, t =>
    match t.dropWhile isBlank with
    | [] => none
    | c :: t =>
      if c = close then some ([], t)
      else do
        let (a, t) ← read (c :: t)
        match t.dropWhile isBlank with
        | [] => none
        | c :: t =>
          if c = ',' then (readList close read fuel t).map fun r => (a :: r.1, r.2)
          else if c = close then some ([a], t)
          else none

def readField (read : List Char → Option (α × List Char)) :
    List Char → Option ((List Char × α) × List Char)
  | '"' :: t => do
    let (k, t) ← readChars t
    match t.dropWhile isBlank with
    | ':' :: t => (read (t.dropWhile isBlank)).map fun r => ((k, r.1), r.2)
    | _ => none
  | _ => none

def readValue : ℕ → List Char → Option (Json × List Char)
  | 0, _ => none
  | fuel + 1, t =>
    match t with
    | 'n' :: 'u' :: 'l' :: 'l' :: t => some (.null, t)
    | 't' :: 'r' :: 'u' :: 'e' :: t => some (.bool true, t)
    | 'f' :: 'a' :: 'l' :: 's' :: 'e' :: t => some (.bool false, t)
    | '"' :: t => (readChars t).map fun r => (.string r.1, r.2)
    | '[' :: t => (readList ']' (readValue fuel) fuel t).map fun r => (.array r.1, r.2)
    | '{' :: t => (readList '}' (readField (readValue fuel)) fuel t).map fun r => (.object r.1, r.2)
    | _ => none

/-- The value of a text; what follows the value is ignored. -/
def parse (t : List Char) : Option Json :=
  (readValue (t.length + 1) (t.dropWhile isBlank)).map Prod.fst

theorem readChars_of_writes {s t : List Char} (h : WritesChars s t) (rest : List Char) :
    readChars (t ++ '"' :: rest) = some (s, rest) := by
  induction h with
  | nil =>
    rw [List.nil_append, readChars.eq_def]
    simp
  | plain hquote hescape hprint _ ih =>
    rw [List.cons_append, readChars.eq_def]
    simp [hquote, hescape, hprint, ih]
  | @escape c e _ _ he _ ih =>
    have hu : e ≠ 'u' := by
      rintro rfl
      cases he
    rw [List.cons_append, List.cons_append, readChars.eq_def]
    simp [hu, he, ih]
  | hex hd _ ih =>
    simp only [List.cons_append]
    rw [readChars.eq_def]
    simp [hd, ih]

theorem dropWhile_blank {b : List Char} (hb : Blank b) (t : List Char) :
    (b ++ t).dropWhile isBlank = t.dropWhile isBlank := by
  induction b with
  | nil => rfl
  | cons c b ih =>
    rw [Blank, List.forall_mem_cons] at hb
    rw [List.cons_append, List.dropWhile_cons_of_pos hb.1, ih hb.2]

/-- What starts with a character that is not blank, and does not close a list. -/
def Starts (close : Char) (t : List Char) : Prop :=
  ∃ c u, t = c :: u ∧ isBlank c = false ∧ c ≠ close

theorem Starts.dropWhile {close : Char} {t : List Char} (h : Starts close t) (rest : List Char) :
    (t ++ rest).dropWhile isBlank = t ++ rest := by
  obtain ⟨c, u, rfl, hc, -⟩ := h
  rw [List.cons_append, List.dropWhile_cons_of_neg (by simp [hc])]

theorem readList_of_writes {W : α → List Char → Prop} {close : Char}
    {read : List Char → Option (α × List Char)} (hblank : isBlank close = false)
    (hcomma : close ≠ ',') {n : ℕ} (hstarts : ∀ a t, W a t → Starts close t)
    (hread : ∀ a t, W a t → t.length < n → ∀ rest, read (t ++ rest) = some (a, rest))
    {as : List α} {t : List Char} (h : WritesList W as t) (ht : t.length < n) {fuel : ℕ}
    (hfuel : t.length < fuel) (rest : List Char) :
    readList close read fuel (t ++ close :: rest) = some (as, rest) := by
  induction h generalizing fuel with
  | nil hb =>
    obtain ⟨fuel, rfl⟩ : ∃ f, fuel = f + 1 := ⟨fuel - 1, by omega⟩
    rw [readList, dropWhile_blank hb, List.dropWhile_cons_of_neg (by simp [hblank])]
    simp
  | @last a b u b' hb hu hb' =>
    obtain ⟨fuel, rfl⟩ : ∃ f, fuel = f + 1 := ⟨fuel - 1, by omega⟩
    simp only [List.length_append] at ht
    have hrun := hread a u hu (by omega) (b' ++ close :: rest)
    have hdrop := (hstarts a u hu).dropWhile (b' ++ close :: rest)
    obtain ⟨c, v, rfl, -, hc⟩ := hstarts a u hu
    simp only [readList, List.append_assoc, dropWhile_blank hb, hdrop]
    simp only [List.cons_append] at hrun ⊢
    rw [if_neg hc, hrun]
    simp [dropWhile_blank hb', hblank, hcomma]
  | @cons a a' as b u b' w hb hu hb' hs ih =>
    obtain ⟨fuel, rfl⟩ : ∃ f, fuel = f + 1 := ⟨fuel - 1, by omega⟩
    simp only [List.length_append, List.length_cons] at ht hfuel
    have hrun := hread a u hu (by omega) (b' ++ ',' :: (w ++ close :: rest))
    have hdrop := (hstarts a u hu).dropWhile (b' ++ ',' :: (w ++ close :: rest))
    have htail := ih (by omega) (show w.length < fuel by omega)
    obtain ⟨c, v, rfl, -, hc⟩ := hstarts a u hu
    simp only [readList, List.append_assoc, List.cons_append, dropWhile_blank hb] at hdrop hrun ⊢
    simp only [hdrop]
    rw [if_neg hc, hrun]
    have hb : isBlank ',' = false := by decide
    simp [dropWhile_blank hb', hb, htail]

theorem Writes.starts {v : Json} {t : List Char} (h : Writes v t) :
    Starts ']' t ∧ Starts '}' t := by
  cases h <;> exact ⟨⟨_, _, rfl, by decide, by decide⟩, ⟨_, _, rfl, by decide, by decide⟩⟩

theorem WritesField.starts {W : α → List Char → Prop} {f : List Char × α} {t : List Char}
    (h : WritesField W f t) : Starts '}' t := by
  cases h
  exact ⟨_, _, rfl, by decide, by decide⟩

theorem readField_of_writes {W : α → List Char → Prop} {read : List Char → Option (α × List Char)}
    {n : ℕ} (hstarts : ∀ a t, W a t → Starts '}' t)
    (hread : ∀ a t, W a t → t.length < n → ∀ rest, read (t ++ rest) = some (a, rest))
    {f : List Char × α} {t : List Char} (h : WritesField W f t) (ht : t.length < n)
    (rest : List Char) : readField read (t ++ rest) = some (f, rest) := by
  cases h with
  | @field k a t b b' u hk hb hb' hu =>
    simp only [List.length_append, List.length_cons] at ht
    have hrun := hread a u hu (by omega) rest
    have hdrop := (hstarts a u hu).dropWhile rest
    have hcolon : isBlank ':' = false := by decide
    simp [readField, readChars_of_writes hk, dropWhile_blank hb, dropWhile_blank hb', hcolon,
      hdrop, hrun]

/-- A text that stands for a value is read as this value. -/
theorem readValue_of_writes {n : ℕ} {v : Json} {t : List Char} (h : Writes v t)
    (ht : t.length < n) (rest : List Char) : readValue n (t ++ rest) = some (v, rest) := by
  induction n generalizing v t rest with
  | zero => omega
  | succ n ih =>
    cases h with
    | null | true | false => rfl
    | string h =>
      simp [readValue, readChars_of_writes h]
    | array h =>
      simp only [List.length_append, List.length_cons] at ht
      have hitems := readList_of_writes (show isBlank ']' = false by decide) (by decide)
        (fun _ _ hw => hw.starts.1) (fun _ _ hw ht rest => ih hw ht rest) h (by omega)
        (show _ < n by omega) rest
      simp [readValue, hitems]
    | object h =>
      simp only [List.length_append, List.length_cons] at ht
      have hfields := readList_of_writes (show isBlank '}' = false by decide) (by decide)
        (fun _ _ hw => hw.starts) (fun _ _ hw ht rest => readField_of_writes
          (fun _ _ hw => hw.starts.2) (fun _ _ hw ht rest => ih hw ht rest) hw ht rest)
        h (by omega) (show _ < n by omega) rest
      simp [readValue, hfields]

theorem parse_of_writes {v : Json} {t : List Char} (h : Writes v t) : parse t = some v := by
  have hdrop := h.starts.1.dropWhile []
  have hread := readValue_of_writes h (Nat.lt_succ_self _) []
  rw [List.append_nil] at hdrop hread
  rw [parse, hdrop, hread]
  rfl

end Reading

section Writing

/-- A character between two quotes. -/
def escapeChar (c : Char) : List Char :=
  if c = '"' then ['\\', '"']
  else if c = '\\' then ['\\', '\\']
  else if ' ' ≤ c then [c]
  else if c = '\n' then ['\\', 'n']
  else if c = '\r' then ['\\', 'r']
  else if c = '\t' then ['\\', 't']
  else if c = '\x0c' then ['\\', 'f']
  else if c = '\x08' then ['\\', 'b']
  else ['\\', 'u', '0', '0', hexDigits.getD (c.toNat / 16) '0', hexDigits.getD (c.toNat % 16) '0']

def dumpsString (s : List Char) : List Char := '"' :: s.flatMap escapeChar ++ ['"']

mutual

/-- Values in the layout of `json.dumps`. -/
def dumps : Json → List Char
  | .null => ['n', 'u', 'l', 'l']
  | .bool true => ['t', 'r', 'u', 'e']
  | .bool false => ['f', 'a', 'l', 's', 'e']
  | .string s => dumpsString s
  | .array vs => '[' :: dumpsItems vs ++ [']']
  | .object fs => '{' :: dumpsFields fs ++ ['}']

def dumpsItems : List Json → List Char
  | [] => []
  | [v] => dumps v
  | v :: w :: vs => dumps v ++ ',' :: ' ' :: dumpsItems (w :: vs)

def dumpsFields : List (List Char × Json) → List Char
  | [] => []
  | [(k, v)] => dumpsString k ++ ':' :: ' ' :: dumps v
  | (k, v) :: f :: fs => dumpsString k ++ ':' :: ' ' :: dumps v ++ ',' :: ' ' :: dumpsFields (f :: fs)

end

theorem unescapeHex_digits : ∀ n < 32, unescapeHex ['0', '0', hexDigits.getD (n / 16) '0',
    hexDigits.getD (n % 16) '0'] = some (.ofNat n) := by decide

theorem WritesChars.escapeChar (c : Char) {s t : List Char} (h : WritesChars s t) :
    WritesChars (c :: s) (Json.escapeChar c ++ t) := by
  have hhex (hc : ¬ ' ' ≤ c) : unescapeHex ['0', '0', hexDigits.getD (c.toNat / 16) '0',
      hexDigits.getD (c.toNat % 16) '0'] = some c := by
    have hlt : c < ' ' := Char.not_le.mp hc
    have hlt : c.toNat < 32 := UInt32.lt_iff_toNat_lt.mp hlt
    rw [unescapeHex_digits c.toNat hlt, Char.ofNat_toNat]
  unfold Json.escapeChar
  split_ifs with hquote hescape hprint
  any_goals
    subst c
    exact .escape rfl h
  · exact .plain hquote hescape hprint h
  · exact .hex (hhex hprint) h

theorem writes_dumpsString (s : List Char) : WritesChars s (s.flatMap escapeChar) := by
  induction s with
  | nil => exact .nil
  | cons c s ih => exact ih.escapeChar c

theorem WritesList.blank {α : Type} {W : α → List Char → Prop} {as : List α} {t b : List Char}
    (hb : Blank b) (h : WritesList W as t) : WritesList W as (b ++ t) := by
  have happend {u : List Char} (hu : Blank u) : Blank (b ++ u) := by
    intro c hc
    exact (List.mem_append.mp hc).elim (hb c) (hu c)
  cases h with
  | nil hu => exact .nil (happend hu)
  | last hu h hu' =>
    simp only [← List.append_assoc]
    exact .last (happend hu) h hu'
  | cons hu h hu' hs =>
    simp only [← List.append_assoc]
    exact .cons (happend hu) h hu' hs

theorem blank_nil : Blank [] := by simp [Blank]

theorem blank_space : Blank [' '] := by simp [Blank, isBlank]

theorem WritesField.dumps {α : Type} {W : α → List Char → Prop} (k : List Char) {a : α}
    {t : List Char} (h : W a t) : WritesField W (k, a) (dumpsString k ++ ':' :: ' ' :: t) := by
  have hfield := WritesField.field (writes_dumpsString k) blank_nil blank_space h
  simpa [dumpsString] using hfield

theorem WritesList.one {α : Type} {W : α → List Char → Prop} {a : α} {t : List Char}
    (h : W a t) : WritesList W [a] t := by
  simpa using WritesList.last blank_nil h blank_nil

theorem WritesList.more {α : Type} {W : α → List Char → Prop} {a a' : α} {as : List α}
    {t u : List Char} (h : W a t) (hs : WritesList W (a' :: as) u) :
    WritesList W (a :: a' :: as) (t ++ ',' :: u) := by
  simpa using WritesList.cons blank_nil h blank_nil hs

mutual

/-- What is written stands for the value. -/
theorem writes_dumps : ∀ v, Writes v (dumps v)
  | .null => .null
  | .bool true => .true
  | .bool false => .false
  | .string s => .string (writes_dumpsString s)
  | .array vs => .array (writes_dumpsItems vs)
  | .object fs => .object (writes_dumpsFields fs)

theorem writes_dumpsItems : ∀ vs, WritesList Writes vs (dumpsItems vs)
  | [] => .nil blank_nil
  | [v] => .one (writes_dumps v)
  | v :: w :: vs => .more (writes_dumps v) ((writes_dumpsItems (w :: vs)).blank blank_space)

theorem writes_dumpsFields : ∀ fs, WritesList (WritesField Writes) fs (dumpsFields fs)
  | [] => .nil blank_nil
  | [(k, v)] => .one (.dumps k (writes_dumps v))
  | (k, v) :: f :: fs =>
    .more (.dumps k (writes_dumps v)) ((writes_dumpsFields (f :: fs)).blank blank_space)

end

end Writing

end Json

end ACGlass
