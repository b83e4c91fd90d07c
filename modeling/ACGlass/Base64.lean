import Mathlib.Tactic

/-!
# Base64

Three bytes are written as four digits, and what is left at the end is filled up with pads.
The digits are those of any alphabet.
-/

namespace ACGlass

/-- The symbols of a Base64 text: the digits with their values, and another one for a pad. -/
structure Base64 (κ : Type*) where
  digit : ℕ → κ
  value : κ → Option ℕ
  pad : κ
  value_digit : ∀ n < 64, value (digit n) = some n
  digit_ne_pad : ∀ n < 64, digit n ≠ pad

namespace Base64

variable {κ : Type*} (c : Base64 κ)

def encode : List UInt8 → List κ
  | [] => []
  | [x] => [c.digit (x.toNat / 4), c.digit (x.toNat % 4 * 16), c.pad, c.pad]
  | [x, y] =>
    [c.digit (x.toNat / 4), c.digit (x.toNat % 4 * 16 + y.toNat / 16),
      c.digit (y.toNat % 16 * 4), c.pad]
  | x :: y :: z :: t =>
    c.digit (x.toNat / 4) :: c.digit (x.toNat % 4 * 16 + y.toNat / 16) ::
      c.digit (y.toNat % 16 * 4 + z.toNat / 64) :: c.digit (z.toNat % 64) :: encode t

variable {c} in
theorem mem_encode {bs : List UInt8} {s : κ} (h : s ∈ c.encode bs) :
    s = c.pad ∨ ∃ n < 64, s = c.digit n := by
  induction bs using encode.induct with
  | case1 => cases h
  | case2 x =>
    have hx := x.toNat_lt
    simp only [encode, List.mem_cons, List.not_mem_nil, or_false] at h
    rcases h with rfl | rfl | rfl | rfl
    · exact .inr ⟨_, by omega, rfl⟩
    · exact .inr ⟨_, by omega, rfl⟩
    · exact .inl rfl
    · exact .inl rfl
  | case3 x y =>
    have hx := x.toNat_lt
    have hy := y.toNat_lt
    simp only [encode, List.mem_cons, List.not_mem_nil, or_false] at h
    rcases h with rfl | rfl | rfl | rfl
    · exact .inr ⟨_, by omega, rfl⟩
    · exact .inr ⟨_, by omega, rfl⟩
    · exact .inr ⟨_, by omega, rfl⟩
    · exact .inl rfl
  | case4 x y z t ih =>
    have hx := x.toNat_lt
    have hy := y.toNat_lt
    have hz := z.toNat_lt
    simp only [encode, List.mem_cons] at h
    rcases h with rfl | rfl | rfl | rfl | h
    · exact .inr ⟨_, by omega, rfl⟩
    · exact .inr ⟨_, by omega, rfl⟩
    · exact .inr ⟨_, by omega, rfl⟩
    · exact .inr ⟨_, by omega, rfl⟩
    · exact ih h

variable [DecidableEq κ]

/-- The bytes of four symbols; a pad stands for nothing and comes last. -/
def quantum (w x y z : κ) : Option (List UInt8) := do
  let w ← c.value w
  let x ← c.value x
  if y = c.pad then
    if z = c.pad then return [.ofNat (w * 4 + x / 16)] else none
  else
    let y ← c.value y
    if z = c.pad then return [.ofNat (w * 4 + x / 16), .ofNat (x % 16 * 16 + y / 4)]
    else
      let z ← c.value z
      return [.ofNat (w * 4 + x / 16), .ofNat (x % 16 * 16 + y / 4), .ofNat (y % 4 * 64 + z)]

def decode : List κ → Option (List UInt8)
  | [] => some []
  | w :: x :: y :: z :: t => do
    let bytes ← c.quantum w x y z
    let rest ← decode t
    return bytes ++ rest
  | _ => none

section Quantum

variable {c} {l m n o : ℕ}

theorem quantum_one (hl : l < 64) (hm : m < 64) :
    c.quantum (c.digit l) (c.digit m) c.pad c.pad = some [.ofNat (l * 4 + m / 16)] := by
  simp [quantum, c.value_digit l hl, c.value_digit m hm]

theorem quantum_two (hl : l < 64) (hm : m < 64) (hn : n < 64) :
    c.quantum (c.digit l) (c.digit m) (c.digit n) c.pad =
      some [.ofNat (l * 4 + m / 16), .ofNat (m % 16 * 16 + n / 4)] := by
  simp [quantum, c.value_digit l hl, c.value_digit m hm, c.value_digit n hn,
    c.digit_ne_pad n hn]

theorem quantum_three (hl : l < 64) (hm : m < 64) (hn : n < 64) (ho : o < 64) :
    c.quantum (c.digit l) (c.digit m) (c.digit n) (c.digit o) =
      some [.ofNat (l * 4 + m / 16), .ofNat (m % 16 * 16 + n / 4), .ofNat (n % 4 * 64 + o)] := by
  simp [quantum, c.value_digit l hl, c.value_digit m hm, c.value_digit n hn,
    c.value_digit o ho, c.digit_ne_pad n hn, c.digit_ne_pad o ho]

end Quantum

theorem ofNat_eq {x : UInt8} {n : ℕ} (h : n = x.toNat) : UInt8.ofNat n = x := by
  rw [h, UInt8.ofNat_toNat]

/-- Decoding gives back what was encoded. -/
theorem decode_encode (bs : List UInt8) : c.decode (c.encode bs) = some bs := by
  induction bs using encode.induct with
  | case1 => rfl
  | case2 x =>
    have hx := x.toNat_lt
    rw [encode, decode, quantum_one (by omega) (by omega), ofNat_eq (x := x) (by omega)]
    rfl
  | case3 x y =>
    have hx := x.toNat_lt
    have hy := y.toNat_lt
    rw [encode, decode, quantum_two (by omega) (by omega) (by omega), ofNat_eq (x := x) (by omega),
      ofNat_eq (x := y) (by omega)]
    rfl
  | case4 x y z t ih =>
    have hx := x.toNat_lt
    have hy := y.toNat_lt
    have hz := z.toNat_lt
    rw [encode, decode, quantum_three (by omega) (by omega) (by omega) (by omega),
      ofNat_eq (x := x) (by omega), ofNat_eq (x := y) (by omega), ofNat_eq (x := z) (by omega), ih]
    rfl

end Base64
end ACGlass
