import Mathlib.Tactic

/-!
# Calls on a stream of messages

A polling call looks at the header of the first message. It takes the message, with or
without a result, or leaves it where it is. Calls that take every message deliver a stream
in order; a message that is left stops the stream.
-/

namespace ACGlass
namespace Skimming

variable {κ α μ ρ : Type*}

/-- What a call leaves: the state of the caller, a result, and the rest of the stream. -/
structure Polled (κ α ρ : Type*) where
  state : κ
  result : Option ρ
  rest : List α

/-- Calls on one stream, of which the first `seen` symbols have arrived at each. -/
def calls (poll : κ → ℕ → List α → Polled κ α ρ) : κ → List α → List ℕ → List ρ × List α
  | _, stream, [] => ([], stream)
  | k, stream, seen :: seens =>
    let r := poll k seen stream
    let (results, rest) := calls poll r.state r.rest seens
    (r.result.toList ++ results, rest)

/-- A polling call with the messages of its stream. -/
structure Skimmer (κ α μ ρ : Type*) where
  poll : κ → ℕ → List α → Polled κ α ρ
  state : κ
  header : ℕ
  encode : μ → List α
  deliver : μ → Option ρ
  takes : μ → Prop
  header_pos : 0 < header
  short : ∀ seen stream, min seen stream.length < header →
    poll state seen stream = ⟨state, none, stream⟩
  taken : ∀ m, takes m → ∀ seen rest, header ≤ seen →
    poll state seen (encode m ++ rest) = ⟨state, deliver m, rest⟩
  left : ∀ m, ¬ takes m → ∀ seen rest, header ≤ seen →
    poll state seen (encode m ++ rest) = ⟨state, none, encode m ++ rest⟩
  encode_ne : ∀ m, encode m ≠ []

namespace Skimmer

variable (S : Skimmer κ α μ ρ)

/-- The calls that see a whole header, if there is one. -/
def full (seens : List ℕ) : ℕ := seens.countP fun seen => S.header ≤ seen

/-- Every call that sees a header takes one message, and what it should deliver is delivered. -/
def Skims (msgs : List μ) : Prop :=
  ∀ seens, calls S.poll S.state (msgs.flatMap S.encode) seens =
    ((msgs.take (S.full seens)).filterMap S.deliver,
      (msgs.drop (S.full seens)).flatMap S.encode)

variable {S} {msgs : List μ}

theorem calls_of_short {seen : ℕ} {stream : List α} (h : min seen stream.length < S.header)
    (seens : List ℕ) :
    calls S.poll S.state stream (seen :: seens) = calls S.poll S.state stream seens := by
  rw [calls, S.short seen stream h]
  rfl

theorem calls_of_taken {m : μ} (hm : S.takes m) {seen : ℕ} (hseen : S.header ≤ seen)
    (rest : List α) (seens : List ℕ) :
    calls S.poll S.state (S.encode m ++ rest) (seen :: seens) =
      ((S.deliver m).toList ++ (calls S.poll S.state rest seens).1,
        (calls S.poll S.state rest seens).2) := by
  rw [calls, S.taken m hm seen rest hseen]

theorem full_cons_of_le {seen : ℕ} (h : S.header ≤ seen) (seens : List ℕ) :
    S.full (seen :: seens) = S.full seens + 1 := by
  simp [full, h]

theorem full_cons_of_lt {seen : ℕ} (h : seen < S.header) (seens : List ℕ) :
    S.full (seen :: seens) = S.full seens := by
  simp [full, h]

theorem filterMap_take_cons (m : μ) (msgs : List μ) (n : ℕ) :
    ((m :: msgs).take (n + 1)).filterMap S.deliver =
      (S.deliver m).toList ++ (msgs.take n).filterMap S.deliver := by
  rw [List.take_succ_cons, List.filterMap_cons]
  cases S.deliver m <;> rfl

/-- Induction on the calls: each takes the next message. -/
theorem skims_of_takes (h : ∀ m ∈ msgs, S.takes m) : S.Skims msgs := by
  intro seens
  induction seens generalizing msgs with
  | nil => simp [calls, full]
  | cons seen seens ih =>
    by_cases hseen : S.header ≤ seen
    · cases msgs with
      | nil =>
        have hshort : min seen ([] : List α).length < S.header := by
          simpa using S.header_pos
        rw [List.flatMap_nil, calls_of_short hshort]
        simpa using ih h
      | cons m msgs =>
        have hrest := ih fun m' hm' => h m' (List.mem_cons_of_mem m hm')
        rw [List.flatMap_cons, calls_of_taken (h m (by simp)) hseen, hrest,
          full_cons_of_le hseen, filterMap_take_cons, List.drop_succ_cons]
    · have hlt : seen < S.header := not_le.mp hseen
      rw [calls_of_short (by omega), ih h, full_cons_of_lt hlt]

/-- The first message is not left, and the others are skimmed behind it. -/
theorem Skims.cons {m : μ} (h : S.Skims (m :: msgs)) : S.takes m ∧ S.Skims msgs := by
  have htakes : S.takes m := by
    by_contra hm
    have hone := congrArg Prod.snd (h [S.header])
    rw [List.flatMap_cons, calls, S.left m hm _ _ le_rfl, full_cons_of_le le_rfl,
      List.drop_succ_cons] at hone
    have hlen := congrArg List.length hone
    have hpos := List.length_pos_iff.mpr (S.encode_ne m)
    simp only [calls, full, List.countP_nil, List.drop_zero, List.length_append] at hlen
    omega
  refine ⟨htakes, fun seens => ?_⟩
  have hall := h (S.header :: seens)
  rw [List.flatMap_cons, calls_of_taken htakes le_rfl, full_cons_of_le le_rfl,
    filterMap_take_cons, List.drop_succ_cons] at hall
  obtain ⟨hresults, hrest⟩ := Prod.mk.inj hall
  exact Prod.ext (List.append_cancel_left hresults) hrest

/-- A stream is skimmed if and only if none of its messages is left. -/
theorem skims_iff : S.Skims msgs ↔ ∀ m ∈ msgs, S.takes m := by
  constructor
  · intro h
    induction msgs with
    | nil => simp
    | cons m msgs ih =>
      obtain ⟨htakes, hrest⟩ := h.cons
      simpa [htakes] using ih hrest
  · exact skims_of_takes

end Skimmer

end Skimming
end ACGlass
