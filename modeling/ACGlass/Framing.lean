import ACGlass.Transition
import Mathlib.Data.List.ReduceOption

/-!
# Messages in a byte stream

Messages of different lengths share a stream. Its symbols arrive in pieces of any size. The
reader looks ahead for a header and reads the message behind it to the end, in as many
pieces as it takes. Whatever the pieces, it stays in step with the messages.
-/

namespace ACGlass
namespace Framing

open Transition

variable {α μ : Type*}

/-- A reader knows from a header of fixed length how long a message is. -/
structure Codec (α μ : Type*) where
  header : ℕ
  header_pos : 0 < header
  total : List α → Option ℕ
  encode : μ → List α
  header_le : ∀ m, header ≤ (encode m).length
  total_encode : ∀ m, total ((encode m).take header) = some (encode m).length

/-- Between two calls, inside a message of known length, or stopped at a header that it
does not take. -/
inductive Reader (α : Type*)
  | idle
  | reading (total : ℕ) (got : List α)
  | refused
  deriving DecidableEq, Repr

/-- `flight` has been written and not arrived. Every call that has returned is in `calls`,
with the message it has read, if any. -/
structure Link (α μ : Type*) where
  written : List μ
  flight : List α
  arrived : List α
  reader : Reader α
  calls : List (Option (List α))

/-- `peek` begins a call and sees `n` symbols; `recv` takes the next `k` symbols of the
message. -/
inductive Act (μ : Type*)
  | write (m : μ)
  | arrive (k : ℕ)
  | peek (n : ℕ)
  | recv (k : ℕ)
  deriving DecidableEq, Repr

def Act.isWrite : Act μ → Bool
  | .write _ => true
  | _ => false

namespace Link

variable (C : Codec α μ) (s : Link α μ)

def empty : Link α μ := ⟨[], [], [], .idle, []⟩

def step : Act μ → Option (Link α μ)
  | .write m => some { s with written := s.written ++ [m], flight := s.flight ++ C.encode m }
  | .arrive k =>
    if k ≤ s.flight.length then
      some { s with flight := s.flight.drop k, arrived := s.arrived ++ s.flight.take k }
    else none
  | .peek n =>
    match s.reader with
    | .idle =>
      if s.arrived.length < n then none
      else if n < C.header then some { s with calls := s.calls ++ [none] }
      else
        match C.total (s.arrived.take C.header) with
        | none => some { s with reader := .refused }
        | some total => some { s with reader := .reading total [] }
    | _ => none
  | .recv k =>
    match s.reader with
    | .reading total got =>
      if k = 0 ∨ s.arrived.length < k ∨ total < got.length + k then none
      else
        let got := got ++ s.arrived.take k
        let s := { s with arrived := s.arrived.drop k }
        if got.length = total then
          some { s with reader := .idle, calls := s.calls ++ [some got] }
        else some { s with reader := .reading total got }
    | _ => none

/-- The messages that calls have read. -/
def received : List (List α) := s.calls.reduceOption

/-- The read position is at the start of a message, or inside the one that is being read. -/
inductive InStep : Prop
  | between (rest : List μ) (reader : s.reader = .idle)
      (written : s.written.map C.encode = s.received ++ rest.map C.encode)
      (stream : s.arrived ++ s.flight = rest.flatMap C.encode)
  | inside (m : μ) (rest : List μ) (got : List α)
      (reader : s.reader = .reading (C.encode m).length got)
      (got_lt : got.length < (C.encode m).length)
      (written : s.written.map C.encode = s.received ++ (m :: rest).map C.encode)
      (stream : got ++ (s.arrived ++ s.flight) = (m :: rest).flatMap C.encode)

variable {C s}

theorem inStep_empty : (empty : Link α μ).InStep C := .between [] rfl rfl rfl

theorem InStep.write (h : s.InStep C) (m : μ) :
    InStep C { s with written := s.written ++ [m], flight := s.flight ++ C.encode m } := by
  cases h with
  | between rest reader written stream =>
    refine .between (rest ++ [m]) reader ?_ ?_
    · simp [written, received]
    · simp [← stream]
  | inside m₀ rest got reader got_lt written stream =>
    refine .inside m₀ (rest ++ [m]) got reader got_lt ?_ ?_
    · simp [written, received]
    · rw [← List.cons_append, List.flatMap_append, ← stream]
      simp

theorem InStep.arrive (h : s.InStep C) (k : ℕ) :
    InStep C { s with flight := s.flight.drop k, arrived := s.arrived ++ s.flight.take k } := by
  have hsame : s.arrived ++ s.flight.take k ++ s.flight.drop k = s.arrived ++ s.flight := by simp
  cases h with
  | between rest reader written stream =>
    exact .between rest reader written (hsame.trans stream)
  | inside m rest got reader got_lt written stream =>
    exact .inside m rest got reader got_lt written ((congrArg _ hsame).trans stream)

/-- A header that has arrived is that of the next message. -/
theorem take_header {rest : List μ} (stream : s.arrived ++ s.flight = rest.flatMap C.encode)
    (hlen : C.header ≤ s.arrived.length) :
    ∃ m rest', rest = m :: rest' ∧ s.arrived.take C.header = (C.encode m).take C.header := by
  have hpos := C.header_pos
  cases rest with
  | nil =>
    have hnil : s.arrived = [] := (List.append_eq_nil_iff.mp stream).1
    rw [hnil, List.length_nil] at hlen
    omega
  | cons m rest =>
    refine ⟨m, rest, rfl, ?_⟩
    have htake := congrArg (List.take C.header) stream
    rwa [List.take_append_of_le_length hlen, List.flatMap_cons,
      List.take_append_of_le_length (C.header_le m)] at htake

/-- What completes a message is the message. -/
theorem got_eq {m : μ} {rest : List μ} {got tail : List α}
    (stream : got ++ tail = (m :: rest).flatMap C.encode)
    (hlen : got.length = (C.encode m).length) :
    got = C.encode m ∧ tail = rest.flatMap C.encode := by
  rw [List.flatMap_cons] at stream
  exact List.append_inj stream hlen

/-- What the reader looks at is the start of a message. -/
theorem InStep.peek (h : s.InStep C) {n : ℕ} {t : Link α μ} (hs : s.step C (.peek n) = some t) :
    t.InStep C := by
  cases h with
  | inside m rest got reader got_lt written stream => simp [Link.step, reader] at hs
  | between rest reader written stream =>
    simp only [Link.step, reader] at hs
    split at hs
    · cases hs
    rename_i hn
    split at hs
    · obtain rfl := Option.some.inj hs
      refine .between rest rfl ?_ stream
      simpa [received, List.reduceOption_append] using written
    rename_i hheader
    obtain ⟨m, rest, rfl, htake⟩ := take_header stream (by omega)
    rw [htake, C.total_encode] at hs
    obtain rfl := Option.some.inj hs
    have hpos := C.header_pos
    have hle := C.header_le m
    refine .inside m rest [] rfl ?_ written stream
    rw [List.length_nil]
    omega

/-- What is received of a message stops at its end. -/
theorem InStep.recv (h : s.InStep C) {k : ℕ} {t : Link α μ} (hs : s.step C (.recv k) = some t) :
    t.InStep C := by
  cases h with
  | between rest reader written stream => simp [Link.step, reader] at hs
  | inside m rest got reader got_lt written stream =>
    simp only [Link.step, reader] at hs
    split at hs
    · cases hs
    rename_i hk
    have hlen : (got ++ s.arrived.take k).length = got.length + k := by
      rw [List.length_append, List.length_take]
      omega
    have hstream : got ++ s.arrived.take k ++ (s.arrived.drop k ++ s.flight) =
        (m :: rest).flatMap C.encode := by
      rw [← stream, List.append_assoc, ← List.append_assoc _ (s.arrived.drop k),
        List.take_append_drop]
    split at hs
    · rename_i hdone
      obtain rfl := Option.some.inj hs
      obtain ⟨hgot, htail⟩ := got_eq hstream hdone
      refine .between rest rfl ?_ htail
      rw [hgot]
      simpa [received, List.reduceOption_append] using written
    · rename_i hmore
      obtain rfl := Option.some.inj hs
      exact .inside m rest _ rfl (by omega) written hstream

/-- Every step keeps the reader in step with the messages. -/
theorem InStep.step (h : s.InStep C) {a : Act μ} {t : Link α μ} (hs : s.step C a = some t) :
    t.InStep C := by
  cases a with
  | write m =>
    obtain rfl := Option.some.inj hs
    exact h.write m
  | arrive k =>
    simp only [Link.step] at hs
    split at hs
    · obtain rfl := Option.some.inj hs
      exact h.arrive k
    · cases hs
  | peek n => exact h.peek hs
  | recv k => exact h.recv hs

theorem InStep.received_prefix (h : s.InStep C) : s.received <+: s.written.map C.encode := by
  cases h with
  | between rest reader written stream => exact ⟨_, written.symm⟩
  | inside m rest got reader got_lt written stream => exact ⟨_, written.symm⟩

theorem encode_ne_nil (m : μ) : C.encode m ≠ [] := by
  have hpos := C.header_pos
  have hle := C.header_le m
  apply List.ne_nil_of_length_pos
  omega

/-- What is left of a stream that has been read to its end. -/
theorem InStep.received_eq (h : s.InStep C) (hreader : s.reader = .idle) (harrived : s.arrived = [])
    (hflight : s.flight = []) : s.received = s.written.map C.encode := by
  cases h with
  | inside m rest got reader got_lt written stream => simp [hreader] at reader
  | between rest reader written stream =>
    have hrest : rest = [] := by
      rw [harrived, hflight] at stream
      cases rest with
      | nil => rfl
      | cons m rest => exact absurd stream.symm (by simp [encode_ne_nil])
    simpa [hrest] using written.symm

/-- The reader alone gets from one state to the other, which has read all that was written. -/
def Drains (C : Codec α μ) (s t : Link α μ) : Prop :=
  (∃ acts : List (Act μ), (∀ a ∈ acts, a.isWrite = false) ∧
    exec (Link.step C) s acts = some t) ∧ t.written = s.written

theorem Drains.head {u t : Link α μ} {a : Act μ} (ha : a.isWrite = false)
    (hs : s.step C a = some u) (hwritten : u.written = s.written) (h : Drains C u t) :
    Drains C s t := by
  obtain ⟨⟨acts, hacts, hexec⟩, ht⟩ := h
  refine ⟨⟨a :: acts, ?_, ?_⟩, ht.trans hwritten⟩
  · rintro b (_ | ⟨_, hb⟩)
    · exact ha
    · exact hacts b hb
  · rw [exec_cons, hs]
    exact hexec

theorem Drains.refl (s : Link α μ) : Drains C s s := ⟨⟨[], by simp, rfl⟩, rfl⟩

/-- Messages that have arrived are read one by one. -/
theorem drains_of_arrived {rest : List μ} (hreader : s.reader = .idle) (hflight : s.flight = [])
    (harrived : s.arrived = rest.flatMap C.encode) :
    ∃ t, Drains C s t ∧ t.reader = .idle ∧ t.arrived = [] ∧ t.flight = [] := by
  induction rest generalizing s with
  | nil => exact ⟨s, .refl s, hreader, harrived, hflight⟩
  | cons m rest ih =>
    have hle := C.header_le m
    have hpos := C.header_pos
    rw [List.flatMap_cons] at harrived
    have hlen : (C.encode m).length ≤ s.arrived.length := by
      rw [harrived, List.length_append]
      omega
    have hpeek : s.step C (.peek C.header) =
        some { s with reader := .reading (C.encode m).length [] } := by
      have htake : s.arrived.take C.header = (C.encode m).take C.header := by
        rw [harrived, List.take_append_of_le_length hle]
      simp only [Link.step, hreader, htake, C.total_encode]
      rw [if_neg (by omega), if_neg (by omega)]
    have hrecv : Link.step C { s with reader := .reading (C.encode m).length [] }
        (.recv (C.encode m).length) = some { s with
          reader := .idle, arrived := rest.flatMap C.encode
          calls := s.calls ++ [some (C.encode m)] } := by
      simp only [Link.step, List.nil_append, List.length_nil]
      rw [if_neg (by omega), harrived, List.take_left, List.drop_left, if_pos rfl]
    obtain ⟨t, ht, hidle⟩ := ih (s := { s with
      reader := .idle, arrived := rest.flatMap C.encode
      calls := s.calls ++ [some (C.encode m)] }) rfl hflight rfl
    exact ⟨t, .head rfl hpeek rfl (.head rfl hrecv rfl ht), hidle⟩

/-- From every state the reader can read on to the end of what has been written. -/
theorem InStep.drains (h : s.InStep C) :
    ∃ t, Drains C s t ∧ t.reader = .idle ∧ t.arrived = [] ∧ t.flight = [] := by
  have harrive : s.step C (.arrive s.flight.length) =
      some { s with flight := [], arrived := s.arrived ++ s.flight } := by
    simp [Link.step]
  cases h with
  | between rest reader written stream =>
    obtain ⟨t, ht, hidle⟩ := drains_of_arrived (C := C)
      (s := { s with flight := [], arrived := s.arrived ++ s.flight }) reader rfl stream
    exact ⟨t, .head rfl harrive rfl ht, hidle⟩
  | inside m rest got reader got_lt written stream =>
    set k := (C.encode m).length - got.length with hk
    have hlen : (s.arrived ++ s.flight).length = k + (rest.flatMap C.encode).length := by
      have hlength := congrArg List.length stream
      rw [List.flatMap_cons, List.length_append, @List.length_append _ (C.encode m)] at hlength
      omega
    have htaken : (got ++ (s.arrived ++ s.flight).take k).length = (C.encode m).length := by
      rw [List.length_append, List.length_take]
      omega
    have hstream : got ++ (s.arrived ++ s.flight).take k ++ (s.arrived ++ s.flight).drop k =
        (m :: rest).flatMap C.encode := by
      rw [List.append_assoc, List.take_append_drop, stream]
    obtain ⟨hgot, htail⟩ := got_eq hstream htaken
    have hrecv : Link.step C { s with flight := [], arrived := s.arrived ++ s.flight } (.recv k) =
        some { s with
          reader := .idle, flight := [], arrived := rest.flatMap C.encode
          calls := s.calls ++ [some (C.encode m)] } := by
      simp only [Link.step, reader]
      rw [if_neg (by omega), if_pos htaken, hgot, htail]
    obtain ⟨t, ht, hidle⟩ := drains_of_arrived (C := C) (s := { s with
      reader := .idle, flight := [], arrived := rest.flatMap C.encode
      calls := s.calls ++ [some (C.encode m)] }) rfl rfl rfl
    exact ⟨t, .head rfl harrive rfl (.head rfl hrecv rfl ht), hidle⟩

theorem InStep.exec (h : s.InStep C) {acts : List (Act μ)} {t : Link α μ}
    (ht : Transition.exec (Link.step C) s acts = some t) : t.InStep C :=
  exec_invariant (I := InStep C) (fun _ _ _ h hs => h.step hs) h ht

/-- What calls have read is a prefix of what was written, and the reader can go on to read
the rest of it. -/
theorem InStep.roundTrip (h : s.InStep C) :
    s.received <+: s.written.map C.encode ∧
      ∃ t, Drains C s t ∧ t.received = s.written.map C.encode := by
  refine ⟨h.received_prefix, ?_⟩
  obtain ⟨t, hdrains, hreader, harrived, hflight⟩ := h.drains
  obtain ⟨⟨acts, -, hexec⟩, hwritten⟩ := id hdrains
  have ht := (h.exec hexec).received_eq hreader harrived hflight
  rw [hwritten] at ht
  exact ⟨t, hdrains, ht⟩

end Link

/-! ### Numbers in a stream -/

/-- The `k` lowest bytes of a number, the lowest first. -/
def leBytes : ℕ → ℕ → List UInt8
  | 0, _ => []
  | k + 1, n => UInt8.ofNat n :: leBytes k (n / 256)

def ofLeBytes : List UInt8 → ℕ
  | [] => 0
  | b :: bs => b.toNat + 256 * ofLeBytes bs

@[simp] theorem length_leBytes (k n : ℕ) : (leBytes k n).length = k := by
  induction k generalizing n with
  | zero => rfl
  | succ k ih => rw [leBytes, List.length_cons, ih]

theorem ofLeBytes_leBytes (k n : ℕ) : ofLeBytes (leBytes k n) = n % 256 ^ k := by
  induction k generalizing n with
  | zero => simp [leBytes, ofLeBytes, Nat.mod_one]
  | succ k ih =>
    rw [leBytes, ofLeBytes, ih, Nat.pow_succ', Nat.mod_mul]
    simp

theorem ofLeBytes_lt (bs : List UInt8) : ofLeBytes bs < 256 ^ bs.length := by
  induction bs with
  | nil => simp [ofLeBytes]
  | cons b bs ih =>
    have hb := b.toNat_lt
    rw [ofLeBytes, List.length_cons, Nat.pow_succ']
    omega

end Framing
end ACGlass
