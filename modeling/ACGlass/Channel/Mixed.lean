import ACGlass.Channel.RoundTrip
import ACGlass.Skimming

/-!
# Messages that a polling call does not know

The polling calls of the two libraries on a stream that holds messages of other types. What
they leave of the stream is added to what they return.
-/

namespace ACGlass

open Skimming

variable {φ ψ : Type*}

/-- The loop that reads a payload into `discard`. -/
def discard (size : ℕ) (stream : Bytes) : Option Bytes :=
  if size = 0 then some stream
  else
    let chunk := if 256 < size then 256 else size
    match recvAll chunk stream with
    | none => none
    | some (_, rest) => discard (size - chunk) rest
  termination_by size
  decreasing_by
    split <;> omega

/-- Chunk by chunk the loop reads the whole payload. -/
theorem discard_eq (size : ℕ) (stream : Bytes) :
    discard size stream = if size ≤ stream.length then some (stream.drop size) else none := by
  induction size using Nat.strong_induction_on generalizing stream with
  | _ size ih =>
    rw [discard]
    by_cases hzero : size = 0
    · simp [hzero]
    rw [if_neg hzero]
    set chunk := if 256 < size then 256 else size with hchunk
    have hpos : 0 < chunk := by
      rw [hchunk]
      split <;> omega
    have hle : chunk ≤ size := by
      rw [hchunk]
      split <;> omega
    by_cases hlen : chunk ≤ stream.length
    · simp only [recvAll, if_pos hlen]
      rw [ih (size - chunk) (by omega), List.length_drop, List.drop_drop]
      by_cases hall : size ≤ stream.length
      · rw [if_pos hall, if_pos (by omega), Nat.add_sub_cancel' hle]
      · rw [if_neg hall, if_neg (by omega)]
    · simp only [recvAll, if_neg hlen]
      rw [if_neg (by omega)]

namespace Producer
namespace Ctx

variable (ctx : Ctx φ)

/-- `takeMessage`, and what it leaves of the stream. -/
def takeMessageOn (size : ℕ) (ret : Int) (stream : Bytes) : (Out φ × Option Bytes) × Bytes :=
  if (DataMsg.ofBytes stream).size ≠ size then ((ctx.failWith [], none), stream)
  else
    match recvAll (dataMsgSize + size) stream with
    | none => ((⟨ctx, [], -1⟩, none), [])
    | some (msg, rest) =>
      ((⟨ctx, [.recvAll (dataMsgSize + size)], ret⟩, some (msg.drop dataMsgSize)), rest)

/-- The branch of `poll_display_event` that skips a message. -/
def skipMessageOn (stream : Bytes) : (Out φ × Option Bytes) × Bytes :=
  let size := (DataMsg.ofBytes stream).size
  if 4096 < size then ((ctx.failWith [], none), stream)
  else
    match recvAll dataMsgSize stream with
    | none => ((⟨ctx, [], -1⟩, none), [])
    | some (_, rest) =>
      match discard size rest with
      | none => ((⟨ctx, [], -1⟩, none), [])
      | some rest => ((⟨ctx, [.recvAll (dataMsgSize + size)], 0⟩, none), rest)

/-- `poll_display_event` when the first `seen` bytes have arrived at the peek. -/
def pollDisplayEventOn (seen : ℕ) (stream : Bytes) : (Out φ × Option Bytes) × Bytes :=
  if ctx.fallback then ((⟨ctx, [], 0⟩, none), stream)
  else if min seen stream.length < dataMsgSize then ((⟨ctx, [], 0⟩, none), stream)
  else
    match (DataMsg.ofBytes stream).type with
    | .inputEvent => ctx.takeMessageOn inputEventSize inputEventRet stream
    | .windowCommand => ctx.takeMessageOn windowCommandSize windowCommandRet stream
    | _ => ctx.skipMessageOn stream

end Ctx
end Producer

namespace Consumer
namespace Ctx

variable (ctx : Ctx φ)

/-- `poll_window_event` when the first `seen` bytes have arrived at the peek. -/
def pollWindowEventOn (calls : FallbackCalls φ) (seen : ℕ) (stream : Bytes) :
    (Out φ × Option Bytes) × Bytes :=
  if ctx.fallback then ((⟨ctx, [], 0⟩, none), stream)
  else if min seen stream.length < dataMsgSize then ((⟨ctx, [], 0⟩, none), stream)
  else if (DataMsg.ofBytes stream).type ≠ .windowEvent then ((⟨ctx, [], 0⟩, none), stream)
  else if (DataMsg.ofBytes stream).size ≠ windowEventSize then
    ((ctx.failWith [] calls, none), stream)
  else
    match recvAll (dataMsgSize + windowEventSize) stream with
    | none => ((ctx.failWith [] calls, none), [])
    | some (msg, rest) => ((⟨ctx, [], 1⟩, some (msg.drop dataMsgSize)), rest)

end Ctx
end Consumer

/-- The payload of the first message, if it is complete. -/
def payloadOn (stream : Bytes) : Option Bytes :=
  if dataMsgSize + (DataMsg.ofBytes stream).size ≤ stream.length then
    some ((stream.drop dataMsgSize).take (DataMsg.ofBytes stream).size)
  else none

/-- What a call finds that peeks at a stream. -/
def displayPoll (seen : ℕ) (stream : Bytes) : Producer.DisplayPoll :=
  if min seen stream.length < dataMsgSize then .short
  else .peeked (.ofBytes stream) (payloadOn stream)

def windowPoll (seen : ℕ) (stream : Bytes) : Consumer.WindowPoll :=
  if min seen stream.length < dataMsgSize then .short
  else .peeked (.ofBytes stream) (payloadOn stream)

namespace Producer.Ctx

variable (ctx : Producer.Ctx φ)

theorem takeMessageOn_value (size : ℕ) (ret : Int) (stream : Bytes) :
    (ctx.takeMessageOn size ret stream).1 = ctx.takeMessage size ret (.ofBytes stream)
      (payloadOn stream) := by
  unfold takeMessageOn takeMessage payloadOn
  by_cases hsize : (DataMsg.ofBytes stream).size ≠ size
  · rw [if_pos hsize, if_pos hsize]
  rw [if_neg hsize, if_neg hsize, not_not.mp hsize]
  by_cases hlen : dataMsgSize + size ≤ stream.length
  · simp only [recvAll, if_pos hlen]
    rw [List.drop_take, Nat.add_sub_cancel_left]
  · simp only [recvAll, if_neg hlen]

theorem skipMessageOn_value {stream : Bytes} (hf : ctx.fallback = false)
    (hheader : dataMsgSize ≤ stream.length)
    (hinput : (DataMsg.ofBytes stream).type = .inputEvent → False)
    (hcommand : (DataMsg.ofBytes stream).type = .windowCommand → False) :
    (ctx.skipMessageOn stream).1 =
      ctx.pollDisplayEvent (.peeked (.ofBytes stream) (payloadOn stream)) := by
  unfold skipMessageOn pollDisplayEvent payloadOn
  simp only [hf, Bool.false_eq_true, if_false]
  by_cases hbig : 4096 < (DataMsg.ofBytes stream).size
  · simp only [if_pos hbig]
  simp only [if_neg hbig, recvAll, if_pos hheader, discard_eq, List.length_drop]
  by_cases hall : dataMsgSize + (DataMsg.ofBytes stream).size ≤ stream.length
  · rw [if_pos hall, if_pos (by omega)]
  · rw [if_neg hall, if_neg (by omega)]

theorem pollDisplayEventOn_value (seen : ℕ) (stream : Bytes) :
    (ctx.pollDisplayEventOn seen stream).1 = ctx.pollDisplayEvent (displayPoll seen stream) := by
  unfold pollDisplayEventOn displayPoll
  by_cases hf : ctx.fallback = true
  · simp [pollDisplayEvent, hf]
  have hlive : ctx.fallback = false := by simpa using hf
  rw [if_neg hf]
  by_cases hshort : min seen stream.length < dataMsgSize
  · simp [pollDisplayEvent, hshort, hlive]
  rw [if_neg hshort, if_neg hshort]
  have hheader : dataMsgSize ≤ stream.length := by omega
  split
  · rename_i htype
    rw [takeMessageOn_value]
    simp [pollDisplayEvent, hlive, htype]
  · rename_i htype
    rw [takeMessageOn_value]
    simp [pollDisplayEvent, hlive, htype]
  · rename_i hinput hcommand
    exact ctx.skipMessageOn_value hlive hheader hinput hcommand

end Producer.Ctx

theorem Consumer.Ctx.pollWindowEventOn_value (ctx : Consumer.Ctx φ)
    (calls : Consumer.FallbackCalls φ) (seen : ℕ) (stream : Bytes) :
    (ctx.pollWindowEventOn calls seen stream).1 =
      ctx.pollWindowEvent (windowPoll seen stream) calls := by
  unfold pollWindowEventOn windowPoll
  by_cases hf : ctx.fallback = true
  · simp [pollWindowEvent, hf]
  have hlive : ctx.fallback = false := by simpa using hf
  rw [if_neg hf]
  by_cases hshort : min seen stream.length < dataMsgSize
  · simp [pollWindowEvent, hshort, hlive]
  simp only [if_neg hshort, pollWindowEvent, if_neg hf]
  split
  · rfl
  by_cases hsize : (DataMsg.ofBytes stream).size ≠ windowEventSize
  · rw [if_pos hsize, if_pos hsize]
  rw [if_neg hsize, if_neg hsize, payloadOn, not_not.mp hsize]
  by_cases hall : dataMsgSize + windowEventSize ≤ stream.length
  · simp only [recvAll, if_pos hall]
    rw [List.drop_take, Nat.add_sub_cancel_left]
  · simp only [recvAll, if_neg hall]

namespace Channel

/-- A complete data message: a receiver that knows its type finds the exact size. -/
structure Mixed (sizeOf : DataType → Option ℕ) where
  type : DataType
  payload : Bytes
  canonical : .ofCode type.code = type
  size_le : payload.length ≤ 4096
  exact : ∀ size ∈ sizeOf type, payload.length = size

/-- The types that `poll_display_event` understands. -/
def displaySizes : DataType → Option ℕ
  | .inputEvent => some inputEventSize
  | .windowCommand => some windowCommandSize
  | _ => none

/-- The type that `poll_window_event` understands. -/
def windowSizes : DataType → Option ℕ
  | .windowEvent => some windowEventSize
  | _ => none

namespace Mixed

variable {sizeOf : DataType → Option ℕ} (m : Mixed sizeOf)

def bytes : Bytes := dataBytes m.type m.payload

theorem ofBytes_bytes (rest : Bytes) :
    DataMsg.ofBytes (m.bytes ++ rest) = ⟨m.type, m.payload.length⟩ := by
  have hsize : m.payload.length < 2 ^ 32 := by
    have := m.size_le
    omega
  rw [bytes, dataBytes, List.append_assoc]
  exact @DataMsg.ofBytes_bytes ⟨m.type, m.payload.length⟩ m.canonical hsize _

theorem length_bytes : m.bytes.length = dataMsgSize + m.payload.length := length_dataBytes _ _

theorem bytes_ne_nil : m.bytes ≠ [] := by
  apply List.ne_nil_of_length_pos
  rw [length_bytes, dataMsgSize]
  omega

/-- The message is read whole. -/
theorem recvAll_bytes (rest : Bytes) :
    recvAll (dataMsgSize + m.payload.length) (m.bytes ++ rest) = some (m.bytes, rest) := by
  rw [recvAll, ← length_bytes, if_pos (by simp), List.take_left, List.drop_left]

theorem drop_bytes : m.bytes.drop dataMsgSize = m.payload := drop_dataBytes _ _

/-- What a call should deliver of a message whose payload it returns with `ret`. -/
def delivered (ret : DataType → Option Int) : Option (Int × Bytes) :=
  (ret m.type).map fun r => (r, m.payload)

end Mixed

def displayRet : DataType → Option Int
  | .inputEvent => some Producer.Ctx.inputEventRet
  | .windowCommand => some Producer.Ctx.windowCommandRet
  | _ => none

def windowRet : DataType → Option Int
  | .windowEvent => some 1
  | _ => none

/-- What a call delivers that returns a positive value. -/
def positive (ret : Int) (event : Option Bytes) : Option (Int × Bytes) :=
  if 0 < ret then event.map fun bs => (ret, bs) else none

/-- A message of a known type is taken. -/
theorem takeMessageOn_bytes {sizeOf : DataType → Option ℕ} (ctx : Producer.Ctx ψ)
    (m : Mixed sizeOf) {size : ℕ} (hsize : m.payload.length = size) (ret : Int) (rest : Bytes) :
    ctx.takeMessageOn size ret (m.bytes ++ rest) =
      ((⟨ctx, [.recvAll (dataMsgSize + size)], ret⟩, some m.payload), rest) := by
  subst hsize
  simp [Producer.Ctx.takeMessageOn, m.ofBytes_bytes, m.recvAll_bytes, m.drop_bytes]

/-- A message of another type is read and dropped. -/
theorem skipMessageOn_bytes {sizeOf : DataType → Option ℕ} (ctx : Producer.Ctx ψ)
    (m : Mixed sizeOf) (rest : Bytes) :
    ctx.skipMessageOn (m.bytes ++ rest) =
      ((⟨ctx, [.recvAll (dataMsgSize + m.payload.length)], 0⟩, none), rest) := by
  have hlen := m.length_bytes
  have hheader : recvAll dataMsgSize (m.bytes ++ rest) =
      some ((m.bytes ++ rest).take dataMsgSize, m.payload ++ rest) := by
    rw [recvAll, if_pos (by simp [hlen]; omega), List.drop_append_of_le_length (by omega),
      m.drop_bytes]
  have hpayload : discard m.payload.length (m.payload ++ rest) = some rest := by
    rw [discard_eq, if_pos (by simp), List.drop_left]
  have hsize : ¬ 4096 < m.payload.length := not_lt.mpr m.size_le
  simp [Producer.Ctx.skipMessageOn, m.ofBytes_bytes, hheader, hpayload, hsize]

theorem pollDisplayEventOn_bytes (p : LiveProducer ψ) (m : Mixed displaySizes) {seen : ℕ}
    (hseen : dataMsgSize ≤ seen) (rest : Bytes) :
    p.ctx.pollDisplayEventOn seen (m.bytes ++ rest) =
      ((⟨p.ctx, [.recvAll (dataMsgSize + m.payload.length)], (displayRet m.type).getD 0⟩,
        (displayRet m.type).map fun _ => m.payload), rest) := by
  have hfull : ¬ min seen (m.bytes ++ rest).length < dataMsgSize := by
    rw [List.length_append, m.length_bytes]
    omega
  unfold Producer.Ctx.pollDisplayEventOn
  rw [if_neg (by simp [p.fallback]), if_neg hfull, m.ofBytes_bytes]
  have hexact := m.exact
  dsimp only
  cases htype : m.type with
  | inputEvent =>
    have hsize := hexact inputEventSize (by simp [htype, displaySizes])
    dsimp only
    rw [takeMessageOn_bytes p.ctx m hsize, hsize]
    rfl
  | windowCommand =>
    have hsize := hexact windowCommandSize (by simp [htype, displaySizes])
    dsimp only
    rw [takeMessageOn_bytes p.ctx m hsize, hsize]
    rfl
  | _ => exact skipMessageOn_bytes p.ctx m rest

theorem pollWindowEventOn_bytes (c : LiveConsumer φ) (calls : Consumer.FallbackCalls φ)
    (m : Mixed windowSizes) (htype : m.type = .windowEvent) {seen : ℕ}
    (hseen : dataMsgSize ≤ seen) (rest : Bytes) :
    c.ctx.pollWindowEventOn calls seen (m.bytes ++ rest) =
      ((⟨c.ctx, [], 1⟩, some m.payload), rest) := by
  have hsize : m.payload.length = windowEventSize :=
    m.exact windowEventSize (by simp [htype, windowSizes])
  have hfull : ¬ min seen (m.bytes ++ rest).length < dataMsgSize := by
    rw [List.length_append, m.length_bytes]
    omega
  have hmsg := m.recvAll_bytes rest
  rw [hsize] at hmsg
  unfold Consumer.Ctx.pollWindowEventOn
  rw [if_neg (by simp [c.fallback]), if_neg hfull, m.ofBytes_bytes, if_neg (by simp [htype]),
    if_neg (by simp [hsize]), hmsg]
  dsimp only
  rw [m.drop_bytes]

theorem dataMsgSize_pos : 0 < dataMsgSize := by decide

/-- `poll_display_event` takes every message. -/
def displaySkimmer (p : LiveProducer ψ) :
    Skimmer (Producer.Ctx ψ) UInt8 (Mixed displaySizes) (Int × Bytes) where
  poll ctx seen stream :=
    let ((out, event), rest) := ctx.pollDisplayEventOn seen stream
    ⟨out.ctx, positive out.ret event, rest⟩
  state := p.ctx
  header := dataMsgSize
  encode := Mixed.bytes
  deliver m := m.delivered displayRet
  takes _ := True
  header_pos := dataMsgSize_pos
  short := by
    intro seen stream hshort
    simp [Producer.Ctx.pollDisplayEventOn, p.fallback, hshort, positive]
  taken := by
    intro m _ seen rest hseen
    rw [pollDisplayEventOn_bytes p m hseen]
    dsimp only
    cases htype : m.type <;>
      simp [Mixed.delivered, htype, displayRet, positive, Producer.Ctx.inputEventRet,
        Producer.Ctx.windowCommandRet]
  left := by
    intro m hm
    exact absurd trivial hm
  encode_ne := Mixed.bytes_ne_nil

/-- `poll_window_event` takes window events only. -/
def windowSkimmer (c : LiveConsumer φ) (calls : Consumer.FallbackCalls φ) :
    Skimmer (Consumer.Ctx φ) UInt8 (Mixed windowSizes) (Int × Bytes) where
  poll ctx seen stream :=
    let ((out, event), rest) := ctx.pollWindowEventOn calls seen stream
    ⟨out.ctx, positive out.ret event, rest⟩
  state := c.ctx
  header := dataMsgSize
  encode := Mixed.bytes
  deliver m := m.delivered windowRet
  takes m := m.type = .windowEvent
  header_pos := dataMsgSize_pos
  short := by
    intro seen stream hshort
    simp [Consumer.Ctx.pollWindowEventOn, c.fallback, hshort, positive]
  taken := by
    intro m htype seen rest hseen
    rw [pollWindowEventOn_bytes c calls m htype hseen]
    simp [positive, Mixed.delivered, htype, windowRet]
  left := by
    intro m hm seen rest hseen
    simp [Consumer.Ctx.pollWindowEventOn, c.fallback, m.ofBytes_bytes, hm, positive]
  encode_ne := Mixed.bytes_ne_nil

/-- Both calls skim every stream if and only if `poll_window_event` finds window events only. -/
theorem skims_iff_windowEvents (p : LiveProducer ψ) (c : LiveConsumer φ)
    (calls : Consumer.FallbackCalls φ) (display : List (Mixed displaySizes))
    (window : List (Mixed windowSizes)) :
    (displaySkimmer p).Skims display ∧ (windowSkimmer c calls).Skims window ↔
      ∀ m ∈ window, m.type = .windowEvent := by
  rw [Skimmer.skims_iff, Skimmer.skims_iff]
  constructor
  · exact fun h => h.2
  · exact fun h => ⟨fun _ _ => trivial, h⟩

/-- A connected consumer. -/
def connectedConsumer : LiveConsumer ℕ where
  ctx := { Consumer.Ctx.fresh with dataFd := some 5, fallback := false }
  fd := 5
  fallback := rfl
  dataFd := rfl

/-- A message of a type that no receiver knows. -/
def unknownMessage : Mixed windowSizes := ⟨.other 400, [], by decide, by decide, by decide⟩

def blankWindowEvent : Mixed windowSizes where
  type := .windowEvent
  payload := List.replicate windowEventSize 0
  canonical := by decide
  size_le := by
    rw [List.length_replicate]
    decide
  exact := by
    intro size hsize
    obtain rfl := Option.some.inj hsize
    exact List.length_replicate

/-- It hides the window event behind it from every call. -/
theorem not_skims_windowEvent_behind_unknown :
    ¬ (windowSkimmer connectedConsumer ⟨none, none, ⟨none, false, false⟩, ⟨none, false⟩⟩).Skims
      [unknownMessage, blankWindowEvent] := by
  intro h
  have htype := Skimmer.skims_iff.mp h unknownMessage (List.mem_cons_self ..)
  cases htype

end Channel
end ACGlass
