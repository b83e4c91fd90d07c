import ACGlass.Daemon.Handlers
import ACGlass.Channel.Wire

/-!
# What the daemon reads from a connection

`handle_new_connection` reads the first message of a connection and `handle_client_data`
every other. One `recvmsg` gets the header, however much of it is there; only the payload is
read to its end.
-/

namespace ACGlass

open Framing

/-- The `CTRL_MSG_*` value of the `type` field. -/
def CtrlType.code : CtrlType → UInt32
  | .consumerHello => 1
  | .producerHello => 2
  | .screenInfo => 7
  | .reject => 8
  | .pickupFds => 9
  | .fdsReady => 10
  | .other code => code

def CtrlType.ofCode (code : UInt32) : CtrlType :=
  if code = 1 then .consumerHello
  else if code = 2 then .producerHello
  else if code = 7 then .screenInfo
  else if code = 8 then .reject
  else if code = 9 then .pickupFds
  else if code = 10 then .fdsReady
  else .other code

def CtrlMsg.bytes (hdr : CtrlMsg) : Bytes := leBytes 4 hdr.type.code.toNat ++ leBytes 4 hdr.size

def CtrlMsg.ofBytes (bs : Bytes) : CtrlMsg where
  type := .ofCode (UInt32.ofNat (ofLeBytes (bs.take 4)))
  size := ofLeBytes ((bs.drop 4).take 4)

def ScreenInfo.ofBytes (bs : Bytes) : ScreenInfo where
  width := UInt32.ofNat (ofLeBytes (bs.take 4))
  height := UInt32.ofNat (ofLeBytes ((bs.drop 4).take 4))
  format := UInt32.ofNat (ofLeBytes ((bs.drop 8).take 4))
  refresh := UInt32.ofNat (ofLeBytes ((bs.drop 12).take 4))

@[simp] theorem CtrlMsg.length_bytes (hdr : CtrlMsg) : hdr.bytes.length = ctrlMsgSize := by
  simp [CtrlMsg.bytes, ctrlMsgSize]

theorem CtrlMsg.ofBytes_bytes {hdr : CtrlMsg} (htype : .ofCode hdr.type.code = hdr.type)
    (hsize : hdr.size < 2 ^ 32) (rest : Bytes) : .ofBytes (hdr.bytes ++ rest) = hdr := by
  obtain ⟨type, size⟩ := hdr
  unfold ofBytes bytes
  dsimp only at htype hsize ⊢
  rw [take_leBytes_pair, drop_leBytes_pair, ofNat_ofLeBytes32, htype, ofLeBytes_leBytes,
    Nat.mod_eq_of_lt (by omega)]

namespace Daemon

variable {φ : Type*}

/-- How the kernel answers one `recvmsg` of a header: with at most `n` bytes; what they do
not cover of the header is what was on the stack. -/
structure Read where
  n : ℕ
  stale : Bytes
  n_pos : 0 < n
  n_le : n ≤ ctrlMsgSize

/-- A message of the control protocol, whole. -/
structure CtrlMessage where
  type : CtrlType
  payload : Bytes
  canonical : .ofCode type.code = type
  size_le : payload.length ≤ screenInfoSize

/-- The first message of a connection. -/
structure Hello extends CtrlMessage where
  hello : type = .consumerHello ∨ type = .producerHello

/-- What a handler does with what it has read: it acts on a message, or gives the client up. -/
inductive Decoded
  | message (type : CtrlType) (payload : Bytes)
  | closed
  deriving DecidableEq, Repr

namespace Read

variable (r : Read) (stream : Bytes)

/-- The header as it stands in `hdr` after the call. -/
def header : CtrlMsg := .ofBytes (stream.take r.n ++ r.stale.drop (min r.n stream.length))

/-- The reads of `handle_new_connection`, with the rest of the stream. -/
def hello : Decoded × Bytes :=
  if min r.n stream.length < ctrlMsgSize then (.closed, stream.drop r.n)
  else
    match (r.header stream).type with
    | .consumerHello => (.message .consumerHello [], stream.drop r.n)
    | .producerHello => (.message .producerHello [], stream.drop r.n)
    | _ => (.closed, stream.drop r.n)

/-- The reads of `handle_client_data`. -/
def data : Decoded × Bytes :=
  let hdr := r.header stream
  if screenInfoSize < hdr.size then (.closed, stream.drop r.n)
  else
    match recvAll hdr.size (stream.drop r.n) with
    | none => (.closed, [])
    | some (payload, rest) => (.message hdr.type payload, rest)

end Read

theorem recvAll_eq_some {len : ℕ} {stream payload rest : Bytes} :
    recvAll len stream = some (payload, rest) ↔
      len ≤ stream.length ∧ payload = stream.take len ∧ rest = stream.drop len := by
  unfold recvAll
  split
  · rename_i hlen
    simp [hlen, eq_comm]
  · rename_i hlen
    simp [hlen]

namespace Read

variable {r : Read} {stream rest payload : Bytes} {type : CtrlType}

/-- What a message of `handle_client_data` takes of the stream. -/
theorem length_data (h : r.data stream = (.message type payload, rest)) :
    min r.n stream.length + payload.length + rest.length = stream.length := by
  unfold data at h
  dsimp only at h
  split at h
  · cases h
  split at h
  · cases h
  rename_i hrecv
  obtain ⟨hmsg, rfl⟩ := Prod.mk.inj h
  obtain ⟨-, rfl⟩ := Decoded.message.inj hmsg
  obtain ⟨hlen, rfl, rfl⟩ := recvAll_eq_some.mp hrecv
  rw [List.length_drop] at hlen
  simp only [List.length_take, List.length_drop]
  omega

theorem length_hello (h : r.hello stream = (.message type payload, rest)) :
    payload = [] ∧ r.n = ctrlMsgSize ∧ ctrlMsgSize + rest.length = stream.length := by
  have hle := r.n_le
  unfold hello at h
  split at h
  · cases h
  rename_i hfull
  have hrest : payload = [] ∧ rest = stream.drop r.n := by
    split at h
    · obtain ⟨hmsg, rfl⟩ := Prod.mk.inj h
      exact ⟨(Decoded.message.inj hmsg).2.symm, rfl⟩
    · obtain ⟨hmsg, rfl⟩ := Prod.mk.inj h
      exact ⟨(Decoded.message.inj hmsg).2.symm, rfl⟩
    · cases h
  obtain ⟨rfl, rfl⟩ := hrest
  rw [List.length_drop]
  exact ⟨rfl, by omega, by omega⟩

end Read

section Handlers

variable (d : Globals φ) (rights : List φ) (sendOk : Bool)

/-- What the calls of a handler return on a stream. -/
def Read.input (r : Read) (stream : Bytes) : Input φ where
  msg := some ⟨min r.n stream.length, r.header stream, rights⟩
  payloadOk := (recvAll (r.header stream).size (stream.drop r.n)).isSome
  payload := .ofBytes ((stream.drop r.n).take (r.header stream).size)
  sendOk := sendOk

/-- The same for a message that is read without a failure. -/
def Decoded.input : Decoded → Input φ
  | .message type payload =>
    ⟨some ⟨ctrlMsgSize, ⟨type, payload.length⟩, rights⟩, true, .ofBytes payload, sendOk⟩
  | .closed => ⟨none, false, .ofBytes [], sendOk⟩

/-- `handle_client_data` depends on the stream through the decoded message alone. -/
theorem handleClientData_decoded (c : Client) (r : Read) {stream : Bytes} (hne : stream ≠ []) :
    d.handleClientData c (r.input rights sendOk stream) =
      d.handleClientData c ((r.data stream).1.input rights sendOk) := by
  have hpos : 0 < min r.n stream.length := by
    have hn := r.n_pos
    have hlen := List.length_pos_iff.mpr hne
    omega
  have hfull : 0 < ctrlMsgSize := by decide
  unfold Read.data
  dsimp only
  by_cases hsize : screenInfoSize < (r.header stream).size
  · have hsome : 0 < (r.header stream).size := by omega
    simp [Globals.handleClientData, Read.input, Decoded.input, recvFds, hpos, hsize, hsome]
  rw [if_neg hsize]
  by_cases hlen : (r.header stream).size ≤ (stream.drop r.n).length
  · have hlen' : (r.header stream).size ≤ stream.length - r.n := by simpa using hlen
    simp [Globals.handleClientData, Read.input, Decoded.input, recvFds, hpos, hfull, recvAll,
      hlen', hsize]
  · have hlen' : ¬ (r.header stream).size ≤ stream.length - r.n := by simpa using hlen
    have hsome : 0 < (r.header stream).size := by omega
    simp [Globals.handleClientData, Read.input, Decoded.input, recvFds, hpos, recvAll, hlen',
      hsome]

/-- So does `handle_new_connection`, or it leaves the variables alone. -/
theorem handleNewConnection_decoded (fd : ℕ) (r : Read) (stream : Bytes) :
    d.handleNewConnection (some fd) (r.input rights sendOk stream) =
        d.handleNewConnection (some fd) ((r.hello stream).1.input rights sendOk) ∨
      (r.hello stream).1 = .closed ∧
        (d.handleNewConnection (some fd) (r.input rights sendOk stream)).1 = d := by
  unfold Read.hello
  by_cases hshort : min r.n stream.length < ctrlMsgSize
  · right
    rw [if_pos hshort]
    refine ⟨rfl, ?_⟩
    by_cases hpos : 0 < min r.n stream.length
    · simp [Globals.handleNewConnection, Read.input, recvFds, hpos, hshort]
    · simp [Globals.handleNewConnection, Read.input, recvFds, hpos]
  rw [if_neg hshort]
  have hpos : 0 < min r.n stream.length := by
    rw [ctrlMsgSize] at hshort
    omega
  have hfull : 0 < ctrlMsgSize := by decide
  cases htype : (r.header stream).type with
  | consumerHello =>
    left
    simp [Globals.handleNewConnection, Read.input, Decoded.input, recvFds, hpos, hshort, htype,
      hfull]
  | producerHello =>
    left
    simp [Globals.handleNewConnection, Read.input, Decoded.input, recvFds, hpos, hshort, htype,
      hfull]
  | _ =>
    right
    simp [Globals.handleNewConnection, Read.input, recvFds, hpos, hshort, htype]

end Handlers

/-- `handle_client_data` as long as there is something to read; call `k` is answered by
`reads k`. -/
def decodeFrom (reads : ℕ → Read) (k : ℕ) (stream : Bytes) : List Decoded :=
  if _hne : stream = [] then []
  else
    match hd : (reads k).data stream with
    | (.closed, _) => [.closed]
    | (.message type payload, rest) => .message type payload :: decodeFrom reads (k + 1) rest
  termination_by stream.length
  decreasing_by
    have hlen := Read.length_data hd
    have hpos := List.length_pos_iff.mpr _hne
    have hn := (reads k).n_pos
    omega

/-- What the daemon does with a connection on which `stream` arrives. -/
def decode (reads : ℕ → Read) (stream : Bytes) : List Decoded :=
  match (reads 0).hello stream with
  | (.closed, _) => [.closed]
  | (.message type payload, rest) => .message type payload :: decodeFrom reads 1 rest

namespace CtrlMessage

variable (m : CtrlMessage)

def bytes : Bytes := CtrlMsg.bytes ⟨m.type, m.payload.length⟩ ++ m.payload

def decoded : Decoded := .message m.type m.payload

theorem length_bytes : m.bytes.length = ctrlMsgSize + m.payload.length := by
  simp [bytes]

/-- A whole header that is read at once. -/
theorem header_bytes {r : Read} (hn : r.n = ctrlMsgSize) (rest : Bytes) :
    r.header (m.bytes ++ rest) = ⟨m.type, m.payload.length⟩ := by
  have hsize : m.payload.length < 2 ^ 32 := by
    have := m.size_le
    rw [screenInfoSize] at this
    omega
  have htake : (m.bytes ++ rest).take r.n = CtrlMsg.bytes ⟨m.type, m.payload.length⟩ := by
    rw [hn, bytes, List.append_assoc]
    exact List.take_left' (CtrlMsg.length_bytes _)
  rw [Read.header, htake]
  exact @CtrlMsg.ofBytes_bytes ⟨m.type, m.payload.length⟩ m.canonical hsize _

theorem drop_bytes (rest : Bytes) :
    (m.bytes ++ rest).drop ctrlMsgSize = m.payload ++ rest := by
  rw [bytes, List.append_assoc]
  exact List.drop_left' (CtrlMsg.length_bytes _)

/-- Read with a whole header, the message is what the daemon acts on. -/
theorem data_bytes {r : Read} (hn : r.n = ctrlMsgSize) (rest : Bytes) :
    r.data (m.bytes ++ rest) = (m.decoded, rest) := by
  unfold Read.data
  rw [m.header_bytes hn, if_neg (not_lt.mpr m.size_le), hn, m.drop_bytes]
  simp [recvAll, decoded]

end CtrlMessage

theorem Hello.hello_bytes (m : Hello) {r : Read} (hn : r.n = ctrlMsgSize) (rest : Bytes) :
    r.hello (m.bytes ++ rest) = (.message m.type [], m.payload ++ rest) := by
  have hfull : ¬ min r.n (m.bytes ++ rest).length < ctrlMsgSize := by
    rw [List.length_append, m.length_bytes]
    omega
  unfold Read.hello
  rw [if_neg hfull, m.header_bytes hn, hn, m.drop_bytes]
  rcases m.hello with htype | htype
  · simp [htype]
  · simp [htype]

/-- The stream of some messages. -/
def bytesOf (msgs : List CtrlMessage) : Bytes := msgs.flatMap CtrlMessage.bytes

variable {reads : ℕ → Read} {k : ℕ} {stream : Bytes} {msgs : List CtrlMessage}

theorem decodeFrom_nil (reads : ℕ → Read) (k : ℕ) : decodeFrom reads k [] = [] := by
  simp [decodeFrom]

theorem decodeFrom_closed (hne : stream ≠ []) {rest : Bytes}
    (hd : (reads k).data stream = (.closed, rest)) : decodeFrom reads k stream = [.closed] := by
  rw [decodeFrom, dif_neg hne]
  split
  · rfl
  · rename_i heq
    rw [hd] at heq
    cases heq

theorem decodeFrom_message (hne : stream ≠ []) {type : CtrlType} {payload rest : Bytes}
    (hd : (reads k).data stream = (.message type payload, rest)) :
    decodeFrom reads k stream = .message type payload :: decodeFrom reads (k + 1) rest := by
  rw [decodeFrom, dif_neg hne]
  split
  · rename_i heq
    rw [hd] at heq
    cases heq
  · rename_i heq
    rw [hd] at heq
    obtain ⟨hmsg, rfl⟩ := Prod.mk.inj heq
    obtain ⟨rfl, rfl⟩ := Decoded.message.inj hmsg
    rfl

/-- Whole headers keep the reads on the boundaries of the messages. -/
theorem decodeFrom_bytesOf (hfull : ∀ i < msgs.length, (reads (k + i)).n = ctrlMsgSize) :
    decodeFrom reads k (bytesOf msgs) = msgs.map CtrlMessage.decoded := by
  induction msgs generalizing k with
  | nil => exact decodeFrom_nil reads k
  | cons m msgs ih =>
    have hhead : (reads k).n = ctrlMsgSize := hfull 0 (by simp)
    have hne : m.bytes ++ bytesOf msgs ≠ [] := by
      apply List.ne_nil_of_length_pos
      rw [List.length_append, m.length_bytes, ctrlMsgSize]
      omega
    have htail : ∀ i < msgs.length, (reads (k + 1 + i)).n = ctrlMsgSize := by
      intro i hi
      have := hfull (i + 1) (by simpa using hi)
      rwa [← Nat.add_assoc, Nat.add_right_comm] at this
    rw [bytesOf, List.flatMap_cons, ← bytesOf, decodeFrom_message hne (m.data_bytes hhead _),
      ih htail]
    rfl

/-- If the messages are decoded from the stream, the first is read from it, the others from
its rest. -/
theorem decodeFrom_eq_cons {m : CtrlMessage}
    (h : decodeFrom reads k stream = (m :: msgs).map CtrlMessage.decoded) :
    ∃ rest, decodeFrom reads (k + 1) rest = msgs.map CtrlMessage.decoded ∧
      min (reads k).n stream.length + m.payload.length + rest.length = stream.length := by
  by_cases hne : stream = []
  · rw [hne, decodeFrom_nil] at h
    cases h
  match hd : (reads k).data stream with
  | (.closed, rest) =>
    rw [decodeFrom_closed hne hd] at h
    cases h
  | (.message type payload, rest) =>
    rw [decodeFrom_message hne hd, List.map_cons] at h
    obtain ⟨hmsg, hrest⟩ := List.cons.inj h
    obtain ⟨-, rfl⟩ := Decoded.message.inj hmsg
    exact ⟨rest, hrest, Read.length_data hd⟩

/-- Messages are not decoded from more bytes than they have. -/
theorem length_le_of_decodeFrom (h : decodeFrom reads k stream = msgs.map CtrlMessage.decoded) :
    stream.length ≤ (bytesOf msgs).length := by
  induction msgs generalizing k stream with
  | nil =>
    by_cases hne : stream = []
    · simp [hne]
    match hd : (reads k).data stream with
    | (.closed, rest) =>
      rw [decodeFrom_closed hne hd] at h
      cases h
    | (.message type payload, rest) =>
      rw [decodeFrom_message hne hd] at h
      cases h
  | cons m msgs ih =>
    obtain ⟨rest, hrest, hlen⟩ := decodeFrom_eq_cons h
    have hle := ih hrest
    have hn := (reads k).n_le
    rw [bytesOf, List.flatMap_cons, List.length_append, m.length_bytes, ← bytesOf]
    omega

/-- If they are decoded from as many bytes as they have, every header is read whole. -/
theorem full_of_decodeFrom (h : decodeFrom reads k stream = msgs.map CtrlMessage.decoded)
    (hlen : (bytesOf msgs).length ≤ stream.length) :
    ∀ i < msgs.length, (reads (k + i)).n = ctrlMsgSize := by
  induction msgs generalizing k stream with
  | nil => simp
  | cons m msgs ih =>
    obtain ⟨rest, hrest, hsplit⟩ := decodeFrom_eq_cons h
    have hle := length_le_of_decodeFrom hrest
    have hn := (reads k).n_le
    rw [bytesOf, List.flatMap_cons, List.length_append, m.length_bytes, ← bytesOf] at hlen
    intro i hi
    cases i with
    | zero =>
      rw [Nat.add_zero]
      omega
    | succ i =>
      rw [Nat.add_comm i 1, ← Nat.add_assoc]
      exact ih hrest (by omega) i (by simpa using hi)

/-- The daemon acts on exactly the messages of the stream if and only if the hello has no
payload and every header is read whole. -/
theorem decode_eq_iff (reads : ℕ → Read) (m : Hello) (msgs : List CtrlMessage) :
    decode reads (bytesOf (m.toCtrlMessage :: msgs)) =
        (m.toCtrlMessage :: msgs).map CtrlMessage.decoded ↔
      m.payload = [] ∧ ∀ k ≤ msgs.length, (reads k).n = ctrlMsgSize := by
  have hbytes : bytesOf (m.toCtrlMessage :: msgs) = m.bytes ++ bytesOf msgs := rfl
  constructor
  · intro h
    unfold decode at h
    split at h
    · cases h
    rename_i type payload rest hhello
    obtain ⟨rfl, hn, hlen⟩ := Read.length_hello hhello
    rw [List.map_cons] at h
    obtain ⟨hmsg, hrest⟩ := List.cons.inj h
    have hpayload : m.payload = [] := (Decoded.message.inj hmsg).2.symm
    have hlength : (bytesOf msgs).length ≤ rest.length := by
      rw [hbytes, List.length_append, m.length_bytes, hpayload, List.length_nil] at hlen
      omega
    refine ⟨hpayload, fun k hk => ?_⟩
    cases k with
    | zero => exact hn
    | succ k =>
      rw [Nat.add_comm]
      exact full_of_decodeFrom hrest hlength k (by omega)
  · rintro ⟨hpayload, hfull⟩
    unfold decode
    rw [hbytes, m.hello_bytes (hfull 0 (by omega)), hpayload, List.nil_append]
    dsimp only
    rw [decodeFrom_bytesOf fun i hi => hfull (1 + i) (by omega), List.map_cons,
      CtrlMessage.decoded, hpayload]

def producerHello : Hello where
  type := .producerHello
  payload := []
  canonical := by decide
  size_le := by decide
  hello := .inr rfl

def pickupMessage : CtrlMessage := ⟨.pickupFds, [], by decide, by decide⟩

/-- The hello in one piece, everything behind it in halves. -/
def halves : ℕ → Read
  | 0 => ⟨8, [], by decide, by decide⟩
  | _ => ⟨4, List.replicate 8 0, by decide, by decide⟩

/-- Half a header counts as a header. -/
theorem decode_halves_ne :
    decode halves (bytesOf [producerHello.toCtrlMessage, pickupMessage]) ≠
      [producerHello.toCtrlMessage, pickupMessage].map CtrlMessage.decoded := by
  intro h
  unfold decode at h
  split at h
  · cases h
  rename_i type payload rest hhello
  obtain ⟨-, -, hlen⟩ := Read.length_hello hhello
  have hrest : decodeFrom halves 1 rest = [pickupMessage].map CtrlMessage.decoded :=
    (List.cons.inj h).2
  have hall : (bytesOf [producerHello.toCtrlMessage, pickupMessage]).length = 16 := by decide
  have hone : (bytesOf [pickupMessage]).length = 8 := by decide
  have hfull := full_of_decodeFrom hrest (by rw [ctrlMsgSize] at hlen; omega) 0 (by simp)
  cases hfull

end Daemon
end ACGlass
