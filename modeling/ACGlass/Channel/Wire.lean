import ACGlass.Consumer.Library
import ACGlass.Producer.Library
import ACGlass.Framing

/-!
# The bytes of the data channel

Packed structures as byte images, and what the sends of either library write to the data
socket.
-/

namespace ACGlass

open Framing

/-- The `DATA_MSG_*` value of the `type` field. -/
def DataType.code : DataType → UInt32
  | .bufReady => 100
  | .refreshDone => 101
  | .inputEvent => 102
  | .bufsReady => 200
  | .windowEvent => 300
  | .windowCommand => 301
  | .other code => code

def DataType.ofCode (code : UInt32) : DataType :=
  if code = 100 then .bufReady
  else if code = 101 then .refreshDone
  else if code = 102 then .inputEvent
  else if code = 200 then .bufsReady
  else if code = 300 then .windowEvent
  else if code = 301 then .windowCommand
  else .other code

def DataMsg.bytes (hdr : DataMsg) : Bytes := leBytes 4 hdr.type.code.toNat ++ leBytes 4 hdr.size

/-- `memcpy(&hdr, msg_buf, sizeof(hdr))` -/
def DataMsg.ofBytes (bs : Bytes) : DataMsg where
  type := .ofCode (UInt32.ofNat (ofLeBytes (bs.take 4)))
  size := ofLeBytes ((bs.drop 4).take 4)

def BufInfo.bytes (info : BufInfo) : Bytes :=
  leBytes 4 info.stride.toNat ++ leBytes 4 info.format.toNat ++ leBytes 8 info.modifier.toNat ++
    leBytes 4 info.offset.toNat

def BufInfo.ofBytes (bs : Bytes) : BufInfo where
  stride := UInt32.ofNat (ofLeBytes (bs.take 4))
  format := UInt32.ofNat (ofLeBytes ((bs.drop 4).take 4))
  modifier := UInt64.ofNat (ofLeBytes ((bs.drop 8).take 8))
  offset := UInt32.ofNat (ofLeBytes ((bs.drop 16).take 4))

/-- A header and the payload behind it, as one `send_all` writes them. -/
def dataBytes (type : DataType) (payload : Bytes) : Bytes :=
  DataMsg.bytes ⟨type, payload.length⟩ ++ payload

/-- The two sends of `push_dmabufs_internal`, without the descriptors. -/
def bufsReadyBytes (infos : List BufInfo) : Bytes × Bytes :=
  (DataMsg.bytes ⟨.bufsReady, infos.length * bufInfoSize⟩, infos.flatMap BufInfo.bytes)

def Consumer.Effect.wire {φ : Type*} : Consumer.Effect φ → Bytes
  | .sendData _ type payload => dataBytes type payload
  | .sendBufsReady _ bufs =>
    (bufsReadyBytes (bufs.map Prod.snd)).1 ++ (bufsReadyBytes (bufs.map Prod.snd)).2
  | _ => []

def Producer.Effect.wire {φ : Type*} : Producer.Effect φ → Bytes
  | .sendData _ type payload => dataBytes type payload
  | _ => []

/-- `recv_all` on a stream that ends behind its last byte. -/
def recvAll (len : ℕ) (stream : Bytes) : Option (Bytes × Bytes) :=
  if len ≤ stream.length then some (stream.take len, stream.drop len) else none

/-- A packed structure of a given size. -/
def Image (size : ℕ) := { bs : Bytes // bs.length = size }

@[simp] theorem DataMsg.length_bytes (hdr : DataMsg) : hdr.bytes.length = dataMsgSize := by
  simp [DataMsg.bytes, dataMsgSize]

@[simp] theorem BufInfo.length_bytes (info : BufInfo) : info.bytes.length = bufInfoSize := by
  simp [BufInfo.bytes, bufInfoSize]

@[simp] theorem length_dataBytes (type : DataType) (payload : Bytes) :
    (dataBytes type payload).length = dataMsgSize + payload.length := by
  simp [dataBytes]

theorem ofNat_ofLeBytes32 (n : UInt32) : UInt32.ofNat (ofLeBytes (leBytes 4 n.toNat)) = n := by
  rw [ofLeBytes_leBytes, Nat.mod_eq_of_lt (by simpa using n.toNat_lt)]
  exact UInt32.ofNat_toNat

theorem ofNat_ofLeBytes64 (n : UInt64) : UInt64.ofNat (ofLeBytes (leBytes 8 n.toNat)) = n := by
  rw [ofLeBytes_leBytes, Nat.mod_eq_of_lt (by simpa using n.toNat_lt)]
  exact UInt64.ofNat_toNat

/-- The two fields of a header are read back. -/
theorem take_leBytes_pair (a b : ℕ) (rest : Bytes) :
    ((leBytes 4 a ++ leBytes 4 b) ++ rest).take 4 = leBytes 4 a := by
  rw [List.append_assoc, List.take_left' (length_leBytes 4 _)]

theorem drop_leBytes_pair (a b : ℕ) (rest : Bytes) :
    (((leBytes 4 a ++ leBytes 4 b) ++ rest).drop 4).take 4 = leBytes 4 b := by
  rw [List.append_assoc, List.drop_left' (length_leBytes 4 _), List.take_left' (length_leBytes 4 _)]

/-- A header of a known type with a size that fits survives the wire. -/
theorem DataMsg.ofBytes_bytes {hdr : DataMsg} (htype : .ofCode hdr.type.code = hdr.type)
    (hsize : hdr.size < 2 ^ 32) (rest : Bytes) : .ofBytes (hdr.bytes ++ rest) = hdr := by
  obtain ⟨type, size⟩ := hdr
  unfold ofBytes bytes
  dsimp only at htype hsize ⊢
  rw [take_leBytes_pair, drop_leBytes_pair, ofNat_ofLeBytes32, htype, ofLeBytes_leBytes,
    Nat.mod_eq_of_lt (by omega)]

theorem BufInfo.ofBytes_bytes (info : BufInfo) (rest : Bytes) :
    .ofBytes (info.bytes ++ rest) = info := by
  obtain ⟨stride, format, modifier, offset⟩ := info
  have htake : ∀ (k n : ℕ) (bs : Bytes), (leBytes k n ++ bs).take k = leBytes k n :=
    fun k n bs => List.take_left' (length_leBytes k n)
  have hdrop : ∀ (k n j : ℕ) (bs : Bytes), (leBytes k n ++ bs).drop (k + j) = bs.drop j := by
    intro k n j bs
    rw [← List.drop_drop, List.drop_left' (length_leBytes k n)]
  have hdrop4 := fun n bs => hdrop 4 n 0 bs
  have hdrop8 := fun n bs => hdrop 4 n 4 bs
  have hdrop16 := fun n bs => hdrop 4 n 12 bs
  have hdrop12 := fun n bs => hdrop 4 n 8 bs
  have hdrop0 := fun n bs => hdrop 8 n 0 bs
  simp only [ofBytes, bytes, List.append_assoc, htake, hdrop4, hdrop8, hdrop16, hdrop12, hdrop0,
    List.drop_zero, ofNat_ofLeBytes32, ofNat_ofLeBytes64]

theorem take_dataBytes (type : DataType) (payload : Bytes) :
    (dataBytes type payload).take dataMsgSize = DataMsg.bytes ⟨type, payload.length⟩ :=
  List.take_left' (DataMsg.length_bytes _)

theorem drop_dataBytes (type : DataType) (payload : Bytes) :
    (dataBytes type payload).drop dataMsgSize = payload :=
  List.drop_left' (DataMsg.length_bytes _)

end ACGlass
