import Mathlib.Data.List.Basic

/-!
# The wire protocol and the descriptor-passing receive

Message types of the control channel, the screen description, and `recv_fds`.
Descriptors stand for open file descriptions and are of an arbitrary type `φ`.
-/

namespace ACGlass

/-- The `CTRL_MSG_*` values of the `type` field; any other value is kept as it is. -/
inductive CtrlType
  | consumerHello
  | producerHello
  | screenInfo
  | reject
  | pickupFds
  | fdsReady
  | other (code : UInt32)
  deriving DecidableEq, Repr

/-- The header `struct ctrl_msg`. -/
structure CtrlMsg where
  type : CtrlType
  size : ℕ
  deriving DecidableEq, Repr

/-- `sizeof(struct ctrl_msg)` -/
def ctrlMsgSize : ℕ := 8

structure ScreenInfo where
  width : UInt32
  height : UInt32
  format : UInt32
  refresh : UInt32
  deriving DecidableEq, Repr

/-- `sizeof(struct screen_info)` -/
def screenInfoSize : ℕ := 16

/-- The `DATA_MSG_*` values of the `type` field. -/
inductive DataType
  | bufReady
  | refreshDone
  | inputEvent
  | bufsReady
  | windowEvent
  | windowCommand
  | other (code : UInt32)
  deriving DecidableEq, Repr

/-- The header `struct data_msg`. -/
structure DataMsg where
  type : DataType
  size : ℕ
  deriving DecidableEq, Repr

/-- `sizeof(struct data_msg)` -/
def dataMsgSize : ℕ := 8

structure BufInfo where
  stride : UInt32
  format : UInt32
  modifier : UInt64
  offset : UInt32
  deriving DecidableEq, Repr

/-- `sizeof(struct buf_info)` -/
def bufInfoSize : ℕ := 20

/-- `MAX_BUFS` -/
def maxBufs : ℕ := 8

/-- `sizeof(struct InputEvent)` -/
def inputEventSize : ℕ := 20

/-- `sizeof(struct WindowEvent)` -/
def windowEventSize : ℕ := 268

/-- `sizeof(struct WindowCommand)` -/
def windowCommandSize : ℕ := 8

/-- The bytes of a packed `struct`. -/
abbrev Bytes := List UInt8

/-- What `recvmsg` on a stream socket returns: the byte count, the header buffer, of
which only the first `n` bytes were written, and the `SCM_RIGHTS` descriptors. -/
structure Recvmsg (η φ : Type*) where
  n : ℕ
  hdr : η
  rights : List φ
  deriving DecidableEq, Repr

/-- A successful `recv_fds`: never more descriptors than the caller's array holds. -/
structure Received (η φ : Type*) (cap : ℕ) where
  n : ℕ
  hdr : η
  fds : List φ
  n_pos : 0 < n
  fds_le : fds.length ≤ cap

/-- `recv_fds` with `fd_count = cap`; `none` is the return value `-1`, which end of
file and every error of `recvmsg` share. -/
def recvFds {η φ : Type*} (cap : ℕ) (r : Option (Recvmsg η φ)) : Option (Received η φ cap) :=
  match r with
  | none => none
  | some r =>
    if h : 0 < r.n then
      some ⟨r.n, r.hdr, r.rights.take cap, h, List.length_take_le cap r.rights⟩
    else none

end ACGlass
