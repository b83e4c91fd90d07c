import ACGlass.Producer.Library

/-!
# The anland backend

`anland.c` as functions on the backend, its producer context and its output. The
compositor has one output. Handlers return the new state and, in order, the calls that
others can observe. What the library's system calls and the renderer return is an
argument; renderbuffers are of an arbitrary type `ρ`.
-/

namespace ACGlass
namespace Anland

variable {φ ρ : Type*}

/-- A `pixman_region32_t` is the set of its pixels. -/
abbrev Region := Finset (ℤ × ℤ)

inductive DrmFormat
  | abgr8888
  | xrgb8888
  deriving DecidableEq, Repr

/-- `struct dmabuf_attributes` with its one plane. -/
structure DmabufAttributes (φ : Type*) where
  width : ℕ
  height : ℕ
  format : DrmFormat
  fd : φ
  offset : UInt32
  stride : UInt32
  modifier : UInt64
  deriving DecidableEq, Repr

/-- `struct anland_output`: `width` and `height` are those of the current mode, `region`
is the region of the `weston_output`. -/
structure Output (ρ : Type*) where
  width : ℕ
  height : ℕ
  region : Region
  bufCount : ℕ
  renderbuffers : ℕ → Option ρ
  accumDamage : ℕ → Region

/-- `struct anland_backend`. A source is known by the descriptor that it watches. -/
structure Backend (φ ρ : Type*) where
  display : Producer.Ctx φ
  refresh : UInt32
  reconnectTimer : Bool
  bufReadySource : Option φ
  inputFdSource : Option φ
  consumerReady : Bool
  dmabufReceived : Bool
  inFallback : Bool
  output : Output ρ

/-- Calls of the library, of the renderer and of the compositor. -/
inductive Effect (φ ρ : Type*)
  | lib (e : Producer.Effect φ)
  | createRenderbuffer (idx : ℕ) (attrs : DmabufAttributes φ)
  | repaintOutput (idx : ℕ) (damage : Region) (rb : ρ)
  | finishFrame
  | scheduleRepaint
  | armFrameTimer
  | addIdle
  | updateReconnectTimer (ms : ℕ)
  | inputEvent (event : Bytes)
  | windowCommand (command : Bytes)

/-- What the calls of `anland_buf_ready_handler` return; `created` are the results of
`create_renderbuffer_dmabuf`. -/
structure BufReadyCalls (φ ρ : Type*) where
  pickup : Producer.PickupCalls φ
  polls : List Producer.BufferPoll
  bufs : Producer.BufsCalls φ
  created : List (Option ρ)

/-- One round of the input loop: what `poll_display_event` finds, and the window events that
the shell sends while the message is processed. -/
structure InputRound where
  poll : Producer.DisplayPoll
  sends : List (Bytes × Bool)

def protocolFormatToDrm (fmt : UInt32) : DrmFormat := if fmt = 1 then .abgr8888 else .xrgb8888

namespace Output

variable (o : Output ρ)

def attributes (fd : φ) (info : BufInfo) : DmabufAttributes φ where
  width := o.width
  height := o.height
  format := protocolFormatToDrm info.format
  fd := fd
  offset := info.offset
  stride := info.stride
  modifier := info.modifier

/-- The loop of `anland_output_import_dmabufs` from buffer `i` on, and whether it gets
through. -/
def importFrom (o : Output ρ) (i : ℕ) :
    List (φ × BufInfo) → List (Option ρ) → Output ρ × List (Effect φ ρ) × Bool
  | [], _ => (o, [], true)
  | (fd, info) :: bufs, created =>
    let create := .createRenderbuffer i (o.attributes fd info)
    match created with
    | some rb :: created =>
      let o :=
        { o with
          renderbuffers := Function.update o.renderbuffers i (some rb)
          accumDamage := Function.update o.accumDamage i o.region }
      let (o, effs, ok) := importFrom o (i + 1) bufs created
      (o, create :: effs, ok)
    | _ => ({ o with renderbuffers := Function.update o.renderbuffers i none }, [create], false)

def importDmabufs (bufs : List (φ × BufInfo)) (created : List (Option ρ)) :
    Output ρ × List (Effect φ ρ) :=
  if bufs.length = 0 then (o, [])
  else
    let (o, effs, ok) := o.importFrom 0 bufs created
    (if ok then { o with bufCount := bufs.length } else o, effs)

/-- The frame's damage is owed to every buffer. -/
def accumulate (damage : Region) : Output ρ :=
  { o with
    accumDamage := fun i =>
      if i < o.bufCount then o.accumDamage i ∪ damage else o.accumDamage i }

/-- A repainted buffer owes nothing. -/
def settle (idx : ℕ) : Output ρ :=
  { o with accumDamage := Function.update o.accumDamage idx ∅ }

end Output

namespace Backend

variable (b : Backend φ ρ)

def fallbackCb : Backend φ ρ × List (Effect φ ρ) :=
  ({ b with
      bufReadySource := none, inputFdSource := none, consumerReady := false
      dmabufReceived := false, inFallback := true },
    if b.reconnectTimer then [.updateReconnectTimer 200] else [])

/-- The library returns, having run the callback if it entered fallback. -/
def returned (out : Producer.Out φ) : Backend φ ρ × List (Effect φ ρ) :=
  let b := { b with display := out.ctx }
  if out.effs.any Producer.Effect.isFallbackCb then
    let (b, effs) := b.fallbackCb
    (b, out.effs.map .lib ++ effs)
  else (b, out.effs.map .lib)

/-- The `!b->dmabuf_received` branch past `wait_buffer_async_result`. -/
def firstBuffer (created : List (Option ρ)) : Backend φ ρ × List (Effect φ ρ) :=
  let (output, effs) := b.output.importDmabufs b.display.bufs created
  ({ b with
      dmabufReceived := true, output
      inputFdSource := b.inputFdSource.or b.display.dataFd }, effs)

/-- `fd` is the descriptor of the source. `none` is a handler that has not returned. -/
def bufReadyHandler (fd : φ) (calls : BufReadyCalls φ ρ) :
    Option (Backend φ ρ × List (Effect φ ρ)) :=
  if b.dmabufReceived then
    some ({ b with consumerReady := true }, [.lib (.eventfdRead fd), .scheduleRepaint])
  else
    (b.display.waitBufferAsync.ctx.waitBufferAsyncResult calls.pickup calls.polls
      calls.bufs).map fun out =>
        let (b, effs) := b.returned out
        if out.ret ≠ 0 then (b, effs)
        else
          let (b, imported) := b.firstBuffer calls.created
          ({ b with consumerReady := true }, effs ++ imported ++ [.scheduleRepaint])

def finishFrameHandler : List (Effect φ ρ) :=
  .finishFrame :: if b.consumerReady then [.scheduleRepaint] else []

/-- The index that `anland_output_repaint` draws into and its renderbuffer, if it gets
that far; `shm` is the value of `*shm_ptr`. -/
def target (shm : UInt32) : Option (ℕ × ρ) :=
  if b.output.bufCount = 0 then none
  else
    let idx := b.display.getSelectedIdx shm
    if b.output.bufCount ≤ idx then none
    else (b.output.renderbuffers idx).map fun rb => (idx, rb)

/-- `damage` is what `weston_output_flush_damage_for_primary_plane` returns. -/
def outputRepaint (damage : Region) (shm : UInt32) : Backend φ ρ × List (Effect φ ρ) :=
  match b.target shm with
  | none => (b, [.armFrameTimer])
  | some (idx, rb) =>
    let output := b.output.accumulate (damage ∪ b.output.region)
    let painted := .repaintOutput idx (output.accumDamage idx) rb
    let b : Backend φ ρ := { b with output := output.settle idx }
    let next := if b.refresh = 0 then .addIdle else .armFrameTimer
    if b.consumerReady then
      let (b, effs) := b.returned b.display.triggerRefresh
      ({ b with consumerReady := false }, painted :: effs ++ [next])
    else (b, [painted, next])

def dropRenderbuffers : Backend φ ρ :=
  { b with output := { b.output with renderbuffers := fun _ => none, bufCount := 0 } }

def tryReconnect (calls : Producer.ReconnectCalls φ) : Backend φ ρ × List (Effect φ ρ) :=
  let out := b.display.tryReconnect calls
  let (b, effs) := b.returned out
  if out.ret < 0 then (b, effs)
  else
    ({ b with inFallback := false, bufReadySource := b.display.bufReadyEfd.or b.bufReadySource },
      effs ++ if b.reconnectTimer then [.updateReconnectTimer 0] else [])

def reconnectTimerHandler (calls : Producer.ReconnectCalls φ) :
    Backend φ ρ × List (Effect φ ρ) :=
  if !b.inFallback then (b, [])
  else
    let (b, effs) := b.dropRenderbuffers.tryReconnect calls
    (b, effs ++ if b.inFallback && b.reconnectTimer then [.updateReconnectTimer 200] else [])

/-- The part of `anland_send_window_event` that sends the filled-in event. -/
def sendWindowEvent (event : Bytes) (sendOk : Bool) : Backend φ ρ × List (Effect φ ρ) :=
  b.returned (b.display.pushWindowEvent event sendOk)

def sendWindowEvents (b : Backend φ ρ) : List (Bytes × Bool) → Backend φ ρ × List (Effect φ ρ)
  | [] => (b, [])
  | (event, sendOk) :: sends =>
    let (b, effs) := b.sendWindowEvent event sendOk
    let (b, rest) := sendWindowEvents b sends
    (b, effs ++ rest)

/-- The loop of `anland_input_fd_handler`. -/
def inputLoop (b : Backend φ ρ) : List InputRound → Backend φ ρ × List (Effect φ ρ)
  | [] => (b, [])
  | round :: rounds =>
    let (out, event) := b.display.pollDisplayEvent round.poll
    let (b, effs) := b.returned out
    if out.ret ≤ 0 then (b, effs)
    else
      let processed : List (Effect φ ρ) := event.toList.map
        (if out.ret = Producer.Ctx.inputEventRet then .inputEvent else .windowCommand)
      let (b, sent) := b.sendWindowEvents round.sends
      let (b, rest) := inputLoop b rounds
      (b, effs ++ processed ++ sent ++ rest)

def inputFdHandler (rounds : List InputRound) : Backend φ ρ × List (Effect φ ρ) :=
  if b.inFallback then (b, []) else b.inputLoop rounds

end Backend

/-- The output as `anland_output_create` and `anland_output_set_size` leave it. -/
def Output.fresh (width height : ℕ) (region : Region) : Output ρ where
  width := width
  height := height
  region := region
  bufCount := 0
  renderbuffers := fun _ => none
  accumDamage := fun _ => ∅

/-- `anland_backend_create`, if it succeeds: a renderer, then the sources. -/
def backendCreate (calls : Producer.ConnectCalls φ) (reconnectTimer : Bool) (output : Output ρ) :
    Option (Backend φ ρ) :=
  (Producer.connectToDeamon calls).1.map fun ctx =>
    let ctx := (ctx.setFallbackCallback true).ctx
    { display := ctx
      refresh := ctx.getScreenInfo.refresh
      reconnectTimer := reconnectTimer
      bufReadySource := ctx.bufReadyEfd
      inputFdSource := none
      consumerReady := false
      dmabufReceived := false
      inFallback := false
      output := output }

end Anland
end ACGlass
