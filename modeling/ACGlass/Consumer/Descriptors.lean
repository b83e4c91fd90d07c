import ACGlass.Consumer.Library
import ACGlass.Producer.Descriptors

/-!
# What the consumer library holds

Descriptors and mappings that the library makes are held by the context until they are
released. The system calls of `enter_fallback` and of `connect_to_deamon` make them.
-/

namespace ACGlass
namespace Consumer

open Transition
open Producer (Resource)

variable {φ : Type*}

def Effect.releases : Effect φ → List (Resource φ)
  | .close fd => [.fd fd]
  | .munmap shm => [.map shm]
  | _ => []

def released (effs : List (Effect φ)) : Multiset (Resource φ) := ↑(effs.flatMap Effect.releases)

/-- `create_shm` gets through. -/
def ShmCalls.ok (calls : ShmCalls φ) : Bool :=
  calls.memfd.isSome && calls.ftruncateOk && calls.mmapOk

/-- The descriptor of `memfd_create` and, if `mmap` is reached and succeeds, the mapping. -/
def ShmCalls.made (calls : ShmCalls φ) : List (Resource φ) :=
  match calls.memfd with
  | none => []
  | some fd => .fd fd :: if calls.ftruncateOk && calls.mmapOk then [.map fd] else []

/-- Both ends of the `socketpair`. -/
def HelloCalls.made (calls : HelloCalls φ) : List (Resource φ) :=
  match calls.socketpair with
  | none => []
  | some (sv0, sv1) => [.fd sv0, .fd sv1]

namespace FallbackCalls

variable (calls : FallbackCalls φ)

def efds : List (Resource φ) :=
  calls.bufReadyEfd.toList.map .fd ++ calls.refreshDoneEfd.toList.map .fd

/-- What follows the two `eventfd` calls. -/
def channel : List (Resource φ) :=
  calls.shm.made ++ if calls.shm.ok then calls.hello.made else []

end FallbackCalls

/-- What `connect_to_deamon` makes. -/
def connectMade (ctrlFd : Option φ) (calls : FallbackCalls φ) : List (Resource φ) :=
  match ctrlFd with
  | none => []
  | some fd => .fd fd :: calls.efds ++
    if calls.bufReadyEfd.isNone || calls.refreshDoneEfd.isNone then [] else calls.channel

/-- What `poll_window_event` takes for a broken channel. -/
def WindowPoll.breaks : WindowPoll → Bool
  | .idle | .short => false
  | .hangup => true
  | .peeked hdr event =>
    hdr.type = .windowEvent && (hdr.size ≠ windowEventSize || event.isNone)

namespace Ctx

variable (ctx : Ctx φ)

/-- What `enter_fallback` makes. -/
def fallbackMade (calls : FallbackCalls φ) : List (Resource φ) :=
  if ctx.fallback then [] else calls.efds ++ calls.channel

/-- One of the sends of `push_dmabufs_internal` fails. -/
def pushFails (calls : PushCalls φ) : Bool :=
  !ctx.stored.isEmpty && (ctx.dataFd.isNone || !calls.sendFdsOk || !calls.sendAllOk)

/-- A message cannot be sent on the data channel. -/
def sendFails (sendOk : Bool) : Bool := !ctx.fallback && (ctx.dataFd.isNone || !sendOk)

/-- What the system calls of an operation make. -/
def made (msg : Option CtrlType) (ctx : Ctx φ) : Op φ → List (Resource φ)
  | .pushDmabufs bufs calls =>
    let ctx := { ctx with stored := bufs }
    if !ctx.fallback && bufs.length ≤ maxBufs && ctx.pushFails calls then
      ctx.fallbackMade calls.fallback
    else []
  | .selectDmabuf _ polled calls =>
    let exited := { ctx with fallback := false }
    if ctx.fallback && polled && msg = some .fdsReady && exited.pushFails calls then
      exited.fallbackMade calls.fallback
    else []
  | .refreshDone polls readOk calls =>
    if ctx.bufferPending && !(waitRefresh polls = some true && readOk) then
      ctx.fallbackMade calls
    else []
  | .pushInputEvent _ sendOk calls | .pushWindowCommand _ sendOk calls =>
    if ctx.sendFails sendOk then ctx.fallbackMade calls else []
  | .pollWindowEvent poll calls =>
    if !ctx.fallback && poll.breaks then ctx.fallbackMade calls else []
  | .setScreenInfo _ _ | .wakeDisplayConsumer | .setFallbackCallback _ => []

/-- What `disconnect` would release. -/
def held : Multiset (Resource φ) := released ctx.release

end Ctx

section Released

@[simp] theorem released_nil : released ([] : List (Effect φ)) = 0 := rfl

theorem released_append (effs effs' : List (Effect φ)) :
    released (effs ++ effs') = released effs + released effs' := by
  simp [released]

theorem released_cons (x : Effect φ) (effs : List (Effect φ)) :
    released (x :: effs) = ↑x.releases + released effs := by
  simp [released]

@[simp] theorem released_closeIf (fd : Option φ) :
    released (closeIf fd) = ↑(fd.toList.map Resource.fd) := by
  cases fd <;> rfl

@[simp] theorem released_munmapIf (shm : Option φ) :
    released (munmapIf shm) = ↑(shm.toList.map Resource.map) := by
  cases shm <;> rfl

@[simp] theorem released_callFallbackCb (ctx : Ctx φ) : released ctx.callFallbackCb = 0 := by
  unfold Ctx.callFallbackCb
  split_ifs <;> rfl

@[simp] theorem released_eventfdWrite (efd : Option φ) :
    released (efd.toList.map .eventfdWrite) = 0 := by
  cases efd <;> rfl

end Released

namespace Ctx

variable {ctx : Ctx φ}

theorem held_eq (ctx : Ctx φ) : ctx.held = ↑(ctx.shmPtr.toList.map Resource.map) +
    ↑(ctx.shmFd.toList.map Resource.fd) + ↑(ctx.ctrlFd.toList.map Resource.fd) +
      ↑(ctx.dataFd.toList.map Resource.fd) + ↑(ctx.bufReadyEfd.toList.map Resource.fd) +
        ↑(ctx.refreshDoneEfd.toList.map Resource.fd) := by
  simp only [held, release, released_append, released_munmapIf, released_closeIf]

/-- What an operation makes is released by it or held afterwards. -/
def Accounts (ctx : Ctx φ) (made : List (Resource φ)) (out : Out φ) : Prop :=
  ↑made + ctx.held = released out.effs + out.ctx.held

/-- The page is made where there is none. -/
theorem createShm_accounts (hfd : ctx.shmFd = none) (hptr : ctx.shmPtr = none)
    (calls : ShmCalls φ) : ctx.Accounts calls.made (ctx.createShm calls) := by
  obtain ⟨memfd, ftruncateOk, mmapOk⟩ := calls
  cases memfd with
  | none => simp [createShm, ShmCalls.made, Accounts, held_eq, hfd, hptr]
  | some fd =>
    cases ftruncateOk with
    | false =>
      simp [createShm, ShmCalls.made, Accounts, held_eq, hfd, hptr, released_cons,
        Effect.releases]
    | true =>
      cases mmapOk with
      | false =>
        simp [createShm, ShmCalls.made, Accounts, held_eq, hfd, hptr, released_cons,
          Effect.releases]
      | true =>
        simp only [createShm, ShmCalls.made, Accounts, held_eq, hfd, hptr, released_cons,
          Effect.releases, Bool.not_true, Bool.false_eq_true, if_false, Bool.and_true, if_true,
          Option.toList_none, Option.toList_some, List.map_nil, List.map_cons, released_nil,
          ← Multiset.cons_coe, ← Multiset.singleton_add, Multiset.coe_nil, zero_add, add_zero]
        abel

theorem createShm_ret (ctx : Ctx φ) (calls : ShmCalls φ) :
    (ctx.createShm calls).ret < 0 ↔ calls.ok = false := by
  unfold createShm ShmCalls.ok
  cases calls.memfd with
  | none => simp
  | some fd => cases calls.ftruncateOk <;> cases calls.mmapOk <;> simp

@[simp] theorem createShm_dataFd (ctx : Ctx φ) (calls : ShmCalls φ) :
    (ctx.createShm calls).ctx.dataFd = ctx.dataFd := by
  unfold createShm
  split
  · rfl
  split_ifs <;> rfl

/-- The end that the daemon gets is closed at once, the other one is kept. -/
theorem sendHelloFds_accounts (hdata : ctx.dataFd = none) (calls : HelloCalls φ) :
    ctx.Accounts calls.made (ctx.sendHelloFds calls) := by
  unfold Accounts sendHelloFds HelloCalls.made
  cases calls.socketpair with
  | none => simp
  | some sv =>
    obtain ⟨sv0, sv1⟩ := sv
    dsimp only
    split
    on_goal 1 => split_ifs
    all_goals
      simp only [held_eq, hdata, released_cons, Effect.releases, released_nil,
        Option.toList_none, Option.toList_some, List.map_nil, List.map_cons,
        ← Multiset.cons_coe, ← Multiset.singleton_add, Multiset.coe_nil, zero_add, add_zero]
      abel

/-- A page and a hello, both made on a context without a channel. -/
theorem channel_accounts (hfd : ctx.shmFd = none) (hptr : ctx.shmPtr = none)
    (hdata : ctx.dataFd = none) (calls : FallbackCalls φ) (hok : calls.shm.ok = true) :
    ↑calls.channel + ctx.held = released (ctx.createShm calls.shm).effs +
      released ((ctx.createShm calls.shm).ctx.sendHelloFds calls.hello).effs +
        ((ctx.createShm calls.shm).ctx.sendHelloFds calls.hello).ctx.held := by
  have hshm := createShm_accounts hfd hptr calls.shm
  have hhello := sendHelloFds_accounts ((createShm_dataFd ctx calls.shm).trans hdata) calls.hello
  unfold Accounts at hshm hhello
  unfold FallbackCalls.channel
  simp only [hok, if_true, ← Multiset.coe_add]
  calc ↑calls.shm.made + ↑calls.hello.made + ctx.held
      = ↑calls.hello.made + (↑calls.shm.made + ctx.held) := by abel
    _ = released (ctx.createShm calls.shm).effs +
          (↑calls.hello.made + (ctx.createShm calls.shm).ctx.held) := by rw [hshm]; abel
    _ = _ := by rw [hhello]; abel

theorem channel_accounts_of_not_ok (hfd : ctx.shmFd = none) (hptr : ctx.shmPtr = none)
    (calls : FallbackCalls φ) (hok : calls.shm.ok = false) :
    ↑calls.channel + ctx.held =
      released (ctx.createShm calls.shm).effs + (ctx.createShm calls.shm).ctx.held := by
  simpa [FallbackCalls.channel, hok, Accounts] using createShm_accounts hfd hptr calls.shm

theorem closeChannel_accounts (ctx : Ctx φ) (calls : FallbackCalls φ) :
    ↑calls.efds + ctx.held = released ctx.closeChannel + (ctx.renewEfds calls).held := by
  simp only [held_eq, closeChannel, renewEfds, FallbackCalls.efds, released_append,
    released_closeIf, released_munmapIf, ← Multiset.coe_add, Option.toList_none, List.map_nil,
    Multiset.coe_nil, zero_add, add_zero]
  abel

theorem enterFallback_accounts (ctx : Ctx φ) (calls : FallbackCalls φ) :
    ↑(ctx.fallbackMade calls) + ctx.held =
      released (ctx.enterFallback calls).2 + (ctx.enterFallback calls).1.held := by
  unfold enterFallback fallbackMade
  by_cases hf : ctx.fallback
  · simp [hf]
  have hopen : ↑(calls.efds ++ calls.channel) + ctx.held =
      released ctx.closeChannel + (↑calls.channel + (ctx.renewEfds calls).held) := by
    rw [← Multiset.coe_add, add_right_comm, closeChannel_accounts ctx calls]
    abel
  have hret := createShm_ret (ctx.renewEfds calls) calls.shm
  cases hok : calls.shm.ok with
  | false =>
    simp only [hf, hret, hok, if_true, if_false, Bool.false_eq_true, released_append,
      released_callFallbackCb, add_zero]
    rw [hopen, channel_accounts_of_not_ok rfl rfl calls hok, add_assoc]
  | true =>
    simp only [hf, hret, hok, if_false, Bool.false_eq_true, Bool.true_eq_false, released_append,
      released_callFallbackCb, add_zero]
    rw [hopen, channel_accounts rfl rfl rfl calls hok]
    abel

namespace Accounts

/-- An operation that makes nothing, releases nothing and keeps its descriptors. -/
theorem quiet {out : Out φ} (heffs : released out.effs = 0) (hheld : out.ctx.held = ctx.held) :
    ctx.Accounts [] out := by
  unfold Accounts
  rw [heffs, hheld]
  simp

/-- A context that holds the same descriptors. -/
theorem ofHeld {ctx' : Ctx φ} {made : List (Resource φ)} {out : Out φ}
    (h : ctx'.Accounts made out) (hheld : ctx'.held = ctx.held) : ctx.Accounts made out := by
  unfold Accounts at h ⊢
  rwa [← hheld]

/-- What follows an operation releases nothing and keeps its descriptors. -/
theorem followed {made : List (Resource φ)} {out out' : Out φ} (h : ctx.Accounts made out)
    (heffs : released out'.effs = 0) (hheld : out'.ctx.held = out.ctx.held) :
    ctx.Accounts made { out' with effs := out.effs ++ out'.effs } := by
  unfold Accounts at h ⊢
  rw [released_append, heffs, hheld, h]
  simp

theorem failWith (ctx : Ctx φ) (calls : FallbackCalls φ) :
    ctx.Accounts (ctx.fallbackMade calls) (ctx.failWith [] calls) := by
  simpa [Accounts, Ctx.failWith] using enterFallback_accounts ctx calls

end Accounts

theorem pushDmabufsInternal_accounts (ctx : Ctx φ) (calls : PushCalls φ) :
    ctx.Accounts (if ctx.pushFails calls then ctx.fallbackMade calls.fallback else [])
      (ctx.pushDmabufsInternal calls) := by
  unfold pushDmabufsInternal pushFails
  by_cases hstored : ctx.stored = []
  · have hquiet : ctx.Accounts [] ⟨ctx, [], 0⟩ := Accounts.quiet rfl rfl
    simpa [hstored] using hquiet
  simp only [hstored, if_false, List.isEmpty_eq_false_iff.mpr hstored, Bool.not_false,
    Bool.true_and]
  cases ctx.dataFd with
  | none => simpa using Accounts.failWith ctx calls.fallback
  | some fd =>
    cases calls.sendFdsOk with
    | false => simpa using Accounts.failWith ctx calls.fallback
    | true =>
      cases calls.sendAllOk with
      | false => simpa using Accounts.failWith ctx calls.fallback
      | true => exact Accounts.quiet rfl rfl

theorem pushDmabufs_accounts (ctx : Ctx φ) (bufs : List (φ × BufInfo)) (calls : PushCalls φ) :
    ctx.Accounts (ctx.made none (.pushDmabufs bufs calls)) (ctx.pushDmabufs bufs calls) := by
  have hpush := pushDmabufsInternal_accounts { ctx with stored := bufs } calls
  unfold pushDmabufs made
  by_cases hcount : bufs.length = 0 ∨ maxBufs < bufs.length
  · have hno : (!ctx.fallback && bufs.length ≤ maxBufs &&
        { ctx with stored := bufs }.pushFails calls) = false := by
      rcases hcount with hnil | hmany
      · simp [pushFails, List.length_eq_zero_iff.mp hnil]
      · simp [hmany]
    simp only [hcount, if_true, hno, Bool.false_eq_true, if_false]
    exact Accounts.quiet rfl rfl
  · have hle : bufs.length ≤ maxBufs := by omega
    simp only [hcount, if_false, hle, decide_true, Bool.and_true]
    cases hf : ctx.fallback with
    | true => exact Accounts.quiet rfl rfl
    | false =>
      have hpush : ctx.Accounts _ _ := hpush.ofHeld rfl
      rw [hf] at hpush
      simpa using hpush

theorem handOver_quiet (ctx : Ctx φ) (idx : Int) :
    released (ctx.handOver idx).effs = 0 ∧ (ctx.handOver idx).ctx.held = ctx.held := by
  unfold handOver
  split_ifs
  · exact ⟨rfl, rfl⟩
  · exact ⟨by simp [released_cons, Effect.releases], rfl⟩

theorem selectDmabuf_accounts (ctx : Ctx φ) (msg : Option CtrlType) (idx : Int) (polled : Bool)
    (calls : PushCalls φ) :
    ctx.Accounts (ctx.made msg (.selectDmabuf idx polled calls))
      (ctx.selectDmabuf idx (if polled then msg else none) calls) := by
  unfold selectDmabuf made
  cases hf : ctx.fallback with
  | false =>
    obtain ⟨heffs, hheld⟩ := ctx.handOver_quiet idx
    exact Accounts.quiet heffs hheld
  | true =>
    by_cases hmsg : polled = true ∧ msg = some .fdsReady
    · obtain ⟨rfl, rfl⟩ := hmsg
      have hpush := pushDmabufsInternal_accounts { ctx with fallback := false } calls
      have hquiet := Ctx.handOver_quiet
        ({ ctx with fallback := false }.pushDmabufsInternal calls).ctx idx
      simp only [tryExitFallback, if_true, Bool.true_and, decide_true]
      cases ({ ctx with fallback := false }.pushDmabufsInternal calls).ctx.fallback with
      | true => exact hpush.ofHeld rfl
      | false => exact (hpush.followed hquiet.1 hquiet.2).ofHeld rfl
    · have hno : (if polled then msg else none) ≠ some .fdsReady := by
        intro h
        cases polled with
        | false => cases h
        | true => exact hmsg ⟨rfl, h⟩
      have hmade : (true && polled && decide (msg = some .fdsReady)) = false := by
        simpa using hmsg
      simp only [tryExitFallback, hno, if_false, hmade, Bool.false_and, hf, if_true,
        Bool.false_eq_true]
      exact Accounts.quiet rfl rfl

theorem refreshDone_accounts {ctx : Ctx φ} {polls : List RefreshPoll} {readOk : Bool}
    {calls : FallbackCalls φ} {out : Out φ} (hout : ctx.refreshDone polls readOk calls = some out) :
    ctx.Accounts (ctx.made none (.refreshDone polls readOk calls)) out := by
  unfold refreshDone at hout
  unfold made
  cases hpending : ctx.bufferPending with
  | false =>
    rw [hpending] at hout
    obtain rfl := Option.some.inj hout
    exact Accounts.quiet rfl rfl
  | true =>
    simp only [hpending, Bool.not_true, Bool.false_eq_true, if_false,
      Option.map_eq_some_iff] at hout
    obtain ⟨readable, hwait, rfl⟩ := hout
    simp only [hwait]
    cases readable <;> cases readOk
    case true.true => exact Accounts.quiet rfl rfl
    all_goals exact Accounts.failWith ctx calls

/-- Something is sent on the data socket. -/
theorem send_accounts (ctx : Ctx φ) (sendOk : Bool) (calls : FallbackCalls φ) {sent : φ → Out φ}
    (hsent : ∀ fd, ctx.Accounts [] (sent fd)) :
    ctx.Accounts (if ctx.sendFails sendOk then ctx.fallbackMade calls else [])
      (if ctx.fallback then ⟨ctx, [], 0⟩
      else ctx.dataFd.elim (ctx.failWith [] calls) fun fd =>
        if sendOk then sent fd else ctx.failWith [] calls) := by
  unfold sendFails
  cases ctx.fallback with
  | true => exact Accounts.quiet rfl rfl
  | false =>
    cases ctx.dataFd with
    | none => exact Accounts.failWith ctx calls
    | some fd =>
      cases sendOk with
      | true => exact hsent fd
      | false => exact Accounts.failWith ctx calls

theorem pushInputEvent_accounts (ctx : Ctx φ) (event : Bytes) (sendOk : Bool)
    (calls : FallbackCalls φ) :
    ctx.Accounts (ctx.made none (.pushInputEvent event sendOk calls))
      (ctx.pushInputEvent event sendOk calls) := by
  have hsent : ∀ fd, ctx.Accounts [] ⟨ctx, [.sendData fd .inputEvent event], 0⟩ :=
    fun fd => Accounts.quiet rfl rfl
  have hsend := send_accounts ctx sendOk calls hsent
  unfold pushInputEvent made
  cases hfd : ctx.dataFd <;>
    simpa only [hfd, Option.elim_none, Option.elim_some] using hsend

theorem pushWindowCommand_accounts (ctx : Ctx φ) (command : Bytes) (sendOk : Bool)
    (calls : FallbackCalls φ) :
    ctx.Accounts (ctx.made none (.pushWindowCommand command sendOk calls))
      (ctx.pushWindowCommand command sendOk calls) := by
  have hsent : ∀ fd, ctx.Accounts [] ⟨ctx, [.sendData fd .windowCommand command], 1⟩ :=
    fun fd => Accounts.quiet rfl rfl
  have hsend := send_accounts ctx sendOk calls hsent
  unfold pushWindowCommand made
  cases hfd : ctx.dataFd <;>
    simpa only [hfd, Option.elim_none, Option.elim_some] using hsend

theorem pollWindowEvent_accounts (ctx : Ctx φ) (poll : WindowPoll) (calls : FallbackCalls φ) :
    ctx.Accounts (ctx.made none (.pollWindowEvent poll calls))
      (ctx.pollWindowEvent poll calls).1 := by
  unfold pollWindowEvent made
  cases ctx.fallback with
  | true => exact Accounts.quiet rfl rfl
  | false =>
    cases poll with
    | idle => exact Accounts.quiet rfl rfl
    | short => exact Accounts.quiet rfl rfl
    | hangup => exact Accounts.failWith ctx calls
    | peeked hdr event =>
      by_cases htype : hdr.type = .windowEvent
      · by_cases hsize : hdr.size = windowEventSize
        · cases event with
          | none => simpa [WindowPoll.breaks, htype, hsize] using Accounts.failWith ctx calls
          | some event =>
            have hquiet : ctx.Accounts [] ⟨ctx, [], 1⟩ := Accounts.quiet rfl rfl
            simpa [WindowPoll.breaks, htype, hsize] using hquiet
        · simpa [WindowPoll.breaks, htype, hsize] using Accounts.failWith ctx calls
      · have hquiet : ctx.Accounts [] ⟨ctx, [], 0⟩ := Accounts.quiet rfl rfl
        simpa [WindowPoll.breaks, htype] using hquiet

/-- Whatever fails, an operation releases or holds all that it makes. -/
theorem run_accounts {msg : Option CtrlType} {ctx : Ctx φ} {op : Op φ} {out : Out φ}
    (hout : op.run msg ctx = some out) : ctx.Accounts (ctx.made msg op) out := by
  cases op with
  | setScreenInfo si sendOk =>
    obtain rfl := Option.some.inj hout
    cases sendOk <;> exact Accounts.quiet rfl rfl
  | pushDmabufs bufs calls =>
    obtain rfl := Option.some.inj hout
    exact pushDmabufs_accounts ctx bufs calls
  | selectDmabuf idx polled calls =>
    obtain rfl := Option.some.inj hout
    exact selectDmabuf_accounts ctx msg idx polled calls
  | refreshDone polls readOk calls => exact refreshDone_accounts hout
  | pushInputEvent event sendOk calls =>
    obtain rfl := Option.some.inj hout
    exact pushInputEvent_accounts ctx event sendOk calls
  | pollWindowEvent poll calls =>
    obtain rfl := Option.some.inj hout
    exact pollWindowEvent_accounts ctx poll calls
  | pushWindowCommand command sendOk calls =>
    obtain rfl := Option.some.inj hout
    exact pushWindowCommand_accounts ctx command sendOk calls
  | wakeDisplayConsumer =>
    obtain rfl := Option.some.inj hout
    exact Accounts.quiet (by simp [wakeDisplayConsumer, released_append]) rfl
  | setFallbackCallback present =>
    obtain rfl := Option.some.inj hout
    exact Accounts.quiet rfl rfl

end Ctx

theorem withEfds_held (fd : φ) (calls : FallbackCalls φ) :
    (Ctx.withEfds fd calls).held = ↑(Resource.fd fd :: calls.efds) := by
  simp [Ctx.held_eq, Ctx.withEfds, Ctx.fresh, FallbackCalls.efds]

/-- A connect that fails has released all that it made. -/
theorem connectToDeamon_accounts (ctrlFd : Option φ) (calls : FallbackCalls φ) :
    ↑(connectMade ctrlFd calls) = released (connectToDeamon ctrlFd calls).2 +
      ((connectToDeamon ctrlFd calls).1.map Ctx.held).getD 0 := by
  unfold connectMade connectToDeamon
  cases ctrlFd with
  | none => rfl
  | some fd =>
    have hopen : ↑(Resource.fd fd :: calls.efds ++ calls.channel) =
        ↑calls.channel + (Ctx.withEfds fd calls).held := by
      rw [withEfds_held, ← Multiset.coe_add, add_comm]
    have hret := Ctx.createShm_ret (Ctx.withEfds fd calls) calls.shm
    dsimp only
    by_cases hefds : calls.bufReadyEfd.isNone || calls.refreshDoneEfd.isNone
    · simpa [hefds, Ctx.held] using (withEfds_held fd calls).symm
    cases hok : calls.shm.ok with
    | false =>
      simp only [hefds, hret, hok, if_true, if_false, Bool.false_eq_true]
      rw [hopen, Ctx.channel_accounts_of_not_ok rfl rfl calls hok, released_append]
      simp [Ctx.held]
    | true =>
      simp only [hefds, hret, hok, if_false, Bool.false_eq_true, Bool.true_eq_false]
      rw [hopen, Ctx.channel_accounts rfl rfl rfl calls hok]
      split_ifs
      · simp [released_append, Ctx.held, add_assoc]
      · simp [released_append]

/-- A call of the library, or the end of the context. -/
inductive Event (φ : Type*)
  | connect (ctrlFd : Option φ) (calls : FallbackCalls φ)
  | call (msg : Option CtrlType) (op : Op φ)
  | disconnect
  deriving DecidableEq, Repr

/-- A run of the library with all it has made and all it has released. -/
structure Account (φ : Type*) where
  ctx : Option (Ctx φ)
  made : Multiset (Resource φ)
  freed : Multiset (Resource φ)

namespace Account

variable (s : Account φ)

def initial : Account φ := ⟨none, 0, 0⟩

def enter (made : List (Resource φ)) (effs : List (Effect φ)) (ctx : Option (Ctx φ)) : Account φ :=
  ⟨ctx, s.made + ↑made, s.freed + released effs⟩

/-- The calls come one at a time, and on one context. -/
def step : Event φ → Option (Account φ)
  | .connect ctrlFd calls =>
    if s.ctx.isSome then none
    else
      let (ctx, effs) := connectToDeamon ctrlFd calls
      some (s.enter (connectMade ctrlFd calls) effs ctx)
  | .call msg op =>
    s.ctx.bind fun ctx =>
      (op.run msg ctx).map fun out => s.enter (ctx.made msg op) out.effs (some out.ctx)
  | .disconnect => s.ctx.map fun ctx => s.enter [] ctx.release none

/-- What is made and not yet released is held by the context. -/
def Settled : Prop := s.made = s.freed + (s.ctx.map Ctx.held).getD 0

/-- Nothing is released that the library did not make, so no buffer of the caller is; and
without a context, all that it made has been released, each once. -/
structure Conserved : Prop where
  own : s.freed ≤ s.made
  released : s.ctx = none → s.freed = s.made

variable {s}

theorem settled_initial : (initial : Account φ).Settled := rfl

theorem settled_enter (h : s.Settled) {made : List (Resource φ)} {effs : List (Effect φ)}
    {ctx : Option (Ctx φ)} (hbal : ↑made + (s.ctx.map Ctx.held).getD 0 =
      Consumer.released effs + (ctx.map Ctx.held).getD 0) : (s.enter made effs ctx).Settled := by
  unfold Settled at h ⊢
  unfold enter
  dsimp only
  calc s.made + ↑made
      = s.freed + (↑made + (s.ctx.map Ctx.held).getD 0) := by rw [h]; abel
    _ = s.freed + Consumer.released effs + (ctx.map Ctx.held).getD 0 := by rw [hbal]; abel

theorem settled_step {s' : Account φ} {e : Event φ} (h : s.Settled) (hs : s.step e = some s') :
    s'.Settled := by
  cases e with
  | connect ctrlFd calls =>
    simp only [step] at hs
    split at hs
    · cases hs
    rename_i hnone
    have hnone : s.ctx = none := by simpa using hnone
    obtain rfl := Option.some.inj hs
    apply settled_enter h
    rw [hnone, ← connectToDeamon_accounts]
    simp
  | call msg op =>
    simp only [step, Option.bind_eq_some_iff, Option.map_eq_some_iff] at hs
    obtain ⟨ctx, hctx, out, hout, rfl⟩ := hs
    apply settled_enter h
    rw [hctx]
    exact Ctx.run_accounts hout
  | disconnect =>
    simp only [step, Option.map_eq_some_iff] at hs
    obtain ⟨ctx, hctx, rfl⟩ := hs
    apply settled_enter h
    simp [hctx, Ctx.held]

theorem Settled.conserved (h : s.Settled) : s.Conserved := by
  constructor
  · rw [h]
    exact Multiset.le_add_right _ _
  · intro hnone
    rw [h, hnone]
    simp

end Account

/-- Whatever fails in whatever order, once the context is gone each descriptor and each
mapping that the library made has been released once, and no other ever. -/
theorem descriptors_conserved (es : List (Event φ)) :
    Always Account.step Account.Conserved .initial es :=
  always_of_invariant (I := Account.Settled) (fun _ _ _ => Account.settled_step)
    (fun _ => Account.Settled.conserved) Account.settled_initial es

end Consumer
end ACGlass
