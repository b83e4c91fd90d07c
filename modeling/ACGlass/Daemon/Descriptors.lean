import ACGlass.Daemon.Handover

/-!
# Where a received descriptor goes

A descriptor that `recv_fds` returns is deposited, closed or stranded. The ledger of a run
adds up, up to what its events strand.
-/

namespace ACGlass
namespace Daemon

open Transition

variable {φ : Type*}

/-- A descriptor that is closed as a received one. -/
def closedFd : Effect φ → Option φ
  | .closeFd fd => some fd
  | _ => none

def closed (effs : List (Effect φ)) : Multiset φ := ↑(effs.filterMap closedFd)

/-- What `recv_fds` returns in the handler of the event. -/
def Event.received : Event φ → List φ
  | .listen true i | .readable _ i => ((recvFds maxFds i.msg).map Received.fds).getD []
  | _ => []

/-- A message that brings descriptors to an exit that does not look at them: a client that
cannot be read to the end, a first message that is cut, a producer's hello. -/
def Event.strands : Event φ → Bool
  | .listen true i =>
    match recvFds maxFds i.msg with
    | some m => (m.n < ctrlMsgSize || m.hdr.type = .producerHello) && m.fds ≠ []
    | none => false
  | .readable _ i =>
    match recvFds maxFds i.msg with
    | some m => i.readFails && m.fds ≠ []
    | none => false
  | _ => false

/-- What the handler of the event is left with. -/
def Event.kept (e : Event φ) : List φ := if e.strands then [] else e.received

/-- A run of the daemon with all descriptors that it has received so far. -/
structure Ledger (φ : Type*) where
  world : World φ
  received : Multiset φ

namespace Ledger

def initial : Ledger φ := ⟨.initial, 0⟩

def step (s : Ledger φ) (e : Event φ) : Option (Ledger φ) :=
  (s.world.step e).map fun w => ⟨w, s.received + e.received⟩

/-- Every received descriptor is deposited or was closed, once. -/
def Balanced (s : Ledger φ) : Prop :=
  s.received = closed s.world.trace + s.world.globals.depositedFds

instance [DecidableEq φ] (s : Ledger φ) : Decidable s.Balanced :=
  inferInstanceAs (Decidable (_ = _))

end Ledger

theorem closed_append (effs effs' : List (Effect φ)) :
    closed (effs ++ effs') = closed effs + closed effs' := by
  simp [closed, List.filterMap_append]

@[simp] theorem closed_nil : closed ([] : List (Effect φ)) = 0 := rfl

@[simp] theorem closed_map_closeFd (fds : List φ) : closed (fds.map .closeFd) = ↑fds := by
  simp [closed, closedFd, List.filterMap_map, Function.comp_def]

theorem closed_cons_of_none {x : Effect φ} (h : closedFd x = none) (effs : List (Effect φ)) :
    closed (x :: effs) = closed effs := by
  simp [closed, h]

@[simp] theorem closed_clientFree (o : Option Client) :
    closed (o.toList.map (Effect.clientFree (φ := φ))) = 0 := by
  cases o <;> rfl

@[simp] theorem closed_fdsReady (o : Option Client) :
    closed (o.toList.map fun c => (.sendCtrl c.ctrlFd .fdsReady : Effect φ)) = 0 := by
  cases o <;> rfl

namespace Globals

variable (d : Globals φ)

/-- A handler that has received `fds` deposits or closes them, and what was deposited
before. -/
def Accounts (fds : Multiset φ) (r : Globals φ × List (Effect φ)) : Prop :=
  closed r.2 + r.1.depositedFds = d.depositedFds + fds

theorem tryDeliverFds_accounts (sendOk : Bool) : d.Accounts 0 (d.tryDeliverFds sendOk) := by
  unfold Accounts tryDeliverFds
  split
  · simp
  split_ifs
  · simp
  · simp
  · rw [List.cons_append, closed_cons_of_none rfl, closed_append]
    simp

theorem replaceDeposit_accounts (c : Client) (fds : List φ) (sendOk : Bool) :
    d.Accounts fds (d.replaceDeposit c fds sendOk) := by
  unfold Accounts replaceDeposit clearDepositedFds
  dsimp only
  rw [closed_append, closed_cons_of_none rfl, closed_map_closeFd, add_assoc]
  split
  · have hdel := tryDeliverFds_accounts { d with depositedFds := fds } sendOk
    rw [Accounts, add_zero] at hdel
    rw [hdel]
  · simp

theorem handleDisconnect_accounts (c : Client) : d.Accounts 0 (d.handleDisconnect c) := by
  have hfree : closed [(Effect.clientFree c : Effect φ)] = 0 := rfl
  unfold Accounts handleDisconnect
  split_ifs <;> simp [hfree]

theorem updateScreenInfo_accounts (si : ScreenInfo) : d.Accounts 0 (d.updateScreenInfo si) := by
  have hreset : ∀ d : Globals φ, d.Accounts 0 d.resetProducerForScreenChange := by
    intro d
    unfold Accounts resetProducerForScreenChange
    split
    · simp
    · simp [closed_cons_of_none (x := Effect.clientFree _) rfl]
  have hsend : ∀ (d : Globals φ) (fd : ℕ), closed (d.sendScreenInfoMsg fd) = 0 := fun _ _ => rfl
  have hstore : d.Accounts 0
      (if d.hasScreenInfo then
        if si ≠ d.storedScreen then { d with storedScreen := si }.resetProducerForScreenChange
        else (d, [])
      else ({ d with storedScreen := si, hasScreenInfo := true }, [])) := by
    split_ifs
    · exact hreset { d with storedScreen := si }
    · simp [Accounts]
    · simp [Accounts]
  unfold updateScreenInfo
  generalize (if d.hasScreenInfo then
      if si ≠ d.storedScreen then { d with storedScreen := si }.resetProducerForScreenChange
      else (d, [])
    else ({ d with storedScreen := si, hasScreenInfo := true }, [])) = r at hstore
  obtain ⟨d', reset⟩ := r
  dsimp only
  split
  · split
    · rw [Accounts, closed_append, hsend, add_zero]
      exact hstore
    · exact hstore
  · exact hstore

theorem closeReceivedFds_accounts (fds : List φ) :
    d.Accounts fds (d, closeReceivedFds fds) := by
  rw [Accounts, closeReceivedFds, closed_map_closeFd, add_comm]

/-- Descriptors that are closed first. -/
theorem Accounts.close {d d' : Globals φ} {effs : List (Effect φ)} (h : d.Accounts 0 (d', effs))
    (fds : List φ) : d.Accounts fds (d', closeReceivedFds fds ++ effs) := by
  rw [Accounts, add_zero] at h
  rw [Accounts, closed_append, closeReceivedFds, closed_map_closeFd, add_assoc, h, add_comm]

theorem handleClientData_accounts (c : Client) (i : Input φ) :
    d.Accounts (Event.readable c i).kept (d.handleClientData c i) := by
  unfold handleClientData
  cases hm : recvFds maxFds i.msg with
  | none =>
    have hkept : (Event.readable c i).kept = [] := by
      simp [Event.kept, Event.received, Event.strands, hm]
    simpa [hkept] using d.handleDisconnect_accounts c
  | some m =>
    dsimp only
    by_cases hbad : 0 < m.hdr.size ∧ (screenInfoSize < m.hdr.size ∨ i.payloadOk = false)
    · have hkept : (Event.readable c i).kept = [] := by
        have hfails : i.readFails = true := by simpa [Input.readFails, hm] using hbad
        simp [Event.kept, Event.received, Event.strands, hm, hfails]
      rw [if_pos hbad, hkept]
      exact d.handleDisconnect_accounts c
    · have hkept : (Event.readable c i).kept = m.fds := by
        have hfails : i.readFails = false := by simpa [Input.readFails, hm] using hbad
        simp [Event.kept, Event.received, Event.strands, hm, hfails]
      rw [if_neg hbad, hkept]
      split
      · split
        · exact d.replaceDeposit_accounts c m.fds i.sendOk
        · exact d.closeReceivedFds_accounts m.fds
      · split
        · exact (d.updateScreenInfo_accounts i.payload).close m.fds
        · exact d.closeReceivedFds_accounts m.fds
      · split
        · exact (d.tryDeliverFds_accounts i.sendOk).close m.fds
        · exact d.closeReceivedFds_accounts m.fds
      · exact d.closeReceivedFds_accounts m.fds

theorem handleNewConnection_accounts (fd : ℕ) (i : Input φ) :
    d.Accounts (Event.listen true i).kept (d.handleNewConnection (some fd) i) := by
  unfold handleNewConnection
  cases hm : recvFds maxFds i.msg with
  | none =>
    have hkept : (Event.listen true i).kept = [] := by
      simp [Event.kept, Event.received, Event.strands, hm]
    simp [Accounts, hkept, closed_cons_of_none (x := Effect.closeConn fd) rfl]
  | some m =>
    dsimp only
    by_cases hn : m.n < ctrlMsgSize
    · have hkept : (Event.listen true i).kept = [] := by
        simp [Event.kept, Event.received, Event.strands, hm, hn]
      rw [if_pos hn]
      simp [Accounts, hkept, closed_cons_of_none (x := Effect.closeConn fd) rfl]
    rw [if_neg hn]
    have hadd : ∀ c, closed [(Effect.epollAdd c : Effect φ)] = 0 := fun _ => rfl
    have hscreen : ∀ c, closed [(Effect.sendScreenInfo fd d.storedScreen : Effect φ),
        .epollAdd c] = 0 := fun _ => rfl
    split
    · rename_i ht
      have hkept : (Event.listen true i).kept = m.fds := by
        simp [Event.kept, Event.received, Event.strands, hm, hn, ht]
      have hdep := replaceDeposit_accounts { d with consumer := some ⟨fd, true⟩ } ⟨fd, true⟩ m.fds
        i.sendOk
      rw [Accounts] at hdep ⊢
      dsimp only at hdep ⊢
      rw [hkept, closed_append, closed_append, closed_clientFree, hadd, zero_add, add_zero]
      exact hdep
    · rename_i ht
      have hkept : (Event.listen true i).kept = [] := by
        simp [Event.kept, Event.received, Event.strands, hm, ht]
      rw [hkept]
      split
      · simp [Accounts, sendScreenInfoMsg, closed_append, hscreen]
      · simp [Accounts, closed_append, hadd]
    · rename_i hcons hprod
      have hkept : (Event.listen true i).kept = m.fds := by
        have hprod : m.hdr.type ≠ .producerHello := hprod
        simp [Event.kept, Event.received, Event.strands, hm, hn, hprod]
      rw [Accounts, hkept, closed_append, closeReceivedFds, closed_map_closeFd, add_comm]
      simp [closed_cons_of_none (x := Effect.closeConn fd) rfl]

/-- The books of one event. -/
theorem dispatch_accounts (fd : ℕ) (e : Event φ) : d.Accounts e.kept (d.dispatch fd e) := by
  cases e with
  | listen accepted i =>
    cases accepted with
    | false => simp [Accounts, dispatch, handleNewConnection, Event.kept, Event.received]
    | true => exact d.handleNewConnection_accounts fd i
  | hangup c => exact d.handleDisconnect_accounts c
  | readable c i => exact d.handleClientData_accounts c i

end Globals

namespace Ledger

variable {s s' : Ledger φ} {e : Event φ}

theorem balanced_initial : (initial : Ledger φ).Balanced := rfl

theorem received_of_strands (h : e.strands = true) : e.received ≠ [] := by
  cases e with
  | hangup c => simp [Event.strands] at h
  | listen accepted i =>
    cases accepted with
    | false => simp [Event.strands] at h
    | true =>
      cases hm : recvFds maxFds i.msg with
      | none => simp [Event.strands, hm] at h
      | some m =>
        have := (Bool.and_eq_true_iff.mp (by simpa only [Event.strands, hm] using h)).2
        simpa [Event.received, hm] using this
  | readable c i =>
    cases hm : recvFds maxFds i.msg with
    | none => simp [Event.strands, hm] at h
    | some m =>
      have := (Bool.and_eq_true_iff.mp (by simpa only [Event.strands, hm] using h)).2
      simpa [Event.received, hm] using this

/-- An event keeps the balance exactly if it strands nothing. -/
theorem balanced_iff (h : s.Balanced) (hs : s.step e = some s') :
    s'.Balanced ↔ e.strands = false := by
  obtain ⟨w, hw, rfl⟩ := Option.map_eq_some_iff.mp hs
  obtain ⟨-, rfl⟩ := World.step_eq_some.mp hw
  have hacc := s.world.globals.dispatch_accounts s.world.accepted e
  have hbal : s.received = closed s.world.trace + s.world.globals.depositedFds := h
  have hnext : closed (s.world.next e).trace + (s.world.next e).globals.depositedFds =
      s.received + e.kept := by
    have htrace : (s.world.next e).trace = s.world.trace ++ s.world.effects e := rfl
    rw [htrace, closed_append, hbal, add_assoc, add_assoc]
    exact congrArg _ hacc
  rw [Balanced, hnext]
  dsimp only
  rw [add_right_inj, Multiset.coe_eq_coe]
  unfold Event.kept
  cases hstr : e.strands with
  | false => simp
  | true => simpa using received_of_strands hstr

end Ledger

/-- No descriptor is lost, and none is closed that was not received or was closed before,
if and only if no message brings descriptors to an exit that strands them. -/
theorem balanced_iff_noneStranded (es : List (Event φ)) :
    Along Ledger.step (fun _ _ s => s.Balanced) .initial es ↔
      Along Ledger.step (fun _ e _ => e.strands = false) .initial es :=
  along_iff_of_invariant (I := Ledger.Balanced) (fun _ _ _ h hs => Ledger.balanced_iff h hs)
    (fun _ _ _ h hs hno => (Ledger.balanced_iff h hs).mpr hno) Ledger.balanced_initial es

/-- A producer that says hello with a descriptor. -/
def helloWithFd : List (Event ℕ) := [.listen true (.ofType .producerHello [7])]

/-- The daemon forgets the descriptor. -/
theorem helloWithFd_not_balanced :
    ¬ Along Ledger.step (fun _ _ s => s.Balanced) (.initial : Ledger ℕ) helloWithFd := by
  decide

end Daemon
end ACGlass
