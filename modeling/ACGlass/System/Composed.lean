import ACGlass.Parallel
import ACGlass.Consumer.Latest
import ACGlass.Producer.Reading

/-!
# Consumer, daemon and producer

The whole system: a consumer and a producer that share one daemon. An event that the
daemon handles for one of the two is an event of another connection to the other. Each
party by itself behaves as it does next to an arbitrary environment, and the two keep the
same daemon.
-/

namespace ACGlass

open Transition

namespace Consumer.Joint

/-- The event that the daemon handles in a step. -/
def event (s : Joint) : Label → Option (Daemon.Event ℕ)
  | .accept sendOk => s.up.head?.map fun m => .listen true (m.input sendOk)
  | .read sendOk =>
    s.conn.bind fun n => s.up.head?.map fun m => .readable ⟨n, true⟩ (m.input sendOk)
  | .drop => s.conn.map fun n => .hangup ⟨n, true⟩
  | .other e => some e
  | _ => none

end Consumer.Joint

namespace Producer.Joint

/-- The event that the daemon handles in a step. -/
def event (s : Joint) : Label → Option (Daemon.Event ℕ)
  | .accept readOk =>
    some (.listen true (if readOk then .ofType .producerHello [] else unreadable))
  | .read sendOk =>
    s.conn.bind fun n => s.up.head?.map fun t =>
      .readable ⟨n, false⟩ { Daemon.Input.ofType t [] with sendOk }
  | .drop => s.conn.map fun n => .hangup ⟨n, false⟩
  | .consumer e => some e
  | _ => none

end Producer.Joint

namespace System

/-- A consumer's `other` and a producer's `consumer` are events of a third connection. -/
inductive Label
  | consumer (l : Consumer.Label)
  | producer (l : Producer.Label)
  deriving DecidableEq, Repr

abbrev State := Consumer.Joint × Producer.Joint

def composition : Composition Consumer.Joint Producer.Joint Consumer.Label Producer.Label Label where
  left := Consumer.Joint.step
  right := Producer.Joint.step
  leftLabels s l :=
    match l with
    | .consumer l => [l]
    | .producer l => (s.2.event l).toList.map .other
  rightLabels s l :=
    match l with
    | .consumer l => (s.1.event l).toList.map .consumer
    | .producer l => [l]

def step : State → Label → Option State := composition.step

def initial : State := (.initial, .initial)

/-- The daemon is one. -/
def Shared (s : State) : Prop := s.1.daemon = s.2.daemon

section Events

theorem consumer_daemonStep {s s' : Consumer.Joint} {e : Daemon.Event ℕ}
    (hs : s.daemonStep e = some s') : s.daemon.step e = some s'.daemon := by
  obtain ⟨w, hw, rfl⟩ := Option.map_eq_some_iff.mp hs
  exact hw

theorem producer_daemonStep {s s' : Producer.Joint} {e : Daemon.Event ℕ}
    (hs : s.daemonStep e = some s') : s.daemon.step e = some s'.daemon := by
  obtain ⟨w, hw, rfl⟩ := Option.map_eq_some_iff.mp hs
  exact hw

/-- What the daemon does in a step of the consumer. -/
theorem consumer_event {s s' : Consumer.Joint} {l : Consumer.Label} (hs : s.step l = some s') :
    match s.event l with
    | none => s'.daemon = s.daemon
    | some e => s.daemon.step e = some s'.daemon := by
  cases l with
  | connect ctrlFd calls =>
    obtain ⟨-, rfl⟩ := Consumer.Joint.connect_eq_some.mp hs
    rfl
  | call op =>
    obtain ⟨_, _, _, _, _, _, rfl⟩ := Consumer.Joint.call_eq_some.mp hs
    rfl
  | disconnect =>
    obtain ⟨_, _, rfl⟩ := Option.map_eq_some_iff.mp hs
    rfl
  | accept sendOk =>
    simp only [Consumer.Joint.step] at hs
    split at hs
    · rename_i m up _ _ hup
      simp only [Consumer.Joint.event, hup]
      have hdaemon := consumer_daemonStep hs
      exact hdaemon
    · cases hs
  | read sendOk =>
    simp only [Consumer.Joint.step] at hs
    split at hs
    · rename_i n m up hconn hup
      simp only [Consumer.Joint.event, hconn, hup]
      have hdaemon := consumer_daemonStep hs
      exact hdaemon
    · cases hs
  | drop =>
    obtain ⟨n, hconn, hs⟩ := Option.bind_eq_some_iff.mp hs
    simp only [Consumer.Joint.event, hconn]
    have hdaemon := consumer_daemonStep hs
    exact hdaemon
  | other e =>
    simp only [Consumer.Joint.step] at hs
    split_ifs at hs
    have hdaemon := consumer_daemonStep hs
    exact hdaemon

/-- What the daemon does in a step of the producer. -/
theorem producer_event {s s' : Producer.Joint} {l : Producer.Label} (hs : s.step l = some s') :
    match s.event l with
    | none => s'.daemon = s.daemon
    | some e => s.daemon.step e = some s'.daemon := by
  cases Producer.Joint.step_cases hs with
  | readScreen | request =>
    split_ifs <;> rfl
  | accept hconn hup hs =>
    have hdaemon := producer_daemonStep hs
    exact hdaemon
  | read hconn hup hs =>
    simp only [Producer.Joint.event, hconn, hup]
    have hdaemon := producer_daemonStep hs
    exact hdaemon
  | drop hconn hs =>
    simp only [Producer.Joint.event, hconn]
    have hdaemon := producer_daemonStep hs
    exact hdaemon
  | consumer he hs =>
    have hdaemon := producer_daemonStep hs
    exact hdaemon
  | _ => rfl

/-- An event of the consumer is none of a producer. -/
theorem ofConsumer_event {s : Consumer.Joint} {l : Consumer.Label} {e : Daemon.Event ℕ}
    (he : s.event l = some e) (hl : ∀ e', l ≠ .other e') : Producer.ofConsumer e = true := by
  have htype : ∀ (m : Consumer.UpMsg) sendOk,
      Producer.ofConsumer (.listen true (m.input sendOk)) = true := by
    intro m sendOk
    cases m <;> rfl
  cases l with
  | accept sendOk =>
    obtain ⟨m, -, rfl⟩ := Option.map_eq_some_iff.mp he
    exact htype m sendOk
  | read sendOk =>
    obtain ⟨n, -, he⟩ := Option.bind_eq_some_iff.mp he
    obtain ⟨m, -, rfl⟩ := Option.map_eq_some_iff.mp he
    rfl
  | drop =>
    obtain ⟨n, -, rfl⟩ := Option.map_eq_some_iff.mp he
    rfl
  | other e' => exact absurd rfl (hl e')
  | connect | call | disconnect => cases he

/-- An event of the producer is none of a consumer. -/
theorem ofProducer_event {s : Producer.Joint} {l : Producer.Label} {e : Daemon.Event ℕ}
    (he : s.event l = some e) (hl : ∀ e', l ≠ .consumer e') : Consumer.ofProducer e = true := by
  cases l with
  | accept readOk =>
    obtain rfl := Option.some.inj he
    cases readOk <;> rfl
  | read sendOk =>
    obtain ⟨n, -, he⟩ := Option.bind_eq_some_iff.mp he
    obtain ⟨t, -, rfl⟩ := Option.map_eq_some_iff.mp he
    rfl
  | drop =>
    obtain ⟨n, -, rfl⟩ := Option.map_eq_some_iff.mp he
    rfl
  | consumer e' => exact absurd rfl (hl e')
  | _ => cases he

end Events

variable {s t : State}

/-- The daemons of the two parts move together. -/
theorem Shared.step {l : Label} (h : Shared s) (hs : step s l = some t) : Shared t := by
  obtain ⟨hl, hr⟩ := Composition.step_eq_some.mp hs
  cases l with
  | consumer l =>
    have hl : s.1.step l = some t.1 := by simpa [composition] using hl
    have hevent := consumer_event hl
    cases he : s.1.event l with
    | none =>
      have hr : s.2 = t.2 := by simpa [composition, he] using hr
      rw [he] at hevent
      exact hevent.trans (h.trans (congrArg _ hr))
    | some e =>
      have hr : s.2.step (.consumer e) = some t.2 := by simpa [composition, he] using hr
      have hevent' := producer_event hr
      rw [he, h] at hevent
      exact Option.some.inj (hevent.symm.trans hevent')
  | producer l =>
    have hr : s.2.step l = some t.2 := by simpa [composition] using hr
    have hevent := producer_event hr
    cases he : s.2.event l with
    | none =>
      have hl : s.1 = t.1 := by simpa [composition, he] using hl
      rw [he] at hevent
      exact (congrArg _ hl.symm).trans (h.trans hevent.symm)
    | some e =>
      have hl : s.1.step (.other e) = some t.1 := by simpa [composition, he] using hl
      have hevent' := consumer_event hl
      rw [he, ← h] at hevent
      exact Option.some.inj (hevent'.symm.trans hevent)

/-- The producer does not stand in the way of a step of the consumer. -/
theorem step_consumer (h : Shared s) {l : Consumer.Label} {a : Consumer.Joint}
    (hl : ∀ e, l ≠ .other e) (hs : s.1.step l = some a) :
    ∃ b, step s (.consumer l) = some (a, b) := by
  have hevent := consumer_event hs
  cases he : s.1.event l with
  | none =>
    exact ⟨s.2, Composition.step_eq_some.mpr ⟨by simpa [composition] using hs,
      by simp [composition, he]⟩⟩
  | some e =>
    rw [he, h] at hevent
    have hr : ∃ b, s.2.step (.consumer e) = some b := by
      simp only [Producer.Joint.step, ofConsumer_event he hl, if_true,
        Producer.Joint.daemonStep, hevent]
      exact ⟨_, rfl⟩
    obtain ⟨b, hb⟩ := hr
    exact ⟨b, Composition.step_eq_some.mpr ⟨by simpa [composition] using hs,
      by simpa [composition, he] using hb⟩⟩

/-- The consumer does not stand in the way of a step of the producer. -/
theorem step_producer (h : Shared s) {l : Producer.Label} {b : Producer.Joint}
    (hl : ∀ e, l ≠ .consumer e) (hs : s.2.step l = some b) :
    ∃ a, step s (.producer l) = some (a, b) := by
  have hevent := producer_event hs
  cases he : s.2.event l with
  | none =>
    exact ⟨s.1, Composition.step_eq_some.mpr ⟨by simp [composition, he],
      by simpa [composition] using hs⟩⟩
  | some e =>
    rw [he, ← h] at hevent
    have hl : ∃ a, s.1.step (.other e) = some a := by
      simp only [Consumer.Joint.step, ofProducer_event he hl, if_true,
        Consumer.Joint.daemonStep, hevent]
      exact ⟨_, rfl⟩
    obtain ⟨a, ha⟩ := hl
    exact ⟨a, Composition.step_eq_some.mpr ⟨by simpa [composition, he] using ha,
      by simpa [composition] using hs⟩⟩

end System
end ACGlass
