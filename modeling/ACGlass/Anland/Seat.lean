import ACGlass.Trace
import ACGlass.Transition
import Mathlib.Data.Int.ModEq

/-!
# The seat of the anland backend

The touch points, the buttons and the keys of `b->seat` as far as the `notify_*` functions of
libweston count them. Positions and times do not change the counts.
-/

namespace ACGlass
namespace Anland

open Transition Trace

/-- The counts that `touch_state`, `pointer_state` and `keyboard_state` keep. -/
structure Seat where
  numTp : UInt32
  buttonCount : UInt32
  keys : List UInt32
  deriving DecidableEq, Repr

/-- `struct InputEvent` without its floats. -/
inductive InputEvent
  | touch (action pointerId : Int32)
  | key (action keycode : Int32)
  | pointerMotion
  | pointerButton (button : UInt32) (pressed : Int32)
  | pointerAxis (axis : UInt32) (discrete : Int32)
  | touchFrame
  | unknown (type : UInt32)
  deriving DecidableEq, Repr

def actionDown : Int32 := 0

def actionUp : Int32 := 1

section Removal

variable {α : Type*} [DecidableEq α]

/-- The last element takes the place of the first `a`. -/
def swapRemove (a : α) : List α → List α
  | [] => []
  | b :: l =>
    if b = a then
      match l.getLast? with
      | some last => last :: l.dropLast
      | none => []
    else b :: swapRemove a l

theorem swapRemove_perm (a : α) (l : List α) : (swapRemove a l).Perm (l.erase a) := by
  induction l with
  | nil => exact .refl _
  | cons b l ih =>
    rw [swapRemove]
    split_ifs with h
    · subst h
      rw [List.erase_cons_head]
      cases hlast : l.getLast? with
      | none => simp [List.getLast?_eq_none_iff.mp hlast]
      | some last =>
        have hsplit := List.dropLast_append_getLast? last hlast
        have hperm : (last :: l.dropLast).Perm (l.dropLast ++ [last]) :=
          (List.perm_append_singleton last l.dropLast).symm
        rwa [hsplit] at hperm
    · rw [List.erase_cons_tail (by simpa using h)]
      exact ih.cons b

theorem nodup_swapRemove {a : α} {l : List α} (h : l.Nodup) : (swapRemove a l).Nodup :=
  (swapRemove_perm a l).nodup_iff.mpr (h.erase a)

theorem mem_swapRemove {a b : α} {l : List α} (h : l.Nodup) :
    b ∈ swapRemove a l ↔ b ≠ a ∧ b ∈ l := by
  rw [(swapRemove_perm a l).mem_iff, h.mem_erase_iff]

end Removal

namespace Seat

variable (s : Seat)

/-- `notify_button` -/
def notifyButton (pressed : Bool) : Seat :=
  if pressed then { s with buttonCount := s.buttonCount + 1 }
  else { s with buttonCount := s.buttonCount - 1 }

/-- `notify_key`; a press of a key that is down is ignored as a repeat. -/
def notifyKey (key : UInt32) (pressed : Bool) : Seat :=
  if s.keys.contains key then
    if pressed then s else { s with keys := swapRemove key s.keys }
  else if pressed then { s with keys := s.keys ++ [key] }
  else s

/-- `enum weston_touch_type`: the counts of `notify_touch_normalized`. -/
def notifyTouchDown : Seat := { s with numTp := s.numTp + 1 }

def notifyTouchUp : Seat := if s.numTp = 0 then s else { s with numTp := s.numTp - 1 }

/-- The body of `clear_pointer_focus` is a comment. -/
def clearPointerFocus : Seat := s

def handlePointerButton (pressed : Int32) : Seat := s.notifyButton (pressed ≠ 0)

def handleKey (action keycode : Int32) : Seat := s.notifyKey keycode.toUInt32 (action = actionDown)

/-- `output`: the output "anland-1" has been found. -/
def handleTouch (touchDevice output : Bool) (action : Int32) : Seat :=
  if !touchDevice || !output then s
  else if action = actionDown then s.notifyTouchDown
  else if action = actionUp then s.notifyTouchUp
  else s

/-- `anland_process_input_event` -/
def processInputEvent (touchDevice output : Bool) : InputEvent → Seat
  | .pointerButton _ pressed => s.handlePointerButton pressed
  | .key action keycode => s.handleKey action keycode
  | .touch action _ => s.handleTouch touchDevice output action
  | .pointerMotion | .pointerAxis _ _ | .touchFrame | .unknown _ => s

/-- What `anland_fallback_cb` does to the seat. -/
def fallbackCb (touchDevice : Bool) : Seat :=
  let s := if touchDevice ∧ s.numTp > 0 then { s with numTp := 0 } else s
  s.clearPointerFocus

/-- Nothing is pressed. -/
structure Neutral : Prop where
  touches : s.numTp = 0
  buttons : s.buttonCount = 0
  keys : s.keys = []

end Seat

/-- The state of a key that an event reports. -/
def InputEvent.keyState (key : UInt32) : InputEvent → Option Bool
  | .key action keycode => if keycode.toUInt32 = key then some (action = actionDown) else none
  | _ => none

def InputEvent.pressesButton : InputEvent → Bool
  | .pointerButton _ pressed => pressed ≠ 0
  | _ => false

def InputEvent.releasesButton : InputEvent → Bool
  | .pointerButton _ pressed => pressed = 0
  | _ => false

/-- As many buttons were released as were pressed, up to an overflow of the count, and the last
event of every key is its release. -/
structure AllReleased (h : List InputEvent) : Prop where
  buttons : h.countP InputEvent.pressesButton ≡ h.countP InputEvent.releasesButton [MOD 2 ^ 32]
  keys : ∀ key, lastOf (InputEvent.keyState key) h ≠ some true

/-- A seat with the input events that it has been given. -/
structure Played where
  seat : Seat
  history : List InputEvent

inductive Happening
  | input (output : Bool) (event : InputEvent)
  | fallback
  deriving DecidableEq, Repr

namespace Played

def initial : Played := ⟨⟨0, 0, []⟩, []⟩

def step (touchDevice : Bool) (s : Played) : Happening → Option Played
  | .input output event =>
    some ⟨s.seat.processInputEvent touchDevice output event, s.history ++ [event]⟩
  | .fallback => some ⟨s.seat.fallbackCb touchDevice, s.history⟩

/-- The seat counts what the events report. -/
structure Counts (touchDevice : Bool) (s : Played) : Prop where
  touches : touchDevice = false → s.seat.numTp = 0
  buttons : s.seat.buttonCount = UInt32.ofNat (s.history.countP InputEvent.pressesButton) -
    UInt32.ofNat (s.history.countP InputEvent.releasesButton)
  nodup : s.seat.keys.Nodup
  keys : ∀ key, key ∈ s.seat.keys ↔ lastOf (InputEvent.keyState key) s.history = some true

variable {touchDevice : Bool} {s : Played}

theorem counts_initial : initial.Counts touchDevice where
  touches _ := rfl
  buttons := rfl
  nodup := List.nodup_nil
  keys := by simp [initial]

theorem notifyKey_keys {seat : Seat} (h : seat.keys.Nodup) (key : UInt32) (pressed : Bool) :
    (seat.notifyKey key pressed).keys.Nodup ∧ ∀ k, k ∈ (seat.notifyKey key pressed).keys ↔
      if k = key then pressed = true else k ∈ seat.keys := by
  rw [Seat.notifyKey]
  cases hkey : seat.keys.contains key with
  | true =>
    rw [if_pos rfl]
    rw [List.contains_iff_mem] at hkey
    cases pressed with
    | true =>
      rw [if_pos rfl]
      refine ⟨h, fun k => ?_⟩
      by_cases hk : k = key
      · simp [hk, hkey]
      · simp [hk]
    | false =>
      rw [if_neg Bool.false_ne_true]
      refine ⟨nodup_swapRemove h, fun k => ?_⟩
      rw [mem_swapRemove h]
      by_cases hk : k = key
      · simp [hk]
      · simp [hk]
  | false =>
    rw [if_neg Bool.false_ne_true]
    have hkey : key ∉ seat.keys := by
      rw [← List.contains_iff_mem, hkey]
      exact Bool.false_ne_true
    cases pressed with
    | true =>
      rw [if_pos rfl]
      constructor
      · apply h.append (List.nodup_singleton key)
        simpa using hkey
      · intro k
        by_cases hk : k = key
        · simp [hk]
        · simp [hk]
    | false =>
      rw [if_neg Bool.false_ne_true]
      refine ⟨h, fun k => ?_⟩
      by_cases hk : k = key
      · simp [hk, hkey]
      · simp [hk]

theorem notifyButton_count (seat : Seat) (pressed : Int32) {presses releases : ℕ}
    (h : seat.buttonCount = UInt32.ofNat presses - UInt32.ofNat releases) :
    (seat.handlePointerButton pressed).buttonCount =
      UInt32.ofNat (presses + if pressed ≠ 0 then 1 else 0) -
        UInt32.ofNat (releases + if pressed = 0 then 1 else 0) := by
  unfold Seat.handlePointerButton Seat.notifyButton
  by_cases hp : pressed = 0
  · simp [hp, h, UInt32.ofNat_add]
    grind
  · simp [hp, h, UInt32.ofNat_add]
    grind

/-- An event that reports nothing of buttons and keys. -/
theorem Counts.other (hs : s.Counts touchDevice) {event : InputEvent} {numTp : UInt32}
    (htouches : touchDevice = false → numTp = 0) (hpress : event.pressesButton = false)
    (hrelease : event.releasesButton = false) (hkey : ∀ key, event.keyState key = none) :
    Counts touchDevice ⟨{ s.seat with numTp := numTp }, s.history ++ [event]⟩ where
  touches := htouches
  buttons := by simp [hs.buttons, hpress, hrelease]
  nodup := hs.nodup
  keys key := by
    rw [lastOf_append_of_none (by simpa using hkey key)]
    exact hs.keys key

theorem Counts.button (hs : s.Counts touchDevice) (button : UInt32) (pressed : Int32) :
    Counts touchDevice ⟨s.seat.handlePointerButton pressed,
      s.history ++ [.pointerButton button pressed]⟩ := by
  have hkept : (s.seat.handlePointerButton pressed).numTp = s.seat.numTp ∧
      (s.seat.handlePointerButton pressed).keys = s.seat.keys := by
    unfold Seat.handlePointerButton Seat.notifyButton
    split_ifs <;> exact ⟨rfl, rfl⟩
  constructor
  · intro h
    exact hkept.1.trans (hs.touches h)
  · rw [notifyButton_count s.seat pressed hs.buttons]
    simp [InputEvent.pressesButton, InputEvent.releasesButton, List.countP_append,
      List.countP_singleton]
  · exact hkept.2 ▸ hs.nodup
  · intro key
    rw [lastOf_append_of_none (by simp [InputEvent.keyState]), hkept.2]
    exact hs.keys key

theorem Counts.key (hs : s.Counts touchDevice) (action keycode : Int32) :
    Counts touchDevice ⟨s.seat.handleKey action keycode, s.history ++ [.key action keycode]⟩ := by
  obtain ⟨hnodup, hmem⟩ := notifyKey_keys hs.nodup keycode.toUInt32 (action = actionDown)
  have hkept : (s.seat.handleKey action keycode).numTp = s.seat.numTp ∧
      (s.seat.handleKey action keycode).buttonCount = s.seat.buttonCount := by
    unfold Seat.handleKey Seat.notifyKey
    split_ifs <;> exact ⟨rfl, rfl⟩
  constructor
  · intro h
    exact hkept.1.trans (hs.touches h)
  · rw [hkept.2, hs.buttons]
    simp [InputEvent.pressesButton, InputEvent.releasesButton, List.countP_append]
  · exact hnodup
  · intro k
    rw [Seat.handleKey, hmem k, lastOf_append]
    by_cases hk : k = keycode.toUInt32
    · simp [hk, lastOf, InputEvent.keyState]
    · simp [hk, Ne.symm hk, lastOf, InputEvent.keyState, hs.keys]

theorem Counts.touch (hs : s.Counts touchDevice) (output : Bool) (action pointerId : Int32) :
    Counts touchDevice ⟨s.seat.handleTouch touchDevice output action,
      s.history ++ [.touch action pointerId]⟩ := by
  obtain ⟨numTp, heq⟩ : ∃ numTp, s.seat.handleTouch touchDevice output action =
      { s.seat with numTp := numTp } := by
    unfold Seat.handleTouch Seat.notifyTouchDown Seat.notifyTouchUp
    split_ifs <;> exact ⟨_, rfl⟩
  rw [heq]
  apply hs.other
  · intro h
    have hsame : s.seat.handleTouch touchDevice output action = s.seat := by
      simp [Seat.handleTouch, h]
    rw [← hs.touches h, ← hsame, heq]
  · rfl
  · rfl
  · exact fun _ => rfl

theorem Counts.input (hs : s.Counts touchDevice) (output : Bool) (event : InputEvent) :
    Counts touchDevice ⟨s.seat.processInputEvent touchDevice output event,
      s.history ++ [event]⟩ := by
  cases event with
  | touch action pointerId => exact hs.touch output action pointerId
  | key action keycode => exact hs.key action keycode
  | pointerButton button pressed => exact hs.button button pressed
  | pointerMotion => exact hs.other hs.touches rfl rfl fun _ => rfl
  | pointerAxis axis discrete => exact hs.other hs.touches rfl rfl fun _ => rfl
  | touchFrame => exact hs.other hs.touches rfl rfl fun _ => rfl
  | unknown type => exact hs.other hs.touches rfl rfl fun _ => rfl

theorem Counts.fallback (hs : s.Counts touchDevice) :
    Counts touchDevice ⟨s.seat.fallbackCb touchDevice, s.history⟩ := by
  unfold Seat.fallbackCb Seat.clearPointerFocus
  split_ifs with h
  · exact ⟨fun _ => rfl, hs.buttons, hs.nodup, hs.keys⟩
  · exact ⟨hs.touches, hs.buttons, hs.nodup, hs.keys⟩

theorem fallback_touches (hs : s.Counts touchDevice) :
    (s.seat.fallbackCb touchDevice).numTp = 0 := by
  unfold Seat.fallbackCb Seat.clearPointerFocus
  split_ifs with h
  · rfl
  · cases htouch : touchDevice with
    | false => exact hs.touches htouch
    | true =>
      have hzero : ¬ s.seat.numTp > 0 := fun hpos => h ⟨htouch, hpos⟩
      rwa [gt_iff_lt, UInt32.pos_iff_ne_zero, not_not] at hzero

theorem ofNat_sub_eq_zero (m n : ℕ) :
    UInt32.ofNat m - UInt32.ofNat n = 0 ↔ m ≡ n [MOD 2 ^ 32] := by
  rw [UInt32.sub_eq_iff_eq_add, UInt32.zero_add, ← UInt32.toNat_inj,
    UInt32.toNat_ofNat', UInt32.toNat_ofNat']
  exact Iff.rfl

theorem fallback_neutral_iff (hs : s.Counts touchDevice) :
    (s.seat.fallbackCb touchDevice).Neutral ↔ AllReleased s.history := by
  have hafter := hs.fallback
  constructor
  · intro h
    constructor
    · rw [← ofNat_sub_eq_zero, ← hafter.buttons]
      exact h.buttons
    · intro key hlast
      have hkey := (hafter.keys key).mpr hlast
      rw [h.keys] at hkey
      cases hkey
  · intro h
    constructor
    · exact fallback_touches hs
    · rw [hafter.buttons, ofNat_sub_eq_zero]
      exact h.buttons
    · rw [List.eq_nil_iff_forall_not_mem]
      intro key hkey
      exact h.keys key ((hafter.keys key).mp hkey)

theorem Counts.step (hs : s.Counts touchDevice) {e : Happening} {s' : Played}
    (hstep : step touchDevice s e = some s') :
    s'.Counts touchDevice ∧
      ((e = .fallback → s'.seat.Neutral) ↔ (e = .fallback → AllReleased s.history)) := by
  cases e with
  | input output event =>
    obtain rfl := Option.some.inj hstep
    exact ⟨hs.input output event, by simp⟩
  | fallback =>
    obtain rfl := Option.some.inj hstep
    exact ⟨hs.fallback, imp_congr_right fun _ => fallback_neutral_iff hs⟩

end Played

/-- With or without a touch device, and through any number of reconnects, the seat is neutral
after every fallback if and only if the events before it have released all they had pressed;
touch points never stay. -/
theorem neutral_iff_allReleased (touchDevice : Bool) (es : List Happening) :
    (Along (Played.step touchDevice) (fun _ e s => e = .fallback → s.seat.Neutral) .initial es ↔
      Along (Played.step touchDevice) (fun s e _ => e = .fallback → AllReleased s.history)
        .initial es) ∧
    Along (Played.step touchDevice) (fun _ e s => e = .fallback → s.seat.numTp = 0)
      .initial es := by
  constructor
  · apply along_iff_of_invariant (I := Played.Counts touchDevice)
    · exact fun s e s' hs hstep => (hs.step hstep).2
    · exact fun s e s' hs hstep _ => (hs.step hstep).1
    · exact Played.counts_initial
  · apply along_of_invariant (I := Played.Counts touchDevice)
    · exact fun s e s' hs hstep => (hs.step hstep).1
    · rintro s e s' hs hstep rfl
      obtain rfl := Option.some.inj hstep
      exact Played.fallback_touches hs
    · exact Played.counts_initial

/-- A key goes down and the consumer is lost. -/
theorem key_stays_pressed :
    ¬ Along (Played.step true) (fun _ e s => e = .fallback → s.seat.Neutral) .initial
      [.input true (.key 0 30), .fallback] := by
  intro h
  have hlast := Along.at [Happening.input true (.key 0 30)] h rfl rfl
  exact absurd (hlast rfl).keys (by decide)

end Anland
end ACGlass
