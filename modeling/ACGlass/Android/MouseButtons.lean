import ACGlass.Trace
import Mathlib.Data.BitVec

/-!
# Mouse buttons

`DisplayOverlayService` and `DisplayActivity` keep the last button state of the mouse and send
what differs from it. A button that is left out of `buttonMap` is never sent.
-/

namespace ACGlass
namespace Android

section Switching

/-- Messages that each turn the switch over, from its position in front of them to the one
behind. -/
inductive Switches : Bool → List Bool → Bool → Prop
  | nil {p : Bool} : Switches p [] p
  | cons {p q : Bool} {l : List Bool} : Switches (!p) l q → Switches p ((!p) :: l) q

/-- Every message differs from the one in front of it, and the first is `first`. -/
def Alternates : Bool → List Bool → Prop
  | _, [] => True
  | first, b :: l => b = first ∧ Alternates (!first) l

variable {p q r : Bool} {l l' : List Bool}

theorem Switches.append (h : Switches p l q) (h' : Switches q l' r) : Switches p (l ++ l') r := by
  induction h with
  | nil => exact h'
  | cons _ ih => exact .cons (ih h')

theorem Switches.alternates (h : Switches p l q) : Alternates (!p) l := by
  induction h with
  | nil => trivial
  | cons _ ih => exact ⟨rfl, ih⟩

/-- The switch is where the last message has put it. -/
theorem Switches.last (h : Switches p l q) : l.getLast?.getD p = q := by
  induction h with
  | nil => rfl
  | @cons p q l h ih =>
    rw [List.getLast?_cons]
    exact ih

/-- The message that a change needs. -/
def change (p q : Bool) : Option Bool := if p ≠ q then some q else none

theorem switches_change (p q : Bool) : Switches p (change p q).toList q := by
  cases p <;> cases q
  · exact .nil
  · exact .cons .nil
  · exact .cons .nil
  · exact .nil

end Switching

variable {φ : Type*}

inductive MouseMessage (φ : Type*)
  /-- `nativeSendMouseMotion` -/
  | motion (x y dx dy : φ)
  /-- `nativeSendMouseButton` -/
  | button (code : ℕ) (isDown : Bool)

/-- What `handleMouseEvent` reads; the historical positions belong to the first pointer. -/
structure MotionEvent (φ : Type*) where
  x : φ
  y : φ
  historical : List (φ × φ)
  buttonState : BitVec 32

/-- `BUTTON_MAP` -/
def buttonMap : List (BitVec 32 × ℕ) :=
  [(1, 0x110), (2, 0x111), (4, 0x112), (8, 0x113), (16, 0x114)]

def isSet (buttons : BitVec 32) (btn : BitVec 32 × ℕ) : Bool := buttons &&& btn.1 ≠ 0

/-- Both functions return the new `savedBS` and the messages in their order. -/
def handleMouseEvent [Zero φ] [Sub φ] (savedBS : BitVec 32) (event : MotionEvent φ) :
    BitVec 32 × List (MouseMessage φ) :=
  let d : φ × φ :=
    match event.historical.getLast? with
    | some last => (event.x - last.1, event.y - last.2)
    | none => (0, 0)
  let currentBS := event.buttonState
  (currentBS, .motion event.x event.y d.1 d.2 :: buttonMap.filterMap fun btn =>
    let wasDown := isSet savedBS btn
    let isDown := isSet currentBS btn
    if wasDown ≠ isDown then some (.button btn.2 isDown) else none)

def releaseSavedMouseButtons (savedBS : BitVec 32) : BitVec 32 × List (MouseMessage φ) :=
  if savedBS = 0 then (savedBS, [])
  else (0, buttonMap.filterMap fun btn =>
    if isSet savedBS btn then some (.button btn.2 false) else none)

inductive MouseCall (φ : Type*)
  | handle (event : MotionEvent φ)
  | release

variable [Zero φ] [Sub φ]

def MouseCall.run (savedBS : BitVec 32) : MouseCall φ → BitVec 32 × List (MouseMessage φ)
  | .handle event => handleMouseEvent savedBS event
  | .release => releaseSavedMouseButtons savedBS

/-- `savedBS` and all messages after the calls. -/
def runCalls (savedBS : BitVec 32) : List (MouseCall φ) → BitVec 32 × List (MouseMessage φ)
  | [] => (savedBS, [])
  | call :: calls =>
    let r := call.run savedBS
    let rest := runCalls r.1 calls
    (rest.1, r.2 ++ rest.2)

/-- The messages about a button. -/
def MouseMessage.about (code : ℕ) : MouseMessage φ → Option Bool
  | .motion _ _ _ _ => none
  | .button code' isDown => if code' = code then some isDown else none

def sentFor (code : ℕ) (messages : List (MouseMessage φ)) : List Bool :=
  messages.filterMap (MouseMessage.about code)

omit [Zero φ] [Sub φ] in
@[simp] theorem sentFor_append (code : ℕ) (ms ms' : List (MouseMessage φ)) :
    sentFor code (ms ++ ms') = sentFor code ms ++ sentFor code ms' := List.filterMap_append

omit [Zero φ] [Sub φ] in
theorem sentFor_eq_nil {code : ℕ} {ms : List (MouseMessage φ)}
    (h : ∀ m ∈ ms, m.about code = none) : sentFor code ms = [] :=
  List.filterMap_eq_nil_iff.mpr h

/-- The part of a loop over the map that says something of the buttons with a message. -/
def loopMessages (message : BitVec 32 × ℕ → Option Bool) (buttons : List (BitVec 32 × ℕ)) :
    List (MouseMessage φ) :=
  buttons.filterMap fun btn => (message btn).map (.button btn.2)

omit [Zero φ] [Sub φ] in
theorem loopMessages_other {message : BitVec 32 × ℕ → Option Bool}
    {buttons : List (BitVec 32 × ℕ)} {code : ℕ} (h : code ∉ buttons.map Prod.snd) :
    sentFor code (loopMessages message buttons : List (MouseMessage φ)) = [] := by
  apply sentFor_eq_nil
  intro m hm
  obtain ⟨btn, hbtn, heq⟩ := List.mem_filterMap.mp hm
  obtain ⟨isDown, -, rfl⟩ := Option.map_eq_some_iff.mp heq
  apply if_neg
  rintro rfl
  exact h (List.mem_map_of_mem hbtn)

omit [Zero φ] [Sub φ] in
/-- A loop over the map says of a button what its own turn says. -/
theorem sentFor_loop {buttons : List (BitVec 32 × ℕ)} (hnodup : (buttons.map Prod.snd).Nodup)
    {btn : BitVec 32 × ℕ} (hbtn : btn ∈ buttons) (message : BitVec 32 × ℕ → Option Bool) :
    sentFor btn.2 (loopMessages message buttons : List (MouseMessage φ)) =
      (message btn).toList := by
  induction buttons with
  | nil => cases hbtn
  | cons b buttons ih =>
    rw [List.map_cons, List.nodup_cons] at hnodup
    have hcons : (loopMessages message (b :: buttons) : List (MouseMessage φ)) =
        ((message b).map (.button b.2)).toList ++ loopMessages message buttons := by
      rw [loopMessages, List.filterMap_cons]
      cases message b <;> rfl
    rw [hcons, sentFor_append]
    rcases List.mem_cons.mp hbtn with rfl | hbtn
    · rw [loopMessages_other hnodup.1, List.append_nil]
      cases message btn with
      | none => rfl
      | some isDown => simp [sentFor, MouseMessage.about]
    · have hne : b.2 ≠ btn.2 := fun heq => hnodup.1 (heq ▸ List.mem_map_of_mem hbtn)
      rw [ih hnodup.2 hbtn]
      cases message b with
      | none => rfl
      | some isDown => simp [sentFor, MouseMessage.about, hne]

theorem nodup_buttonMap : (buttonMap.map Prod.snd).Nodup := by decide

/-- What both functions send about a change of the button state. -/
def changes (old new : BitVec 32) : List (MouseMessage φ) :=
  loopMessages (fun btn => change (isSet old btn) (isSet new btn)) buttonMap

theorem handleMouseEvent_changes (savedBS : BitVec 32) (event : MotionEvent φ) :
    ∃ x y dx dy, handleMouseEvent savedBS event =
      (event.buttonState, .motion x y dx dy :: changes savedBS event.buttonState) := by
  have hloop : (buttonMap.filterMap fun btn =>
      if isSet savedBS btn ≠ isSet event.buttonState btn then
        some (MouseMessage.button btn.2 (isSet event.buttonState btn)) else none) =
      (changes savedBS event.buttonState : List (MouseMessage φ)) := by
    rw [changes, loopMessages]
    apply List.filterMap_congr
    intro btn _
    cases isSet savedBS btn <;> cases isSet event.buttonState btn <;> rfl
  exact ⟨_, _, _, _, by rw [← hloop]; rfl⟩

omit [Zero φ] [Sub φ] in
theorem releaseSavedMouseButtons_eq (savedBS : BitVec 32) :
    (releaseSavedMouseButtons savedBS : BitVec 32 × List (MouseMessage φ)) =
      (0, changes savedBS 0) := by
  have hzero : ∀ btn, isSet 0 btn = false := by
    intro btn
    simp [isSet]
  rw [releaseSavedMouseButtons]
  split_ifs with h
  · subst h
    have hnone : (changes 0 0 : List (MouseMessage φ)) = [] := by
      apply List.filterMap_eq_nil_iff.mpr
      intro btn _
      simp only [hzero]
      rfl
    rw [hnone]
  · rw [changes, loopMessages]
    congr 1
    apply List.filterMap_congr
    intro btn _
    simp only [hzero]
    cases isSet savedBS btn <;> rfl

omit [Zero φ] [Sub φ] in
theorem changes_switches {btn : BitVec 32 × ℕ} (hbtn : btn ∈ buttonMap) (old new : BitVec 32) :
    Switches (isSet old btn) (sentFor btn.2 (changes old new : List (MouseMessage φ)))
      (isSet new btn) := by
  rw [changes, sentFor_loop nodup_buttonMap hbtn]
  exact switches_change _ _

section Calls

variable {btn : BitVec 32 × ℕ}

/-- One call switches a button from where the saved state has it to where the new one has. -/
theorem run_switches (hbtn : btn ∈ buttonMap) (savedBS : BitVec 32) (call : MouseCall φ) :
    Switches (isSet savedBS btn) (sentFor btn.2 (call.run savedBS).2)
      (isSet (call.run savedBS).1 btn) := by
  cases call with
  | handle event =>
    obtain ⟨x, y, dx, dy, heq⟩ := handleMouseEvent_changes savedBS event
    rw [MouseCall.run, heq]
    exact changes_switches hbtn savedBS event.buttonState
  | release =>
    rw [MouseCall.run, releaseSavedMouseButtons_eq]
    exact changes_switches hbtn savedBS 0

theorem runCalls_switches (hbtn : btn ∈ buttonMap) (savedBS : BitVec 32)
    (calls : List (MouseCall φ)) :
    Switches (isSet savedBS btn) (sentFor btn.2 (runCalls savedBS calls).2)
      (isSet (runCalls savedBS calls).1 btn) := by
  induction calls generalizing savedBS with
  | nil => exact .nil
  | cons call calls ih =>
    rw [runCalls, sentFor_append]
    exact (run_switches hbtn savedBS call).append (ih _)

theorem runCalls_release (savedBS : BitVec 32) (calls : List (MouseCall φ)) :
    (runCalls savedBS (calls ++ [.release])).1 = 0 := by
  induction calls generalizing savedBS with
  | nil =>
    rw [List.nil_append, runCalls, runCalls, MouseCall.run, releaseSavedMouseButtons_eq]
  | cons call calls ih => exact ih _

theorem run_other {code : ℕ} (h : code ∉ buttonMap.map Prod.snd) (savedBS : BitVec 32)
    (call : MouseCall φ) : sentFor code (call.run savedBS).2 = [] := by
  cases call with
  | handle event =>
    obtain ⟨x, y, dx, dy, heq⟩ := handleMouseEvent_changes savedBS event
    rw [MouseCall.run, heq]
    exact loopMessages_other h
  | release =>
    rw [MouseCall.run, releaseSavedMouseButtons_eq]
    exact loopMessages_other h

theorem runCalls_other {code : ℕ} (h : code ∉ buttonMap.map Prod.snd) (savedBS : BitVec 32)
    (calls : List (MouseCall φ)) : sentFor code (runCalls savedBS calls).2 = [] := by
  induction calls generalizing savedBS with
  | nil => rfl
  | cons call calls ih => rw [runCalls, sentFor_append, run_other h, ih, List.append_nil]

/-- The last message about a code is a press if the saved state has its button. -/
theorem getLast?_sentFor (calls : List (MouseCall φ)) (code : ℕ) :
    (sentFor code (runCalls 0 calls).2).getLast? = some true ↔
      ∃ btn ∈ buttonMap, btn.2 = code ∧ isSet (runCalls 0 calls).1 btn = true := by
  by_cases hcode : code ∈ buttonMap.map Prod.snd
  · obtain ⟨btn, hbtn, rfl⟩ := List.mem_map.mp hcode
    have hzero : isSet 0 btn = false := by simp [isSet]
    have hlast := (runCalls_switches hbtn 0 calls).last
    rw [hzero] at hlast
    have hset : (sentFor btn.2 (runCalls 0 calls).2).getLast? = some true ↔
        isSet (runCalls 0 calls).1 btn = true := by
      rw [← hlast]
      cases (sentFor btn.2 (runCalls 0 calls).2).getLast? <;> simp
    rw [hset]
    constructor
    · exact fun h => ⟨btn, hbtn, rfl, h⟩
    · rintro ⟨btn', hbtn', hcode', h⟩
      rwa [← List.inj_on_of_nodup_map nodup_buttonMap hbtn' hbtn hcode']
  · rw [runCalls_other hcode]
    constructor
    · intro h
      cases h
    · rintro ⟨btn, hbtn, rfl, -⟩
      exact absurd (List.mem_map_of_mem hbtn) hcode

/-- The messages about each mapped button alternate from a press on; the buttons that are
pressed by the last message are the mapped ones of the saved state, none after a release. -/
theorem mouseButtons_alternate (calls : List (MouseCall φ)) :
    (∀ btn ∈ buttonMap, Alternates true (sentFor btn.2 (runCalls 0 calls).2)) ∧
    {code | (sentFor code (runCalls 0 calls).2).getLast? = some true} =
      {code | ∃ btn ∈ buttonMap, btn.2 = code ∧ (runCalls 0 calls).1 &&& btn.1 ≠ 0} ∧
    {code | (sentFor code (runCalls 0 (calls ++ [.release])).2).getLast? = some true} = ∅ := by
  refine ⟨?_, ?_, ?_⟩
  · intro btn hbtn
    have halternates := (runCalls_switches hbtn 0 calls).alternates
    have hzero : isSet 0 btn = false := by simp [isSet]
    rwa [hzero] at halternates
  · ext code
    rw [Set.mem_ofPred_eq, getLast?_sentFor]
    simp [isSet]
  · ext code
    rw [Set.mem_ofPred_eq, getLast?_sentFor, runCalls_release]
    simp [isSet]

end Calls

end Android
end ACGlass
