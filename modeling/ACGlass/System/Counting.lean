import ACGlass.System.InputPath

/-!
# What the seat counts of what is sent

The touch points, the buttons and the keys of the seat are counted apart from each other, and
each of them by one kind of calls. What a listener sends carries the count from the fingers,
the buttons or the keys before its event to those after it.
-/

namespace ACGlass
namespace InputPath

open Android Anland

variable {φ : Type*}

section Play

variable {touchDevice output : Bool}

/-- The touch points after an event. -/
def touchPoints (touchDevice output : Bool) (n : UInt32) : InputEvent → UInt32
  | .touch action _ =>
    if !touchDevice || !output then n
    else if action = actionDown then n + 1
    else if action = actionUp then if n = 0 then n else n - 1
    else n
  | _ => n

/-- The buttons after an event. -/
def buttonsDown (n : UInt32) : InputEvent → UInt32
  | .pointerButton _ pressed => if pressed ≠ 0 then n + 1 else n - 1
  | _ => n

/-- The keys after an event. -/
def keysDown (keys : List UInt32) : InputEvent → List UInt32
  | .key action keycode => (Seat.handleKey ⟨0, 0, keys⟩ action keycode).keys
  | _ => keys

theorem processInputEvent_eq (seat : Seat) (event : InputEvent) :
    seat.processInputEvent touchDevice output event =
      ⟨touchPoints touchDevice output seat.numTp event, buttonsDown seat.buttonCount event,
        keysDown seat.keys event⟩ := by
  cases event with
  | touch action pointerId =>
    unfold Seat.processInputEvent Seat.handleTouch Seat.notifyTouchDown Seat.notifyTouchUp
      touchPoints
    dsimp only
    split_ifs <;> rfl
  | key action keycode =>
    unfold Seat.processInputEvent keysDown Seat.handleKey Seat.notifyKey touchPoints buttonsDown
    dsimp only
    split_ifs <;> rfl
  | pointerButton button pressed =>
    unfold Seat.processInputEvent Seat.handlePointerButton Seat.notifyButton buttonsDown
    by_cases h : pressed = 0
    · simp [h, touchPoints, keysDown]
    · simp [h, touchPoints, keysDown]
  | pointerMotion => rfl
  | pointerAxis axis discrete => rfl
  | touchFrame => rfl
  | unknown type => rfl

theorem play_eq (seat : Seat) (events : List InputEvent) :
    play touchDevice output seat events =
      ⟨events.foldl (touchPoints touchDevice output) seat.numTp,
        events.foldl buttonsDown seat.buttonCount, events.foldl keysDown seat.keys⟩ := by
  induction events generalizing seat with
  | nil => rfl
  | cons event events ih =>
    rw [play, List.foldl_cons, ← play, ih, processInputEvent_eq]
    rfl

/-- Events that do not change a count. -/
theorem foldl_of_still {α : Type*} {f : α → InputEvent → α} {events : List InputEvent}
    (h : ∀ event ∈ events, ∀ a, f a event = a) (a : α) : events.foldl f a = a := by
  induction events with
  | nil => rfl
  | cons event events ih =>
    rw [List.foldl_cons, h event (by simp)]
    exact ih fun event hevent => h event (List.mem_cons_of_mem _ hevent)

end Play

section Kinds

inductive Kind
  | touch
  | mouse
  | key
  deriving DecidableEq

def kind : Sent φ → Kind
  | .touch _ _ _ _ | .touchFrame => .touch
  | .key _ _ => .key
  | .mouse _ | .mouseScroll _ _ => .mouse

variable {touchDevice output : Bool} {sent : List (Sent φ)} {k : Kind}

variable (touchDevice output) in
theorem touchPoints_still (hk : k ≠ .touch) (h : ∀ m ∈ sent, kind m = k) (n : UInt32) :
    (sent.map Sent.event).foldl (touchPoints touchDevice output) n = n := by
  apply foldl_of_still
  intro event hevent n
  obtain ⟨m, hm, rfl⟩ := List.mem_map.mp hevent
  have hkind := h m hm
  cases m with
  | touch action x y id => exact absurd hkind.symm hk
  | touchFrame => exact absurd hkind.symm hk
  | key action code => rfl
  | mouse message => cases message <;> rfl
  | mouseScroll axis value => rfl

theorem buttonsDown_still (hk : k ≠ .mouse) (h : ∀ m ∈ sent, kind m = k) (n : UInt32) :
    (sent.map Sent.event).foldl buttonsDown n = n := by
  apply foldl_of_still
  intro event hevent n
  obtain ⟨m, hm, rfl⟩ := List.mem_map.mp hevent
  have hkind := h m hm
  cases m with
  | touch action x y id => rfl
  | touchFrame => rfl
  | key action code => rfl
  | mouse message => exact absurd hkind.symm hk
  | mouseScroll axis value => exact absurd hkind.symm hk

theorem keysDown_still (hk : k ≠ .key) (h : ∀ m ∈ sent, kind m = k) (keys : List UInt32) :
    (sent.map Sent.event).foldl keysDown keys = keys := by
  apply foldl_of_still
  intro event hevent n
  obtain ⟨m, hm, rfl⟩ := List.mem_map.mp hevent
  have hkind := h m hm
  cases m with
  | touch action x y id => rfl
  | touchFrame => rfl
  | key action code => exact absurd hkind.symm hk
  | mouse message => cases message <;> rfl
  | mouseScroll axis value => rfl

end Kinds

section Touches

variable {touchDevice output : Bool} {savedBS : BitVec 32} {e : PointerEvent φ}

variable (savedBS e) in
theorem kind_handleTouchEvent : ∀ m ∈ (handleTouchEvent savedBS e).2.1, kind m = .touch := by
  have hsend : ∀ action (p : Pointer φ), kind (p.send action) = .touch := fun _ _ => rfl
  intro m hm
  unfold handleTouchEvent at hm
  split at hm
  all_goals
    simp only [List.mem_append, List.mem_cons, List.mem_map, List.not_mem_nil, or_false] at hm
  any_goals
    rcases hm with rfl | rfl
    · exact hsend _ _
    · rfl
  any_goals
    rcases hm with ⟨p, -, rfl⟩ | rfl
    · exact hsend _ _
    · rfl

variable (touchDevice output) in
/-- Without a touch device or an output nothing is counted. -/
theorem touchPoints_off (hoff : (touchDevice && output) = false) (events : List InputEvent)
    (n : UInt32) : events.foldl (touchPoints touchDevice output) n = n := by
  apply foldl_of_still
  intro event _ n
  have hoff : (!touchDevice || !output) = true := by
    rw [← Bool.not_and, hoff]
    rfl
  cases event with
  | touch action id => exact if_pos hoff
  | key action code => rfl
  | pointerMotion => rfl
  | pointerButton button pressed => rfl
  | pointerAxis axis discrete => rfl
  | touchFrame => rfl
  | unknown type => rfl

theorem touchPoints_up (n : UInt32) (id : Int32) :
    (touchPoints true true n (.touch 1 id)).toNat = n.toNat - 1 := by
  have hup : touchPoints true true n (.touch 1 id) = if n = 0 then n else n - 1 := rfl
  rw [hup]
  split_ifs with h
  · simp [h]
  · have hpos : 1 ≤ n := by
      rw [UInt32.le_iff_toNat_le]
      have := UInt32.toNat_inj.not.mpr h
      simp at this ⊢
      omega
    rw [UInt32.toNat_sub_of_le n 1 hpos]
    rfl

/-- Every pointer of a cancelled stream goes up. -/
theorem touchPoints_cancel (n : UInt32) (ps : List (Pointer φ)) :
    ((ps.map (Sent.event ∘ Pointer.send 1)).foldl (touchPoints true true) n).toNat =
      n.toNat - ps.length := by
  induction ps generalizing n with
  | nil => simp
  | cons p ps ih =>
    rw [List.map_cons, List.foldl_cons, ih]
    have hup := touchPoints_up n p.id
    rw [show (Sent.event ∘ Pointer.send 1) p = .touch 1 p.id from rfl, hup, List.length_cons]
    omega

theorem touchPoints_move (n : UInt32) (ps : List (Pointer φ)) :
    (ps.map (Sent.event ∘ Pointer.send 2)).foldl (touchPoints true true) n = n := by
  apply foldl_of_still
  intro event hevent n
  obtain ⟨p, -, rfl⟩ := List.mem_map.mp hevent
  rfl

theorem length_ids (e : PointerEvent φ) : (ids e).length = (others e).length + 1 := by
  simp [ids, others, PointerEvent.pointers]
  omega

/-- How a stream of touches goes on, by what it sends. -/
inductive Goes : PointerAction → ℕ → ℕ → ℕ → Prop
  | down {action : PointerAction} {k m : ℕ} (h : action = .down ∨ action = .pointerDown)
    (hk : k < maxPointers) : Goes action m k (k + 1)
  | up {action : PointerAction} {k m : ℕ} (h : action = .up ∨ action = .pointerUp) :
    Goes action m (k + 1) k
  | same {action : PointerAction} {k m : ℕ} (h : action = .move ∨ action = .other) :
    Goes action m k k
  | cancel {m : ℕ} : Goes .cancel m m 0

theorem Goes.bounded {action : PointerAction} {m k k' : ℕ} (h : Goes action m k k')
    (hk : k ≤ maxPointers) : k' ≤ maxPointers := by
  cases h with
  | down _ hlt => exact hlt
  | up _ => omega
  | same _ => exact hk
  | cancel => exact Nat.zero_le _

theorem follow_goes {stream stream' : Option Touching} (h : follow stream e = some stream')
    (he : touches e = true) :
    Goes e.action e.pointers.length (fingers stream) (fingers stream') := by
  have hpointers : e.pointers.length = (ids e).length := by simp [ids]
  rw [hpointers]
  cases stream with
  | none =>
    obtain ⟨⟨haction, hothers⟩, heq⟩ := Option.ite_none_right_eq_some.mp h
    obtain rfl := Option.some.inj heq
    have hlength : (ids e).length = 1 := by rw [length_ids, hothers, List.length_nil]
    simp only [fingers, he, if_true, hlength]
    exact .down (.inl haction) (by decide)
  | some t =>
    obtain ⟨touched, old⟩ := t
    rw [follow] at h
    dsimp only at h
    have ht : touches e = touched := by
      by_contra hne
      simp [hne] at h
    obtain rfl : touched = true := ht ▸ he
    rw [if_neg (by simp [he])] at h
    cases haction : e.action with
    | move | other =>
      simp only [haction, Option.ite_none_right_eq_some] at h
      obtain ⟨-, heq⟩ := h
      obtain rfl := Option.some.inj heq
      exact .same (by simp)
    | pointerDown =>
      simp only [haction, Option.ite_none_right_eq_some] at h
      obtain ⟨⟨hothers, hlt⟩, heq⟩ := h
      obtain rfl := Option.some.inj heq
      simp only [fingers, if_true, length_ids, hothers]
      exact .down (.inr rfl) hlt
    | pointerUp =>
      simp only [haction, Option.ite_none_right_eq_some] at h
      obtain ⟨⟨hids, -⟩, heq⟩ := h
      obtain rfl := Option.some.inj heq
      simp only [fingers, if_true, ← hids, length_ids]
      exact .up (.inr rfl)
    | up =>
      simp only [haction, Option.ite_none_right_eq_some] at h
      obtain ⟨⟨hids, hothers⟩, heq⟩ := h
      obtain rfl := Option.some.inj heq
      simp only [fingers, if_true, ← hids, length_ids, hothers, List.length_nil]
      exact .up (.inl rfl)
    | cancel =>
      simp only [haction, Option.ite_none_right_eq_some] at h
      obtain ⟨hids, heq⟩ := h
      obtain rfl := Option.some.inj heq
      simp only [fingers, if_true, ← hids]
      exact .cancel
    | down | hoverMove | hoverEnter | hoverExit | scroll => simp [haction] at h

/-- The touch points follow the fingers. -/
theorem handleTouchEvent_fingers {k k' : ℕ} (h : Goes e.action e.pointers.length k k')
    {n n' : UInt32} (hn : n' = ((handleTouchEvent savedBS e).2.1.map Sent.event).foldl
      (touchPoints true true) n) : (n.toNat ≤ k → n'.toNat ≤ k') ∧
    (n.toNat = k → k ≤ maxPointers → n'.toNat = k') := by
  generalize haction : e.action = action at h
  generalize hm : e.pointers.length = m at h
  have hdown : (n + 1).toNat = (n.toNat + 1) % 2 ^ 32 := by simp
  unfold maxPointers at *
  cases h with
  | down h hk =>
    have heq : n' = n + 1 := by
      rw [hn, handleTouchEvent]
      rcases h with rfl | rfl <;> rw [haction] <;> rfl
    unfold maxPointers at hk
    rw [heq, hdown]
    omega
  | up h =>
    have heq : n'.toNat = n.toNat - 1 := by
      rw [hn, handleTouchEvent, ← touchPoints_up n e.acting.id]
      rcases h with rfl | rfl <;> rw [haction] <;> rfl
    omega
  | same h =>
    have heq : n' = n := by
      rw [hn, handleTouchEvent]
      rcases h with rfl | rfl
      · rw [haction]
        simp only [List.map_append, List.map_map, List.foldl_append, touchPoints_move]
        rfl
      · rw [haction]
        rfl
    rw [heq]
    exact ⟨id, fun hsame _ => hsame⟩
  | cancel =>
    have heq : n'.toNat = n.toNat - k := by
      rw [hn, handleTouchEvent, haction, ← hm, ← touchPoints_cancel n e.pointers]
      simp only [List.map_append, List.map_map, List.foldl_append]
      rfl
    omega

/-- A stream that is not handled as touches has no fingers. -/
theorem follow_untouched {stream stream' : Option Touching} (h : follow stream e = some stream')
    (he : touches e = false) : fingers stream = 0 ∧ fingers stream' = 0 := by
  cases stream with
  | none =>
    obtain ⟨-, heq⟩ := Option.ite_none_right_eq_some.mp h
    obtain rfl := Option.some.inj heq
    simp [fingers, he]
  | some t =>
    obtain ⟨touched, old⟩ := t
    rw [follow] at h
    dsimp only at h
    have ht : touches e = touched := by
      by_contra hne
      simp [hne] at h
    obtain rfl : touched = false := ht ▸ he
    rw [if_neg (by simp [he])] at h
    refine ⟨rfl, ?_⟩
    split at h
    all_goals
      simp only [Option.ite_none_right_eq_some, reduceCtorEq] at h
    all_goals
      obtain ⟨-, heq⟩ := h
      obtain rfl := Option.some.inj heq
      rfl

end Touches

section Buttons

theorem kind_mouse (messages : List (MouseMessage φ)) :
    ∀ m ∈ messages.map Sent.mouse, kind m = .mouse := by
  intro m hm
  obtain ⟨message, -, rfl⟩ := List.mem_map.mp hm
  rfl

/-- The pressed buttons that the map has. -/
def pressedButtons (savedBS : BitVec 32) : ℕ := buttonMap.countP (isSet savedBS)

theorem buttonsDown_loop (old new : BitVec 32) (buttons : List (BitVec 32 × ℕ)) (n : UInt32) :
    ((loopMessages (fun btn => change (isSet old btn) (isSet new btn)) buttons :
        List (MouseMessage φ)).map (Sent.event ∘ Sent.mouse)).foldl buttonsDown
      (n + .ofNat (buttons.countP (isSet old))) = n + .ofNat (buttons.countP (isSet new)) := by
  induction buttons generalizing n with
  | nil => rfl
  | cons btn buttons ih =>
    have hcons : ∀ message : BitVec 32 × ℕ → Option Bool,
        (loopMessages message (btn :: buttons) : List (MouseMessage φ)) =
          ((message btn).map (.button btn.2)).toList ++ loopMessages message buttons := by
      intro message
      rw [loopMessages, List.filterMap_cons]
      cases message btn <;> rfl
    have hsum : ∀ k : ℕ, n + .ofNat (k + 1) = n + 1 + .ofNat k := by
      intro k
      rw [UInt32.ofNat_add, UInt32.add_comm (UInt32.ofNat k), ← UInt32.add_assoc]
      rfl
    rw [hcons, List.map_append, List.foldl_append, List.countP_cons, List.countP_cons]
    cases hold : isSet old btn <;> cases hnew : isSet new btn
    · exact ih n
    · have hpress : ∀ k : UInt32, ((Option.map (MouseMessage.button btn.2)
          (change false true)).toList.map (Sent.event ∘ Sent.mouse (φ := φ))).foldl
            buttonsDown k = k + 1 := fun _ => rfl
      rw [hpress]
      simp only [if_true, hsum, Bool.false_eq_true, if_false, Nat.add_zero]
      rw [← ih (n + 1)]
      congr 1
      grind
    · have hrelease : ∀ k : UInt32, ((Option.map (MouseMessage.button btn.2)
          (change true false)).toList.map (Sent.event ∘ Sent.mouse (φ := φ))).foldl
            buttonsDown k = k - 1 := fun _ => rfl
      rw [hrelease]
      simp only [if_true, hsum, Bool.false_eq_true, if_false, Nat.add_zero]
      rw [← ih n]
      congr 1
      grind
    · simp only [if_true, hsum]
      exact ih (n + 1)

/-- The messages about a change of the state carry the count along. -/
theorem buttonsDown_changes (old new : BitVec 32) :
    ((changes old new : List (MouseMessage φ)).map (Sent.event ∘ Sent.mouse)).foldl buttonsDown
      (.ofNat (pressedButtons old)) = .ofNat (pressedButtons new) := by
  have hloop := buttonsDown_loop (φ := φ) old new buttonMap 0
  rwa [UInt32.zero_add, UInt32.zero_add] at hloop

/-- What a listener that knows the buttons sends: the count of the seat stays that of
`savedBS`. -/
structure Carries (savedBS : BitVec 32) (r : Handled φ) : Prop where
  kind : ∀ m ∈ r.2.1, kind m = .mouse
  buttons : (r.2.1.map Sent.event).foldl buttonsDown (.ofNat (pressedButtons savedBS)) =
    .ofNat (pressedButtons r.1)

variable {savedBS : BitVec 32}

theorem carries_nil (savedBS : BitVec 32) (consumed : Bool) :
    Carries savedBS (savedBS, ([] : List (Sent φ)), consumed) := ⟨by simp, rfl⟩

theorem carries_motion (savedBS : BitVec 32) (x y dx dy : φ) (consumed : Bool) :
    Carries savedBS (savedBS, [.mouse (.motion x y dx dy)], consumed) := by
  refine ⟨?_, rfl⟩
  intro m hm
  rw [List.mem_singleton.mp hm]
  rfl

theorem carries_changes (old new : BitVec 32) (consumed : Bool) :
    Carries old (new, (changes old new : List (MouseMessage φ)).map .mouse, consumed) := by
  refine ⟨kind_mouse _, ?_⟩
  rw [List.map_map]
  exact buttonsDown_changes old new

theorem carries_release (savedBS : BitVec 32) (consumed : Bool) :
    Carries savedBS ((releaseSavedMouseButtons savedBS : BitVec 32 × List (MouseMessage φ)).1,
      (releaseSavedMouseButtons savedBS : BitVec 32 × List (MouseMessage φ)).2.map .mouse,
      consumed) := by
  rw [releaseSavedMouseButtons_eq]
  exact carries_changes savedBS 0 consumed

theorem carries_mouseEvent [Zero φ] [Sub φ] (savedBS : BitVec 32) (event : MotionEvent φ)
    (consumed : Bool) : Carries savedBS ((handleMouseEvent savedBS event).1,
      (handleMouseEvent savedBS event).2.map .mouse, consumed) := by
  obtain ⟨x, y, dx, dy, heq⟩ := handleMouseEvent_changes savedBS event
  have hchanges := carries_changes (φ := φ) savedBS event.buttonState consumed
  rw [heq]
  exact ⟨kind_mouse _, hchanges.buttons⟩

theorem carries_scrolls [Zero φ] [DecidableEq φ] (savedBS : BitVec 32) (v h a b : φ)
    (consumed : Bool) : Carries savedBS (savedBS, scrolls v h a b, consumed) := by
  have hscroll : ∀ m ∈ scrolls v h a b, ∃ axis value, m = .mouseScroll axis value := by
    intro m hm
    rcases List.mem_append.mp hm with hm | hm
    · split at hm
      · exact ⟨0, a, List.mem_singleton.mp hm⟩
      · simp at hm
    · split at hm
      · exact ⟨1, b, List.mem_singleton.mp hm⟩
      · simp at hm
  constructor
  · intro m hm
    obtain ⟨axis, value, rfl⟩ := hscroll m hm
    rfl
  · apply foldl_of_still
    intro event hevent n
    obtain ⟨m, hm, rfl⟩ := List.mem_map.mp hevent
    obtain ⟨axis, value, rfl⟩ := hscroll m hm
    rfl

end Buttons

section Pointers

variable [Zero φ] [Sub φ] [Neg φ] [DecidableEq φ]
variable {savedBS : BitVec 32} {e : PointerEvent φ}

theorem handleDisplayTouchEvent_touches (he : touches e = true) :
    handleDisplayTouchEvent savedBS e = handleTouchEvent savedBS e := by
  unfold touches at he
  unfold handleDisplayTouchEvent
  cases hmouse : e.isMouseEvent with
  | false => rfl
  | true =>
    have hcls : e.classification = multiFingerSwipe ∨ e.classification = pinch := by
      simpa [hmouse] using he
    have hswipe : e.classification ≠ twoFingerSwipe := by
      rcases hcls with hcls | hcls <;> rw [hcls] <;> decide
    rw [if_pos rfl, if_neg hswipe, if_pos hcls]

variable (savedBS) in
theorem handleDisplayTouchEvent_carries (he : touches e = false) :
    Carries savedBS (handleDisplayTouchEvent savedBS e) := by
  unfold touches at he
  unfold handleDisplayTouchEvent
  have hmouse : e.isMouseEvent = true := by
    by_contra hmouse
    simp [hmouse] at he
  rw [if_pos hmouse]
  split_ifs with hswipe hcls
  · unfold handleTouchpadScroll
    dsimp only
    split
    · exact carries_scrolls _ _ _ _ _ _
    · exact carries_nil _ _
  · rcases hcls with hcls | hcls <;> simp [hcls] at he
  · exact carries_mouseEvent savedBS e.motion true

variable [Mul φ] [OfNat φ 10] [LT φ] [LE φ] [DecidableLT φ] [DecidableLE φ]

omit [Sub φ] in
theorem handleDisplayGenericMotionEvent_carries (surface : Surface φ) (x y : φ) :
    Carries savedBS (handleDisplayGenericMotionEvent savedBS e surface x y) := by
  unfold handleDisplayGenericMotionEvent handleOutside
  dsimp only
  split_ifs
  · exact carries_release _ _
  · split
    · exact carries_motion _ _ _ _ _ _
    · exact carries_release _ _
    · exact carries_scrolls _ _ _ _ _ _
    · exact carries_nil _ _
  · exact carries_nil _ _

theorem handleRootGenericMotionEvent_carries (surface : Surface φ) :
    Carries savedBS (handleRootGenericMotionEvent savedBS e surface) := by
  unfold handleRootGenericMotionEvent
  dsimp only
  split_ifs
  · exact carries_nil _ _
  · exact carries_release _ _
  · exact handleDisplayGenericMotionEvent_carries surface _ _

end Pointers

section Keys

/-- What is down on the keyboard is down on the seat. The back key of the overlay never comes
up. -/
structure MirrorsKeys (setup : Setup) (s : State) (keys : List UInt32) : Prop where
  nodup : keys.Nodup
  held : ∀ code ≠ 0, setup.isBack code = false → (code.toUInt32 ∈ keys ↔ code ∈ s.held)
  back : ∀ code ≠ 0, setup.isBack code = true →
    (code.toUInt32 ∈ keys ↔ setup.view = .overlay ∧ code ∈ s.backs)

variable {setup : Setup} {s : State} {keys : List UInt32}

theorem keysDown_key (hkeys : keys.Nodup) (action code : Int32) :
    (keysDown keys (.key action code)).Nodup ∧ ∀ code', code'.toUInt32 ∈
      keysDown keys (.key action code) ↔
        if code' = code then action = actionDown else code'.toUInt32 ∈ keys := by
  have hseat : (⟨0, 0, keys⟩ : Seat).keys.Nodup := hkeys
  obtain ⟨hnodup, hmem⟩ := Played.notifyKey_keys hseat code.toUInt32 (action = actionDown)
  refine ⟨hnodup, fun code' => ?_⟩
  have hcode : code'.toUInt32 = code.toUInt32 ↔ code' = code := by
    constructor
    · intro h
      rw [← Int32.toInt32_toUInt32 code', h, Int32.toInt32_toUInt32]
    · rintro rfl
      rfl
  rw [keysDown, Seat.handleKey, hmem]
  simp [hcode]

/-- The key events that are sent on. -/
def Passes (view : View) (e : KeyEvent) : Prop :=
  e.action ≠ .other ∧ e.scanCode ≠ 0 ∧ (e.action = .down → e.repeatCount = 0) ∧
    (e.keyCode = keycodeBack → view = .overlay ∧ e.action = .down)

instance (view : View) (e : KeyEvent) : Decidable (Passes view e) :=
  inferInstanceAs (Decidable (_ ∧ _ ∧ (_ → _) ∧ (_ → _ ∧ _)))

theorem handleKey_eq (view : View) (e : KeyEvent) : view.handleKey φ e =
    if Passes view e then [.key (if e.action = .down then 0 else 1) e.scanCode] else [] := by
  obtain ⟨action, keyCode, repeatCount, scanCode⟩ := e
  cases action with
  | down =>
    cases view with
    | activity =>
      by_cases hback : keyCode = keycodeBack <;> by_cases hrepeat : repeatCount = 0 <;>
        simp [View.handleKey, onKeyDown, Passes, hback, hrepeat, Nat.pos_iff_ne_zero]
    | overlay =>
      by_cases hrepeat : repeatCount = 0 <;>
        simp [View.handleKey, handleOverlayKeyEvent, Passes, hrepeat, Nat.pos_iff_ne_zero]
  | up =>
    cases view with
    | activity =>
      by_cases hback : keyCode = keycodeBack <;>
        simp [View.handleKey, onKeyUp, Passes, hback]
    | overlay =>
      by_cases hback : keyCode = keycodeBack <;>
        simp [View.handleKey, handleOverlayKeyEvent, Passes, hback]
  | other => cases view <;> simp [View.handleKey, handleOverlayKeyEvent, Passes]

theorem kind_handleKey (view : View) (e : KeyEvent) :
    ∀ m ∈ view.handleKey φ e, kind m = .key := by
  intro m hm
  rw [handleKey_eq] at hm
  split at hm
  · rw [List.mem_singleton.mp hm]
    rfl
  · simp at hm

theorem followKey_held (setup : Setup) (s : State) (e : KeyEvent) (code : Int32) :
    code ∈ (s.followKey setup e).held ↔
      if code = e.scanCode ∧ e.action = .down ∧ e.repeatCount = 0 then True
      else if code = e.scanCode ∧ e.action = .up then False else code ∈ s.held := by
  obtain ⟨action, keyCode, repeatCount, scanCode⟩ := e
  by_cases hcode : code = scanCode <;> by_cases hrepeat : repeatCount = 0 <;> cases action <;>
    simp [State.followKey, hcode, hrepeat, Nat.pos_iff_ne_zero]

theorem followKey_backs (setup : Setup) (s : State) (e : KeyEvent) (code : Int32)
    (hcode : setup.isBack code = true) : code ∈ (s.followKey setup e).backs ↔
      if code = e.scanCode ∧ e.action = .down ∧ e.repeatCount = 0 then True
      else code ∈ s.backs := by
  obtain ⟨action, keyCode, repeatCount, scanCode⟩ := e
  by_cases hscan : code = scanCode
  · subst hscan
    by_cases hrepeat : repeatCount = 0 <;> cases action <;>
      simp [State.followKey, hcode, hrepeat, Nat.pos_iff_ne_zero]
  · by_cases hback : setup.isBack scanCode <;> by_cases hrepeat : repeatCount = 0 <;>
      cases action <;> simp [State.followKey, hscan, hback, hrepeat, Nat.pos_iff_ne_zero]

theorem MirrorsKeys.key (h : MirrorsKeys setup s keys) {e : KeyEvent}
    (he : e.scanCode = 0 ∨ (e.keyCode = keycodeBack ↔ setup.isBack e.scanCode = true)) :
    MirrorsKeys setup (s.followKey setup e)
      (((setup.view.handleKey φ e).map Sent.event).foldl keysDown keys) := by
  rw [handleKey_eq]
  by_cases hpasses : Passes setup.view e
  · obtain ⟨hother, hscan, hrepeat, hback⟩ := id hpasses
    have he := he.resolve_left hscan
    rw [if_pos hpasses]
    obtain ⟨hnodup, hmem⟩ := keysDown_key h.nodup (if e.action = .down then 0 else 1) e.scanCode
    refine ⟨hnodup, ?_, ?_⟩
    · intro code hcode hnot
      refine (hmem code).trans ?_
      rw [followKey_held]
      by_cases hsame : code = e.scanCode
      · cases haction : e.action with
        | down => simp [hsame, hrepeat haction, actionDown]
        | up => simp [hsame, actionDown]
        | other => exact absurd haction hother
      · simp [hsame, h.held code hcode hnot]
    · intro code hcode hisBack
      refine (hmem code).trans ?_
      rw [followKey_backs _ _ _ _ hisBack]
      by_cases hsame : code = e.scanCode
      · obtain ⟨hview, haction⟩ := hback (he.mpr (hsame ▸ hisBack))
        simp [hsame, haction, hrepeat haction, hview, actionDown]
      · simp [hsame, h.back code hcode hisBack]
  · rw [if_neg hpasses]
    have hkept : ∀ code ≠ 0, code = e.scanCode → e.action ≠ .other →
        (e.action = .down → e.repeatCount = 0) → setup.isBack code = true ∧
          (setup.view = .overlay → e.action ≠ .down) := by
      rintro code hcode rfl haction hrepeat
      have he := he.resolve_left hcode
      by_contra hnot
      refine hpasses ⟨haction, hcode, hrepeat, ?_⟩
      intro hback
      simpa [he.mp hback] using hnot
    refine ⟨h.nodup, ?_, ?_⟩
    · intro code hcode hnot
      refine (h.held code hcode hnot).trans ?_
      rw [followKey_held]
      by_cases hsame : code = e.scanCode
      · have hkept := hkept code hcode hsame
        cases haction : e.action with
        | down =>
          have hrepeat : e.repeatCount ≠ 0 := by
            intro hrepeat
            have hback := hkept (by simp [haction]) (fun _ => hrepeat)
            simp [hnot] at hback
          simp [hrepeat]
        | up =>
          have hback := hkept (by simp [haction]) (by simp [haction])
          simp [hnot] at hback
        | other => simp
      · simp [hsame]
    · intro code hcode hisBack
      refine (h.back code hcode hisBack).trans ?_
      rw [followKey_backs _ _ _ _ hisBack]
      by_cases hsame : code = e.scanCode
      · have hkept := hkept code hcode hsame
        by_cases hdown : e.action = .down ∧ e.repeatCount = 0
        · have hkept := (hkept (by simp [hdown.1]) (fun _ => hdown.2)).2
          have hview : setup.view ≠ .overlay := fun hview => hkept hview hdown.1
          simp [hview]
        · simp [hdown]
      · simp [hsame]

end Keys

end InputPath
end ACGlass
