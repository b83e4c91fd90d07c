import ACGlass.Android.RootCommand
import ACGlass.Base64

/-!
# What comes out in the container

`shell_command.sh` decodes its argument and hands it to `bash -lc`. A command for a container
arrives as it was given, less its zeros and the line feeds at its end.
-/

namespace ACGlass
namespace Android

open Shell

/-- The digits of `encodeToString`. -/
def standard : Base64 Char where
  digit := digit
  value := fun c => if c ∈ alphabet then some (alphabet.idxOf c) else none
  pad := '='
  value_digit := by decide
  digit_ne_pad := by decide

theorem encodeToString_eq (bs : List UInt8) : encodeToString bs = standard.encode bs := by
  induction bs using encodeToString.induct with
  | case1 | case2 x | case3 x y => rfl
  | case4 x y z t ih => rw [encodeToString, Base64.encode, ih]; rfl

section Script

/-- `printf '%s' "$encoded" | base64 -d` -/
def base64d (encoded : Text) : Option (List UInt8) := standard.decode (encoded.filter (· ≠ '\n'))

/-- What `$( )` makes of an output. -/
def substituted (bs : List UInt8) : List UInt8 := (bs.filter (· ≠ 0)).rdropWhile (· = 10)

/-- The words of the `exec` of `shell_command.sh`, or none if it exits before. -/
def shellCommand : List Text → Option (List (List UInt8))
  | [] => none
  | encoded :: _ => (base64d encoded).map fun commandText =>
    [getBytes "/bin/bash".toList, getBytes "-lc".toList, substituted commandText]

/-- A text without the characters that do not come through `$( )`. -/
def withoutZeros (t : Text) : Text := t.filter (· ≠ '\x00')

def cleaned (t : Text) : Text := (withoutZeros t).rdropWhile (· = '\n')

end Script

section Bytes

theorem utf8EncodeChar_low {c : Char} (h : c.toNat < 128) :
    String.utf8EncodeChar c = [.ofNat c.toNat] := by
  have hv : c.val.toNat ≤ 0x7f := Nat.le_of_lt_succ h
  unfold String.utf8EncodeChar
  dsimp only
  rw [if_pos hv]
  rfl

theorem utf8EncodeChar_high {c : Char} (h : 128 ≤ c.toNat) :
    ∀ b ∈ String.utf8EncodeChar c, 128 ≤ b.toNat := by
  have hv : 128 ≤ c.val.toNat := h
  have hmax : c.val.toNat < 0x110000 := by
    rcases c.valid with h | h
    · exact h.trans (by decide)
    · exact h.2
  unfold String.utf8EncodeChar
  dsimp only
  split_ifs
  · omega
  all_goals
    intro b hb
    simp only [List.mem_cons, List.not_mem_nil, or_false] at hb
    rcases hb with rfl | rfl | rfl | rfl <;> simp only [UInt8.toNat_ofNat'] <;> omega

/-- A byte of the first half stands for the character with its number only. -/
theorem mem_utf8EncodeChar {c d : Char} (hd : d.toNat < 128)
    (h : .ofNat d.toNat ∈ String.utf8EncodeChar c) : c = d := by
  by_cases hc : c.toNat < 128
  · rw [utf8EncodeChar_low hc, List.mem_singleton] at h
    have hnat := congrArg UInt8.toNat h
    rw [UInt8.toNat_ofNat', UInt8.toNat_ofNat', Nat.mod_eq_of_lt (by omega),
      Nat.mod_eq_of_lt (by omega)] at hnat
    exact (Char.toNat_inj.mp hnat).symm
  · have hle := utf8EncodeChar_high (not_lt.mp hc) _ h
    rw [UInt8.toNat_ofNat', Nat.mod_eq_of_lt (by omega)] at hle
    omega

theorem getBytes_append (s t : Text) : getBytes (s ++ t) = getBytes s ++ getBytes t :=
  List.flatMap_append

theorem filter_getBytes (t : Text) : (getBytes t).filter (· ≠ 0) = getBytes (withoutZeros t) := by
  induction t with
  | nil => rfl
  | cons c t ih =>
    have hhead : (String.utf8EncodeChar c).filter (· ≠ 0) =
        if c = '\x00' then [] else String.utf8EncodeChar c := by
      split_ifs with hc
      · rw [hc]
        decide
      · rw [List.filter_eq_self]
        intro b hb
        refine decide_eq_true ?_
        rintro rfl
        exact hc (mem_utf8EncodeChar (d := '\x00') (by decide) hb)
    rw [getBytes, List.flatMap_cons, List.filter_append, ← getBytes, ih, hhead, withoutZeros]
    by_cases hc : c = '\x00'
    · simp [hc, withoutZeros]
    · simp [hc, withoutZeros, getBytes]

theorem rdropWhile_getBytes (t : Text) :
    (getBytes t).rdropWhile (· = 10) = getBytes (t.rdropWhile (· = '\n')) := by
  induction t using List.reverseRecOn with
  | nil => rfl
  | append_singleton t c ih =>
    rw [getBytes_append]
    by_cases hc : c = '\n'
    · have hbyte : getBytes ['\n'] = [10] := by decide
      rw [hc, hbyte, List.rdropWhile_concat_pos _ _ _ (by simp),
        List.rdropWhile_concat_pos _ _ _ (by simp), ih]
    · have hne : String.utf8EncodeChar c ≠ [] := String.utf8EncodeChar_ne_nil
      obtain ⟨front, last, hlast⟩ := (List.eq_nil_or_concat' _).resolve_left hne
      have hbytes : getBytes [c] = front ++ [last] := by
        rw [getBytes, List.flatMap_singleton, hlast]
      have hten : last ≠ 10 := by
        rintro rfl
        refine hc (mem_utf8EncodeChar (d := '\n') (by decide) ?_)
        rw [hlast]
        exact List.mem_append_right _ List.mem_cons_self
      rw [hbytes, ← List.append_assoc, List.rdropWhile_concat_neg _ _ _ (by simpa using hten),
        List.rdropWhile_concat_neg _ _ _ (by simpa using hc), getBytes_append, hbytes,
        List.append_assoc]

theorem substituted_getBytes (t : Text) : substituted (getBytes t) = getBytes (cleaned t) := by
  rw [substituted, filter_getBytes, rdropWhile_getBytes, cleaned]

end Bytes

/-- What is encoded comes out of `shell_command.sh`. -/
theorem shellCommand_encodeToString (command : Text) :
    shellCommand [encodeToString (getBytes command)] =
      some [getBytes "/bin/bash".toList, getBytes "-lc".toList, getBytes (cleaned command)] := by
  have hlines : (encodeToString (getBytes command)).filter (· ≠ '\n') =
      encodeToString (getBytes command) := by
    rw [List.filter_eq_self]
    intro c hc
    rw [encodeToString_eq] at hc
    refine decide_eq_true ?_
    rcases standard.mem_encode hc with rfl | ⟨n, hn, rfl⟩
    · decide
    · have hdigits : ∀ n < 64, standard.digit n ≠ '\n' := by decide
      exact hdigits n hn
  rw [shellCommand, base64d, hlines, encodeToString_eq, standard.decode_encode, Option.map_some,
    substituted_getBytes]

/-- The words that `su` runs end with the encoded command. -/
theorem runInContainer_encoded (sh : State) (droidspaces : Text) {container : Text}
    (h : container ≠ []) (user : Option Text) (command : Text) :
    ∃ line front, runInContainer droidspaces container user command = .ok line ∧
      run sh line = some ⟨[], front ++
        ["/opt/acglass/shell_command.sh".toList, encodeToString (getBytes command)]⟩ := by
  refine ⟨_, [droidspaces, "--name=".toList ++ container] ++
    (userArguments user).map Argument.word ++ ["run".toList, "/usr/bin/env".toList],
    runInContainer_eq droidspaces h user command, ?_⟩
  rw [run_arguments (wellFormed_arguments container user command)]
  simp [arguments, Argument.word]

/-- Through `su`, the container's runtime and `shell_command.sh` a command comes to a `bash` of
the container, whatever characters it and the names have. -/
theorem runInContainer_delivers (sh : State) (droidspaces : Text) {container : Text}
    (h : container ≠ []) (user : Option Text) (command : Text) :
    ∃ line front encoded, runInContainer droidspaces container user command = .ok line ∧
      run sh line = some ⟨[], front ++ ["/opt/acglass/shell_command.sh".toList, encoded]⟩ ∧
      shellCommand [encoded] =
        some [getBytes "/bin/bash".toList, getBytes "-lc".toList, getBytes (cleaned command)] := by
  obtain ⟨line, front, hline, hrun⟩ := runInContainer_encoded sh droidspaces h user command
  exact ⟨line, front, _, hline, hrun, shellCommand_encodeToString command⟩

/-- A command with quotes and with lines behind it. -/
theorem runInContainer_delivers_quoted :
    ∃ line front encoded,
      runInContainer "/data/ds".toList "a'b".toList none "echo \"$X\" 'y'\n\n".toList = .ok line ∧
      run ⟨fun _ => ['*'], fun _ => some ['/']⟩ line =
        some ⟨[], front ++ ["/opt/acglass/shell_command.sh".toList, encoded]⟩ ∧
      shellCommand [encoded] = some [getBytes "/bin/bash".toList, getBytes "-lc".toList,
        getBytes "echo \"$X\" 'y'".toList] := by
  have hname : "a'b".toList ≠ [] := by decide
  obtain ⟨line, front, encoded, hline, hrun, hcommand⟩ :=
    runInContainer_delivers ⟨fun _ => ['*'], fun _ => some ['/']⟩ "/data/ds".toList hname none
      "echo \"$X\" 'y'\n\n".toList
  exact ⟨line, front, encoded, hline, hrun, hcommand.trans (by decide +kernel)⟩

end Android
end ACGlass
