import Mathlib.Data.Nat.Digits.Defs
import RemoteInspector.Proofs.Text.Trimming
import RemoteInspector.Text.Digits
import RemoteInspector.Text.Utf8

/-!
Texts as bytes, and numbers as decimal digits. The encoding of a text is that of its characters one
after another, and a text is what its encoding decodes to. A reader that takes up digit after digit
comes from zero to the number that the digits denote. No digit is a blank.
-/

namespace RemoteInspector.Text

/-! ### Encodings -/

theorem utf8_ofList (cs : List Char) :
    utf8 (String.ofList cs) = cs.flatMap String.utf8EncodeChar := by
  simp [utf8, String.toUTF8, List.utf8Encode]

theorem utf8_eq_flatMap (s : String) : utf8 s = s.toList.flatMap String.utf8EncodeChar := by
  rw [← utf8_ofList, String.ofList_toList]

@[simp] theorem utf8_append (a b : String) : utf8 (a ++ b) = utf8 a ++ utf8 b := by
  simp [utf8_eq_flatMap]

@[simp] theorem utf8_push (s : String) (c : Char) :
    utf8 (s.push c) = utf8 s ++ String.utf8EncodeChar c := by
  simp [utf8_eq_flatMap]

@[simp] theorem utf8_empty : utf8 "" = [] := rfl

theorem length_utf8 (s : String) : (utf8 s).length = s.utf8ByteSize := by
  simp [utf8, String.toUTF8]

/-- A text is what its encoding decodes to. -/
@[simp] theorem decodeUtf8?_utf8 (s : String) : decodeUtf8? (utf8 s) = some s := by
  have hbytes : (⟨(utf8 s).toArray⟩ : ByteArray) = s.toByteArray := by
    simp [utf8, String.toUTF8]
  rw [decodeUtf8?, hbytes, String.fromUTF8?, dif_pos s.isValidUTF8]
  rfl

theorem decodeUtf8?_eq_some {bytes : Bytes} {s : String} :
    decodeUtf8? bytes = some s ↔ utf8 s = bytes := by
  constructor
  · intro h
    unfold decodeUtf8? String.fromUTF8? at h
    split at h
    · cases h
      rfl
    · cases h
  · rintro rfl
    exact decodeUtf8?_utf8 s

def byteOf (c : Char) : UInt8 := UInt8.ofNat c.toNat

theorem utf8EncodeChar_ascii {c : Char} (hc : c.toNat < 128) :
    String.utf8EncodeChar c = [byteOf c] := by
  have hle : c.val.toNat ≤ 127 := Nat.le_of_lt_succ hc
  unfold String.utf8EncodeChar
  rw [if_pos hle]
  rfl

theorem flatMap_ascii {cs : List Char} (hcs : ∀ c ∈ cs, c.toNat < 128) :
    cs.flatMap String.utf8EncodeChar = cs.map byteOf := by
  induction cs with
  | nil => rfl
  | cons c cs ih =>
      rw [List.flatMap_cons, utf8EncodeChar_ascii (hcs c List.mem_cons_self),
        ih fun d hd => hcs d (List.mem_cons_of_mem c hd)]
      rfl

/-- Every byte of a longer encoding has its first bit set. -/
theorem utf8EncodeChar_long {c : Char} (hc : ¬c.toNat < 128) :
    ∀ b ∈ String.utf8EncodeChar c, 128 ≤ b.toNat := by
  have hone : ¬c.val.toNat ≤ 127 := by
    rw [Char.toNat] at hc
    omega
  have hge : ∀ n, 128 ≤ n → n < 256 → 128 ≤ (UInt8.ofNat n).toNat := by
    intro n hn hlt
    rw [UInt8.toNat_ofNat']
    omega
  intro b hb
  unfold String.utf8EncodeChar at hb
  simp only [hone, if_false] at hb
  split_ifs at hb <;> simp only [List.mem_cons, List.not_mem_nil, or_false] at hb
  · rcases hb with rfl | rfl <;> exact hge _ (by omega) (by omega)
  · rcases hb with rfl | rfl | rfl <;> exact hge _ (by omega) (by omega)
  · rcases hb with rfl | rfl | rfl | rfl <;> exact hge _ (by omega) (by omega)

theorem toNat_byteOf {c : Char} (hc : c.toNat < 128) : (byteOf c).toNat = c.toNat := by
  rw [byteOf, UInt8.toNat_ofNat']
  omega

/-- The byte of an ASCII character is in an encoding just if the character is in the text. -/
theorem byteOf_mem_utf8 {s : String} {c : Char} (hc : c.toNat < 128) :
    byteOf c ∈ utf8 s ↔ c ∈ s.toList := by
  rw [utf8_eq_flatMap, List.mem_flatMap]
  constructor
  · rintro ⟨d, hd, hmem⟩
    by_cases hascii : d.toNat < 128
    · rw [utf8EncodeChar_ascii hascii, List.mem_singleton] at hmem
      have hval := congrArg UInt8.toNat hmem
      rw [toNat_byteOf hc, toNat_byteOf hascii] at hval
      rwa [Char.toNat_inj.1 hval]
    · have hlong := utf8EncodeChar_long hascii _ hmem
      rw [toNat_byteOf hc] at hlong
      omega
  · intro hmem
    exact ⟨c, hmem, by rw [utf8EncodeChar_ascii hc, List.mem_singleton]⟩

/-! ### Digits -/

theorem isDigit_bounds {c : Char} (hc : c.isDigit = true) : 48 ≤ c.toNat ∧ c.toNat ≤ 57 := by
  simp only [Char.isDigit, Bool.and_eq_true, decide_eq_true_eq] at hc
  exact hc

theorem toList_toString (n : Nat) : (toString n).toList = Nat.toDigits 10 n := by
  show (String.ofList (Nat.toDigits 10 n)).toList = _
  rw [String.toList_ofList]

theorem isDigit_toString {n : Nat} {c : Char} (hc : c ∈ (toString n).toList) :
    c.isDigit = true := by
  rw [toList_toString] at hc
  exact Nat.isDigit_of_mem_toDigits (by decide) (by decide) hc

theorem utf8_toString (n : Nat) : utf8 (toString n) = (Nat.toDigits 10 n).map byteOf := by
  rw [utf8_eq_flatMap, ← toList_toString]
  refine flatMap_ascii fun c hc => ?_
  have hbounds := isDigit_bounds (isDigit_toString hc)
  omega

/-- What takes up one digit after another comes from zero to the number. -/
theorem fold_toDigits {α β : Type} (read : Nat → List α → β) (letter : Char → α) (limit : Nat)
    (hstep : ∀ n d rest, d < 10 → n * 10 + d < limit →
      read n (letter (Nat.digitChar d) :: rest) = read (n * 10 + d) rest)
    (n : Nat) (rest : List α) (hn : n < limit) :
    read 0 ((Nat.toDigits 10 n).map letter ++ rest) = read n rest := by
  induction n using Nat.strongRecOn generalizing rest with
  | ind n ih =>
      rw [Nat.toDigits_eq_if (by decide)]
      split
      · next hlt =>
        have hfirst := hstep 0 n rest hlt (by omega)
        simpa using hfirst
      · next hge =>
        have hlast := hstep (n / 10) (n % 10) rest (Nat.mod_lt n (by decide)) (by omega)
        have hinit := ih (n / 10) (by omega) (letter (Nat.digitChar (n % 10)) :: rest) (by omega)
        simp only [List.map_append, List.map_cons, List.map_nil, List.append_assoc,
          List.singleton_append]
        rw [hinit, hlast]
        congr 1
        omega

theorem toDigits_ne_nil (n : Nat) : Nat.toDigits 10 n ≠ [] := by
  rw [Nat.toDigits_eq_if (by decide)]
  split <;> simp

theorem digit?_digitChar {d : Nat} (hd : d < 10) : digit? (Nat.digitChar d) = some d := by
  match d, hd with
  | 0, _ | 1, _ | 2, _ | 3, _ | 4, _ | 5, _ | 6, _ | 7, _ | 8, _ | 9, _ => rfl

theorem readDigits_toDigits {limit : Nat} (beyond : DigitsFault) {n : Nat} (hn : n < limit) :
    readDigits limit beyond 0 (Nat.toDigits 10 n) = .ok n := by
  have hread := fold_toDigits (readDigits limit beyond) id limit (fun m d rest hd hlt => by
    simp [readDigits, digit?_digitChar hd, hlt]) n [] hn
  simpa [readDigits] using hread

/-- The decimal text of a number in range is read as the number. -/
theorem readUnsigned_toString {limit n : Nat} (hn : n < limit) :
    readUnsigned limit (toString n) = .ok n := by
  have hplus : ∀ cs, (toString n).toList ≠ '+' :: cs := by
    intro cs heq
    have hdigit : '+'.isDigit = true :=
      isDigit_toString (n := n) (by rw [heq]; exact List.mem_cons_self)
    exact absurd hdigit (by decide)
  have hempty : (toString n).toList ≠ [] := by
    rw [toList_toString]
    exact toDigits_ne_nil n
  have hread : readDigits limit .tooLarge 0 (toString n).toList = .ok n := by
    rw [toList_toString]
    exact readDigits_toDigits .tooLarge hn
  unfold readUnsigned
  split
  · next heq => exact (hempty heq).elim
  · next heq => exact (hplus [] heq).elim
  · next cs _ heq => exact (hplus cs heq).elim
  · exact hread

theorem isBlank_digit {c : Char} (hc : c.isDigit = true) : isBlank c = false := by
  have hbounds := isDigit_bounds hc
  simp only [isBlank, Bool.or_eq_false_iff, Bool.and_eq_false_iff, decide_eq_false_iff_not,
    beq_eq_false_iff_ne]
  omega

end RemoteInspector.Text
