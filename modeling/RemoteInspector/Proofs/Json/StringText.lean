import RemoteInspector.Json.Printer
import RemoteInspector.Json.StringText
import RemoteInspector.Proofs.Text.Encoding

/-!
Strings read back as they were written. Each character is written as an escape or as its own bytes;
either way the reader takes up the bytes of the character, one round for an escape and one for each
plain byte.
-/

namespace RemoteInspector.Json

open Text

/-! ### What is written -/

def writtenChar (c : Char) : Bytes := ((escape? c).map utf8).getD (String.utf8EncodeChar c)

def writtenRest (s : String) : Bytes := s.toList.flatMap writtenChar ++ [34]

theorem utf8_writeChar (out : String) (c : Char) :
    utf8 (writeChar out c) = utf8 out ++ writtenChar c := by
  unfold writeChar writtenChar
  split
  · next e he => simp [he]
  · next he => simp [he]

theorem utf8_writeString (out s : String) :
    utf8 (writeString out s) = utf8 out ++ 34 :: writtenRest s := by
  have hchars : ∀ (cs : List Char) (start : String),
      utf8 (cs.foldl writeChar start) = utf8 start ++ cs.flatMap writtenChar := by
    intro cs
    induction cs with
    | nil => simp
    | cons c cs ih =>
        intro start
        rw [List.foldl_cons, ih, utf8_writeChar, List.flatMap_cons, List.append_assoc]
  have hquote : String.utf8EncodeChar '"' = [34] := rfl
  rw [writeString, utf8_push, hchars, utf8_push, hquote, writtenRest]
  simp

/-! ### Plain bytes -/

def IsPlain (b : UInt8) : Prop := b ≠ 34 ∧ b ≠ 92 ∧ ¬b < 32

theorem isPlain_of_ge {b : UInt8} (hb : 128 ≤ b.toNat) : IsPlain b := by
  refine ⟨?_, ?_, fun hlt => ?_⟩
  · rintro rfl
    exact absurd hb (by decide)
  · rintro rfl
    exact absurd hb (by decide)
  · rw [UInt8.lt_iff_toNat_lt] at hlt
    exact absurd (Nat.lt_of_le_of_lt hb hlt) (by decide)

/-- What is not escaped is encoded by plain bytes. -/
theorem isPlain_of_not_escaped {c : Char} (hc : escape? c = none) :
    ∀ b ∈ String.utf8EncodeChar c, IsPlain b := by
  have hquote : c ≠ '"' := by
    rintro rfl
    cases hc
  have hslash : c ≠ '\\' := by
    rintro rfl
    cases hc
  have hcontrol : ¬c.toNat < 32 := by
    intro hlt
    unfold escape? at hc
    split_ifs at hc
  intro b hb
  by_cases hascii : c.toNat < 128
  · rw [utf8EncodeChar_ascii hascii, List.mem_singleton] at hb
    have hval : b.toNat = c.toNat := by rw [hb, toNat_byteOf hascii]
    have hchar : ∀ d : Char, b.toNat = d.toNat → c = d := by
      intro d hd
      rw [← c.ofNat_toNat, ← hval, hd, d.ofNat_toNat]
    refine ⟨?_, ?_, ?_⟩
    · rintro rfl
      exact hquote (hchar '"' rfl)
    · rintro rfl
      exact hslash (hchar '\\' rfl)
    · intro hlt
      rw [UInt8.lt_iff_toNat_lt, hval] at hlt
      exact hcontrol hlt
  · exact isPlain_of_ge (utf8EncodeChar_long hascii b hb)

theorem readContent_plain {bs : Bytes} (hbs : ∀ b ∈ bs, IsPlain b) (fuel : Nat) (seen r : Bytes) :
    readContent (fuel + bs.length) seen (bs ++ r) = readContent fuel (bs.reverse ++ seen) r := by
  induction bs generalizing seen with
  | nil => rfl
  | cons b bs ih =>
      obtain ⟨hquote, hslash, hcontrol⟩ := hbs b List.mem_cons_self
      have hrest := ih (fun a ha => hbs a (List.mem_cons_of_mem b ha)) (b :: seen)
      show readContent (fuel + bs.length + 1) seen (b :: (bs ++ r)) = _
      rw [readContent, if_neg hquote, if_neg hslash, if_neg hcontrol, hrest]
      simp

/-! ### Escapes -/

theorem hexOf?_hexDigit : ∀ d < 16, hexOf? (byteOf (hexDigit d)) = some d := by decide

theorem hexDigit_ascii : ∀ d < 16, (hexDigit d).toNat < 128 := by decide

theorem readNumberedChar_control {c : Char} (hc : c.toNat < 32) (r : Bytes) :
    readNumberedChar (48 :: 48 :: byteOf (hexDigit (c.toNat / 16)) ::
      byteOf (hexDigit (c.toNat % 16)) :: r) = .ok (c, r) := by
  have hhigh := hexOf?_hexDigit (c.toNat / 16) (by omega)
  have hlow := hexOf?_hexDigit (c.toNat % 16) (by omega)
  have hzero : hexOf? 48 = some 0 := rfl
  have hvalue : ((0 * 16 + 0) * 16 + c.toNat / 16) * 16 + c.toNat % 16 = c.toNat := by omega
  have hnotLow : isLowSurrogate c.toNat = false := by
    simp only [isLowSurrogate, decide_eq_false_iff_not]
    omega
  have hnotHigh : isHighSurrogate c.toNat = false := by
    simp only [isHighSurrogate, decide_eq_false_iff_not]
    omega
  have hhex : readHex4 (48 :: 48 :: byteOf (hexDigit (c.toNat / 16)) ::
      byteOf (hexDigit (c.toNat % 16)) :: r) = .ok (c.toNat, r) := by
    simp only [readHex4, hzero, hhigh, hlow, hvalue]
  rw [readNumberedChar, hhex]
  simp [bind, Except.bind, hnotLow, hnotHigh, Char.ofNat_toNat]

/-- An escape is a backslash and what reads as the character. -/
theorem readEscape_escape {c : Char} {e : String} (he : escape? c = some e) (r : Bytes) :
    ∃ bs, utf8 e = 92 :: bs ∧ readEscape (bs ++ r) = .ok (String.utf8EncodeChar c, r) := by
  unfold escape? at he
  split_ifs at he with h1 h2 h3 h4 h5 h6 h7 hcontrol
  · subst h1
    cases he
    exact ⟨[34], rfl, rfl⟩
  · subst h2
    cases he
    exact ⟨[92], rfl, rfl⟩
  · subst h3
    cases he
    exact ⟨[98], rfl, rfl⟩
  · subst h4
    cases he
    exact ⟨[102], rfl, rfl⟩
  · subst h5
    cases he
    exact ⟨[110], rfl, rfl⟩
  · subst h6
    cases he
    exact ⟨[114], rfl, rfl⟩
  · subst h7
    cases he
    exact ⟨[116], rfl, rfl⟩
  · cases he
    have hhigh := hexDigit_ascii (c.toNat / 16) (by omega)
    have hlow := hexDigit_ascii (c.toNat % 16) (by omega)
    refine ⟨117 :: 48 :: 48 :: byteOf (hexDigit (c.toNat / 16)) ::
      [byteOf (hexDigit (c.toNat % 16))], ?_, ?_⟩
    · rw [utf8_ofList, flatMap_ascii]
      · rfl
      · intro d hd
        simp only [List.mem_cons, List.not_mem_nil, or_false] at hd
        rcases hd with rfl | rfl | rfl | rfl | rfl | rfl
        · decide
        · decide
        · decide
        · decide
        · exact hhigh
        · exact hlow
    · have hread := readNumberedChar_control hcontrol r
      have hnone : shortEscape? 117 = none := rfl
      simp only [List.cons_append, List.nil_append, readEscape, hnone, hread, if_true]
      rfl

/-! ### Reading back -/

/-- One character is taken up, with enough rounds left for what follows it. -/
theorem readContent_char (c : Char) {fuel : Nat} (seen : Bytes) {r : Bytes}
    (hfuel : (writtenChar c ++ r).length < fuel) : ∃ fuel', r.length < fuel' ∧
      readContent fuel seen (writtenChar c ++ r) =
        readContent fuel' ((String.utf8EncodeChar c).reverse ++ seen) r := by
  rw [List.length_append] at hfuel
  cases he : escape? c with
  | none =>
      have hwritten : writtenChar c = String.utf8EncodeChar c := by simp [writtenChar, he]
      rw [hwritten] at hfuel ⊢
      obtain ⟨fuel', rfl⟩ := Nat.exists_eq_add_of_le' (Nat.le_of_lt (Nat.lt_of_le_of_lt
        (Nat.le_add_right _ _) hfuel))
      exact ⟨fuel', by omega, readContent_plain (isPlain_of_not_escaped he) fuel' seen r⟩
  | some e =>
      obtain ⟨bs, hbs, hread⟩ := readEscape_escape he r
      have hwritten : writtenChar c = 92 :: bs := by simp [writtenChar, he, hbs]
      rw [hwritten] at hfuel ⊢
      obtain ⟨fuel', rfl⟩ := Nat.exists_eq_succ_of_ne_zero (Nat.ne_zero_of_lt hfuel)
      refine ⟨fuel', ?_, ?_⟩
      · simp at hfuel
        omega
      · simp [readContent, hread]

theorem readContent_chars (cs : List Char) {fuel : Nat} (seen r : Bytes)
    (hfuel : (cs.flatMap writtenChar ++ 34 :: r).length < fuel) :
    readContent fuel seen (cs.flatMap writtenChar ++ 34 :: r) =
      .ok (seen.reverse ++ cs.flatMap String.utf8EncodeChar, r) := by
  induction cs generalizing fuel seen with
  | nil =>
      obtain ⟨fuel', rfl⟩ := Nat.exists_eq_succ_of_ne_zero (Nat.ne_zero_of_lt hfuel)
      simp [readContent]
  | cons c cs ih =>
      rw [List.flatMap_cons, List.append_assoc] at hfuel ⊢
      obtain ⟨fuel', hfuel', hfirst⟩ := readContent_char c seen hfuel
      rw [hfirst, ih _ hfuel']
      simp

/-- A string is read back, and what follows it is left. -/
theorem readStringBody_writtenRest (s : String) (r : Bytes) :
    readStringBody (writtenRest s ++ r) = .ok (s, r) := by
  have hrest : writtenRest s ++ r = s.toList.flatMap writtenChar ++ 34 :: r := by
    simp [writtenRest]
  rw [hrest, readStringBody, readContent_chars s.toList [] r (Nat.lt_succ_self _)]
  simp only [List.reverse_nil, List.nil_append, ← utf8_eq_flatMap, bind, Except.bind,
    decodeUtf8?_utf8]

end RemoteInspector.Json
