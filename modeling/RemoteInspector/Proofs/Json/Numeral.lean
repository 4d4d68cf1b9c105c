import RemoteInspector.Json.Numeral
import RemoteInspector.Proofs.Text.Encoding

/-!
Numbers read back as they were written. An integer is written by its digits, and these are read as the
integer as long as nothing follows that could be part of a number. How a real is read does not depend
on what follows either, so a real reads back inside of a text if it reads back by itself. And what is
read is always a real or an integer of 64 bits.
-/

namespace RemoteInspector.Json

open Text

/-- What may follow a number: nothing that would be part of it. -/
def EndsNumber (s : Bytes) : Prop :=
  ∀ b ∈ s.head?, digitOf? b = none ∧ b ≠ 46 ∧ b ≠ 101 ∧ b ≠ 69

namespace EndsNumber

variable {r : Bytes}

theorem nil : EndsNumber [] := nofun

theorem cons {b : UInt8} (hdigit : digitOf? b = none) (hpoint : b ≠ 46) (hsmall : b ≠ 101)
    (hcapital : b ≠ 69) (r : Bytes) : EndsNumber (b :: r) := by
  intro a ha
  cases ha
  exact ⟨hdigit, hpoint, hsmall, hcapital⟩

theorem isDigit {b : UInt8} (h : EndsNumber (b :: r)) : isDigit b = false := by
  rw [Json.isDigit, (h b rfl).1]
  rfl

theorem startsExponent (h : EndsNumber r) : startsExponent r = false := by
  cases r with
  | nil => rfl
  | cons b r =>
      obtain ⟨-, -, hsmall, hcapital⟩ := h b rfl
      simp [Json.startsExponent, hsmall, hcapital]

theorem skipDigits (h : EndsNumber r) : skipDigits r = r := by
  cases r with
  | nil => rfl
  | cons b r => rw [Json.skipDigits, List.dropWhile_cons_of_neg (by simp [h.isDigit])]

end EndsNumber

/-! ### Integers -/

def Number.InRange : Number → Prop
  | .integer n => -(int64Bound : Int) ≤ n ∧ n < UInt64.size
  | .real _ => True

theorem digitOf?_digitChar : ∀ d < 10, digitOf? (byteOf (Nat.digitChar d)) = some d := by decide

variable {r : Bytes} {negative : Bool}

theorem integerTail_whole {s : Bytes} (hs : ∀ r, s ≠ 46 :: r) (n : Nat) : integerTail negative n s =
    if startsExponent s then readExponent negative n 0 (s.drop 1)
    else if !negative then .ok (.integer n, s)
    else if 0 < n ∧ n ≤ int64Bound then .ok (.integer (-n), s)
    else .ok (.real (Binary64.ofUInt64 (UInt64.ofNat n)).negate, s) := by
  unfold integerTail
  split
  · exact (hs _ rfl).elim
  · rfl

theorem integerTail_ends (hr : EndsNumber r) (n : Nat) : integerTail negative n r =
    if !negative then .ok (.integer n, r)
    else if 0 < n ∧ n ≤ int64Bound then .ok (.integer (-n), r)
    else .ok (.real (Binary64.ofUInt64 (UInt64.ofNat n)).negate, r) := by
  have hpoint : ∀ t, r ≠ 46 :: t := by
    rintro t rfl
    exact (hr 46 rfl).2.1 rfl
  rw [integerTail_whole hpoint, hr.startsExponent]
  simp only [Bool.false_eq_true, if_false]

theorem integerDigits_ends (hr : EndsNumber r) (n : Nat) :
    integerDigits negative n r = integerTail negative n r := by
  cases r with
  | nil => rfl
  | cons b r => simp only [integerDigits, (hr b rfl).1]

/-- A positive number does not begin with the digit zero. -/
theorem toDigits_head {n : Nat} (hn : 0 < n) :
    ∃ d cs, d + 1 < 10 ∧ Nat.toDigits 10 n = Nat.digitChar (d + 1) :: cs := by
  induction n using Nat.strongRecOn with
  | ind n ih =>
      rw [Nat.toDigits_eq_if (by decide)]
      split
      · next hlt => exact ⟨n - 1, [], by omega, by rw [Nat.sub_add_cancel hn]⟩
      · next hge =>
        obtain ⟨d, cs, hlt, heq⟩ := ih (n / 10) (by omega) (by omega)
        exact ⟨d, cs ++ [Nat.digitChar (n % 10)], hlt, by rw [heq, List.cons_append]⟩

theorem readMagnitude_toDigits {n : Nat} (hn : n < UInt64.size) (hr : EndsNumber r) :
    readMagnitude negative ((Nat.toDigits 10 n).map byteOf ++ r) = integerTail negative n r := by
  rcases Nat.eq_zero_or_pos n with rfl | hpos
  · have hzero : digitOf? 48 = some 0 := rfl
    show readMagnitude negative (48 :: r) = _
    cases r with
    | nil => rfl
    | cons b r => simp only [readMagnitude, hzero, hr.isDigit, Bool.false_eq_true, if_false]
  · have hfold := fold_toDigits (integerDigits negative) byteOf UInt64.size
      (fun m d rest hd hlt => by simp only [integerDigits, digitOf?_digitChar d hd, hlt, if_true])
      n r hn
    rw [integerDigits_ends hr] at hfold
    rw [← hfold]
    obtain ⟨d, cs, hlt, heq⟩ := toDigits_head hpos
    have hsize : d + 1 < UInt64.size := Nat.lt_trans hlt (by decide)
    -- The first digit is read apart from the others, to the same effect.
    simp only [heq, List.map_cons, List.cons_append, integerDigits, readMagnitude,
      digitOf?_digitChar (d + 1) hlt, Nat.zero_mul, Nat.zero_add, hsize, if_true]

/-- An integer of 64 bits is read back, and what follows it is left. -/
theorem readNumber_integer {n : Int} (hn : (Number.integer n).InRange) (hr : EndsNumber r) :
    readNumber (utf8 (Number.integer n).text ++ r) = .ok (.integer n, r) := by
  obtain ⟨hlow, hhigh⟩ := hn
  cases n with
  | ofNat m =>
      have htext : utf8 (Number.integer (Int.ofNat m)).text = (Nat.toDigits 10 m).map byteOf :=
        utf8_toString m
      have hm : m < UInt64.size := Int.ofNat_lt.1 hhigh
      rw [htext]
      have hread : readMagnitude false ((Nat.toDigits 10 m).map byteOf ++ r) =
          .ok (.integer m, r) := by
        rw [readMagnitude_toDigits hm hr, integerTail_ends hr]
        rfl
      -- No number without a sign begins with the sign.
      unfold readNumber
      split
      · next rest heq =>
        have hnone : digitOf? 45 = none := rfl
        simp only [heq, readMagnitude, hnone, atHere, reduceCtorEq] at hread
      · exact hread
  | negSucc m =>
      have htext : utf8 (Number.integer (Int.negSucc m)).text ++ r =
          45 :: ((Nat.toDigits 10 (m + 1)).map byteOf ++ r) := by
        show utf8 ("-" ++ toString (m + 1)) ++ r = _
        rw [utf8_append, utf8_toString]
        rfl
      have hm : m + 1 ≤ int64Bound := by omega
      have hsize : m + 1 < UInt64.size := Nat.lt_of_le_of_lt hm (by decide)
      rw [htext, readNumber, readMagnitude_toDigits hsize hr, integerTail_ends hr]
      simp [hm]
      omega

/-! ### What follows a number -/

/-- How a number is read does not depend on what follows it. -/
def Extends (read : Reader Number) : Prop :=
  ∀ {s r : Bytes} {v : Number}, EndsNumber r → read s = .ok (v, []) → read (s ++ r) = .ok (v, r)

section

variable {significand : Nat}

theorem realOf_extends (exponent : Int) : Extends (realOf negative significand exponent) := by
  intro s r v hr h
  unfold realOf at h ⊢
  split at h
  · cases h
    rfl
  · cases h

theorem realOf_ends {exponent : Int} {s : Bytes} {v : Number}
    (h : realOf negative significand exponent s = .ok (v, [])) : s = [] := by
  unfold realOf at h
  split at h
  · cases h
    rfl
  · cases h

theorem skipDigits_append (hr : EndsNumber r) (s : Bytes) :
    skipDigits (s ++ r) = skipDigits s ++ r := by
  induction s with
  | nil => exact hr.skipDigits
  | cons b s ih =>
      cases hb : isDigit b with
      | true => simpa [skipDigits, hb] using ih
      | false => simp [skipDigits, hb]

theorem exponentDigits_ends (hr : EndsNumber r) (start : Int) (below : Bool) (e : Nat) :
    exponentDigits negative significand start below e r =
      realOf negative significand (if below then start - e else start + e) r := by
  cases r with
  | nil => rfl
  | cons b r => simp only [exponentDigits, (hr b rfl).1]

theorem exponentDigits_extends (start : Int) (below : Bool) (e : Nat) :
    Extends (exponentDigits negative significand start below e) := by
  intro s r v hr h
  induction s generalizing e with
  | nil =>
      rw [List.nil_append, exponentDigits_ends hr]
      exact realOf_extends _ hr h
  | cons b s ih =>
      rw [List.cons_append]
      unfold exponentDigits at h ⊢
      cases hb : digitOf? b with
      | none =>
          rw [hb] at h
          cases realOf_ends h
      | some d =>
          rw [hb] at h
          dsimp only at h ⊢
          split at h
          · next hlt =>
            rw [if_pos hlt]
            exact ih _ h
          · next hlt =>
            rw [if_neg hlt]
            split at h
            · cases h
            · next hfits =>
              rw [if_neg hfits]
              simp only [Except.ok.injEq, Prod.mk.injEq] at h
              rw [h.1, skipDigits_append hr, h.2, List.nil_append]

def unsignedExponent (negative : Bool) (significand : Nat) (start : Int) (below : Bool) :
    Reader Number
  | [] => atHere .unfinishedValue []
  | b :: r =>
    match digitOf? b with
    | some d => exponentDigits negative significand start below d r
    | none => atHere .badNumber r

theorem unsignedExponent_extends (start : Int) (below : Bool) :
    Extends (unsignedExponent negative significand start below) := by
  intro s r v hr h
  cases s with
  | nil => cases h
  | cons b s =>
      rw [List.cons_append]
      dsimp only [unsignedExponent] at h ⊢
      cases hb : digitOf? b with
      | none =>
          rw [hb] at h
          cases h
      | some d =>
          rw [hb] at h
          exact exponentDigits_extends start below d hr h

theorem readExponent_unsigned {b : UInt8} (hplus : b ≠ 43) (hminus : b ≠ 45) (start : Int)
    (s : Bytes) : readExponent negative significand start (b :: s) =
      unsignedExponent negative significand start false (b :: s) := by
  cases hb : digitOf? b <;> simp [readExponent, unsignedExponent, hplus, hminus, hb]

theorem readExponent_extends (start : Int) : Extends (readExponent negative significand start) := by
  intro s r v hr h
  cases s with
  | nil => cases h
  | cons b s =>
      by_cases hplus : b = 43
      · subst hplus
        exact unsignedExponent_extends start false hr h
      · by_cases hminus : b = 45
        · subst hminus
          exact unsignedExponent_extends start true hr h
        · rw [readExponent_unsigned hplus hminus] at h
          rw [List.cons_append, readExponent_unsigned hplus hminus]
          exact unsignedExponent_extends start false hr h

theorem realTail_extends (exponent : Int) : Extends (realTail negative significand exponent) := by
  intro s r v hr h
  unfold realTail at h ⊢
  cases s with
  | nil =>
      rw [List.nil_append, hr.startsExponent]
      exact realOf_extends exponent hr h
  | cons b s =>
      have hsame : startsExponent (b :: s ++ r) = startsExponent (b :: s) := rfl
      rw [hsame]
      split at h
      · next hexp =>
        rw [if_pos hexp]
        exact readExponent_extends exponent hr h
      · cases realOf_ends h

/-- The rest of a real, on condition that there is one. -/
theorem fractionDigits_ends (hr : EndsNumber r) (before : Int) {places : Nat}
    (hplaces : places ≠ 0) :
    fractionDigits negative before places significand r =
      realOf negative significand (before - places) r := by
  cases r with
  | nil => rw [fractionDigits, if_neg hplaces]
  | cons b r =>
      simp only [fractionDigits, (hr b rfl).1, if_neg hplaces, realTail, hr.startsExponent,
        Bool.false_eq_true, if_false]

theorem fractionDigits_extends (before : Int) (places : Nat) :
    Extends (fractionDigits negative before places significand) := by
  intro s r v hr h
  induction s generalizing places significand with
  | nil =>
      by_cases hplaces : places = 0
      · rw [fractionDigits, if_pos hplaces] at h
        cases h
      · rw [fractionDigits, if_neg hplaces] at h
        rw [List.nil_append, fractionDigits_ends hr before hplaces]
        exact realOf_extends _ hr h
  | cons b s ih =>
      rw [List.cons_append]
      unfold fractionDigits at h ⊢
      cases hb : digitOf? b with
      | none =>
          rw [hb] at h
          dsimp only at h ⊢
          split at h
          · cases h
          · next hplaces =>
            rw [if_neg hplaces]
            exact realTail_extends _ hr h
      | some d =>
          rw [hb] at h
          dsimp only at h ⊢
          split at h
          · next hlt =>
            rw [if_pos hlt]
            exact ih _ h
          · next hlt =>
            rw [if_neg hlt, ← List.cons_append, skipDigits_append hr]
            exact realTail_extends _ hr h

theorem longDigits_ends (hr : EndsNumber r) (more : Nat) :
    longDigits negative significand more r = realOf negative significand more r := by
  cases r with
  | nil => rfl
  | cons b r =>
      simp only [longDigits, hr.isDigit, (hr b rfl).2.1, realTail, hr.startsExponent,
        Bool.false_eq_true, if_false]

theorem longDigits_extends (more : Nat) : Extends (longDigits negative significand more) := by
  intro s r v hr h
  induction s generalizing more with
  | nil =>
      rw [List.nil_append, longDigits_ends hr]
      exact realOf_extends _ hr h
  | cons b s ih =>
      rw [List.cons_append]
      unfold longDigits at h ⊢
      split at h
      · next hdigit =>
        rw [if_pos hdigit]
        exact ih _ h
      · next hdigit =>
        rw [if_neg hdigit]
        split at h
        · next hpoint =>
          rw [if_pos hpoint]
          exact fractionDigits_extends _ _ hr h
        · next hpoint =>
          rw [if_neg hpoint]
          exact realTail_extends _ hr h

theorem integerTail_extends : Extends (integerTail negative significand) := by
  intro s r v hr h
  cases s with
  | nil =>
      rw [integerTail_ends .nil] at h
      rw [List.nil_append, integerTail_ends hr]
      split at h
      · next hsign =>
        rw [if_pos hsign]
        cases h
        rfl
      · next hsign =>
        rw [if_neg hsign]
        split at h
        · next hsmall =>
          rw [if_pos hsmall]
          cases h
          rfl
        · next hsmall =>
          rw [if_neg hsmall]
          cases h
          rfl
  | cons b s =>
      by_cases hpoint : b = 46
      · subst hpoint
        exact fractionDigits_extends _ _ hr h
      · have hother : ∀ t t', b :: t ≠ 46 :: t' := by
          intro t t' heq
          cases heq
          exact hpoint rfl
        rw [integerTail_whole (hother s)] at h
        rw [List.cons_append, integerTail_whole (hother (s ++ r))]
        split at h
        · next hexp =>
          have hsame : startsExponent (b :: (s ++ r)) = true := hexp
          rw [if_pos hsame]
          exact readExponent_extends 0 hr h
        · -- The byte is left, and it is not part of the number.
          split at h
          · cases h
          · split at h <;> cases h

theorem integerDigits_extends : Extends (integerDigits negative significand) := by
  intro s r v hr h
  induction s generalizing significand with
  | nil =>
      rw [List.nil_append, integerDigits_ends hr]
      exact integerTail_extends hr h
  | cons b s ih =>
      rw [List.cons_append]
      unfold integerDigits at h ⊢
      cases hb : digitOf? b with
      | none =>
          rw [hb] at h
          exact integerTail_extends hr h
      | some d =>
          rw [hb] at h
          dsimp only at h ⊢
          split at h
          · next hlt =>
            rw [if_pos hlt]
            exact ih h
          · next hlt =>
            rw [if_neg hlt]
            exact longDigits_extends 0 hr h

theorem readMagnitude_extends : Extends (readMagnitude negative) := by
  intro s r v hr h
  cases s with
  | nil => cases h
  | cons b s =>
      rw [List.cons_append]
      cases hb : digitOf? b with
      | none =>
          simp only [readMagnitude, hb] at h
          cases h
      | some d =>
          cases d with
          | zero =>
              cases s with
              | nil =>
                  simp only [readMagnitude, hb] at h
                  have hzero : integerTail negative 0 r = .ok (v, r) := integerTail_extends hr h
                  cases r with
                  | nil => simpa only [readMagnitude, hb, List.nil_append] using hzero
                  | cons c r =>
                      simpa only [readMagnitude, hb, List.nil_append, hr.isDigit,
                        Bool.false_eq_true, if_false] using hzero
              | cons c s =>
                  simp only [readMagnitude, hb, List.cons_append] at h ⊢
                  split at h
                  · cases h
                  · next hc =>
                    rw [if_neg hc]
                    exact integerTail_extends hr h
          | succ d =>
              simp only [readMagnitude, hb] at h ⊢
              exact integerDigits_extends hr h

theorem readNumber_unsigned {s : Bytes} (hs : ∀ r, s ≠ 45 :: r) :
    readNumber s = readMagnitude false s := by
  unfold readNumber
  split
  · exact (hs _ rfl).elim
  · rfl

theorem readNumber_extends : Extends readNumber := by
  intro s r v hr h
  cases s with
  | nil => cases h
  | cons b s =>
      by_cases hminus : b = 45
      · subst hminus
        exact readMagnitude_extends hr h
      · have hother : ∀ t t', b :: t ≠ 45 :: t' := by
          intro t t' heq
          cases heq
          exact hminus rfl
        rw [readNumber_unsigned (hother s)] at h
        rw [List.cons_append, readNumber_unsigned (hother (s ++ r))]
        exact readMagnitude_extends hr h

end

/-! ### What is read -/

def Bounded (read : Reader Number) : Prop :=
  ∀ {s r : Bytes} {v : Number}, read s = .ok (v, r) → v.InRange

section

variable {significand : Nat}

theorem realOf_bounded (exponent : Int) : Bounded (realOf negative significand exponent) := by
  intro s r v h
  unfold realOf at h
  split at h
  · cases h
    trivial
  · cases h

theorem exponentDigits_bounded (start : Int) (below : Bool) (e : Nat) :
    Bounded (exponentDigits negative significand start below e) := by
  intro s r v h
  induction s generalizing e with
  | nil => exact realOf_bounded _ h
  | cons b s ih =>
      unfold exponentDigits at h
      split at h
      · exact realOf_bounded _ h
      · split at h
        · exact ih _ h
        · split at h
          · cases h
          · cases h
            trivial

theorem readExponent_bounded (start : Int) : Bounded (readExponent negative significand start) := by
  intro s r v h
  unfold readExponent at h
  dsimp only at h
  split at h
  · cases h
  · split at h
    · exact exponentDigits_bounded _ _ _ h
    · cases h

theorem realTail_bounded (exponent : Int) : Bounded (realTail negative significand exponent) := by
  intro s r v h
  unfold realTail at h
  split at h
  · exact readExponent_bounded _ h
  · exact realOf_bounded _ h

theorem fractionDigits_bounded (before : Int) (places : Nat) :
    Bounded (fractionDigits negative before places significand) := by
  intro s r v h
  induction s generalizing places significand with
  | nil =>
      unfold fractionDigits at h
      split at h
      · cases h
      · exact realOf_bounded _ h
  | cons b s ih =>
      unfold fractionDigits at h
      split at h
      · split at h
        · exact ih _ h
        · exact realTail_bounded _ h
      · split at h
        · cases h
        · exact realTail_bounded _ h

theorem longDigits_bounded (more : Nat) : Bounded (longDigits negative significand more) := by
  intro s r v h
  induction s generalizing more with
  | nil => exact realOf_bounded _ h
  | cons b s ih =>
      unfold longDigits at h
      split at h
      · exact ih _ h
      · split at h
        · exact fractionDigits_bounded _ _ h
        · exact realTail_bounded _ h

theorem integerTail_bounded (hsize : significand < UInt64.size) :
    Bounded (integerTail negative significand) := by
  intro s r v h
  unfold integerTail at h
  split at h
  · exact fractionDigits_bounded _ _ h
  · split at h
    · exact readExponent_bounded _ h
    · split at h
      · cases h
        simp only [Number.InRange]
        omega
      · split at h
        · next hsmall =>
          cases h
          simp only [Number.InRange]
          omega
        · cases h
          trivial

theorem integerDigits_bounded (hsize : significand < UInt64.size) :
    Bounded (integerDigits negative significand) := by
  intro s r v h
  induction s generalizing significand with
  | nil => exact integerTail_bounded hsize h
  | cons b s ih =>
      unfold integerDigits at h
      split at h
      · exact integerTail_bounded hsize h
      · split at h
        · next hlt => exact ih hlt h
        · exact longDigits_bounded _ h

theorem digitOf?_lt {b : UInt8} {d : Nat} (h : digitOf? b = some d) : d < UInt64.size := by
  unfold digitOf? at h
  split at h
  · cases h
    have hlt := b.toNat_lt
    have hbig : 256 < UInt64.size := by decide
    omega
  · cases h

theorem readMagnitude_bounded : Bounded (readMagnitude negative) := by
  intro s r v h
  unfold readMagnitude at h
  split at h
  · cases h
  · split at h
    · cases h
    · split at h
      · split at h
        · cases h
        · exact integerTail_bounded (by decide) h
      · exact integerTail_bounded (by decide) h
    · next hd => exact integerDigits_bounded (digitOf?_lt hd) h

/-- A number that is read is a real or an integer of 64 bits. -/
theorem readNumber_bounded : Bounded readNumber := by
  intro s r v h
  unfold readNumber at h
  split at h
  · exact readMagnitude_bounded h
  · exact readMagnitude_bounded h

/-- The first byte of a number. -/
theorem readNumber_start {s r : Bytes} {v : Number} (h : readNumber s = .ok (v, r)) :
    ∃ b t, s = b :: t ∧ (b = 45 ∨ isDigit b = true) := by
  cases s with
  | nil => cases h
  | cons b s =>
      refine ⟨b, s, rfl, ?_⟩
      by_cases hminus : b = 45
      · exact .inl hminus
      · right
        rw [readNumber_unsigned fun t heq => hminus (List.cons.inj heq).1] at h
        cases hb : digitOf? b with
        | none =>
            simp only [readMagnitude, hb] at h
            cases h
        | some d => simp [isDigit, hb]

end

end RemoteInspector.Json
