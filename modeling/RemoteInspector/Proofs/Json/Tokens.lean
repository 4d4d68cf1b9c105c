import RemoteInspector.Proofs.Json.Lookahead
import RemoteInspector.Proofs.Json.Numeral

/-!
Numbers, words and strings are read byte by byte. Where a number ends shows by the byte behind it; a
word or a string shows its end by itself.
-/

namespace RemoteInspector.Json

/-! ### Numbers -/

/-- What an exponent changes shows by the next byte. -/
theorem orderly_ifExponent {ρ : Type} [HasRest ρ] {power other : Bytes → Except Fault ρ}
    (hpower : Orderly false power) (hother : Orderly false other) :
    Orderly false fun s => if startsExponent s then power (s.drop 1) else other s := by
  intro s
  cases s with
  | nil => exact (hother []).congr_nil rfl
  | cons b s =>
      cases hexp : startsExponent (b :: s) with
      | true =>
          refine (hpower s).cons fun t => ?_
          have hstart : startsExponent (b :: t) = true := hexp
          exact if_pos hstart
      | false =>
          refine (hother (b :: s)).congr_cons fun t => ?_
          have hstart : ¬startsExponent (b :: t) = true := Bool.eq_false_iff.1 hexp
          exact if_neg hstart

section

variable (negative : Bool) (significand : Nat)

theorem orderly_realOf (exponent : Int) : Orderly false (realOf negative significand exponent) := by
  intro s
  cases hx : Binary64.ofDecimal negative (UInt64.ofNat significand) exponent with
  | none => exact .here .numberOutOfRange rfl fun t => by simp only [realOf, hx]
  | some x => exact .done_pair (.real x) fun t => by simp only [realOf, hx]

theorem orderly_exponentDigits (start : Int) (below : Bool) (e : Nat) :
    Orderly false (exponentDigits negative significand start below e) := by
  intro s
  induction s generalizing e with
  | nil => exact (orderly_realOf negative significand _ []).congr_nil rfl
  | cons b s ih =>
      cases hb : digitOf? b with
      | none =>
          have hreal := orderly_realOf negative significand
            (if below then start - e else start + e) (b :: s)
          exact hreal.congr_cons fun t => by simp only [exponentDigits, hb]
      | some d =>
          by_cases hlt : e * 10 + d < exponentLimit
          · exact (ih (e * 10 + d)).cons fun t => by simp only [exponentDigits, hb, if_pos hlt]
          · by_cases hlarge : significand ≠ 0 ∧ (!below) = true
            · refine .cons (.here .numberOutOfRange rfl fun _ => rfl) fun t => ?_
              simp only [exponentDigits, hb, if_neg hlt, if_pos hlarge]
            · have hzero : OrderlyAt false
                  (fun t => .ok (Number.real (.zero negative), skipDigits t)) s :=
                .digits (.done_pair (Number.real (.zero negative)) fun _ => rfl) fun _ => rfl
              exact hzero.cons fun t => by
                simp only [exponentDigits, hb, if_neg hlt, if_neg hlarge]

theorem orderly_unsignedExponent (start : Int) (below : Bool) :
    Orderly false (unsignedExponent negative significand start below) := by
  intro s
  cases s with
  | nil => exact .ends .unfinishedValue rfl rfl
  | cons b s =>
      cases hb : digitOf? b with
      | none =>
          refine .cons (.here .badNumber rfl fun _ => rfl) fun t => ?_
          simp only [unsignedExponent, hb]
      | some d =>
          refine (orderly_exponentDigits negative significand start below d s).cons fun t => ?_
          simp only [unsignedExponent, hb]

theorem orderly_readExponent (start : Int) :
    Orderly false (readExponent negative significand start) := by
  have hexp := orderly_unsignedExponent negative significand start
  intro s
  cases s with
  | nil => exact (hexp false []).congr_nil rfl
  | cons b s =>
      by_cases hplus : b = 43
      · subst hplus
        exact (hexp false s).cons fun _ => rfl
      · by_cases hminus : b = 45
        · subst hminus
          exact (hexp true s).cons fun _ => rfl
        · exact (hexp false (b :: s)).congr_cons (readExponent_unsigned hplus hminus start)

theorem orderly_realTail (exponent : Int) :
    Orderly false (realTail negative significand exponent) :=
  orderly_ifExponent (orderly_readExponent negative significand exponent)
    (orderly_realOf negative significand exponent)

theorem orderly_fractionDigits (before : Int) (places : Nat) :
    Orderly false (fractionDigits negative before places significand) := by
  intro s
  induction s generalizing places significand with
  | nil =>
      by_cases hplaces : places = 0
      · exact .ends .unfinishedValue rfl (by rw [fractionDigits, if_pos hplaces]; rfl)
      · refine (orderly_realOf negative significand (before - places) []).congr_nil ?_
        rw [fractionDigits, if_neg hplaces]
  | cons b s ih =>
      cases hb : digitOf? b with
      | none =>
          by_cases hplaces : places = 0
          · refine (OrderlyAt.next .badNumber rfl fun _ => rfl).congr_cons fun t => ?_
            simp only [fractionDigits, hb, if_pos hplaces]
          · refine (orderly_realTail negative significand (before - places) (b :: s)).congr_cons
              fun t => ?_
            simp only [fractionDigits, hb, if_neg hplaces]
      | some d =>
          by_cases hlt : significand * 10 + d < UInt64.size
          · refine (ih (significand * 10 + d) (places + 1)).cons fun t => ?_
            simp only [fractionDigits, hb, if_pos hlt]
          · have htail : OrderlyAt false
                (fun t => realTail negative significand (before - places) (skipDigits t))
                (b :: s) :=
              .digits (orderly_realTail negative significand _ _) fun _ => rfl
            refine htail.congr_cons fun t => ?_
            simp only [fractionDigits, hb, if_neg hlt]

theorem orderly_longDigits (more : Nat) : Orderly false (longDigits negative significand more) := by
  intro s
  induction s generalizing more with
  | nil => exact (orderly_realOf negative significand more []).congr_nil rfl
  | cons b s ih =>
      cases hb : isDigit b with
      | true => exact (ih (more + 1)).cons fun t => by rw [longDigits, if_pos hb]
      | false =>
          have hdigit := Bool.eq_false_iff.1 hb
          by_cases hpoint : b = 46
          · refine (orderly_fractionDigits negative significand more 0 s).cons fun t => ?_
            rw [longDigits, if_neg hdigit, if_pos hpoint]
          · refine (orderly_realTail negative significand more (b :: s)).congr_cons fun t => ?_
            rw [longDigits, if_neg hdigit, if_neg hpoint]

def wholeNumber (negative : Bool) (significand : Nat) : Number :=
  if !negative then .integer significand
  else if 0 < significand ∧ significand ≤ Text.int64Bound then .integer (-significand)
  else .real (Binary64.ofUInt64 (UInt64.ofNat significand)).negate

theorem integerTail_eq_wholeNumber {s : Bytes} (hs : ∀ r, s ≠ 46 :: r) :
    integerTail negative significand s =
      if startsExponent s then readExponent negative significand 0 (s.drop 1)
      else .ok (wholeNumber negative significand, s) := by
  rw [integerTail_whole hs, wholeNumber]
  split
  · rfl
  · split
    · rfl
    · split <;> rfl

theorem orderly_integerTail : Orderly false (integerTail negative significand) := by
  have hwhole : Orderly false fun s =>
      if startsExponent s then readExponent negative significand 0 (s.drop 1)
      else .ok (wholeNumber negative significand, s) :=
    orderly_ifExponent (orderly_readExponent negative significand 0)
      fun _ => .done_pair (wholeNumber negative significand) fun _ => rfl
  intro s
  cases s with
  | nil =>
      exact (hwhole []).congr_nil
        (integerTail_eq_wholeNumber negative significand fun _ => (List.cons_ne_nil _ _).symm)
  | cons b s =>
      by_cases hpoint : b = 46
      · subst hpoint
        exact (orderly_fractionDigits negative significand 0 0 s).cons fun _ => rfl
      · exact (hwhole (b :: s)).congr_cons fun t =>
          integerTail_eq_wholeNumber negative significand
            fun t' heq => hpoint (List.cons.inj heq).1

theorem orderly_integerDigits : Orderly false (integerDigits negative significand) := by
  intro s
  induction s generalizing significand with
  | nil => exact (orderly_integerTail negative significand []).congr_nil rfl
  | cons b s ih =>
      cases hb : digitOf? b with
      | none =>
          refine (orderly_integerTail negative significand (b :: s)).congr_cons fun t => ?_
          simp only [integerDigits, hb]
      | some d =>
          by_cases hlt : significand * 10 + d < UInt64.size
          · refine (ih (significand * 10 + d)).cons fun t => ?_
            simp only [integerDigits, hb, if_pos hlt]
          · refine (orderly_longDigits negative significand 0 (b :: s)).congr_cons fun t => ?_
            simp only [integerDigits, hb, if_neg hlt]

/-- What follows a zero at the start of a number, which cannot be a digit. -/
def afterZero {ρ : Type} (tail : Bytes → Except Fault ρ) : Bytes → Except Fault ρ
  | [] => tail []
  | b :: r => if isDigit b then atNext .badNumber (b :: r) else tail (b :: r)

theorem orderly_afterZero {ρ : Type} [HasRest ρ] {tail : Bytes → Except Fault ρ}
    (htail : Orderly false tail) : Orderly false (afterZero tail) := by
  intro s
  cases s with
  | nil => exact (htail []).congr_nil rfl
  | cons b s =>
      cases hb : isDigit b with
      | true =>
          refine (OrderlyAt.next .badNumber rfl fun _ => rfl).congr_cons fun t => ?_
          rw [afterZero, if_pos hb]
      | false =>
          refine (htail (b :: s)).congr_cons fun t => ?_
          rw [afterZero, if_neg (Bool.eq_false_iff.1 hb)]

theorem orderly_readMagnitude : Orderly false (readMagnitude negative) := by
  intro s
  cases s with
  | nil => exact .ends .unfinishedValue rfl rfl
  | cons b s =>
      cases hb : digitOf? b with
      | none =>
          refine .cons (.here .badNumber rfl fun _ => rfl) fun t => ?_
          simp only [readMagnitude, hb]
      | some d =>
          cases d with
          | zero =>
              refine (orderly_afterZero (orderly_integerTail negative 0) s).cons fun t => ?_
              cases t <;> simp only [readMagnitude, hb, afterZero]
          | succ d =>
              refine (orderly_integerDigits negative (d + 1) s).cons fun t => ?_
              simp only [readMagnitude, hb]

end

theorem orderly_readNumber : Orderly false readNumber := by
  intro s
  cases s with
  | nil => exact (orderly_readMagnitude false []).congr_nil rfl
  | cons b s =>
      by_cases hminus : b = 45
      · subst hminus
        exact (orderly_readMagnitude true s).cons fun _ => rfl
      · refine (orderly_readMagnitude false (b :: s)).congr_cons fun t => ?_
        exact readNumber_unsigned fun t' heq => hminus (List.cons.inj heq).1

def skipUnsigned : Bytes → Except Fault Bytes
  | [] => atHere .badNumber []
  | b :: r => if isDigit b then .ok (skipDigits r) else atHere .badNumber r

theorem orderly_skipUnsigned : Orderly false skipUnsigned := by
  intro s
  cases s with
  | nil => exact .ends .badNumber rfl rfl
  | cons b s =>
      cases hb : isDigit b with
      | true =>
          have hdigits : OrderlyAt false (fun t => .ok (skipDigits t)) s :=
            .digits (.done_rest fun _ => rfl) fun _ => rfl
          exact hdigits.cons fun t => by rw [skipUnsigned, if_pos hb]
      | false =>
          refine .cons (.here .badNumber rfl fun _ => rfl) fun t => ?_
          rw [skipUnsigned, if_neg (Bool.eq_false_iff.1 hb)]

theorem orderly_skipExponent : Orderly false skipExponent := by
  intro s
  cases s with
  | nil => exact (orderly_skipUnsigned []).congr_nil rfl
  | cons b s =>
      by_cases hplus : b = 43
      · subst hplus
        exact (orderly_skipUnsigned s).cons fun t => by cases t <;> rfl
      · by_cases hminus : b = 45
        · subst hminus
          exact (orderly_skipUnsigned s).cons fun t => by cases t <;> rfl
        · refine (orderly_skipUnsigned (b :: s)).congr_cons fun t => ?_
          simp [skipExponent, skipUnsigned, hplus, hminus]

def skipPower (s : Bytes) : Except Fault Bytes :=
  if startsExponent s then skipExponent (s.drop 1) else .ok s

theorem orderly_skipPower : Orderly false skipPower :=
  orderly_ifExponent orderly_skipExponent fun _ => .done_rest fun _ => rfl

def skipFraction : Bytes → Except Fault Bytes
  | [] => atNext .badNumber []
  | b :: r => if isDigit b then skipPower (skipDigits (b :: r)) else atNext .badNumber (b :: r)

theorem orderly_skipFraction : Orderly false skipFraction := by
  intro s
  cases s with
  | nil => exact .ends .badNumber rfl rfl
  | cons b s =>
      cases hb : isDigit b with
      | true =>
          have hdigits : OrderlyAt false (fun t => skipPower (skipDigits t)) (b :: s) :=
            .digits (orderly_skipPower _) fun _ => rfl
          exact hdigits.congr_cons fun t => by rw [skipFraction, if_pos hb]
      | false =>
          refine (OrderlyAt.next .badNumber rfl fun _ => rfl).congr_cons fun t => ?_
          rw [skipFraction, if_neg (Bool.eq_false_iff.1 hb)]

theorem orderly_skipTail : Orderly false skipTail := by
  intro s
  cases s with
  | nil => exact (orderly_skipPower []).congr_nil rfl
  | cons b s =>
      by_cases hpoint : b = 46
      · subst hpoint
        exact (orderly_skipFraction s).cons fun t => by cases t <;> rfl
      · refine (orderly_skipPower (b :: s)).congr_cons fun t => ?_
        unfold skipTail
        split
        · next heq => exact (hpoint (List.cons.inj heq).1).elim
        · rfl

theorem orderly_skipMagnitude : Orderly false skipMagnitude := by
  intro s
  cases s with
  | nil => exact .ends .badNumber rfl rfl
  | cons b s =>
      cases hb : digitOf? b with
      | none =>
          refine .cons (.here .badNumber rfl fun _ => rfl) fun t => ?_
          simp only [skipMagnitude, hb]
      | some d =>
          cases d with
          | zero =>
              refine (orderly_afterZero orderly_skipTail s).cons fun t => ?_
              cases t with
              | nil => simp only [skipMagnitude, hb, afterZero]; rfl
              | cons c t => simp only [skipMagnitude, hb, afterZero]
          | succ d =>
              have hdigits : OrderlyAt false (fun t => skipTail (skipDigits t)) s :=
                .digits (orderly_skipTail _) fun _ => rfl
              exact hdigits.cons fun t => by simp only [skipMagnitude, hb]

theorem orderly_skipNumber : Orderly false skipNumber := by
  intro s
  cases s with
  | nil => exact (orderly_skipMagnitude []).congr_nil rfl
  | cons b s =>
      by_cases hminus : b = 45
      · subst hminus
        exact (orderly_skipMagnitude s).cons fun _ => rfl
      · refine (orderly_skipMagnitude (b :: s)).congr_cons fun t => ?_
        unfold skipNumber
        split
        · next heq => exact (hminus (List.cons.inj heq).1).elim
        · rfl

/-! ### Words and strings -/

theorem orderly_readWord (word : Bytes) : Orderly true (readWord word) := by
  intro s
  induction word generalizing s with
  | nil => exact .done_rest fun _ => rfl
  | cons w ws ih =>
      cases s with
      | nil => exact .ends .unfinishedValue rfl rfl
      | cons b s =>
          by_cases hb : b = w
          · exact (ih s).cons fun t => by rw [readWord, if_pos hb]
          · exact .cons (.here .expectedWord rfl fun _ => rfl) fun t => by
              rw [readWord, if_neg hb]

theorem orderly_readHex4 : Orderly true readHex4 := by
  intro s
  match s with
  | [] | [_] | [_, _] | [_, _, _] => exact .ends .unfinishedString rfl rfl
  | a :: b :: c :: d :: r =>
      refine .cons (.cons (.cons (.cons ?_ fun _ => rfl) fun _ => rfl) fun _ => rfl) fun _ => rfl
      dsimp only [readHex4]
      cases hexOf? a with
      | none => exact .here .badEscape rfl fun _ => rfl
      | some a =>
          cases hexOf? b with
          | none => exact .here .badEscape rfl fun _ => rfl
          | some b =>
              cases hexOf? c with
              | none => exact .here .badEscape rfl fun _ => rfl
              | some c =>
                  cases hexOf? d with
                  | none => exact .here .badEscape rfl fun _ => rfl
                  | some d => exact .done_pair (((a * 16 + b) * 16 + c) * 16 + d) fun _ => rfl

theorem orderly_readLowSurrogate (high : Nat) : Orderly true (readLowSurrogate high) := by
  intro s
  match s with
  | [] => exact .ends .unfinishedString rfl rfl
  | b :: s =>
      by_cases hslash : b = 92
      · subst hslash
        match s with
        | [] => exact .ends .unfinishedString rfl rfl
        | c :: s =>
            by_cases hletter : c = 117
            · subst hletter
              refine .cons (.cons ((orderly_readHex4 s).bind_pair fun low r _ => ?_) fun _ => rfl)
                fun _ => rfl
              cases hlow : isLowSurrogate low with
              | true => exact .done_pair _ fun t => if_pos hlow
              | false => exact .here .loneSurrogate rfl fun t => if_neg (by simp [hlow])
            · have hother : OrderlyAt true (fun t => readLowSurrogate high (92 :: t)) (c :: s) :=
                .cons (.here .unfinishedSurrogates rfl fun _ => rfl) fun t => by
                  simp [readLowSurrogate, hletter]
              exact hother.cons fun _ => rfl
      · refine .cons (.here .unfinishedSurrogates rfl fun _ => rfl) fun t => ?_
        simp only [readLowSurrogate, if_pos hslash]

theorem orderly_readNumberedChar : Orderly true readNumberedChar := by
  intro s
  refine (orderly_readHex4 s).bind_pair fun n r _ => ?_
  cases hlow : isLowSurrogate n with
  | true => exact .here .loneSurrogate rfl fun t => if_pos hlow
  | false =>
      have hnotLow : ¬isLowSurrogate n = true := Bool.eq_false_iff.1 hlow
      cases hhigh : isHighSurrogate n with
      | true =>
          have heq : ∀ t,
              (if isHighSurrogate n then readLowSurrogate n t else .ok (Char.ofNat n, t)) =
                readLowSurrogate n t := fun t => if_pos hhigh
          simpa only [if_neg hnotLow, heq] using orderly_readLowSurrogate n r
      | false =>
          have hnotHigh : ¬isHighSurrogate n = true := Bool.eq_false_iff.1 hhigh
          exact .done_pair (Char.ofNat n) fun t => (if_neg hnotLow).trans (if_neg hnotHigh)

theorem orderly_readEscape : Orderly true readEscape := by
  intro s
  cases s with
  | nil => exact .ends .unfinishedString rfl rfl
  | cons b s =>
      cases hb : shortEscape? b with
      | some c =>
          exact .cons (.done_pair [c] fun _ => rfl) fun t => by simp only [readEscape, hb]
      | none =>
          by_cases hletter : b = 117
          · have hchar := OrderlyAt.map (fun x => (String.utf8EncodeChar x.1, x.2))
              (orderly_readNumberedChar s) fun _ _ => rfl
            refine hchar.cons fun t => ?_
            simp only [readEscape, hb, if_pos hletter]
          · refine .cons (.here .badEscape rfl fun _ => rfl) fun t => ?_
            simp only [readEscape, hb, if_neg hletter]

def contentStep (seen : Bytes) : Bytes → Except Fault (Round Bytes (Bytes × Bytes))
  | [] => atHere .unfinishedString []
  | b :: r =>
    if b = 34 then .ok (.done (seen.reverse, r))
    else if b = 92 then (readEscape r).map fun (bytes, r) => .again (bytes.reverse ++ seen) r
    else if b < 32 then atHere .controlCharacter r
    else .ok (.again (b :: seen) r)

theorem readContent_eq_rounds (fuel : Nat) (seen s : Bytes) :
    readContent fuel seen s = rounds contentStep (atHere .unfinishedString) fuel seen s := by
  induction fuel generalizing seen s with
  | zero => rfl
  | succ fuel ih =>
      cases s with
      | nil => rfl
      | cons b s =>
          rw [readContent, rounds, contentStep]
          by_cases hquote : b = 34
          · rw [if_pos hquote, if_pos hquote]
            rfl
          rw [if_neg hquote, if_neg hquote]
          by_cases hslash : b = 92
          · rw [if_pos hslash, if_pos hslash]
            cases readEscape s with
            | error f => rfl
            | ok x => exact ih _ _
          rw [if_neg hslash, if_neg hslash]
          by_cases hcontrol : b < 32
          · rw [if_pos hcontrol, if_pos hcontrol]
            rfl
          · rw [if_neg hcontrol, if_neg hcontrol]
            exact ih _ _

theorem orderly_contentStep (seen : Bytes) : Orderly true (contentStep seen) := by
  intro s
  cases s with
  | nil => exact .ends .unfinishedString rfl rfl
  | cons b s =>
      by_cases hquote : b = 34
      · exact .cons (.done (.done (seen.reverse, [])) fun _ => rfl) fun t => if_pos hquote
      by_cases hslash : b = 92
      · have hescape : OrderlyAt true (fun s => (readEscape s).map fun (bytes, r) =>
            (Round.again (bytes.reverse ++ seen) r : Round Bytes (Bytes × Bytes))) s :=
          .map _ (orderly_readEscape s) fun _ _ => rfl
        refine hescape.cons fun t => ?_
        rw [contentStep, if_neg hquote, if_pos hslash]
      by_cases hcontrol : b < 32
      · refine .cons (.here .controlCharacter rfl fun _ => rfl) fun t => ?_
        rw [contentStep, if_neg hquote, if_neg hslash, if_pos hcontrol]
      · refine .cons (.done (.again (b :: seen) []) fun _ => rfl) fun t => ?_
        rw [contentStep, if_neg hquote, if_neg hslash, if_neg hcontrol]
        rfl

theorem contentStep_shorter (seen s seen' r : Bytes)
    (h : contentStep seen s = .ok (.again seen' r)) : r.length < s.length := by
  cases s with
  | nil => cases h
  | cons b s =>
      rw [contentStep] at h
      split_ifs at h
      · cases h
      · cases hescape : readEscape s with
        | error f => simp [hescape, Except.map] at h
        | ok x =>
            have hle := (orderly_readEscape s).length_le hescape
            simp only [hescape, Except.map, Except.ok.injEq, Round.again.injEq] at h
            rw [← h.2]
            exact Nat.lt_succ_of_le hle
      · cases h
      · cases h
        exact Nat.lt_succ_self _

theorem orderly_readStringBody : Orderly true readStringBody := by
  have hcontent : Orderly true fun s => readContent (s.length + 1) [] s := by
    simp only [readContent_eq_rounds]
    exact orderly_rounds orderly_contentStep contentStep_shorter []
  intro s
  refine (hcontent s).bind_pair fun bytes r _ => ?_
  cases hdecode : Text.decodeUtf8? bytes with
  | some text => exact .done_pair text fun t => by simp only [hdecode]
  | none => exact .here .badText rfl fun t => by simp only [hdecode]

/-- What is read between quotes is a literal. -/
theorem isLiteral_of_readStringBody {s r : Bytes} {x : String} (h : readStringBody s = .ok (x, r)) :
    ∃ body, s = body ++ r ∧ IsLiteral (34 :: body) x := by
  obtain ⟨body, hs, hany⟩ := (orderly_readStringBody s).takes
  rw [h] at hs hany
  exact ⟨body, hs, body, rfl, fun t => hany t (.inr ⟨rfl, (x, r), rfl⟩)⟩

def skipEscape : Bytes → Except Fault Bytes
  | [] => atHere .unfinishedString []
  | b :: r =>
    if (shortEscape? b).isSome then .ok r
    else if b = 117 then (readHex4 r).map fun x => x.2
    else atHere .badEscape r

theorem orderly_skipEscape : Orderly true skipEscape := by
  intro s
  cases s with
  | nil => exact .ends .unfinishedString rfl rfl
  | cons b s =>
      cases hshort : (shortEscape? b).isSome with
      | true => exact .cons (.done_rest fun _ => rfl) fun t => if_pos hshort
      | false =>
          have hlong := Bool.eq_false_iff.1 hshort
          by_cases hletter : b = 117
          · have hnumber := OrderlyAt.map (fun x => x.2) (orderly_readHex4 s) fun _ _ => rfl
            exact hnumber.cons fun t => by rw [skipEscape, if_neg hlong, if_pos hletter]
          · exact .cons (.here .badEscape rfl fun _ => rfl) fun t => by
              rw [skipEscape, if_neg hlong, if_neg hletter]

def skipStringStep : Bytes → Except Fault (Round Unit Bytes)
  | [] => atHere .unfinishedString []
  | b :: r =>
    if b = 34 then .ok (.done r)
    else if b = 92 then (skipEscape r).map (.again ())
    else if b < 32 then atHere .controlCharacter (b :: r)
    else .ok (.again () r)

theorem skipStringBody_eq_rounds (fuel : Nat) (s : Bytes) : skipStringBody fuel s =
    rounds (fun _ => skipStringStep) (atHere .unfinishedString) fuel () s := by
  induction fuel generalizing s with
  | zero => rfl
  | succ fuel ih =>
      cases s with
      | nil => rfl
      | cons b s =>
          rw [skipStringBody.eq_def, rounds, skipStringStep]
          dsimp only
          by_cases hquote : b = 34
          · rw [if_pos hquote, if_pos hquote]
            rfl
          rw [if_neg hquote, if_neg hquote]
          by_cases hslash : b = 92
          · rw [if_pos hslash, if_pos hslash]
            cases s with
            | nil => rfl
            | cons c s =>
                rw [skipEscape]
                dsimp only
                cases hshort : (shortEscape? c).isSome with
                | true => exact ih s
                | false =>
                    rw [if_neg Bool.false_ne_true, if_neg Bool.false_ne_true]
                    by_cases hletter : c = 117
                    · rw [if_pos hletter, if_pos hletter]
                      cases readHex4 s with
                      | error f => rfl
                      | ok x => exact ih _
                    · rw [if_neg hletter, if_neg hletter]
                      rfl
          rw [if_neg hslash, if_neg hslash]
          by_cases hcontrol : b < 32
          · rw [if_pos hcontrol, if_pos hcontrol]
            rfl
          · rw [if_neg hcontrol, if_neg hcontrol]
            exact ih _

theorem orderly_skipStringStep : Orderly true skipStringStep := by
  intro s
  cases s with
  | nil => exact .ends .unfinishedString rfl rfl
  | cons b s =>
      by_cases hquote : b = 34
      · exact .cons (.done (.done []) fun _ => rfl) fun t => if_pos hquote
      by_cases hslash : b = 92
      · have hescape := OrderlyAt.map (fun r => (Round.again () r : Round Unit Bytes))
          (orderly_skipEscape s) fun _ _ => rfl
        refine hescape.cons fun t => ?_
        rw [skipStringStep, if_neg hquote, if_pos hslash]
      by_cases hcontrol : b < 32
      · -- The byte is left, but it has been seen.
        refine .fault .controlCharacter [] (ne_wrongString rfl) rfl fun t ht => ?_
        obtain ⟨t, rfl⟩ := List.head?_eq_some_iff.1 ht
        rw [List.nil_append, skipStringStep, if_neg hquote, if_neg hslash, if_pos hcontrol]
        rfl
      · refine .cons (.done (.again () []) fun _ => rfl) fun t => ?_
        rw [skipStringStep, if_neg hquote, if_neg hslash, if_neg hcontrol]
        rfl

theorem skipStringStep_shorter (s r : Bytes) (h : skipStringStep s = .ok (.again () r)) :
    r.length < s.length := by
  cases s with
  | nil => cases h
  | cons b s =>
      rw [skipStringStep] at h
      split_ifs at h
      · cases h
      · cases hescape : skipEscape s with
        | error f => simp [hescape, Except.map] at h
        | ok t =>
            have hle := (orderly_skipEscape s).length_le hescape
            simp only [hescape, Except.map, Except.ok.injEq, Round.again.injEq, true_and] at h
            rw [← h]
            exact Nat.lt_succ_of_le hle
      · cases h
      · cases h
        exact Nat.lt_succ_self _

theorem orderly_skipStringBody : Orderly true fun s => skipStringBody s.length.succ s := by
  simp only [skipStringBody_eq_rounds]
  exact orderly_rounds (fun _ => orderly_skipStringStep)
    (fun _ s _ r => skipStringStep_shorter s r) ()

end RemoteInspector.Json
