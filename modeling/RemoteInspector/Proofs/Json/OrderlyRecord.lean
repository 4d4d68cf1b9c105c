import RemoteInspector.Proofs.Json.Orderly
import RemoteInspector.Proofs.Json.Record

/-!
Records are read in order. What no field is for is passed over, and that is done in order too.
-/

namespace RemoteInspector.Json

open HasRest

/-! ### Passing over values -/

theorem orderly_skipClosings (outer : List Bracket) : Orderly false (skipClosings outer) := by
  induction outer with
  | nil => exact fun s => .done_pair [] fun _ => rfl
  | cons bracket outer ih =>
      have hends : OrderlyAt false (skipClosings (bracket :: outer)) [] := by
        cases bracket with
        | list => exact .ends .unfinishedList rfl rfl
        | object => exact .ends .unfinishedObject rfl rfl
      refine orderly_blanks (fun t => by simp only [skipClosings, skipBlanks_skipBlanks]) hends
        fun b r hb => ?_
      by_cases hcomma : b = 44
      · exact .cons (.done_pair (bracket :: outer) fun _ => rfl) fun t => by
          simp only [skipClosings, skipBlanks_cons hb, if_pos hcomma]
      by_cases hclose : b = bracket.closing
      · exact (ih r).cons fun t => by
          simp only [skipClosings, skipBlanks_cons hb, if_neg hcomma, if_pos hclose]
      · have hfault : bracket.expectedEnd.isMismatch = false := by cases bracket <;> rfl
        exact .cons (.here bracket.expectedEnd hfault fun _ => rfl) fun t => by
          simp only [skipClosings, skipBlanks_cons hb, if_neg hcomma, if_neg hclose]
          rfl

theorem orderly_skipName (outer : List Bracket) : Orderly false (skipName outer) := by
  match outer with
  | [] | .list :: _ => exact fun s => .done_rest fun _ => rfl
  | .object :: outer =>
      refine orderly_blanks (fun t => by simp only [skipName, skipBlanks_skipBlanks])
        (.ends .unfinishedObject rfl rfl) fun b r hb => ?_
      by_cases hquote : b = 34
      · have hname := (orderly_skipStringBody r).weaken.bind_rest fun t _ => orderly_readColon t
        exact hname.cons fun t => by
          simp only [skipName, skipBlanks_cons hb, if_pos hquote]
      · exact .cons (.here .keyNotString rfl fun _ => rfl) fun t => by
          simp only [skipName, skipBlanks_cons hb, if_neg hquote]
          rfl

theorem orderly_skipOpening (bracket : Bracket) (outer : List Bracket) :
    Orderly false (skipOpening bracket outer) := by
  have hends : OrderlyAt false (skipOpening bracket outer) [] := by
    cases bracket with
    | list => exact .ends .unfinishedList rfl rfl
    | object => exact .ends .unfinishedObject rfl rfl
  refine orderly_blanks (fun t => by simp only [skipOpening, skipBlanks_skipBlanks]) hends
    fun b r hb => ?_
  by_cases hclose : b = bracket.closing
  · exact (orderly_skipClosings outer r).cons fun t => by
      simp only [skipOpening, skipBlanks_cons hb, if_pos hclose]
  · exact (OrderlyAt.done_pair (bracket :: outer) fun _ => rfl).congr_cons fun t => by
      simp only [skipOpening, skipBlanks_cons hb, if_neg hclose]

theorem orderly_skipWord (word : Bytes) (outer : List Bracket) :
    Orderly false fun s => readWord word s >>= skipClosings outer :=
  fun s => (orderly_readWord word s).weaken.bind_rest fun r _ => orderly_skipClosings outer r

theorem orderly_skipStart (outer : List Bracket) : Orderly false (skipStart outer) := by
  refine orderly_blanks (fun t => by simp only [skipStart, skipBlanks_skipBlanks])
    (.ends .unfinishedValue rfl rfl) fun b r hb => ?_
  by_cases hnull : b = 110
  · exact (orderly_skipWord restOfNull outer r).cons fun t => by
      simp only [skipStart, skipBlanks_cons hb, if_pos hnull]
  by_cases htrue : b = 116
  · exact (orderly_skipWord restOfTrue outer r).cons fun t => by
      simp only [skipStart, skipBlanks_cons hb, if_neg hnull, if_pos htrue]
  by_cases hfalse : b = 102
  · exact (orderly_skipWord restOfFalse outer r).cons fun t => by
      simp only [skipStart, skipBlanks_cons hb, if_neg hnull, if_neg htrue, if_pos hfalse]
  by_cases hnumber : b = 45 ∨ isDigit b = true
  · have hskip := (orderly_skipNumber (b :: r)).bind_rest fun t _ => orderly_skipClosings outer t
    exact hskip.congr_cons fun t => by
      simp only [skipStart, skipBlanks_cons hb, if_neg hnull, if_neg htrue, if_neg hfalse,
        if_pos hnumber]
  by_cases hquote : b = 34
  · have hskip := (orderly_skipStringBody r).weaken.bind_rest fun t _ =>
      orderly_skipClosings outer t
    exact hskip.cons fun t => by
      simp only [skipStart, skipBlanks_cons hb, if_neg hnull, if_neg htrue, if_neg hfalse,
        if_neg hnumber, if_pos hquote]
  by_cases hlist : b = 91
  · exact (orderly_skipOpening .list outer r).cons fun t => by
      simp only [skipStart, skipBlanks_cons hb, if_neg hnull, if_neg htrue, if_neg hfalse,
        if_neg hnumber, if_neg hquote, if_pos hlist]
  by_cases hobject : b = 123
  · exact (orderly_skipOpening .object outer r).cons fun t => by
      simp only [skipStart, skipBlanks_cons hb, if_neg hnull, if_neg htrue, if_neg hfalse,
        if_neg hnumber, if_neg hquote, if_neg hlist, if_pos hobject]
  · exact .cons (.here .expectedValue rfl fun _ => rfl) fun t => by
      simp only [skipStart, skipBlanks_cons hb, if_neg hnull, if_neg htrue, if_neg hfalse,
        if_neg hnumber, if_neg hquote, if_neg hlist, if_neg hobject]
      rfl

/-- A number that is passed over has a byte at least. -/
theorem skipNumber_shorter {b : UInt8} {s r : Bytes} (h : skipNumber (b :: s) = .ok r) :
    r.length ≤ s.length := by
  by_cases hminus : b = 45
  · subst hminus
    exact (orderly_skipMagnitude s).length_le h
  · have hmagnitude : skipMagnitude (b :: s) = .ok r := by
      rw [← h, skipNumber]
      rintro t heq
      exact hminus (List.cons.inj heq).1
    unfold skipMagnitude at hmagnitude
    cases hb : digitOf? b with
    | none => simp [hb, Json.atHere] at hmagnitude
    | some d =>
        cases d with
        | zero =>
            simp only [hb] at hmagnitude
            cases s with
            | nil =>
                cases hmagnitude
                exact Nat.le_refl _
            | cons c s =>
                dsimp only at hmagnitude
                split_ifs at hmagnitude
                · cases hmagnitude
                · exact (orderly_skipTail _).length_le hmagnitude
        | succ d =>
            simp only [hb] at hmagnitude
            exact Nat.le_trans ((orderly_skipTail _).length_le hmagnitude)
              (List.dropWhile_suffix isDigit).length_le

def insideStep (outer : List Bracket) (s : Bytes) :
    Except Fault (Round (List Bracket) Bytes) := do
  match ← skipStart outer s with
  | ([], r) => .ok (.done r)
  | (left, r) => (skipName left r).map (.again left)

theorem skipInside_eq_rounds (fuel : Nat) (outer : List Bracket) (s : Bytes) :
    skipInside fuel outer s = rounds insideStep (atNext .unfinishedValue) fuel outer s := by
  induction fuel generalizing outer s with
  | zero => rfl
  | succ fuel ih =>
      rw [skipInside, rounds, insideStep]
      cases skipStart outer s with
      | error f => rfl
      | ok x =>
          obtain ⟨left, r⟩ := x
          cases left with
          | nil => rfl
          | cons bracket left =>
              simp only [bind, Except.bind]
              cases skipName (bracket :: left) r with
              | error f => rfl
              | ok t => exact ih _ _

theorem orderly_insideStep (outer : List Bracket) : Orderly false (insideStep outer) := by
  intro s
  refine (orderly_skipStart outer s).bind_pair fun left r _ => ?_
  cases left with
  | nil => exact .done (.done []) fun _ => rfl
  | cons bracket left => exact .map _ (orderly_skipName (bracket :: left) r) fun _ _ => rfl

theorem skipStart_shorter {outer left : List Bracket} {s r : Bytes}
    (h : skipStart outer s = .ok (left, r)) : r.length < s.length := by
  unfold skipStart at h
  have hs := length_skipBlanks s
  split at h
  · cases h
  next b t ht =>
  rw [ht] at hs
  refine Nat.lt_of_lt_of_le (Nat.lt_succ_of_le ?_) hs
  split_ifs at h
  · exact (orderly_skipWord restOfNull outer t).length_le h
  · exact (orderly_skipWord restOfTrue outer t).length_le h
  · exact (orderly_skipWord restOfFalse outer t).length_le h
  · obtain ⟨t', hnumber, h⟩ := bind_ok h
    exact Nat.le_trans ((orderly_skipClosings outer t').length_le h) (skipNumber_shorter hnumber)
  · obtain ⟨t', hstring, h⟩ := bind_ok h
    exact Nat.le_trans ((orderly_skipClosings outer t').length_le h)
      ((orderly_skipStringBody t).length_le hstring)
  · exact (orderly_skipOpening .list outer t).length_le h
  · exact (orderly_skipOpening .object outer t).length_le h
  · cases h

theorem insideStep_shorter (outer : List Bracket) (s : Bytes) (left : List Bracket) (r : Bytes)
    (h : insideStep outer s = .ok (.again left r)) : r.length < s.length := by
  obtain ⟨⟨left', t⟩, hstart, h⟩ := bind_ok h
  cases left' with
  | nil => cases h
  | cons bracket left' =>
      obtain ⟨t', hname, heq⟩ := map_ok h
      cases heq
      exact Nat.lt_of_le_of_lt ((orderly_skipName _ t).length_le hname) (skipStart_shorter hstart)

theorem orderly_skipValue : Orderly false skipValue := by
  have hvalue : skipValue =
      fun s => rounds insideStep (atNext .unfinishedValue) (s.length + 1) [] s :=
    funext fun s => skipInside_eq_rounds _ [] s
  rw [hvalue]
  exact orderly_rounds orderly_insideStep insideStep_shorter []

/-! ### Records -/

theorem orderly_behindName (name : String) : Orderly false fun s =>
    (.error ⟨.mismatch (.duplicateField name), behindName s⟩ :
      Except Fault (List (String × Json) × Bytes)) := by
  have hreason : ∀ x wanted, Reason.mismatch (.duplicateField name) ≠ wrongString x wanted := by
    intro x wanted heq
    cases heq
  refine orderly_blanks (fun t => by simp only [behindName, skipBlanks_skipBlanks])
    (.fault _ [] hreason rfl fun t ht => ?_) fun b r hb => ?_
  · rw [List.head?_eq_none_iff.1 ht]
    rfl
  · by_cases hclose : b = 125
    · refine .fault _ [b] hreason rfl fun t _ => ?_
      simp only [List.singleton_append, behindName, skipBlanks_cons hb, if_pos hclose]
    · refine .fault _ [] hreason rfl fun t ht => ?_
      obtain ⟨t, rfl⟩ := List.head?_eq_some_iff.1 ht
      simp only [List.nil_append, behindName, skipBlanks_cons hb, if_neg hclose]

section

variable {fields : FieldReaders}

theorem orderly_readField (hfields : ∀ f ∈ fields, Orderly false f.2)
    (seen : List (String × Json)) : Orderly false (readField fields seen) := by
  intro s
  refine (orderly_readStringBody s).weaken.bind_pair fun name r _ => ?_
  cases hreader : fields.lookup name with
  | none =>
      simp only [hreader]
      exact (orderly_readColon r).bind_rest fun t _ =>
        (orderly_skipValue t).bind_rest fun t _ => .done_pair seen fun _ => rfl
  | some reader =>
      have hreads := hfields _ (mem_of_lookup_field hreader)
      by_cases hseen : (seen.lookup name).isSome = true
      · simp only [hreader, if_pos hseen]
        exact orderly_behindName name r
      · simp only [hreader, if_neg hseen]
        exact (orderly_readColon r).bind_rest fun t _ =>
          (hreads t).bind_pair fun v t _ => .done_pair ((name, v) :: seen) fun _ => rfl

theorem readFields_eq_rounds (fuel : Nat) (seen : List (String × Json)) (s : Bytes) :
    readFields fields fuel seen s =
      rounds (sequenceStep nextMember (readField fields) id) (atHere .unfinishedObject)
        fuel seen s := by
  induction fuel generalizing seen s with
  | zero => rfl
  | succ fuel ih =>
      rw [readFields, rounds, sequenceStep]
      cases nextMember s with
      | error f => rfl
      | ok x =>
          cases x with
          | done r => rfl
          | item r =>
              simp only [bind, Except.bind]
              cases readField fields seen r with
              | error f => rfl
              | ok y => exact ih _ _

theorem orderly_readFieldsBody (hfields : ∀ f ∈ fields, Orderly false f.2) :
    Orderly false (readFieldsBody fields) := by
  have hloop : ∀ seen, Orderly false fun s => readFields fields (s.length + 1) seen s := by
    simp only [readFields_eq_rounds]
    exact orderly_sequence orderly_nextMember (fun _ _ => nextMember_shorter)
      (orderly_readField hfields)
  intro s
  refine (orderly_firstMember s).bind fun x _ => ?_
  cases x with
  | done r => exact .done_pair [] fun _ => rfl
  | item r => exact (orderly_readField hfields [] r).bind_pair fun seen r _ => hloop seen r

/-- What stands behind a comma where no item is left. -/
def endBehindComma (s : Bytes) : Except Fault Bytes :=
  match skipBlanks s with
  | b :: r => if b = 93 then atNext .trailingComma (b :: r) else atNext .trailingCharacters (b :: r)
  | [] => atNext .trailingCharacters []

theorem orderly_endBehindComma : Orderly false endBehindComma := by
  refine orderly_blanks (fun t => by simp only [endBehindComma, skipBlanks_skipBlanks])
    (.ends .trailingCharacters rfl rfl) fun b r hb => ?_
  by_cases hclose : b = 93
  · exact .cons (.here .trailingComma rfl fun _ => rfl) fun t => by
      simp only [endBehindComma, skipBlanks_cons hb, if_pos hclose]
      rfl
  · exact .cons (.here .trailingCharacters rfl fun _ => rfl) fun t => by
      simp only [endBehindComma, skipBlanks_cons hb, if_neg hclose]
      rfl

theorem orderly_readPositionsEnd : Orderly false readPositionsEnd := by
  refine orderly_blanks (fun t => by simp only [readPositionsEnd, skipBlanks_skipBlanks])
    (.ends .unfinishedList rfl rfl) fun b r hb => ?_
  by_cases hclose : b = 93
  · exact .cons (.done_rest fun _ => rfl) fun t => by
      simp only [readPositionsEnd, skipBlanks_cons hb, if_pos hclose]
  by_cases hcomma : b = 44
  · subst hcomma
    exact (orderly_endBehindComma r).cons fun t => by
      simp only [readPositionsEnd, skipBlanks_cons hb, if_neg hclose, if_true]
      rfl
  · exact .cons (.here .trailingCharacters rfl fun _ => rfl) fun t => by
      simp only [readPositionsEnd, skipBlanks_cons hb, if_neg hclose, if_neg hcomma]
      rfl

theorem orderly_readPositionsText (hfields : ∀ f ∈ fields, Orderly false f.2)
    (seen : List (String × Json)) : Orderly false (readPositionsText fields seen) := by
  induction fields generalizing seen with
  | nil =>
      intro s
      exact (orderly_readPositionsEnd s).bind_rest fun r _ => .done_pair seen fun _ => rfl
  | cons f fields ih =>
      obtain ⟨hreader, hfields⟩ := List.forall_mem_cons.1 hfields
      intro s
      refine (orderly_nextItem s).bind fun x _ => ?_
      cases x with
      | done r => exact .done_pair seen fun _ => rfl
      | item r => exact (hreader r).bind_pair fun v r _ => ih hfields ((f.1, v) :: seen) r

theorem orderly_readPositionsBody (hfields : ∀ f ∈ fields, Orderly false f.2) :
    Orderly false (readPositionsBody fields) := by
  cases fields with
  | nil => exact orderly_readPositionsText hfields []
  | cons f fields =>
      obtain ⟨hreader, hfields⟩ := List.forall_mem_cons.1 hfields
      intro s
      refine (orderly_firstItem s).bind fun x _ => ?_
      cases x with
      | done r => exact .done_pair [] fun _ => rfl
      | item r =>
          exact (hreader r).bind_pair fun v r _ => orderly_readPositionsText hfields [(f.1, v)] r

theorem orderly_readRecordText {record : String} (hrecord : '"' ∉ record.toList)
    (hfields : ∀ f ∈ fields, Orderly false f.2) : Orderly false (readRecordText record fields) := by
  have hwanted : '"' ∉ ("struct " ++ record).toList := by
    rw [String.toList_append, List.mem_append]
    exact fun h => h.elim (by decide) hrecord
  refine orderly_startValue fun b r => ?_
  by_cases hlist : b = 91
  · exact (orderly_readPositionsBody hfields r).cons fun t => if_pos hlist
  by_cases hobject : b = 123
  · exact (orderly_readFieldsBody hfields r).cons
      fun t => (if_neg hlist).trans (if_pos hobject)
  · exact (orderly_findOther hwanted (b :: r)).congr_cons
      fun t => (if_neg hlist).trans (if_neg hobject)

end

end RemoteInspector.Json
