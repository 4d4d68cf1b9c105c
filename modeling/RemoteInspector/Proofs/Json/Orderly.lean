import Mathlib.Data.List.DropRight
import RemoteInspector.Json.RecordText
import RemoteInspector.Proofs.Json.Fitting
import RemoteInspector.Proofs.Json.Tokens

/-!
Values are read in order as well, lists and objects item by item, and so is what is read where a
value of one kind is wanted.
-/

namespace RemoteInspector.Json

open HasRest

variable {ρ : Type} [HasRest ρ]

/-! ### Punctuation -/

@[simp] theorem skipBlanks_skipBlanks (s : Bytes) : skipBlanks (skipBlanks s) = skipBlanks s :=
  List.dropWhile_idempotent _ _

theorem length_skipBlanks (s : Bytes) : (skipBlanks s).length ≤ s.length :=
  (List.dropWhile_suffix isBlank).length_le

/-- A reader that passes over blanks first. -/
theorem orderly_blanks {run : Bytes → Except Fault ρ} {closed : Bool}
    (hrun : ∀ t, run (skipBlanks t) = run t) (hnil : OrderlyAt closed run [])
    (hcons : ∀ b r, isBlank b = false → OrderlyAt closed run (b :: r)) : Orderly closed run := by
  intro s
  refine .blanks ?_ hrun
  cases hs : skipBlanks s with
  | nil => exact hnil
  | cons b r =>
      refine hcons b r ?_
      have hb := List.head?_dropWhile_not isBlank s
      rw [← skipBlanks, hs] at hb
      simpa using hb

theorem orderly_readColon : Orderly false readColon := by
  refine orderly_blanks (fun t => by simp only [readColon, skipBlanks_skipBlanks])
    (.ends .unfinishedObject rfl rfl) fun b r hb => ?_
  by_cases hcolon : b = 58
  · exact .cons (.done_rest fun _ => rfl) fun t => by
      simp only [readColon, skipBlanks_cons hb, if_pos hcolon]
  · exact .cons (.here .expectedColon rfl fun _ => rfl) fun t => by
      simp only [readColon, skipBlanks_cons hb, if_neg hcolon]
      rfl

theorem orderly_firstItem : Orderly false firstItem := by
  refine orderly_blanks (fun t => by simp only [firstItem, skipBlanks_skipBlanks])
    (.ends .unfinishedList rfl rfl) fun b r hb => ?_
  by_cases hclose : b = 93
  · exact .cons (.done (.done []) fun _ => rfl) fun t => by
      simp only [firstItem, skipBlanks_cons hb, if_pos hclose]
      rfl
  · refine (OrderlyAt.done (.item []) fun _ => rfl).congr_cons fun t => ?_
    simp only [firstItem, skipBlanks_cons hb, if_neg hclose]
    rfl

def itemBehindComma (s : Bytes) : Except Fault Next :=
  match skipBlanks s with
  | [] => atNext .unfinishedValue []
  | b :: r => if b = 93 then atNext .trailingComma (b :: r) else .ok (.item (b :: r))

theorem orderly_itemBehindComma : Orderly false itemBehindComma := by
  refine orderly_blanks (fun t => by simp only [itemBehindComma, skipBlanks_skipBlanks])
    (.ends .unfinishedValue rfl rfl) fun b r hb => ?_
  by_cases hclose : b = 93
  · exact .cons (.here .trailingComma rfl fun _ => rfl) fun t => by
      simp only [itemBehindComma, skipBlanks_cons hb, if_pos hclose]
      rfl
  · refine (OrderlyAt.done (.item []) fun _ => rfl).congr_cons fun t => ?_
    simp only [itemBehindComma, skipBlanks_cons hb, if_neg hclose]
    rfl

theorem orderly_nextItem : Orderly false nextItem := by
  refine orderly_blanks (fun t => by simp only [nextItem, skipBlanks_skipBlanks])
    (.ends .unfinishedList rfl rfl) fun b r hb => ?_
  by_cases hclose : b = 93
  · exact .cons (.done (.done []) fun _ => rfl) fun t => by
      simp only [nextItem, skipBlanks_cons hb, if_pos hclose]
      rfl
  by_cases hcomma : b = 44
  · subst hcomma
    exact (orderly_itemBehindComma r).cons fun t => by
      simp only [nextItem, skipBlanks_cons hb]
      rfl
  · exact .cons (.here .expectedListEnd rfl fun _ => rfl) fun t => by
      simp only [nextItem, skipBlanks_cons hb, if_neg hclose, if_pos hcomma]
      rfl

theorem orderly_firstMember : Orderly false firstMember := by
  refine orderly_blanks (fun t => by simp only [firstMember, skipBlanks_skipBlanks])
    (.ends .unfinishedObject rfl rfl) fun b r hb => ?_
  by_cases hclose : b = 125
  · exact .cons (.done (.done []) fun _ => rfl) fun t => by
      simp only [firstMember, skipBlanks_cons hb, if_pos hclose]
      rfl
  by_cases hquote : b = 34
  · exact .cons (.done (.item []) fun _ => rfl) fun t => by
      simp only [firstMember, skipBlanks_cons hb, if_neg hclose, if_pos hquote]
      rfl
  · exact .cons (.here .keyNotString rfl fun _ => rfl) fun t => by
      simp only [firstMember, skipBlanks_cons hb, if_neg hclose, if_neg hquote]
      rfl

def memberBehindComma (s : Bytes) : Except Fault Next :=
  match skipBlanks s with
  | [] => atNext .unfinishedValue []
  | b :: r =>
    if b = 34 then .ok (.item r)
    else if b = 125 then atNext .trailingComma (b :: r)
    else atNext .keyNotString (b :: r)

theorem orderly_memberBehindComma : Orderly false memberBehindComma := by
  refine orderly_blanks (fun t => by simp only [memberBehindComma, skipBlanks_skipBlanks])
    (.ends .unfinishedValue rfl rfl) fun b r hb => ?_
  by_cases hquote : b = 34
  · exact .cons (.done (.item []) fun _ => rfl) fun t => by
      simp only [memberBehindComma, skipBlanks_cons hb, if_pos hquote]
      rfl
  by_cases hclose : b = 125
  · exact .cons (.here .trailingComma rfl fun _ => rfl) fun t => by
      simp only [memberBehindComma, skipBlanks_cons hb, if_neg hquote, if_pos hclose]
      rfl
  · exact .cons (.here .keyNotString rfl fun _ => rfl) fun t => by
      simp only [memberBehindComma, skipBlanks_cons hb, if_neg hquote, if_neg hclose]
      rfl

theorem orderly_nextMember : Orderly false nextMember := by
  refine orderly_blanks (fun t => by simp only [nextMember, skipBlanks_skipBlanks])
    (.ends .unfinishedObject rfl rfl) fun b r hb => ?_
  by_cases hclose : b = 125
  · exact .cons (.done (.done []) fun _ => rfl) fun t => by
      simp only [nextMember, skipBlanks_cons hb, if_pos hclose]
      rfl
  by_cases hcomma : b = 44
  · subst hcomma
    exact (orderly_memberBehindComma r).cons fun t => by
      simp only [nextMember, skipBlanks_cons hb]
      rfl
  · exact .cons (.here .expectedObjectEnd rfl fun _ => rfl) fun t => by
      simp only [nextMember, skipBlanks_cons hb, if_neg hclose, if_pos hcomma]
      rfl

/-- A comma at least stands before an item that is not the first. -/
theorem nextItem_shorter {s r : Bytes} (h : nextItem s = .ok (.item r)) : r.length < s.length := by
  unfold nextItem at h
  have hs := length_skipBlanks s
  split at h
  · cases h
  · next b t ht =>
    rw [ht] at hs
    split_ifs at h
    · cases h
    · cases h
    · have hitem : itemBehindComma t = .ok (.item r) := h
      have hlength := (orderly_itemBehindComma t).length_le hitem
      exact Nat.lt_of_lt_of_le (Nat.lt_succ_of_le hlength) hs

theorem nextMember_shorter {s r : Bytes} (h : nextMember s = .ok (.item r)) :
    r.length < s.length := by
  unfold nextMember at h
  have hs := length_skipBlanks s
  split at h
  · cases h
  · next b t ht =>
    rw [ht] at hs
    split_ifs at h
    · cases h
    · cases h
    · have hmember : memberBehindComma t = .ok (.item r) := h
      have hlength := (orderly_memberBehindComma t).length_le hmember
      exact Nat.lt_of_lt_of_le (Nat.lt_succ_of_le hlength) hs

/-! ### Sequences -/

section

variable {β γ : Type} {next : Bytes → Except Fault Next} {take : β → Reader β} {finish : β → γ}
  {spent : Bytes → Except Fault (γ × Bytes)}

/-- One round of reading a sequence: `next` finds an item or the end, and `take` adds the item to
what has been read before. -/
def sequenceStep (next : Bytes → Except Fault Next) (take : β → Reader β) (finish : β → γ)
    (seen : β) (s : Bytes) : Except Fault (Round β (γ × Bytes)) := do
  match ← next s with
  | .done r => .ok (.done (finish seen, r))
  | .item r => (take seen r).map fun (seen, r) => .again seen r

theorem orderly_sequenceStep (hnext : Orderly false next)
    (htake : ∀ seen, Orderly false (take seen)) (seen : β) :
    Orderly false (sequenceStep next take finish seen) := by
  intro s
  refine (hnext s).bind fun x _ => ?_
  cases x with
  | done r => exact .done (.done (finish seen, [])) fun _ => rfl
  | item r => exact .map _ (htake seen r) fun _ _ => rfl

/-- If something stands before every item, every round takes a byte or more. -/
theorem sequenceStep_shorter (hshorter : ∀ s r, next s = .ok (.item r) → r.length < s.length)
    (htake : ∀ seen, Orderly false (take seen)) (seen : β) (s : Bytes) (seen' : β) (r : Bytes)
    (h : sequenceStep next take finish seen s = .ok (.again seen' r)) : r.length < s.length := by
  obtain ⟨x, hx, h⟩ := bind_ok h
  cases x with
  | done t => cases h
  | item t =>
      obtain ⟨y, hy, heq⟩ := map_ok h
      cases heq
      exact Nat.lt_of_le_of_lt ((htake seen t).length_le hy) (hshorter s t hx)

theorem orderly_sequence (hnext : Orderly false next)
    (hshorter : ∀ s r, next s = .ok (.item r) → r.length < s.length)
    (htake : ∀ seen, Orderly false (take seen)) (seen : β) :
    Orderly false fun s => rounds (sequenceStep next take finish) spent (s.length + 1) seen s :=
  orderly_rounds (orderly_sequenceStep hnext htake) (sequenceStep_shorter hshorter htake) seen

end

/-! ### Lists and objects -/

section

variable {α : Type} {item : Reader α}

def readItem (item : Reader α) (seen : List α) : Reader (List α) := fun s =>
  (item s).map fun (v, r) => (v :: seen, r)

theorem readItems_eq_rounds (fuel : Nat) (seen : List α) (s : Bytes) :
    readItems item fuel seen s =
      rounds (sequenceStep nextItem (readItem item) List.reverse) (atHere .unfinishedList)
        fuel seen s := by
  induction fuel generalizing seen s with
  | zero => rfl
  | succ fuel ih =>
      rw [readItems, rounds, sequenceStep]
      cases nextItem s with
      | error f => rfl
      | ok x =>
          cases x with
          | done r => rfl
          | item r =>
              simp only [readItem, bind, Except.bind]
              cases item r with
              | error f => rfl
              | ok y => exact ih _ _

theorem orderly_readListBody (hitem : Orderly false item) : Orderly false (readListBody item) := by
  have htake : ∀ seen, Orderly false (readItem item seen) := fun seen s =>
    .map _ (hitem s) fun _ _ => rfl
  have hitems : ∀ seen, Orderly false fun s => readItems item (s.length + 1) seen s := by
    simp only [readItems_eq_rounds]
    exact orderly_sequence orderly_nextItem (fun _ _ => nextItem_shorter) htake
  intro s
  refine (orderly_firstItem s).bind fun x _ => ?_
  cases x with
  | done r => exact .done_pair [] fun _ => rfl
  | item r => exact (hitem r).bind_pair fun v r _ => hitems [v] r

variable {value : Reader Json}

theorem orderly_readMember (hvalue : Orderly false value) : Orderly false (readMember value) := by
  intro s
  refine (orderly_readStringBody s).weaken.bind_pair fun name r _ => ?_
  refine (orderly_readColon r).bind_rest fun r _ => ?_
  exact (hvalue r).bind_pair fun v r _ => .done_pair (name, v) fun _ => rfl

def readMemberInto (value : Reader Json) (seen : List (String × Json)) :
    Reader (List (String × Json)) := fun s =>
  (readMember value s).map fun ((name, v), r) => (put name v seen, r)

theorem readMembers_eq_rounds (fuel : Nat) (seen : List (String × Json)) (s : Bytes) :
    readMembers value fuel seen s =
      rounds (sequenceStep nextMember (readMemberInto value) id) (atHere .unfinishedObject)
        fuel seen s := by
  induction fuel generalizing seen s with
  | zero => rfl
  | succ fuel ih =>
      rw [readMembers, rounds, sequenceStep]
      cases nextMember s with
      | error f => rfl
      | ok x =>
          cases x with
          | done r => rfl
          | item r =>
              simp only [readMemberInto, bind, Except.bind]
              cases readMember value r with
              | error f => rfl
              | ok y => exact ih _ _

theorem orderly_readObjectBody (hvalue : Orderly false value) :
    Orderly false (readObjectBody value) := by
  have htake : ∀ seen, Orderly false (readMemberInto value seen) := fun seen s =>
    .map _ (orderly_readMember hvalue s) fun _ _ => rfl
  have hmembers : ∀ seen, Orderly false fun s => readMembers value (s.length + 1) seen s := by
    simp only [readMembers_eq_rounds]
    exact orderly_sequence orderly_nextMember (fun _ _ => nextMember_shorter) htake
  intro s
  refine (orderly_firstMember s).bind fun x _ => ?_
  cases x with
  | done r => exact .done_pair [] fun _ => rfl
  | item r => exact (orderly_readMember hvalue r).bind_pair fun m r _ => hmembers (put m.1 m.2 []) r

end

theorem orderly_readValue (depth : Nat) : Orderly false (readValue depth) := by
  induction depth with
  | zero => exact fun s => .next .tooDeep rfl fun _ => rfl
  | succ depth ih =>
      refine orderly_blanks (fun t => by simp only [readValue, skipBlanks_skipBlanks])
        (.ends .unfinishedValue rfl rfl) fun b r hb => ?_
      by_cases hnull : b = 110
      · have hword := OrderlyAt.map (fun r => (Json.null, r)) (orderly_readWord restOfNull r).weaken
          fun _ _ => rfl
        exact hword.cons fun t => by
          simp only [readValue, skipBlanks_cons hb, if_pos hnull]
      by_cases htrue : b = 116
      · have hword := OrderlyAt.map (fun r => (Json.bool true, r))
          (orderly_readWord restOfTrue r).weaken fun _ _ => rfl
        exact hword.cons fun t => by
          simp only [readValue, skipBlanks_cons hb, if_neg hnull, if_pos htrue]
      by_cases hfalse : b = 102
      · have hword := OrderlyAt.map (fun r => (Json.bool false, r))
          (orderly_readWord restOfFalse r).weaken fun _ _ => rfl
        exact hword.cons fun t => by
          simp only [readValue, skipBlanks_cons hb, if_neg hnull, if_neg htrue, if_pos hfalse]
      by_cases hnumber : b = 45 ∨ isDigit b = true
      · have hread := OrderlyAt.map (fun x => (Json.number x.1, x.2)) (orderly_readNumber (b :: r))
          fun _ _ => rfl
        exact hread.congr_cons fun t => by
          simp only [readValue, skipBlanks_cons hb, if_neg hnull, if_neg htrue, if_neg hfalse,
            if_pos hnumber]
      by_cases hquote : b = 34
      · have hread := OrderlyAt.map (fun x => (Json.string x.1, x.2))
          (orderly_readStringBody r).weaken fun _ _ => rfl
        exact hread.cons fun t => by
          simp only [readValue, skipBlanks_cons hb, if_neg hnull, if_neg htrue, if_neg hfalse,
            if_neg hnumber, if_pos hquote]
      by_cases hlist : b = 91
      · by_cases hdepth : depth = 0
        · exact .cons (.here .tooDeep rfl fun _ => rfl) fun t => by
            simp only [readValue, skipBlanks_cons hb, if_neg hnull, if_neg htrue, if_neg hfalse,
              if_neg hnumber, if_neg hquote, if_pos hlist, if_pos hdepth]
            rfl
        · have hread := OrderlyAt.map (fun x => (Json.array x.1, x.2)) (orderly_readListBody ih r)
            fun _ _ => rfl
          exact hread.cons fun t => by
            simp only [readValue, skipBlanks_cons hb, if_neg hnull, if_neg htrue, if_neg hfalse,
              if_neg hnumber, if_neg hquote, if_pos hlist, if_neg hdepth]
      by_cases hobject : b = 123
      · by_cases hdepth : depth = 0
        · exact .cons (.here .tooDeep rfl fun _ => rfl) fun t => by
            simp only [readValue, skipBlanks_cons hb, if_neg hnull, if_neg htrue, if_neg hfalse,
              if_neg hnumber, if_neg hquote, if_neg hlist, if_pos hobject, if_pos hdepth]
            rfl
        · have hread := OrderlyAt.map (fun x => (Json.object x.1, x.2))
            (orderly_readObjectBody ih r) fun _ _ => rfl
          exact hread.cons fun t => by
            simp only [readValue, skipBlanks_cons hb, if_neg hnull, if_neg htrue, if_neg hfalse,
              if_neg hnumber, if_neg hquote, if_neg hlist, if_pos hobject, if_neg hdepth]
      · exact .cons (.here .expectedValue rfl fun _ => rfl) fun t => by
          simp only [readValue, skipBlanks_cons hb, if_neg hnull, if_neg htrue, if_neg hfalse,
            if_neg hnumber, if_neg hquote, if_neg hlist, if_neg hobject]
          rfl

/-! ### Values of one kind -/

section

variable {wanted : String}

def refuse (found : Found) (wanted : String) (r : Bytes) : Except Fault ρ :=
  atHere (.mismatch (.wrongType found wanted)) r

theorem orderly_findWord (word : Bytes) (found : Found) (hfound : found.isString = false) :
    Orderly false fun s => readWord word s >>= fun r => (refuse found wanted r : Except Fault ρ) :=
  fun s => (orderly_readWord word s).weaken.bind_rest
    fun _ _ => .wrong found wanted hfound fun _ => rfl

theorem orderly_findNumber : Orderly false fun s =>
    readNumber s >>= fun x => (refuse x.1.found wanted x.2 : Except Fault ρ) := by
  intro s
  refine (orderly_readNumber s).bind_pair fun n r _ => .wrong n.found wanted ?_ fun _ => rfl
  cases n <;> rfl

/-- What stands behind a quote where no string is wanted. -/
theorem orderly_findString (hwanted : '"' ∉ wanted.toList) {run : Bytes → Except Fault ρ}
    (hrun : ∀ t, run (34 :: t) = readStringBody t >>= fun x => refuse (.string x.1) wanted x.2)
    (s : Bytes) : OrderlyAt false run (34 :: s) := by
  cases hread : readStringBody s with
  | error f =>
      refine .cons ((orderly_readStringBody s).weaken.bind_pair fun x r hx => ?_) hrun
      rw [hread] at hx
      cases hx
  | ok x =>
      obtain ⟨body, rfl, hlit⟩ := isLiteral_of_readStringBody hread
      refine .string (r := x.2) hwanted hlit fun x' lit' r' hlit' => ?_
      obtain ⟨body', rfl, hbody'⟩ := hlit'
      rw [List.cons_append, hrun, hbody' r']
      rfl

theorem orderly_findOther {α : Type} (hwanted : '"' ∉ wanted.toList) :
    Orderly false (findOther wanted : Reader α) := by
  intro s
  cases s with
  | nil => exact .ends .expectedValue rfl rfl
  | cons b r =>
      by_cases hnull : b = 110
      · exact (orderly_findWord restOfNull .null rfl r).cons fun t => by
          simp only [findOther, if_pos hnull]
          rfl
      by_cases htrue : b = 116
      · exact (orderly_findWord restOfTrue (.bool true) rfl r).cons fun t => by
          simp only [findOther, if_neg hnull, if_pos htrue]
          rfl
      by_cases hfalse : b = 102
      · exact (orderly_findWord restOfFalse (.bool false) rfl r).cons fun t => by
          simp only [findOther, if_neg hnull, if_neg htrue, if_pos hfalse]
          rfl
      by_cases hnumber : b = 45 ∨ isDigit b = true
      · exact (orderly_findNumber (b :: r)).congr_cons fun t => by
          simp only [findOther, if_neg hnull, if_neg htrue, if_neg hfalse, if_pos hnumber]
          rfl
      by_cases hquote : b = 34
      · subst hquote
        refine orderly_findString hwanted (fun t => ?_) r
        simp only [findOther, if_neg hnull, if_neg htrue, if_neg hfalse, if_neg hnumber, if_true]
        rfl
      by_cases hlist : b = 91
      · refine (OrderlyAt.wrong .sequence wanted rfl fun _ => rfl).congr_cons
          fun t => ?_
        simp only [findOther, if_neg hnull, if_neg htrue, if_neg hfalse, if_neg hnumber,
          if_neg hquote, if_pos hlist]
        rfl
      by_cases hobject : b = 123
      · refine (OrderlyAt.wrong .map wanted rfl fun _ => rfl).congr_cons fun t => ?_
        simp only [findOther, if_neg hnull, if_neg htrue, if_neg hfalse, if_neg hnumber,
          if_neg hquote, if_neg hlist, if_pos hobject]
        rfl
      · exact .cons (.here .expectedValue rfl fun _ => rfl) fun t => by
          simp only [findOther, if_neg hnull, if_neg htrue, if_neg hfalse, if_neg hnumber,
            if_neg hquote, if_neg hlist, if_neg hobject]
          rfl

end

def onFirst {α : Type} (first : UInt8 × Bytes → Except Fault α) : Bytes → Except Fault α
  | [] => atNext .unfinishedValue []
  | b :: r => first (b, r)

theorem startValue_bind {α : Type} (first : UInt8 × Bytes → Except Fault α) (s : Bytes) :
    startValue s >>= first = onFirst first (skipBlanks s) := by
  rw [startValue]
  cases skipBlanks s <;> rfl

/-- A reader that goes by the first byte of a value. -/
theorem orderly_startValue {first : UInt8 × Bytes → Except Fault ρ}
    (hfirst : ∀ b r, OrderlyAt false (onFirst first) (b :: r)) :
    Orderly false fun s => startValue s >>= first := by
  simp only [startValue_bind]
  refine orderly_blanks (fun t => by rw [skipBlanks_skipBlanks])
    (.ends .unfinishedValue rfl rfl) fun b r hb => ?_
  exact (hfirst b r).congr_cons fun t => by rw [skipBlanks_cons hb]

def fitUInt64 (x : Number × Bytes) : Except Fault (Json × Bytes) :=
  match x.1.toUInt64? with
  | some _ => .ok (.number x.1, x.2)
  | none => atHere (.mismatch x.1.notUInt64) x.2

theorem orderly_fitNumber : Orderly false fun s => readNumber s >>= fitUInt64 := by
  intro s
  refine (orderly_readNumber s).bind_pair fun n r _ => ?_
  cases hn : n.toUInt64? with
  | some u => exact .done_pair (Json.number n) fun t => by simp only [fitUInt64, hn]
  | none =>
      have hreason : ∀ x wanted, Reason.mismatch n.notUInt64 ≠ wrongString x wanted := by
        intro x wanted heq
        cases n <;> cases heq
      refine .fault _ [] hreason rfl fun t _ => ?_
      simp only [fitUInt64, hn]
      rfl

theorem orderly_readUInt64 : Orderly false readUInt64 := by
  refine orderly_startValue fun b r => ?_
  by_cases hnumber : b = 45 ∨ isDigit b = true
  · exact (orderly_fitNumber (b :: r)).congr_cons fun t => if_pos hnumber
  · have hwanted : '"' ∉ "u64".toList := by decide
    exact (orderly_findOther hwanted (b :: r)).congr_cons fun t => if_neg hnumber

theorem orderly_readString : Orderly false readString := by
  refine orderly_startValue fun b r => ?_
  by_cases hquote : b = 34
  · have hread : OrderlyAt false
        (fun t => readStringBody t >>= fun x => .ok (Json.string x.1, x.2)) r :=
      (orderly_readStringBody r).weaken.bind_pair fun x _ _ => .done_pair (.string x) fun _ => rfl
    exact hread.cons fun t => if_pos hquote
  · have hwanted : '"' ∉ "a string".toList := by decide
    exact (orderly_findOther hwanted (b :: r)).congr_cons fun t => if_neg hquote

theorem orderly_readBool : Orderly false readBool := by
  refine orderly_startValue fun b r => ?_
  by_cases htrue : b = 116
  · have hword := OrderlyAt.map (fun r => (Json.bool true, r))
      (orderly_readWord restOfTrue r).weaken fun _ _ => rfl
    exact hword.cons fun t => if_pos htrue
  by_cases hfalse : b = 102
  · have hword := OrderlyAt.map (fun r => (Json.bool false, r))
      (orderly_readWord restOfFalse r).weaken fun _ _ => rfl
    exact hword.cons fun t => (if_neg htrue).trans (if_pos hfalse)
  · have hwanted : '"' ∉ "a boolean".toList := by decide
    exact (orderly_findOther hwanted (b :: r)).congr_cons
      fun t => (if_neg htrue).trans (if_neg hfalse)

theorem orderly_readList (depth : Nat) : Orderly false (readList depth) := by
  refine orderly_startValue fun b r => ?_
  by_cases hlist : b = 91
  · by_cases hdepth : depth = 0
    · exact .cons (.here .tooDeep rfl fun _ => rfl) fun t => (if_pos hlist).trans (if_pos hdepth)
    · have hread : OrderlyAt false
          (fun t => readListBody (readValue depth) t >>= fun x => .ok (Json.array x.1, x.2)) r :=
        (orderly_readListBody (orderly_readValue depth) r).bind_pair
          fun vs _ _ => .done_pair (.array vs) fun _ => rfl
      exact hread.cons fun t => (if_pos hlist).trans (if_neg hdepth)
  · have hwanted : '"' ∉ "a sequence".toList := by decide
    exact (orderly_findOther hwanted (b :: r)).congr_cons fun t => if_neg hlist

theorem orderly_readOrNull {reader : Reader Json} (hreader : Orderly false reader) :
    Orderly false (readOrNull reader) := by
  refine orderly_blanks (fun t => by simp only [readOrNull, skipBlanks_skipBlanks])
    ((hreader []).congr_nil rfl) fun b r hb => ?_
  by_cases hnull : b = 110
  · have hword := OrderlyAt.map (fun r => (Json.null, r)) (orderly_readWord restOfNull r).weaken
      fun _ _ => rfl
    exact hword.cons fun t => by simp only [readOrNull, skipBlanks_cons hb, if_pos hnull]
  · exact (hreader (b :: r)).congr_cons fun t => by
      simp only [readOrNull, skipBlanks_cons hb, if_neg hnull]

end RemoteInspector.Json
