import RemoteInspector.Json.Reader
import RemoteInspector.Proofs.Json.Numeral
import RemoteInspector.Proofs.Json.StringText

/-!
Values read back as they were written. A value `Fits` a depth if it is nested less deep than that and
the members of its objects are sorted. All that is read fits, and what fits is read back, on condition
that its reals are.
-/

namespace RemoteInspector.Json

open Text

/-! ### What is written -/

def written (v : Json) : Bytes := utf8 v.text

def writtenItems (vs : List Json) : Bytes := vs.flatMap fun v => 44 :: written v

/-- The bytes of a member behind the quote of its name. -/
def writtenMember (m : String × Json) : Bytes := writtenRest m.1 ++ 58 :: written m.2

/-- The bytes of the members of an object behind the first. -/
def writtenMembers (ms : List (String × Json)) : Bytes :=
  ms.flatMap fun m => 44 :: 34 :: writtenMember m

theorem written_eq (v : Json) : written v = utf8 (write "" v) := rfl

mutual

/-- A value is written behind what has been written already. -/
theorem utf8_write (out : String) : (v : Json) → utf8 (write out v) = utf8 out ++ written v
  | .null => by simp [written_eq, write]
  | .bool true => by simp [written_eq, write]
  | .bool false => by simp [written_eq, write]
  | .number n => by simp [written_eq, write]
  | .string s => by simp [written_eq, write, utf8_writeString]
  | .array [] => by simp [written_eq, write]
  | .array (v :: vs) => by
    rw [written_eq]
    simp only [write, utf8_push, utf8_writeItems, utf8_write, utf8_empty, List.append_assoc,
      List.nil_append]
  | .object [] => by simp [written_eq, write]
  | .object ((k, v) :: rest) => by
    rw [written_eq]
    simp only [write, utf8_push, utf8_writeMembers, utf8_write, utf8_writeString, utf8_empty,
      List.append_assoc, List.nil_append]

theorem utf8_writeItems (out : String) :
    (vs : List Json) → utf8 (writeItems out vs) = utf8 out ++ writtenItems vs
  | [] => by simp [writeItems, writtenItems]
  | v :: vs => by
    have hcomma : String.utf8EncodeChar ',' = [44] := rfl
    simp only [writeItems, utf8_writeItems, utf8_write, utf8_push, hcomma, writtenItems,
      List.flatMap_cons, List.append_assoc, List.cons_append, List.nil_append]

theorem utf8_writeMembers (out : String) :
    (ms : List (String × Json)) → utf8 (writeMembers out ms) = utf8 out ++ writtenMembers ms
  | [] => by simp [writeMembers, writtenMembers]
  | (k, v) :: ms => by
    have hcomma : String.utf8EncodeChar ',' = [44] := rfl
    have hcolon : String.utf8EncodeChar ':' = [58] := rfl
    simp only [writeMembers, utf8_writeMembers, utf8_write, utf8_writeString, utf8_push, hcomma,
      hcolon, writtenMembers, writtenMember, List.flatMap_cons, List.append_assoc, List.cons_append,
      List.nil_append]

end

theorem written_bool (b : Bool) :
    written (.bool b) = if b then 116 :: restOfTrue else 102 :: restOfFalse := by
  cases b <;> rfl

theorem written_number (n : Number) : written (.number n) = utf8 n.text := by
  simp [written_eq, write]

theorem written_string (s : String) : written (.string s) = 34 :: writtenRest s := by
  simp [written_eq, write, utf8_writeString]

theorem written_array_nil : written (.array []) = [91, 93] := rfl

theorem written_array_cons (v : Json) (vs : List Json) :
    written (.array (v :: vs)) = 91 :: (written v ++ (writtenItems vs ++ [93])) := by
  have hopen : String.utf8EncodeChar '[' = [91] := rfl
  have hclose : String.utf8EncodeChar ']' = [93] := rfl
  rw [written_eq]
  simp only [write, utf8_push, utf8_writeItems, utf8_write, utf8_empty, hopen, hclose,
    List.append_assoc, List.nil_append, List.cons_append]

theorem written_object_nil : written (.object []) = [123, 125] := rfl

theorem written_object_cons (m : String × Json) (ms : List (String × Json)) :
    written (.object (m :: ms)) =
      123 :: 34 :: (writtenMember m ++ (writtenMembers ms ++ [125])) := by
  have hopen : String.utf8EncodeChar '\x7b' = [123] := rfl
  have hclose : String.utf8EncodeChar '\x7d' = [125] := rfl
  have hcolon : String.utf8EncodeChar ':' = [58] := rfl
  obtain ⟨k, v⟩ := m
  rw [written_eq]
  simp only [write, utf8_push, utf8_writeMembers, utf8_write, utf8_writeString, writtenMember,
    utf8_empty, hopen, hclose, hcolon, List.append_assoc, List.nil_append, List.cons_append]

/-! ### Values that fit -/

def Sorted (ms : List (String × Json)) : Prop := ms.Pairwise fun a b => a.1 < b.1

/-- The value is nested less deep than `depth`, the members of its objects are sorted, and all its
numbers are as they should be. -/
def Fits (number : Number → Prop) : (depth : Nat) → Json → Prop
  | 0, _ => False
  | _ + 1, .null => True
  | _ + 1, .bool _ => True
  | _ + 1, .number n => number n
  | _ + 1, .string _ => True
  | depth + 1, .array items => depth ≠ 0 ∧ ∀ v ∈ items, Fits number depth v
  | depth + 1, .object members =>
    depth ≠ 0 ∧ Sorted members ∧ ∀ m ∈ members, Fits number depth m.2

mutual

def reals : Json → List Binary64
  | .number (.real x) => [x]
  | .array items => realsOfItems items
  | .object members => realsOfMembers members
  | _ => []

def realsOfItems : List Json → List Binary64
  | [] => []
  | v :: vs => v.reals ++ realsOfItems vs

def realsOfMembers : List (String × Json) → List Binary64
  | [] => []
  | (_, v) :: rest => v.reals ++ realsOfMembers rest

end

/-- The number is written so that it reads back. -/
def Number.IsReproducible (n : Number) : Prop := readNumber (utf8 n.text) = .ok (n, [])

instance (n : Number) : Decidable n.IsReproducible :=
  inferInstanceAs (Decidable (readNumber (utf8 n.text) = .ok (n, [])))

theorem Number.reproducible_integer {n : Int} (hn : (Number.integer n).InRange) :
    (Number.integer n).IsReproducible := by
  have hread := readNumber_integer hn .nil
  rwa [List.append_nil] at hread

theorem reals_item {v : Json} {items : List Json} (hv : v ∈ items) :
    ∀ x ∈ v.reals, x ∈ realsOfItems items := by
  intro x hx
  induction items with
  | nil => exact (List.not_mem_nil hv).elim
  | cons w ws ih =>
      rw [realsOfItems, List.mem_append]
      rcases List.mem_cons.1 hv with rfl | hv
      · exact .inl hx
      · exact .inr (ih hv)

theorem reals_member {m : String × Json} {members : List (String × Json)} (hm : m ∈ members) :
    ∀ x ∈ m.2.reals, x ∈ realsOfMembers members := by
  intro x hx
  induction members with
  | nil => exact (List.not_mem_nil hm).elim
  | cons w ws ih =>
      obtain ⟨k, v⟩ := w
      rw [realsOfMembers, List.mem_append]
      rcases List.mem_cons.1 hm with rfl | hm
      · exact .inl hx
      · exact .inr (ih hm)

/-- Integers are always read back, so it is enough to know it of the reals. -/
theorem Fits.reproducible {depth : Nat} {v : Json} (h : Fits Number.InRange depth v)
    (hreals : ∀ x ∈ v.reals, (Number.real x).IsReproducible) :
    Fits Number.IsReproducible depth v := by
  induction depth generalizing v with
  | zero => exact h
  | succ depth ih =>
      cases v with
      | null => trivial
      | bool b => trivial
      | number n =>
          cases n with
          | integer n => exact Number.reproducible_integer h
          | real x => exact hreals x (by simp [reals])
      | string s => trivial
      | array items =>
          refine ⟨h.1, fun v hv => ih (h.2 v hv) fun x hx => hreals x ?_⟩
          rw [reals]
          exact reals_item hv x hx
      | object members =>
          refine ⟨h.1, h.2.1, fun m hm => ih (h.2.2 m hm) fun x hx => hreals x ?_⟩
          rw [reals]
          exact reals_member hm x hx

/-! ### Reading back -/

section

variable {depth : Nat} {r : Bytes}

theorem skipBlanks_cons {b : UInt8} (hb : isBlank b = false) (r : Bytes) :
    skipBlanks (b :: r) = b :: r := by
  simp [skipBlanks, hb]

theorem blank_cases {b : UInt8} (hb : isBlank b = true) : b = 32 ∨ b = 10 ∨ b = 9 ∨ b = 13 := by
  simpa [isBlank, or_assoc] using hb

/-- A number begins unlike anything else. -/
theorem number_start {b : UInt8} (hb : b = 45 ∨ isDigit b = true) :
    isBlank b = false ∧ b ≠ 93 ∧ b ≠ 110 ∧ b ≠ 116 ∧ b ≠ 102 := by
  rcases hb with rfl | hb
  · decide
  · have hne : ∀ c : UInt8, isDigit c = false → b ≠ c := by
      rintro c hc rfl
      rw [hb] at hc
      cases hc
    refine ⟨?_, hne 93 rfl, hne 110 rfl, hne 116 rfl, hne 102 rfl⟩
    rw [← Bool.not_eq_true]
    intro hblank
    rcases blank_cases hblank with rfl | rfl | rfl | rfl <;> cases hb

/-- The first byte of a value is no blank and does not end a list. -/
theorem written_start {v : Json} (h : Fits Number.IsReproducible depth v) :
    ∃ b t, written v = b :: t ∧ isBlank b = false ∧ b ≠ 93 ∧ (b = 110 → v = .null) := by
  cases depth with
  | zero => exact h.elim
  | succ depth =>
      cases v with
      | null => exact ⟨110, restOfNull, rfl, rfl, by decide, fun _ => rfl⟩
      | bool b =>
          cases b with
          | false => exact ⟨102, restOfFalse, rfl, rfl, by decide, nofun⟩
          | true => exact ⟨116, restOfTrue, rfl, rfl, by decide, nofun⟩
      | number n =>
          obtain ⟨b, t, heq, hb⟩ := readNumber_start h
          obtain ⟨hblank, hclose, hnull, -⟩ := number_start hb
          exact ⟨b, t, (written_number n).trans heq, hblank, hclose, fun hb => (hnull hb).elim⟩
      | string s => exact ⟨34, _, written_string s, rfl, by decide, nofun⟩
      | array items =>
          cases items with
          | nil => exact ⟨91, _, written_array_nil, rfl, by decide, nofun⟩
          | cons v vs => exact ⟨91, _, written_array_cons v vs, rfl, by decide, nofun⟩
      | object members =>
          cases members with
          | nil => exact ⟨123, _, written_object_nil, rfl, by decide, nofun⟩
          | cons m ms => exact ⟨123, _, written_object_cons m ms, rfl, by decide, nofun⟩

theorem endsNumber_items (vs : List Json) (r : Bytes) :
    EndsNumber (writtenItems vs ++ 93 :: r) := by
  cases vs with
  | nil => exact .cons rfl (by decide) (by decide) (by decide) r
  | cons v vs => exact .cons rfl (by decide) (by decide) (by decide) _

theorem endsNumber_members (ms : List (String × Json)) (r : Bytes) :
    EndsNumber (writtenMembers ms ++ 125 :: r) := by
  cases ms with
  | nil => exact .cons rfl (by decide) (by decide) (by decide) r
  | cons m ms => exact .cons rfl (by decide) (by decide) (by decide) _

def ReadsBack (value : Reader Json) (v : Json) : Prop :=
  ∀ r, EndsNumber r → value (written v ++ r) = .ok (v, r)

variable {value : Reader Json}

theorem readItems_written {vs : List Json} (hfits : ∀ v ∈ vs, Fits Number.IsReproducible depth v)
    (hread : ∀ v ∈ vs, ReadsBack value v) (seen : List Json) (r : Bytes) {fuel : Nat}
    (hfuel : (writtenItems vs ++ 93 :: r).length < fuel) :
    readItems value fuel seen (writtenItems vs ++ 93 :: r) = .ok (seen.reverse ++ vs, r) := by
  induction vs generalizing fuel seen with
  | nil =>
      obtain ⟨fuel, rfl⟩ := Nat.exists_eq_succ_of_ne_zero (Nat.ne_zero_of_lt hfuel)
      have hnext : nextItem (93 :: r) = .ok (.done r) := rfl
      simp [readItems, writtenItems, hnext]
  | cons v vs ih =>
      obtain ⟨fuel, rfl⟩ := Nat.exists_eq_succ_of_ne_zero (Nat.ne_zero_of_lt hfuel)
      obtain ⟨b, t, hstart, hblank, hclose, -⟩ := written_start (hfits v List.mem_cons_self)
      have hwritten : writtenItems (v :: vs) ++ 93 :: r =
          44 :: (written v ++ (writtenItems vs ++ 93 :: r)) := by
        simp [writtenItems]
      have hnext : nextItem (44 :: (written v ++ (writtenItems vs ++ 93 :: r))) =
          .ok (.item (written v ++ (writtenItems vs ++ 93 :: r))) := by
        rw [hstart]
        simp only [nextItem, List.cons_append, skipBlanks_cons hblank,
          skipBlanks_cons (b := 44) rfl]
        simp [hclose]
      have hfirst := hread v List.mem_cons_self _ (endsNumber_items vs r)
      rw [hwritten] at hfuel ⊢
      simp only [readItems, hnext, hfirst]
      rw [ih (fun w hw => hfits w (List.mem_cons_of_mem v hw))
        (fun w hw => hread w (List.mem_cons_of_mem v hw)) (v :: seen)]
      · simp
      · simp only [List.length_cons, List.length_append] at hfuel ⊢
        omega

theorem readListBody_written {vs : List Json} (hfits : ∀ v ∈ vs, Fits Number.IsReproducible depth v)
    (hread : ∀ v ∈ vs, ReadsBack value v) (r : Bytes) :
    ∃ t, written (.array vs) = 91 :: t ∧ readListBody value (t ++ r) = .ok (vs, r) := by
  cases vs with
  | nil => exact ⟨[93], rfl, rfl⟩
  | cons v vs =>
      refine ⟨_, written_array_cons v vs, ?_⟩
      obtain ⟨b, t, hstart, hblank, hclose, -⟩ := written_start (hfits v List.mem_cons_self)
      have hwritten : written v ++ (writtenItems vs ++ [93]) ++ r =
          written v ++ (writtenItems vs ++ 93 :: r) := by
        simp
      have hitem : firstItem (written v ++ (writtenItems vs ++ 93 :: r)) =
          .ok (.item (written v ++ (writtenItems vs ++ 93 :: r))) := by
        rw [hstart]
        simp only [firstItem, List.cons_append, skipBlanks_cons hblank]
        simp [hclose]
      have hfirst := hread v List.mem_cons_self _ (endsNumber_items vs r)
      have hrest := readItems_written (fun w hw => hfits w (List.mem_cons_of_mem v hw))
        (fun w hw => hread w (List.mem_cons_of_mem v hw)) [v] r (Nat.lt_succ_self _)
      rw [hwritten, readListBody, hitem]
      simp only [bind, Except.bind, hfirst, hrest]
      rfl

theorem readMember_written {m : String × Json} (hread : ReadsBack value m.2) (hr : EndsNumber r) :
    readMember value (writtenMember m ++ r) = .ok (m, r) := by
  have hwritten : writtenMember m ++ r = writtenRest m.1 ++ 58 :: (written m.2 ++ r) := by
    simp [writtenMember]
  have hcolon : readColon (58 :: (written m.2 ++ r)) = .ok (written m.2 ++ r) := rfl
  rw [hwritten, readMember, readStringBody_writtenRest]
  simp only [bind, Except.bind, hcolon, hread r hr]
  rfl

/-- A name that comes after all others is put behind them. -/
theorem put_last {ms : List (String × Json)} {name : String} (hlast : ∀ m ∈ ms, m.1 < name)
    (v : Json) : put name v ms = ms ++ [(name, v)] := by
  induction ms with
  | nil => rfl
  | cons m ms ih =>
      obtain ⟨k, w⟩ := m
      have hlt : k < name := hlast (k, w) List.mem_cons_self
      rw [put, if_neg (String.lt_asymm hlt), if_neg (String.ne_of_lt hlt).symm,
        ih fun m hm => hlast m (List.mem_cons_of_mem _ hm)]
      rfl

theorem readMembers_written {ms : List (String × Json)} {seen : List (String × Json)}
    (hsorted : Sorted (seen ++ ms)) (hread : ∀ m ∈ ms, ReadsBack value m.2) (r : Bytes) {fuel : Nat}
    (hfuel : (writtenMembers ms ++ 125 :: r).length < fuel) :
    readMembers value fuel seen (writtenMembers ms ++ 125 :: r) = .ok (seen ++ ms, r) := by
  induction ms generalizing fuel seen with
  | nil =>
      obtain ⟨fuel, rfl⟩ := Nat.exists_eq_succ_of_ne_zero (Nat.ne_zero_of_lt hfuel)
      have hnext : nextMember (125 :: r) = .ok (.done r) := rfl
      simp [readMembers, writtenMembers, hnext]
  | cons m ms ih =>
      obtain ⟨fuel, rfl⟩ := Nat.exists_eq_succ_of_ne_zero (Nat.ne_zero_of_lt hfuel)
      have hwritten : writtenMembers (m :: ms) ++ 125 :: r =
          44 :: 34 :: (writtenMember m ++ (writtenMembers ms ++ 125 :: r)) := by
        simp [writtenMembers]
      have hnext : nextMember (44 :: 34 :: (writtenMember m ++ (writtenMembers ms ++ 125 :: r))) =
          .ok (.item (writtenMember m ++ (writtenMembers ms ++ 125 :: r))) := rfl
      have hfirst := readMember_written (hread m List.mem_cons_self) (endsNumber_members ms r)
      have hput : put m.1 m.2 seen = seen ++ [m] := put_last (fun k hk =>
        (List.pairwise_append.1 hsorted).2.2 k hk m List.mem_cons_self) m.2
      rw [hwritten] at hfuel ⊢
      simp only [readMembers, hnext, hfirst, hput]
      rw [ih (by simpa using hsorted) fun k hk => hread k (List.mem_cons_of_mem m hk)]
      · simp
      · simp only [List.length_cons, List.length_append] at hfuel ⊢
        omega

theorem readObjectBody_written {ms : List (String × Json)} (hsorted : Sorted ms)
    (hread : ∀ m ∈ ms, ReadsBack value m.2) (r : Bytes) :
    ∃ t, written (.object ms) = 123 :: t ∧ readObjectBody value (t ++ r) = .ok (ms, r) := by
  cases ms with
  | nil => exact ⟨[125], rfl, rfl⟩
  | cons m ms =>
      refine ⟨_, written_object_cons m ms, ?_⟩
      have hwritten : 34 :: (writtenMember m ++ (writtenMembers ms ++ [125])) ++ r =
          34 :: (writtenMember m ++ (writtenMembers ms ++ 125 :: r)) := by
        simp
      have hitem : firstMember (34 :: (writtenMember m ++ (writtenMembers ms ++ 125 :: r))) =
          .ok (.item (writtenMember m ++ (writtenMembers ms ++ 125 :: r))) := rfl
      have hfirst := readMember_written (hread m List.mem_cons_self) (endsNumber_members ms r)
      have hrest : readMembers value (writtenMembers ms ++ 125 :: r).length.succ [m]
          (writtenMembers ms ++ 125 :: r) = .ok ([m] ++ ms, r) :=
        readMembers_written hsorted (fun k hk => hread k (List.mem_cons_of_mem m hk)) r
          (Nat.lt_succ_self _)
      rw [hwritten, readObjectBody, hitem]
      simp only [bind, Except.bind, hfirst, put, hrest]
      rfl

/-- A value that fits is read back, and what follows it is left. -/
theorem readValue_written {v : Json} (h : Fits Number.IsReproducible depth v) :
    ReadsBack (readValue depth) v := by
  induction depth generalizing v with
  | zero => exact h.elim
  | succ depth ih =>
      intro r hr
      cases v with
      | null => rfl
      | bool b => cases b <;> rfl
      | number n =>
          obtain ⟨b, t, heq, hb⟩ := readNumber_start h
          obtain ⟨hblank, -, hnull, htrue, hfalse⟩ := number_start hb
          have hread := readNumber_extends hr h
          rw [written_number]
          rw [heq, List.cons_append] at hread ⊢
          simp only [readValue, skipBlanks_cons hblank, hnull, htrue, hfalse, hb, if_true, if_false,
            hread]
          rfl
      | string s =>
          rw [written_string, List.cons_append]
          have hread := readStringBody_writtenRest s r
          simp only [readValue, skipBlanks_cons (b := 34) rfl, hread]
          rfl
      | array items =>
          obtain ⟨hdepth, hitems⟩ := h
          obtain ⟨t, heq, hread⟩ :=
            readListBody_written hitems (fun v hv => ih (hitems v hv)) r
          rw [heq, List.cons_append]
          simp only [readValue, skipBlanks_cons (b := 91) rfl, hread, hdepth]
          rfl
      | object members =>
          obtain ⟨hdepth, hsorted, hmembers⟩ := h
          obtain ⟨t, heq, hread⟩ :=
            readObjectBody_written hsorted (fun m hm => ih (hmembers m hm)) r
          rw [heq, List.cons_append]
          simp only [readValue, skipBlanks_cons (b := 123) rfl, hread, hdepth]
          rfl

end

end RemoteInspector.Json
