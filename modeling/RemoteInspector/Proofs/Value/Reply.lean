import RemoteInspector.Proofs.Json.Value
import RemoteInspector.Value.LookupReply

/-!
Replies to lookups, read by handle. A handle has many spellings, since a plus sign and zeros may stand
before its digits. Of the entries under all of them the one whose name comes last in the order of names
counts. The digits alone come last, unless the handle is zero: a sign comes before every digit and a
zero before every other one, but of two rows of zeros the longer comes behind the shorter.
-/

namespace RemoteInspector

namespace Text

variable {limit m n : Nat} {beyond : DigitsFault} {cs : List Char} {s : String}

/-! ### Spellings of a number -/

theorem digit?_eq_some {c : Char} {d : Nat} (h : digit? c = some d) :
    d < 10 ∧ c = Nat.digitChar d := by
  unfold digit? at h
  split at h
  · next hrange =>
    have hlow : 48 ≤ c.toNat := hrange.1
    have hhigh : c.toNat ≤ 57 := hrange.2
    obtain rfl : c.toNat - 48 = d := Option.some.inj h
    refine ⟨by omega, Char.toNat_inj.1 ?_⟩
    rw [Nat.toNat_digitChar_of_lt_ten (by omega)]
    omega
  · cases h

/-- Reading a digit and the ones behind it. -/
theorem readDigits_cons {c : Char} (h : readDigits limit beyond m (c :: cs) = .ok n) :
    ∃ d, d < 10 ∧ c = Nat.digitChar d ∧ readDigits limit beyond (m * 10 + d) cs = .ok n := by
  rw [readDigits] at h
  split at h
  · cases h
  · next d hd =>
    obtain ⟨hlt, hc⟩ := digit?_eq_some hd
    split at h
    · exact ⟨d, hlt, hc, h⟩
    · cases h

theorem readDigits_le (h : readDigits limit beyond m cs = .ok n) : m ≤ n := by
  induction cs generalizing m with
  | nil =>
      cases h
      exact Nat.le_refl _
  | cons c cs ih =>
      obtain ⟨d, -, -, hrest⟩ := readDigits_cons h
      have hle := ih hrest
      omega

/-- What reads on from a number extends its digits. -/
theorem toDigits_readDigits (hm : 0 < m) (h : readDigits limit beyond m cs = .ok n) :
    Nat.toDigits 10 m ++ cs = Nat.toDigits 10 n := by
  induction cs generalizing m with
  | nil =>
      cases h
      exact List.append_nil _
  | cons c cs ih =>
      obtain ⟨d, hd, rfl, hrest⟩ := readDigits_cons h
      have hdigits : Nat.toDigits 10 m ++ [Nat.digitChar d] = Nat.toDigits 10 (m * 10 + d) := by
        rw [← Nat.toDigits_of_lt_base hd, Nat.toDigits_append_toDigits (by decide) hm hd,
          Nat.mul_comm]
      rw [List.append_cons, hdigits]
      exact ih (by omega) hrest

/-- Digits that spell a positive number are the ones that it is written with, or begin with a
zero. -/
theorem digits_cases (hn : 0 < n) (h : readDigits limit beyond 0 cs = .ok n) :
    cs = Nat.toDigits 10 n ∨ ∃ rest, cs = '0' :: rest := by
  cases cs with
  | nil =>
      cases h
      exact (Nat.lt_irrefl 0 hn).elim
  | cons c cs =>
      obtain ⟨d, hd, rfl, hrest⟩ := readDigits_cons h
      rw [Nat.zero_mul, Nat.zero_add] at hrest
      rcases Nat.eq_zero_or_pos d with rfl | hpos
      · exact .inr ⟨cs, rfl⟩
      · have hdigits := toDigits_readDigits hpos hrest
        rw [Nat.toDigits_of_lt_base hd] at hdigits
        exact .inl hdigits

/-- Digits that spell zero are zeros. -/
theorem digits_zero (h : readDigits limit beyond 0 cs = .ok 0) :
    cs = List.replicate cs.length '0' := by
  induction cs with
  | nil => rfl
  | cons c cs ih =>
      obtain ⟨d, -, rfl, hrest⟩ := readDigits_cons h
      have hle := readDigits_le hrest
      obtain rfl : d = 0 := by omega
      exact congrArg ('0' :: ·) (ih hrest)

theorem readUnsigned_ok (h : readUnsigned limit s = .ok n) :
    ∃ cs, cs ≠ [] ∧ (s.toList = cs ∨ s.toList = '+' :: cs) ∧
      readDigits limit .tooLarge 0 cs = .ok n := by
  unfold readUnsigned at h
  split at h
  · cases h
  · cases h
  · next cs hsome heq => exact ⟨cs, hsome, .inr heq, h⟩
  · next cs hempty _ _ => exact ⟨s.toList, hempty, .inl rfl, h⟩

/-- Of all spellings of a positive number the digits that it is written with come last. -/
theorem not_toString_lt (hn : 0 < n) (h : readUnsigned limit s = .ok n) : ¬toString n < s := by
  obtain ⟨cs, -, hs, hread⟩ := readUnsigned_ok h
  obtain ⟨d, rest, hd, hdigits⟩ := Json.toDigits_head hn
  have hfirst : ∀ c : Char, c = '+' ∨ c = '0' → c < Nat.digitChar (d + 1) := by
    have hall : ∀ d < 9, '+' < Nat.digitChar (d + 1) ∧ '0' < Nat.digitChar (d + 1) := by decide
    rintro c (rfl | rfl)
    · exact (hall d (by omega)).1
    · exact (hall d (by omega)).2
  have hbefore : ∀ c r, s.toList = c :: r → c = '+' ∨ c = '0' → ¬toString n < s := by
    intro c r hcr hc hlt
    rw [String.lt_iff, toList_toString, hdigits, hcr, List.cons_lt_cons_iff] at hlt
    rcases hlt with hlt | ⟨heq, -⟩
    · exact Nat.lt_asymm hlt (hfirst c hc)
    · exact absurd (hfirst c hc) (heq ▸ Nat.lt_irrefl _)
  rcases hs with hs | hs
  · rcases digits_cases hn hread with hcanonical | ⟨r, hzero⟩
    · have heq : s = toString n := by
        rw [← String.toList_inj, hs, hcanonical, toList_toString]
      rw [heq]
      exact String.lt_irrefl _
    · exact hbefore '0' r (hs.trans hzero) (.inr rfl)
  · exact hbefore '+' cs hs (.inl rfl)

def zeros (k : Nat) : String := String.ofList (List.replicate k '0')

theorem toList_zeros (k : Nat) : (zeros k).toList = List.replicate k '0' := String.toList_ofList

/-- Of two rows of zeros the longer comes behind the shorter. -/
theorem lt_of_zeros_lt {j k : Nat} (h : zeros j < zeros k) : j < k := by
  rw [String.lt_iff, toList_zeros, toList_zeros] at h
  by_contra hle
  obtain ⟨i, rfl⟩ := Nat.exists_eq_add_of_le (Nat.le_of_not_lt hle)
  rw [← List.replicate_append_replicate] at h
  exact List.not_lt.2 List.le_append_left h

/-- Of the spellings of zero a row of zeros comes before none but longer rows. -/
theorem zeros_lt {k : Nat} (hk : 0 < k) (h : readUnsigned limit s = .ok 0) (hlt : zeros k < s) :
    ∃ j, k < j ∧ s = zeros j := by
  obtain ⟨cs, -, hs, hread⟩ := readUnsigned_ok h
  have hzeros := digits_zero hread
  rcases hs with hs | hs
  · have heq : s = zeros cs.length := by rw [← String.toList_inj, toList_zeros, hs, ← hzeros]
    rw [heq] at hlt
    exact ⟨_, lt_of_zeros_lt hlt, heq⟩
  · obtain ⟨i, rfl⟩ := Nat.exists_eq_succ_of_ne_zero (Nat.ne_of_gt hk)
    rw [String.lt_iff, toList_zeros, hs, List.replicate_succ, List.cons_lt_cons_iff] at hlt
    exact absurd hlt (by simp)

theorem readDigits_zeros (hlimit : 0 < limit) (k : Nat) :
    readDigits limit beyond 0 (List.replicate k '0') = .ok 0 := by
  induction k with
  | zero => rfl
  | succ k ih =>
      have hdigit : digit? '0' = some 0 := rfl
      rw [List.replicate_succ, readDigits, hdigit]
      simpa [hlimit] using ih

theorem readUInt64_zeros {k : Nat} (hk : 0 < k) : readUInt64 (zeros k) = .ok 0 := by
  obtain ⟨i, rfl⟩ := Nat.exists_eq_succ_of_ne_zero (Nat.ne_of_gt hk)
  have hread : readUnsigned UInt64.size (zeros (i + 1)) = .ok 0 := by
    unfold readUnsigned
    rw [toList_zeros, List.replicate_succ]
    exact readDigits_zeros (by decide) (i + 1)
  rw [readUInt64, hread]
  rfl

theorem readDigits_lt (hm : m < limit) (h : readDigits limit beyond m cs = .ok n) : n < limit := by
  induction cs generalizing m with
  | nil =>
      cases h
      exact hm
  | cons c cs ih =>
      rw [readDigits] at h
      split at h
      · cases h
      · split at h
        · next hlt => exact ih hlt h
        · cases h

theorem readUInt64_ok {h : UInt64} (hs : readUInt64 s = .ok h) :
    readUnsigned UInt64.size s = .ok h.toNat := by
  unfold readUInt64 at hs
  cases hn : readUnsigned UInt64.size s with
  | error e =>
      rw [hn] at hs
      cases hs
  | ok n =>
      rw [hn] at hs
      obtain rfl : UInt64.ofNat n = h := Except.ok.inj hs
      obtain ⟨cs, -, -, hread⟩ := readUnsigned_ok hn
      rw [UInt64.toNat_ofNat_of_lt' (readDigits_lt (by decide) hread)]

theorem readUInt64_toString (h : UInt64) : readUInt64 (toString h.toNat) = .ok h := by
  rw [readUInt64, readUnsigned_toString h.toNat_lt]
  simp [Except.map]

end Text

namespace LookupReply

variable {ms : List (String × Json)} {name : String} {h : Handle} {p : Payload}

/-! ### The table of a body -/

def Spells (name : String) (h : Handle) : Prop := Text.readUInt64 name = .ok h

/-- What a body says of a handle under one of its spellings: the payload takes the handle where it
states none. -/
theorem entry?_spelled (hname : Spells name h) (v : Json) :
    entry? name v = (Payload.ofJson? v).map fun p =>
      (h, { p with handle := some (p.handle.getD h) }) := by
  unfold entry?
  rw [hname]
  cases Payload.ofJson? v <;> rfl

theorem spells_of_entry? {v : Json} (hentry : entry? name v = some (h, p)) : Spells name h := by
  unfold entry? at hentry
  obtain ⟨k, hk, hentry⟩ := Option.bind_eq_some_iff.1 hentry
  obtain ⟨q, -, heq⟩ := Option.bind_eq_some_iff.1 hentry
  obtain rfl : k = h := congrArg Prod.fst (Option.some.inj heq)
  unfold Spells
  cases hread : Text.readUInt64 name with
  | error e => rw [hread] at hk; cases hk
  | ok n => rw [hread] at hk; rw [Option.some.inj hk]

theorem isSome_ofJson? (v : Json) : (Payload.ofJson? v).isSome = v.isObject := by
  unfold Payload.ofJson?
  split
  · next hobject => exact hobject.symm
  · next hobject => exact (Bool.eq_false_iff.2 hobject).symm

/-- The last of several entries for a handle counts. -/
theorem lookup_puts (es table : List (Handle × Payload)) (h : Handle) :
    (es.foldl (fun table (handle, payload) => put handle payload table) table).lookup h =
      (es.reverse.lookup h).or (table.lookup h) := by
  induction es generalizing table with
  | nil => rfl
  | cons e es ih =>
      obtain ⟨k, p⟩ := e
      rw [List.foldl_cons, ih, lookup_put, List.reverse_cons, List.lookup_append, List.lookup_cons,
        List.lookup_nil, Option.or_assoc]
      by_cases heq : h = k
      · subst heq
        simp
      · have hne : (h == k) = false := beq_eq_false_iff_ne.2 heq
        rw [if_neg heq, hne]
        rfl

/-- The entries of a body for handles, the last one first. -/
theorem lookup_ofBody (ms : List (String × Json)) (h : Handle) :
    (ofBody (some (.object ms))).lookup h =
      (ms.reverse.filterMap fun m => entry? m.1 m.2).lookup h := by
  rw [ofBody, lookup_puts, List.lookup_nil, Option.or_none, ← List.filterMap_reverse]

theorem lookup_ofBody_eq_none : (ofBody (some (.object ms))).lookup h = none ↔
    ∀ m ∈ ms, ∀ p, entry? m.1 m.2 ≠ some (h, p) := by
  rw [lookup_ofBody, List.lookup_eq_none_iff]
  constructor
  · intro hnone m hm p hentry
    have hne := hnone (h, p) (List.mem_filterMap.2 ⟨m, List.mem_reverse.2 hm, hentry⟩)
    simp at hne
  · rintro hnone ⟨k, p⟩ hmem
    obtain ⟨m, hm, hentry⟩ := List.mem_filterMap.1 hmem
    refine bne_iff_ne.2 ?_
    rintro rfl
    exact hnone m (List.mem_reverse.1 hm) p hentry

theorem exists_of_lookup_ofBody (hlookup : (ofBody (some (.object ms))).lookup h = some p) :
    ∃ m ∈ ms, entry? m.1 m.2 = some (h, p) := by
  rw [lookup_ofBody] at hlookup
  obtain ⟨before, after, heq, -⟩ := List.lookup_eq_some_iff.1 hlookup
  have hmem : (h, p) ∈ ms.reverse.filterMap fun m => entry? m.1 m.2 := by simp [heq]
  obtain ⟨m, hm, hentry⟩ := List.mem_filterMap.1 hmem
  exact ⟨m, List.mem_reverse.1 hm, hentry⟩

/-- The entry counts that has the last name. -/
theorem lookup_ofBody_last (hsorted : Json.Sorted ms) {m : String × Json} (hm : m ∈ ms)
    (hentry : entry? m.1 m.2 = some (h, p))
    (hlast : ∀ m' ∈ ms, ∀ q, entry? m'.1 m'.2 = some (h, q) → ¬m.1 < m'.1) :
    (ofBody (some (.object ms))).lookup h = some p := by
  obtain ⟨before, after, rfl⟩ := List.append_of_mem hm
  obtain ⟨-, hbehind, -⟩ := List.pairwise_append.1 hsorted
  rw [lookup_ofBody, List.lookup_eq_some_iff, List.reverse_append, List.reverse_cons,
    List.append_assoc, List.filterMap_append, List.singleton_append, List.filterMap_cons, hentry]
  refine ⟨_, _, rfl, ?_⟩
  rintro ⟨k, q⟩ hmem
  obtain ⟨m', hm', hentry'⟩ := List.mem_filterMap.1 hmem
  have hafter := List.mem_reverse.1 hm'
  refine bne_iff_ne.2 ?_
  rintro rfl
  exact hlast m' (by simp [hafter]) q hentry' ((List.pairwise_cons.1 hbehind).1 m' hafter)

/-- A member is an entry for a handle just if its name spells the handle and its value is an
object. -/
theorem entry?_ne_iff {v : Json} :
    (∀ p, entry? name v ≠ some (h, p)) ↔ (Spells name h → v.isObject = false) := by
  rw [← isSome_ofJson?]
  constructor
  · intro hne hname
    cases hv : Payload.ofJson? v with
    | none => rfl
    | some p => exact (hne _ (by rw [entry?_spelled hname, hv]; rfl)).elim
  · intro hnone p hentry
    have hname := spells_of_entry? hentry
    have hv : Payload.ofJson? v = none := by
      simpa using hnone hname
    rw [entry?_spelled hname, hv] at hentry
    cases hentry

/-- An object counts if its name spells the handle and none behind it that has an object does. -/
theorem lookup_ofBody_spelled (hsorted : Json.Sorted ms) {v : Json} (hm : (name, v) ∈ ms)
    (hname : Spells name h) (hp : Payload.ofJson? v = some p)
    (hlast : ∀ m ∈ ms, Spells m.1 h → name < m.1 → m.2.isObject = false) :
    (ofBody (some (.object ms))).lookup h = some { p with handle := some (p.handle.getD h) } := by
  refine lookup_ofBody_last hsorted hm ?_ fun m hmem q hentry hlt => ?_
  · rw [entry?_spelled hname, hp]
    rfl
  · exact entry?_ne_iff.2 (fun hspells => hlast m hmem hspells hlt) q hentry

/-! ### Replies -/

theorem get?_eq_lookup {e : Envelope} (hok : e.isSuccessful = true)
    (hbody : e.body = some (.object ms)) (h : Handle) :
    (ofEnvelope e).get? h = (ofBody (some (.object ms))).lookup h := by
  rw [ofEnvelope, if_pos hok, hbody, get?]

/-- What a successful reply says of a handle. It says nothing just if no spelling of the handle has an
object. Where the digits of the handle have one, this is what counts, whatever stands under other
spellings, unless the handle is zero and a longer row of zeros has an object too. Of the rows of zeros
that have one the longest counts. -/
theorem read_by_handle {e : Envelope} (hok : e.isSuccessful = true)
    (hbody : e.body = some (.object ms)) (hsorted : Json.Sorted ms) (h : Handle) :
    ((ofEnvelope e).get? h = none ↔ ∀ m ∈ ms, Spells m.1 h → m.2.isObject = false) ∧
    (∀ v p, (toString h.toNat, v) ∈ ms → Payload.ofJson? v = some p →
      (h = 0 → ∀ j w, 1 < j → (Text.zeros j, w) ∈ ms → w.isObject = false) →
      (ofEnvelope e).get? h = some { p with handle := some (p.handle.getD h) }) ∧
    ∀ k v p, 0 < k → (Text.zeros k, v) ∈ ms → Payload.ofJson? v = some p →
      (∀ j w, k < j → (Text.zeros j, w) ∈ ms → w.isObject = false) →
      (ofEnvelope e).get? 0 = some { p with handle := some (p.handle.getD 0) } := by
  have hzeros : ∀ k v p, 0 < k → (Text.zeros k, v) ∈ ms → Payload.ofJson? v = some p →
      (∀ j w, k < j → (Text.zeros j, w) ∈ ms → w.isObject = false) →
      (ofEnvelope e).get? 0 = some { p with handle := some (p.handle.getD 0) } := by
    intro k v p hk hm hp hlonger
    rw [get?_eq_lookup hok hbody]
    refine lookup_ofBody_spelled hsorted hm (Text.readUInt64_zeros hk) hp ?_
    rintro ⟨name, w⟩ hmem hspells hlt
    obtain ⟨j, hj, rfl⟩ := Text.zeros_lt hk (Text.readUInt64_ok hspells) hlt
    exact hlonger j w hj hmem
  refine ⟨?_, fun v p hm hp hlonger => ?_, hzeros⟩
  · rw [get?_eq_lookup hok hbody, lookup_ofBody_eq_none]
    exact forall₂_congr fun _ _ => entry?_ne_iff
  · by_cases hzero : h = 0
    · subst hzero
      exact hzeros 1 v p Nat.one_pos hm hp (hlonger rfl)
    · have hpos : 0 < h.toNat := Nat.pos_of_ne_zero fun heq => hzero (UInt64.toNat_inj.1 heq)
      rw [get?_eq_lookup hok hbody]
      refine lookup_ofBody_spelled hsorted hm (Text.readUInt64_toString h) hp ?_
      intro m _ hspells hlt
      exact (Text.not_toString_lt hpos (Text.readUInt64_ok hspells) hlt).elim

def numberObject (n : Int) : Json := .object [("type", .string "number"), ("value", .number (.integer n))]

def sevens : List (String × Json) :=
  [("+7", numberObject 1), ("007", numberObject 2), ("7", numberObject 3)]

theorem read_by_handle_seven :
    let e := Envelope.response 1 "lookup" true (some (.object sevens))
    e.isSuccessful = true ∧ e.body = some (.object sevens) ∧ Json.Sorted sevens ∧
      (ofEnvelope e).get? 7 = some { handle := some 7, tag := some "number", text := some "3" } := by
  intro e
  have hsorted : Json.Sorted sevens := by unfold Json.Sorted; decide +kernel
  have hmem : (toString (7 : Handle).toNat, numberObject 3) ∈ sevens :=
    .tail _ (.tail _ (.head _))
  have hp : Payload.ofJson? (numberObject 3) = some { tag := some "number", text := some "3" } := by
    decide +kernel
  obtain ⟨-, hcounts, -⟩ := read_by_handle (e := e) rfl rfl hsorted 7
  exact ⟨rfl, rfl, hsorted, hcounts _ _ hmem hp nofun⟩

def twoZeros : List (String × Json) := [("0", numberObject 1), ("00", numberObject 2)]

/-- Zero is read by its spelling: what stands under a second zero replaces what stands under the
first. -/
theorem longer_zero_replaces_zero :
    let e := Envelope.response 1 "lookup" true (some (.object twoZeros))
    Json.Sorted twoZeros ∧ (toString (0 : Handle).toNat, numberObject 1) ∈ twoZeros ∧
      Payload.ofJson? (numberObject 1) = some { tag := some "number", text := some "1" } ∧
      (ofEnvelope e).get? 0 = some { handle := some 0, tag := some "number", text := some "2" } := by
  refine ⟨by unfold Json.Sorted; decide +kernel, ?_, by decide +kernel, by decide +kernel⟩
  exact List.mem_cons_self

end LookupReply

end RemoteInspector
