import Mathlib.Data.List.Nodup
import RemoteInspector.Json.RecordText
import RemoteInspector.Proofs.Json.Fitting

/-!
Records read from texts. Members that are written as an object are read back by the readers of their
fields, the last one first; and each member that is read comes from the reader of its field, whichever
form the record is written in.
-/

namespace RemoteInspector.Json

section

variable {fields : FieldReaders} {r : Bytes}

/-! ### Reading back -/

def IsField (fields : FieldReaders) (m : String × Json) : Prop :=
  ∃ reader, fields.lookup m.1 = some reader ∧ ReadsBack reader m.2

theorem readField_written {m : String × Json} (hm : IsField fields m) {seen : List (String × Json)}
    (hnew : seen.lookup m.1 = none) (hr : EndsNumber r) :
    readField fields seen (writtenMember m ++ r) = .ok (m :: seen, r) := by
  obtain ⟨reader, hlookup, hread⟩ := hm
  have hwritten : writtenMember m ++ r = writtenRest m.1 ++ 58 :: (written m.2 ++ r) := by
    simp [writtenMember]
  have hcolon : readColon (58 :: (written m.2 ++ r)) = .ok (written m.2 ++ r) := rfl
  rw [hwritten, readField, readStringBody_writtenRest]
  simp only [bind, Except.bind, hlookup, hnew, Option.isSome_none, Bool.false_eq_true, if_false,
    hcolon, hread r hr]
  rfl

theorem lookup_none {ms : List (String × Json)} {name : String} (h : name ∉ ms.map Prod.fst) :
    ms.lookup name = none := by
  rw [List.lookup_eq_none_iff]
  intro m hm
  rw [bne_iff_ne]
  rintro rfl
  exact h (List.mem_map_of_mem hm)

theorem readFields_written {ms seen : List (String × Json)} (hms : ∀ m ∈ ms, IsField fields m)
    (hnames : ((ms.reverse ++ seen).map Prod.fst).Nodup) (r : Bytes) {fuel : Nat}
    (hfuel : (writtenMembers ms ++ 125 :: r).length < fuel) :
    readFields fields fuel seen (writtenMembers ms ++ 125 :: r) = .ok (ms.reverse ++ seen, r) := by
  induction ms generalizing fuel seen with
  | nil =>
      obtain ⟨fuel, rfl⟩ := Nat.exists_eq_succ_of_ne_zero (Nat.ne_zero_of_lt hfuel)
      rfl
  | cons m ms ih =>
      obtain ⟨fuel, rfl⟩ := Nat.exists_eq_succ_of_ne_zero (Nat.ne_zero_of_lt hfuel)
      have hwritten : writtenMembers (m :: ms) ++ 125 :: r =
          44 :: 34 :: (writtenMember m ++ (writtenMembers ms ++ 125 :: r)) := by
        simp [writtenMembers]
      have hnext : nextMember (44 :: 34 :: (writtenMember m ++ (writtenMembers ms ++ 125 :: r))) =
          .ok (.item (writtenMember m ++ (writtenMembers ms ++ 125 :: r))) := rfl
      have hnames' : ((ms.reverse ++ m :: seen).map Prod.fst).Nodup := by simpa using hnames
      have hnew : seen.lookup m.1 = none := by
        rw [List.map_append, List.map_cons, List.nodup_append] at hnames'
        exact lookup_none (List.nodup_cons.1 hnames'.2.1).1
      have hfirst := readField_written (hms m List.mem_cons_self) hnew (endsNumber_members ms r)
      rw [hwritten] at hfuel ⊢
      simp only [readFields, bind, Except.bind, hnext, hfirst]
      rw [ih (fun k hk => hms k (List.mem_cons_of_mem m hk)) hnames']
      · simp
      · simp only [List.length_cons, List.length_append] at hfuel ⊢
        omega

theorem readFieldsBody_written {ms : List (String × Json)} (hms : ∀ m ∈ ms, IsField fields m)
    (hnames : (ms.map Prod.fst).Nodup) (r : Bytes) :
    ∃ t, written (.object ms) = 123 :: t ∧
      readFieldsBody fields (t ++ r) = .ok (ms.reverse, r) := by
  cases ms with
  | nil => exact ⟨[125], rfl, rfl⟩
  | cons m ms =>
      refine ⟨_, written_object_cons m ms, ?_⟩
      have hwritten : 34 :: (writtenMember m ++ (writtenMembers ms ++ [125])) ++ r =
          34 :: (writtenMember m ++ (writtenMembers ms ++ 125 :: r)) := by
        simp
      have hitem : firstMember (34 :: (writtenMember m ++ (writtenMembers ms ++ 125 :: r))) =
          .ok (.item (writtenMember m ++ (writtenMembers ms ++ 125 :: r))) := rfl
      have hnames' : ((ms.reverse ++ [m]).map Prod.fst).Nodup := by
        rw [← List.reverse_cons, List.map_reverse, List.nodup_reverse]
        exact hnames
      have hfirst : readField fields [] (writtenMember m ++ (writtenMembers ms ++ 125 :: r)) =
          .ok ([m], writtenMembers ms ++ 125 :: r) :=
        readField_written (hms m List.mem_cons_self) rfl (endsNumber_members ms r)
      have hrest := readFields_written (fun k hk => hms k (List.mem_cons_of_mem m hk)) hnames' r
        (Nat.lt_succ_self _)
      rw [hwritten, readFieldsBody, hitem]
      simp only [bind, Except.bind, hfirst, hrest, List.reverse_cons]

/-- Members with different names are read back, the last one first, and what follows is left. -/
theorem readRecordText_written (record : String) {ms : List (String × Json)}
    (hms : ∀ m ∈ ms, IsField fields m) (hnames : (ms.map Prod.fst).Nodup) (r : Bytes) :
    readRecordText record fields (written (.object ms) ++ r) = .ok (ms.reverse, r) := by
  obtain ⟨t, heq, hread⟩ := readFieldsBody_written hms hnames r
  have hstart : startValue (123 :: (t ++ r)) = .ok (123, t ++ r) := rfl
  rw [heq, List.cons_append, readRecordText, hstart]
  exact hread

/-! ### What is read -/

def IsRead (fields : FieldReaders) (m : String × Json) : Prop :=
  ∃ reader s r, (m.1, reader) ∈ fields ∧ reader s = .ok (m.2, r)

theorem no_members : ∀ m ∈ ([] : List (String × Json)), IsRead fields m :=
  fun _ hm => (List.not_mem_nil hm).elim

theorem mem_of_lookup_field {name : String} {reader : Reader Json}
    (h : fields.lookup name = some reader) : (name, reader) ∈ fields := by
  obtain ⟨before, after, rfl, -⟩ := List.lookup_eq_some_iff.1 h
  exact List.mem_append_right _ List.mem_cons_self

theorem readField_yields {seen : List (String × Json)} (hseen : ∀ m ∈ seen, IsRead fields m) :
    Yields (readField fields seen) fun ms => ∀ m ∈ ms, IsRead fields m := by
  intro s r ms hread
  obtain ⟨⟨name, t⟩, -, hread⟩ := bind_ok hread
  dsimp only at hread
  split at hread
  · next reader hlookup =>
    split at hread
    · cases hread
    · obtain ⟨t', -, hread⟩ := bind_ok hread
      obtain ⟨⟨v, t''⟩, hv, hread⟩ := bind_ok hread
      cases hread
      intro m hm
      rcases List.mem_cons.1 hm with rfl | hm
      · exact ⟨reader, t', t'', mem_of_lookup_field hlookup, hv⟩
      · exact hseen m hm
  · obtain ⟨t', -, hread⟩ := bind_ok hread
    obtain ⟨t'', -, hread⟩ := bind_ok hread
    cases hread
    exact hseen

theorem readFields_yields {fuel : Nat} {seen : List (String × Json)}
    (hseen : ∀ m ∈ seen, IsRead fields m) :
    Yields (readFields fields fuel seen) fun ms => ∀ m ∈ ms, IsRead fields m := by
  intro s r ms hread
  induction fuel generalizing seen s with
  | zero => cases hread
  | succ fuel ih =>
      obtain ⟨next, -, hread⟩ := bind_ok hread
      cases next with
      | done t =>
          cases hread
          exact hseen
      | item t =>
          obtain ⟨⟨seen', t'⟩, hfield, hread⟩ := bind_ok hread
          exact ih (readField_yields hseen hfield) hread

theorem readFieldsBody_yields :
    Yields (readFieldsBody fields) fun ms => ∀ m ∈ ms, IsRead fields m := by
  intro s r ms hread
  obtain ⟨next, -, hread⟩ := bind_ok hread
  cases next with
  | done t =>
      cases hread
      exact no_members
  | item t =>
      obtain ⟨⟨seen, t'⟩, hfield, hread⟩ := bind_ok hread
      exact readFields_yields (readField_yields no_members hfield) hread

theorem readPositionsText_yields {left : FieldReaders} (hleft : ∀ f ∈ left, f ∈ fields)
    {seen : List (String × Json)} (hseen : ∀ m ∈ seen, IsRead fields m) :
    Yields (readPositionsText left seen) fun ms => ∀ m ∈ ms, IsRead fields m := by
  intro s r ms hread
  induction left generalizing seen s with
  | nil =>
      obtain ⟨t, -, hread⟩ := bind_ok hread
      cases hread
      exact hseen
  | cons f left ih =>
      obtain ⟨name, reader⟩ := f
      obtain ⟨next, -, hread⟩ := bind_ok hread
      cases next with
      | done t =>
          cases hread
          exact hseen
      | item t =>
          obtain ⟨⟨v, t'⟩, hv, hread⟩ := bind_ok hread
          refine ih (fun g hg => hleft g (List.mem_cons_of_mem _ hg)) (fun m hm => ?_) hread
          rcases List.mem_cons.1 hm with rfl | hm
          · exact ⟨reader, t, t', hleft _ List.mem_cons_self, hv⟩
          · exact hseen m hm

theorem readPositionsBody_yields :
    Yields (readPositionsBody fields) fun ms => ∀ m ∈ ms, IsRead fields m := by
  intro s r ms hread
  unfold readPositionsBody at hread
  split at hread
  · exact readPositionsText_yields (fun f hf => hf) no_members hread
  · next name reader rest =>
    obtain ⟨next, -, hread⟩ := bind_ok hread
    cases next with
    | done t =>
        cases hread
        exact no_members
    | item t =>
        obtain ⟨⟨v, t'⟩, hv, hread⟩ := bind_ok hread
        refine readPositionsText_yields (fun f hf => List.mem_cons_of_mem _ hf) (fun m hm => ?_)
          hread
        rw [List.mem_singleton.1 hm]
        exact ⟨reader, t, t', List.mem_cons_self, hv⟩

/-- Nothing is found in place of a value of another kind. -/
theorem findOther_error {α : Type} {wanted : String} {s : Bytes} {v : α} :
    findOther wanted s ≠ .ok v := by
  intro h
  unfold findOther at h
  dsimp only at h
  split at h
  · cases h
  · split at h
    · obtain ⟨t, -, h⟩ := bind_ok h
      cases h
    split at h
    · obtain ⟨t, -, h⟩ := bind_ok h
      cases h
    split at h
    · obtain ⟨t, -, h⟩ := bind_ok h
      cases h
    split at h
    · obtain ⟨⟨n, t⟩, -, h⟩ := bind_ok h
      cases h
    split at h
    · obtain ⟨⟨n, t⟩, -, h⟩ := bind_ok h
      cases h
    split at h
    · cases h
    split at h <;> cases h

theorem readRecordText_yields (record : String) :
    Yields (readRecordText record fields) fun ms => ∀ m ∈ ms, IsRead fields m := by
  intro s r ms hread
  obtain ⟨⟨b, t⟩, -, hread⟩ := bind_ok hread
  dsimp only at hread
  split at hread
  · exact readPositionsBody_yields hread
  · split at hread
    · exact readFieldsBody_yields hread
    · exact (findOther_error hread).elim

end

end RemoteInspector.Json
