import RemoteInspector.Proofs.Json.Record
import RemoteInspector.Wire.Envelope

/-!
Messages read back as they were written. A message is written as an object of the fields that are
there, and each field is read back by its own reader; a message that has been read holds nothing that
would not be.
-/

namespace RemoteInspector

open Json Text

/-! ### The readers of fields -/

section

variable {r : Bytes} {depth : Nat}

theorem readString_written (s : String) : ReadsBack readString (.string s) := by
  intro r _
  have hstart : startValue (34 :: (writtenRest s ++ r)) = .ok (34, writtenRest s ++ r) := rfl
  rw [written_string, List.cons_append, readString, hstart]
  simp only [bind, Except.bind, if_true, readStringBody_writtenRest]
  rfl

theorem readBool_written (b : Bool) : ReadsBack readBool (.bool b) := by
  intro r _
  cases b <;> rfl

theorem toUInt64?_toNat (n : UInt64) : (Json.Number.integer n.toNat).toUInt64? = some n := by
  have hlt : ((n.toNat : Nat) : Int) < UInt64.size := Int.ofNat_lt.2 n.toNat_lt
  rw [Json.Number.toUInt64?, if_pos ⟨Int.natCast_nonneg _, hlt⟩, Int.toNat_natCast,
    UInt64.ofNat_toNat]

theorem inRange_toNat (n : UInt64) : (Json.Number.integer n.toNat).InRange :=
  ⟨Int.le_trans (Int.neg_nonpos_of_nonneg (Int.natCast_nonneg _)) (Int.natCast_nonneg _),
    Int.ofNat_lt.2 n.toNat_lt⟩

theorem readUInt64_number {b : UInt8} {t : Bytes} {n : Json.Number} (hb : b = 45 ∨ isDigit b = true)
    (hread : readNumber (b :: t) = .ok (n, r)) (hn : n.toUInt64?.isSome) :
    Json.readUInt64 (b :: t) = .ok (.number n, r) := by
  obtain ⟨k, hk⟩ := Option.isSome_iff_exists.1 hn
  have hstart : startValue (b :: t) = .ok (b, t) := by
    rw [startValue, skipBlanks_cons (number_start hb).1]
  rw [Json.readUInt64, hstart]
  simp only [bind, Except.bind, hb, if_true, hread, hk]
  rfl

theorem readUInt64_written (n : UInt64) : ReadsBack Json.readUInt64 (.ofUInt64 n) := by
  intro r hr
  have hread := readNumber_integer (inRange_toNat n) hr
  rw [ofUInt64, written_number]
  obtain ⟨b, t, heq, hb⟩ := readNumber_start hread
  rw [heq] at hread ⊢
  exact readUInt64_number hb hread (by rw [toUInt64?_toNat]; rfl)

theorem uint64?_ofUInt64 (n : UInt64) : uint64? (.ofUInt64 n) = some n := by
  rw [ofUInt64, uint64?, toUInt64?_toNat]

theorem readList_written {vs : List Json} (hdepth : depth ≠ 0)
    (hvs : ∀ v ∈ vs, Fits Json.Number.IsReproducible depth v) :
    ReadsBack (readList depth) (.array vs) := by
  intro r _
  obtain ⟨t, heq, hread⟩ := readListBody_written hvs (fun v hv => readValue_written (hvs v hv)) r
  have hstart : startValue (91 :: (t ++ r)) = .ok (91, t ++ r) := rfl
  rw [heq, List.cons_append, readList, hstart]
  simp only [bind, Except.bind, if_true, hdepth, if_false, hread]
  rfl

/-- What is not `null` is read as if it could not be. -/
theorem readOrNull_written {reader : Reader Json} {v : Json} (hread : ReadsBack reader v)
    {b : UInt8} {t : Bytes} (hstart : written v = b :: t) (hblank : isBlank b = false) (hnull : b ≠ 110) :
    ReadsBack (readOrNull reader) v := by
  intro r hr
  have hplain := hread r hr
  rw [hstart, List.cons_append] at hplain ⊢
  simp only [readOrNull, skipBlanks_cons hblank, if_neg hnull, hplain]

theorem readOrNull_number {n : UInt64} {reader : Reader Json}
    (hread : ReadsBack reader (.ofUInt64 n)) :
    ReadsBack (readOrNull reader) (.ofUInt64 n) := by
  have hfits : Fits Json.Number.IsReproducible 1 (.ofUInt64 n) :=
    Number.reproducible_integer (inRange_toNat n)
  obtain ⟨b, t, hstart, hblank, -, hnull⟩ := written_start hfits
  exact readOrNull_written hread hstart hblank fun hb => by cases hnull hb

theorem readOrNull_string (s : String) : ReadsBack (readOrNull readString) (.string s) :=
  readOrNull_written (readString_written s) (written_string s) rfl (by decide)

theorem readOrNull_bool (b : Bool) : ReadsBack (readOrNull readBool) (.bool b) := by
  cases b
  · exact readOrNull_written (readBool_written false) (written_bool false) rfl (by decide)
  · exact readOrNull_written (readBool_written true) (written_bool true) rfl (by decide)

theorem readOrNull_list {vs : List Json}
    (hvs : ∀ v ∈ vs, Fits Json.Number.IsReproducible (depthLimit - 2) v) :
    ReadsBack (readOrNull (readList (depthLimit - 2))) (.array vs) := by
  have hread := readList_written (by decide) hvs
  cases vs with
  | nil => exact readOrNull_written hread written_array_nil rfl (by decide)
  | cons v vs => exact readOrNull_written hread (written_array_cons v vs) rfl (by decide)

theorem readOrNull_value {v : Json} (hv : v ≠ .null) (h : Fits Json.Number.IsReproducible depth v) :
    ReadsBack (readOrNull (readValue depth)) v := by
  obtain ⟨b, t, hstart, hblank, -, hnull⟩ := written_start h
  exact readOrNull_written (readValue_written h) hstart hblank fun hb => hv (hnull hb)

end

namespace Envelope

/-! ### Messages that have been read -/

structure WellFormed (e : Envelope) : Prop where
  arguments : ∀ v, e.arguments = some v →
    v ≠ .null ∧ Fits Json.Number.InRange (depthLimit - 1) v
  body : ∀ v, e.body = some v → v ≠ .null ∧ Fits Json.Number.InRange (depthLimit - 1) v
  refs : ∀ vs, e.refs = some vs → ∀ v ∈ vs, Fits Json.Number.InRange (depthLimit - 2) v

theorem readOrNull_yields {reader : Reader Json} {P : Json → Prop} (h : Yields reader P) :
    Yields (readOrNull reader) fun v => v ≠ .null → P v := by
  intro s r v hread hv
  unfold readOrNull at hread
  split at hread
  · split at hread
    · obtain ⟨t, -, heq⟩ := map_ok hread
      cases heq
      exact (hv rfl).elim
    · exact h hread
  · exact h hread

theorem readList_yields (depth : Nat) : Yields (readList depth) fun v =>
    ∀ vs, v = .array vs → ∀ w ∈ vs, Fits Json.Number.InRange depth w := by
  intro s r v hread
  obtain ⟨⟨b, t⟩, -, hread⟩ := bind_ok hread
  dsimp only at hread
  split at hread
  · split at hread
    · cases hread
    · obtain ⟨⟨vs, t'⟩, hvs, hread⟩ := bind_ok hread
      cases hread
      rintro _ ⟨⟩
      exact readListBody_yields (readValue_yields depth) hvs
  · exact (findOther_error hread).elim

theorem present?_mem {ms : List (String × Json)} {name : String} {v : Json}
    (h : present? ms name = some v) : (name, v) ∈ ms ∧ v ≠ .null := by
  unfold present? at h
  split at h
  · cases h
  · next hother =>
    refine ⟨?_, ?_⟩
    · obtain ⟨before, after, rfl, -⟩ := List.lookup_eq_some_iff.1 h
      exact List.mem_append_right _ List.mem_cons_self
    · rintro rfl
      exact hother h

theorem wellFormed_ofMembers {ms : List (String × Json)} (hms : ∀ m ∈ ms, IsRead readers m) :
    (ofMembers ms).WellFormed := by
  have hvalue : ∀ name, (∀ reader, (name, reader) ∈ readers →
      reader = readOrNull (readValue (depthLimit - 1))) → ∀ v, present? ms name = some v →
      v ≠ .null ∧ Fits Json.Number.InRange (depthLimit - 1) v := by
    intro name honly v hv
    obtain ⟨hmem, hnull⟩ := present?_mem hv
    obtain ⟨reader, s, r, hfield, hread⟩ := hms (name, v) hmem
    rw [honly reader hfield] at hread
    exact ⟨hnull, readOrNull_yields (readValue_yields _) hread hnull⟩
  refine ⟨hvalue "arguments" ?_, hvalue "body" ?_, fun vs hvs => ?_⟩
  · intro reader hfield
    simpa [readers] using hfield
  · intro reader hfield
    simpa [readers] using hfield
  · have hvs : (present? ms "refs").bind array? = some vs := hvs
    obtain ⟨v, hv, harray⟩ := Option.bind_eq_some_iff.1 hvs
    obtain ⟨hmem, hnull⟩ := present?_mem hv
    obtain ⟨reader, s, r, hfield, hread⟩ := hms ("refs", v) hmem
    have hreader : reader = readOrNull (readList (depthLimit - 2)) := by
      simpa [readers] using hfield
    rw [hreader] at hread
    refine readOrNull_yields (readList_yields _) hread hnull vs ?_
    cases v <;> cases harray
    rfl

theorem wellFormed_read {s : Bytes} {e : Envelope} (h : read s = .ok e) : e.WellFormed := by
  obtain ⟨ms, hms, rfl⟩ := map_ok h
  obtain ⟨⟨ms', r⟩, hread, hrest⟩ := bind_ok hms
  dsimp only at hrest
  split at hrest
  · cases hrest
    exact wellFormed_ofMembers (readRecordText_yields "Envelope" hread)
  · cases hrest

/-! ### Members -/

def reals (e : Envelope) : List Binary64 :=
  (e.arguments.toList ++ e.body.toList ++ e.refs.getD []).flatMap Json.reals

theorem lookup_present (key name : String) (o : Option Json) :
    (o.map fun v => (key, v)).toList.lookup name = if name == key then o else none := by
  cases o with
  | none => simp
  | some v => cases h : name == key <;> simp [List.lookup_cons, h]

theorem lookup_optional {α : Type} (key name : String) (o : Option α) (f : α → Json) :
    (o.map fun v => (key, f v)).toList.lookup name = if name == key then o.map f else none := by
  rw [← lookup_present, Option.map_map]
  rfl

theorem present?_eq {ms : List (String × Json)} {name : String} (h : ms.lookup name ≠ some .null) :
    present? ms name = ms.lookup name := by
  unfold present?
  split
  · next hnull => exact (h hnull).elim
  · rfl

theorem reverse_toList {α : Type} (o : Option α) : o.toList.reverse = o.toList := by
  cases o <;> rfl

theorem map_ne_null {α : Type} {make : α → Json} (hmake : ∀ v, make v ≠ .null) (o : Option α) :
    o.map make ≠ some .null := by
  cases o with
  | none => exact fun h => by cases h
  | some v => exact fun h => hmake v (Option.some.inj h)

theorem bind_map {α : Type} {make : α → Json} {get : Json → Option α}
    (hget : ∀ v, get (make v) = some v) (o : Option α) : (o.map make).bind get = o := by
  cases o with
  | none => rfl
  | some v => exact hget v

/-- The members of a message make it up again, in whatever order they are found. -/
theorem ofMembers_members (e : Envelope) (harguments : e.arguments ≠ some .null)
    (hbody : e.body ≠ some .null) : ofMembers e.members.reverse = e := by
  -- Each name occurs once, so the order of the members does not matter.
  have hlookup (name : String) := show e.members.reverse.lookup name = _ by
    simp only [members, List.reverse_append, reverse_toList, List.lookup_append, lookup_optional,
      lookup_present]
    rfl
  have hfind {name : String} {o : Option Json} (h : e.members.reverse.lookup name = o)
      (hnull : o ≠ some .null) : present? e.members.reverse name = o := by
    rw [present?_eq (by rwa [h]), h]
  have hseq : present? e.members.reverse "seq" = some (.ofUInt64 e.seq) :=
    hfind (by simp [hlookup, List.lookup_cons]) (by rintro ⟨⟩)
  have hkind : present? e.members.reverse "type" = some (.string e.kind) :=
    hfind (by simp [hlookup]) (by rintro ⟨⟩)
  have hcommand : present? e.members.reverse "command" = e.command.map .string :=
    hfind (by simp [hlookup, List.lookup_cons]) (map_ne_null (by rintro _ ⟨⟩) _)
  have hevent : present? e.members.reverse "event" = e.event.map .string :=
    hfind (by simp [hlookup, List.lookup_cons]) (map_ne_null (by rintro _ ⟨⟩) _)
  have hrequest : present? e.members.reverse "request_seq" = e.requestSeq.map .ofUInt64 :=
    hfind (by simp [hlookup, List.lookup_cons]) (map_ne_null (by rintro _ ⟨⟩) _)
  have hsuccess : present? e.members.reverse "success" = e.success.map .bool :=
    hfind (by simp [hlookup, List.lookup_cons]) (map_ne_null (by rintro _ ⟨⟩) _)
  have hmessage : present? e.members.reverse "message" = e.message.map .string :=
    hfind (by simp [hlookup, List.lookup_cons]) (map_ne_null (by rintro _ ⟨⟩) _)
  have hrunning : present? e.members.reverse "running" = e.running.map .bool :=
    hfind (by simp [hlookup, List.lookup_cons]) (map_ne_null (by rintro _ ⟨⟩) _)
  have harguments : present? e.members.reverse "arguments" = e.arguments :=
    hfind (by simp [hlookup, List.lookup_cons]) harguments
  have hbody : present? e.members.reverse "body" = e.body :=
    hfind (by simp [hlookup, List.lookup_cons]) hbody
  have hrefs : present? e.members.reverse "refs" = e.refs.map .array :=
    hfind (by simp [hlookup, List.lookup_cons]) (map_ne_null (by rintro _ ⟨⟩) _)
  have hnumber : ((present? e.members.reverse "seq").bind uint64?).getD 0 = e.seq := by
    rw [hseq, Option.bind_some, uint64?_ofUInt64, Option.getD_some]
  have hrequest' : (present? e.members.reverse "request_seq").bind uint64? = e.requestSeq := by
    rw [hrequest, bind_map uint64?_ofUInt64]
  unfold ofMembers
  dsimp only
  rw [hnumber, hrequest', hkind, hcommand, hevent, hsuccess, hmessage, hrunning, harguments, hbody,
    hrefs]
  simp only [Option.bind_map, Function.comp_def, string?, array?,
    Option.bind_fun_some, Option.bind_some, Option.getD_some]

theorem names_optional {α : Type} (key : String) (o : Option α) (make : α → Json) :
    ((o.map fun v => (key, make v)).toList.map Prod.fst).Sublist [key] := by
  cases o with
  | none => exact List.nil_sublist _
  | some v => exact List.Sublist.refl _

/-- The members have the names of fields, in the order of the fields. -/
theorem members_names (e : Envelope) : (e.members.map Prod.fst).Sublist (readers.map Prod.fst) := by
  simp only [members, List.map_append]
  exact (((((((((List.Sublist.refl _).append (names_optional _ _ _)).append
    (names_optional _ _ _)).append (names_optional _ _ _)).append (names_optional _ _ _)).append
    (names_optional _ _ _)).append (names_optional _ _ _)).append (names_optional _ _ id)).append
    (names_optional _ _ id)).append (names_optional _ _ _)

theorem isField_optional {α : Type} {key : String} {o : Option α} {f : α → Json}
    {reader : Reader Json} (hkey : readers.lookup key = some reader)
    (h : ∀ v, o = some v → ReadsBack reader (f v)) :
    ∀ m ∈ (o.map fun v => (key, f v)).toList, IsField readers m := by
  intro m hm
  cases o with
  | none => exact (List.not_mem_nil hm).elim
  | some v =>
      rw [List.mem_singleton.1 hm]
      exact ⟨reader, hkey, h v rfl⟩

theorem isField_members {e : Envelope} (h : e.WellFormed)
    (hreals : ∀ x ∈ e.reals, (Json.Number.real x).IsReproducible) :
    ∀ m ∈ e.members, IsField readers m := by
  have hvalue : ∀ v, (∀ x ∈ v.reals, x ∈ e.reals) →
      v ≠ .null ∧ Fits Json.Number.InRange (depthLimit - 1) v →
      ReadsBack (readOrNull (readValue (depthLimit - 1))) v := by
    intro v hv hfits
    exact readOrNull_value hfits.1 (hfits.2.reproducible fun x hx => hreals x (hv x hx))
  have hseq : ∀ m ∈ [("seq", Json.ofUInt64 e.seq), ("type", Json.string e.kind)],
      IsField readers m := by
    intro m hm
    rcases List.mem_pair.1 hm with rfl | rfl
    · exact ⟨_, rfl, readUInt64_written e.seq⟩
    · exact ⟨_, rfl, readString_written e.kind⟩
  simp only [members, List.forall_mem_append]
  refine ⟨⟨⟨⟨⟨⟨⟨⟨⟨hseq, ?_⟩, ?_⟩, ?_⟩, ?_⟩, ?_⟩, ?_⟩, ?_⟩, ?_⟩, ?_⟩
  · exact isField_optional rfl fun s _ => readOrNull_string s
  · exact isField_optional rfl fun s _ => readOrNull_string s
  · exact isField_optional rfl fun n _ => readOrNull_number (readUInt64_written n)
  · exact isField_optional rfl fun b _ => readOrNull_bool b
  · exact isField_optional rfl fun s _ => readOrNull_string s
  · exact isField_optional rfl fun b _ => readOrNull_bool b
  · refine isField_optional (f := id) rfl fun v hv => hvalue v ?_ (h.arguments v hv)
    intro x hx
    simp only [reals, List.mem_flatMap, List.mem_append]
    exact ⟨v, .inl (.inl (by simp [hv])), hx⟩
  · refine isField_optional (f := id) rfl fun v hv => hvalue v ?_ (h.body v hv)
    intro x hx
    simp only [reals, List.mem_flatMap, List.mem_append]
    exact ⟨v, .inl (.inr (by simp [hv])), hx⟩
  · refine isField_optional rfl fun vs hvs => readOrNull_list ?_
    intro v hv
    refine (h.refs vs hvs v hv).reproducible fun x hx => hreals x ?_
    simp only [reals, List.mem_flatMap, List.mem_append]
    exact ⟨v, .inr (by simpa [hvs] using hv), hx⟩

/-- A message reads back from its text. -/
theorem read_text {e : Envelope} (h : e.WellFormed)
    (hreals : ∀ x ∈ e.reals, (Json.Number.real x).IsReproducible) :
    read (Text.utf8 e.text) = .ok e := by
  have hnames : (e.members.map Prod.fst).Nodup := e.members_names.nodup (by decide)
  have hread := readRecordText_written "Envelope" (isField_members h hreals) hnames []
  have hmembers := ofMembers_members e (fun hnull => (h.arguments _ hnull).1 rfl)
    fun hnull => (h.body _ hnull).1 rfl
  rw [List.append_nil] at hread
  have htext : utf8 e.text = written (.object e.members) := rfl
  rw [htext, read, readAll, hread]
  exact congrArg Except.ok hmembers

end Envelope

end RemoteInspector
