import RemoteInspector.Proofs.Json.OrderlyRecord
import RemoteInspector.Proofs.Text.Redaction
import RemoteInspector.Wire.Frame

/-!
What a fault tells of a text that holds no message. A fault is told by what has been read up to it
and the byte behind that. If it is a string of the wrong kind, the string is shown with every other
part of it between its quotes hidden; so nothing is shown of a string without a double quote.
-/

namespace RemoteInspector

open Text

namespace Json

/-! ### Whole texts -/

def Position.text (p : Position) : String :=
  " at line " ++ toString p.line ++ " column " ++ toString p.column

theorem Fault.message_eq (f : Fault) (text : Bytes) :
    f.message text = f.reason.message ++ (f.position text).text := by
  rw [Fault.message, Position.text]
  simp only [String.append_assoc]

theorem Fault.position_append (reason : Reason) (seen rest : Bytes) :
    Fault.position ⟨reason, rest⟩ (seen ++ rest) = .after seen := by
  rw [Fault.position, List.length_append, Nat.add_sub_cancel, List.take_left]

def readWhole {α : Type} (reader : Reader α) : Reader α := fun s =>
  reader s >>= fun x =>
    match skipBlanks x.2 with
    | [] => .ok (x.1, [])
    | r => atNext .trailingCharacters r

theorem readAll_eq {α : Type} (reader : Reader α) (s : Bytes) :
    readAll reader s = (readWhole reader s).map Prod.fst := by
  rw [readAll, readWhole]
  cases reader s with
  | error f => rfl
  | ok x =>
      simp only [bind, Except.bind]
      cases skipBlanks x.2 <;> rfl

theorem orderly_readWhole {α : Type} {reader : Reader α} (h : Orderly false reader) :
    Orderly false (readWhole reader) := by
  intro s
  refine (h s).bind_pair fun v r _ => ?_
  refine orderly_blanks (fun t => by simp only [skipBlanks_skipBlanks])
    ((OrderlyAt.done_pair v fun _ => rfl).congr_nil rfl) (fun b t hb => ?_) r
  refine .cons (.here .trailingCharacters rfl fun _ => rfl) fun u => ?_
  simp only [skipBlanks_cons hb]
  rfl

/-! ### The message -/

theorem quote_notMem_toString (n : Nat) : '"' ∉ (toString n).toList :=
  fun hmem => absurd (isDigit_toString hmem) (by decide)

theorem quote_notMem_text (p : Position) : '"' ∉ p.text.toList := by
  simp only [Position.text, String.toList_append, List.mem_append, not_or]
  exact ⟨⟨⟨by decide, quote_notMem_toString _⟩, by decide⟩, quote_notMem_toString _⟩

/-- What is told of a string of the wrong kind. -/
theorem redactPairedText_wrongString {wanted : String} (hwanted : '"' ∉ wanted.toList) (x : String)
    (p : Position) : redactPairedText ((wrongString x wanted).message ++ p.text) =
      "invalid type: string " ++ shownPaired x ++ ", expected " ++ wanted ++ p.text := by
  have hbefore : '"' ∉ "invalid type: string ".toList := by decide
  have hbehind : '"' ∉ (", expected " ++ wanted ++ p.text).toList := by
    simp only [String.toList_append, List.mem_append, not_or]
    exact ⟨⟨by decide, hwanted⟩, quote_notMem_text p⟩
  have hchars : ((wrongString x wanted).message ++ p.text).toList =
      "invalid type: string ".toList ++
        (quoteChars x.toList ++ (", expected " ++ wanted ++ p.text).toList) := by
    have hmessage : (wrongString x wanted).message.toList = _ := wrongType_message x wanted
    rw [String.toList_append, hmessage]
    simp only [String.toList_append, List.append_assoc]
  rw [← String.toList_inj, redactPairedText, String.toList_ofList, hchars,
    redactPaired_plain hbefore, redactPaired_quoteChars hbehind]
  simp only [String.toList_append, List.append_assoc]

end Json

namespace Envelope

open Json

theorem orderly_readers : ∀ f ∈ readers, Orderly false f.2 := by
  have hvalue := orderly_readOrNull (orderly_readValue (depthLimit - 1))
  have hstring := orderly_readOrNull orderly_readString
  have hbool := orderly_readOrNull orderly_readBool
  simp only [readers, List.forall_mem_cons]
  exact ⟨orderly_readUInt64, orderly_readString, hstring, hstring,
    orderly_readOrNull orderly_readUInt64, hbool, hstring, hbool, hvalue, hvalue,
    orderly_readOrNull (orderly_readList (depthLimit - 2)), List.forall_mem_nil _⟩

def readText : Reader (List (String × Json)) := readWhole (readRecordText "Envelope" readers)

theorem orderly_readText : Orderly false readText :=
  orderly_readWhole (orderly_readRecordText (by decide) orderly_readers)

theorem read_error {s : Bytes} {f : Fault} : read s = .error f ↔ readText s = .error f := by
  rw [read, readAll_eq, ← readText]
  cases readText s <;> simp [Except.map]

theorem decode_error {s : Bytes} {f : Fault} (h : readText s = .error f) : decode s =
    .error (.protocol ("malformed V8 message: " ++
      redactPairedText (f.reason.message ++ (f.position s).text))) := by
  rw [decode, read_error.2 h]
  dsimp only
  rw [Fault.message_eq]

/-- What is told of a text in which a string stands where something else is wanted. -/
def wrongStringMessage (x wanted : String) (p : Position) : String :=
  "malformed V8 message: " ++
    ("invalid type: string " ++ shownPaired x ++ ", expected " ++ wanted ++ p.text)

theorem decode_wrongString {s rest : Bytes} {x wanted : String} (hwanted : '"' ∉ wanted.toList)
    (h : readText s = .error ⟨wrongString x wanted, rest⟩) : decode s =
      .error (.protocol (wrongStringMessage x wanted
        (Fault.position ⟨wrongString x wanted, rest⟩ s))) := by
  have htold := decode_error h
  rw [redactPairedText_wrongString hwanted] at htold
  exact htold

/-! ### Fields that hold no text -/

/-- The fields of a message that hold a number, a truth value or a list. -/
def untextualFields : List String := ["seq", "request_seq", "success", "running", "refs"]

def RefusesStrings (reader : Reader Json) : Prop :=
  ∃ wanted, ∀ s x lit t, IsLiteral lit x → skipBlanks s = lit ++ t →
    reader s = .error ⟨wrongString x wanted, t⟩

theorem findOther_literal {α : Type} (wanted : String) {lit : Bytes} {x : String}
    (hlit : IsLiteral lit x) (t : Bytes) :
    (findOther wanted (lit ++ t) : Except Fault α) = .error ⟨wrongString x wanted, t⟩ := by
  obtain ⟨body, rfl, hbody⟩ := hlit
  have hquote : (findOther wanted (34 :: (body ++ t)) : Except Fault α) =
      readStringBody (body ++ t) >>= fun y => refuse (.string y.1) wanted y.2 := rfl
  rw [List.cons_append, hquote, hbody t]
  rfl

theorem RefusesStrings.orNull {reader : Reader Json} (h : RefusesStrings reader) :
    RefusesStrings (readOrNull reader) := by
  obtain ⟨wanted, hrefuses⟩ := h
  refine ⟨wanted, fun s x lit t hlit hs => ?_⟩
  have hlit' := hlit
  obtain ⟨body, rfl, -⟩ := hlit
  have hcons : skipBlanks s = 34 :: (body ++ t) := hs
  simp only [readOrNull, hcons]
  exact hrefuses _ x _ t hlit' (by rw [← hcons, skipBlanks_skipBlanks, hs])

/-- A reader that goes on with anything but a string in its own way. -/
theorem refusesStrings_of {reader : Reader Json} (wanted : String)
    (hreader : ∀ s r, skipBlanks s = 34 :: r → reader s = findOther wanted (34 :: r)) :
    RefusesStrings reader := by
  refine ⟨wanted, fun s x lit t hlit hs => ?_⟩
  rw [← findOther_literal wanted hlit t]
  obtain ⟨body, rfl, -⟩ := hlit
  exact hreader s (body ++ t) hs

theorem untextual_refuse : ∀ f ∈ readers, f.1 ∈ untextualFields → RefusesStrings f.2 := by
  have hnumber : RefusesStrings readUInt64 := refusesStrings_of "u64" fun s r hs => by
    rw [Json.readUInt64, startValue, hs]
    rfl
  have hbool : RefusesStrings readBool := refusesStrings_of "a boolean" fun s r hs => by
    rw [readBool, startValue, hs]
    rfl
  have hlist : RefusesStrings (readList (depthLimit - 2)) :=
    refusesStrings_of "a sequence" fun s r hs => by
      rw [readList, startValue, hs]
      rfl
  have hother : ∀ {name : String} {P : Prop}, name ∉ untextualFields → name ∈ untextualFields → P :=
    fun h h' => (h h').elim
  simp only [readers, List.forall_mem_cons]
  exact ⟨fun _ => hnumber, hother (by decide), hother (by decide), hother (by decide),
    fun _ => hnumber.orNull, fun _ => hbool.orNull, hother (by decide), fun _ => hbool.orNull,
    hother (by decide), hother (by decide), fun _ => hlist.orNull, List.forall_mem_nil _⟩

/-- What is told of a fault does not depend on what is behind it, but for one byte. If a string is
at fault for its kind, it is a literal of the text; for any other string in its place the same is
told, but for the place and for what is shown of the string; and that is the mask just if there is
no double quote in the string. A field that holds no text refuses every string. -/
theorem faults_show {text : Bytes} {f : Fault} (h : read text = .error f) :
    (∃ seen, text = seen ++ f.rest ∧
      ∀ t, t.head? = f.rest.head? → decode (seen ++ t) = decode text) ∧
    (∀ x wanted, f.reason = wrongString x wanted →
      ∃ ahead lit, text = ahead ++ lit ++ f.rest ∧ IsLiteral lit x ∧
        ∀ x' lit' behind, IsLiteral lit' x' →
          (∃ p, decode (ahead ++ lit' ++ behind) =
            .error (.protocol (wrongStringMessage x' wanted p))) ∧
          (shownPaired x' = "\"<redacted>\"" ↔ '"' ∉ x'.toList)) ∧
    ∀ f ∈ readers, f.1 ∈ untextualFields → RefusesStrings f.2 := by
  have hread := read_error.1 h
  obtain ⟨⟨seen, htext, htakes⟩, hreports⟩ := orderly_readText text
  rw [hread] at htext htakes
  refine ⟨⟨seen, htext, fun t ht => ?_⟩, fun x wanted hreason => ?_, untextual_refuse⟩
  · have hsame : readText (seen ++ t) = .error ⟨f.reason, t⟩ := htakes t (.inl ht)
    have hplace : f.position text = .after seen := by
      rw [htext]
      exact Fault.position_append f.reason seen f.rest
    rw [decode_error hsame, decode_error hread, Fault.position_append, hplace]
  · obtain ⟨reason, rest⟩ := f
    subst hreason
    obtain ⟨hwanted, ahead, lit, hlit, hx, hany⟩ := hreports x wanted rest hread
    exact ⟨ahead, lit, hlit, hx, fun x' lit' behind hx' =>
      ⟨⟨_, decode_wrongString hwanted (hany x' lit' behind hx')⟩, shownPaired_eq_mask x'⟩⟩

def misnumbered (content : String) : Bytes := utf8 ("\x7b\"seq\":\"" ++ content ++ "\"\x7d")

theorem faults_show_misnumbered :
    read (misnumbered "plain") = .error ⟨wrongString "plain" "u64", [125]⟩ ∧
    ∃ ahead lit, misnumbered "plain" = ahead ++ lit ++ [125] ∧ IsLiteral lit "plain" ∧
      ∀ x' lit' behind, IsLiteral lit' x' →
        (∃ p, decode (ahead ++ lit' ++ behind) =
          .error (.protocol (wrongStringMessage x' "u64" p))) ∧
        (shownPaired x' = "\"<redacted>\"" ↔ '"' ∉ x'.toList) := by
  have hread : read (misnumbered "plain") = .error ⟨wrongString "plain" "u64", [125]⟩ := by
    decide +kernel
  exact ⟨hread, (faults_show hread).2.1 "plain" "u64" rfl⟩

/-- A quote in the string ends what is hidden, and the rest of the string is shown. -/
theorem string_shown_behind_quote :
    decode (misnumbered "plain") = .error (.protocol (wrongStringMessage "plain" "u64" ⟨1, 14⟩)) ∧
    shownPaired "plain" = "\"<redacted>\"" ∧
    decode (misnumbered "a\\\"secret") =
      .error (.protocol (wrongStringMessage "a\"secret" "u64" ⟨1, 18⟩)) ∧
    shownPaired "a\"secret" = "\"<redacted>\"secret\"" := by
  have hplain : readText (misnumbered "plain") = .error ⟨wrongString "plain" "u64", [125]⟩ := by
    decide +kernel
  have hsecret : readText (misnumbered "a\\\"secret") =
      .error ⟨wrongString "a\"secret" "u64", [125]⟩ := by decide +kernel
  have hwanted : '"' ∉ "u64".toList := by decide
  refine ⟨?_, (shownPaired_eq_mask "plain").2 (by decide), ?_, ?_⟩
  · have hplace : Fault.position ⟨wrongString "plain" "u64", [125]⟩ (misnumbered "plain") =
        ⟨1, 14⟩ := by decide +kernel
    rw [decode_wrongString hwanted hplain, hplace]
  · have hplace : Fault.position ⟨wrongString "a\"secret" "u64", [125]⟩
        (misnumbered "a\\\"secret") = ⟨1, 18⟩ := by decide +kernel
    rw [decode_wrongString hwanted hsecret, hplace]
  · rw [shownPaired, ← String.toList_inj, String.toList_ofList]
    rfl

end Envelope

end RemoteInspector
