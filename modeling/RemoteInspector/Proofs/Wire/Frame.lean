import RemoteInspector.Proofs.Wire.Envelope
import RemoteInspector.Wire.Frame

/-!
Frames read back as they were written. A line is gathered byte by byte and taken up as a whole; the
line that is written tells the length of the text behind it, and so the reader stops where the text
does. What has been read as a message and is not too long is written as such a frame.
-/

namespace RemoteInspector

open Text

namespace Frame

/-! ### Lines -/

section

variable {h h' : Head} {line s : Bytes}

/-- The bytes in front of a newline are gathered. -/
theorem readHead_gather (h : Head) (started : Bool) (hline : ∀ b ∈ line, b ≠ 10) (taken : Bytes)
    (room : Nat) (s : Bytes) :
    readHead h started taken (room + line.length) (line ++ s) =
      readHead h started (line.reverse ++ taken) room s := by
  induction line generalizing taken with
  | nil => rfl
  | cons b line ih =>
      obtain ⟨hb, hline⟩ := List.forall_mem_cons.1 hline
      rw [List.length_cons, ← Nat.add_assoc, List.cons_append, readHead, if_neg hb, ih hline]
      simp

theorem readHead_newline (h : Head) (started : Bool) (hline : ∀ b ∈ line, b ≠ 10)
    (hroom : line.length < maxLine) (s : Bytes) :
    ∃ room, readHead h started [] maxLine (line ++ 10 :: s) =
      readHead h started line.reverse (room + 1) (10 :: s) := by
  refine ⟨maxLine - 1 - line.length, ?_⟩
  have hmax : maxLine = maxLine - 1 - line.length + 1 + line.length := by omega
  have hgather := readHead_gather h started hline [] (maxLine - 1 - line.length + 1) (10 :: s)
  rwa [← hmax, List.append_nil] at hgather

/-- A line that is more of the head is taken up, and the next one follows. -/
theorem readHead_more {started : Bool} (hline : ∀ b ∈ line, b ≠ 10)
    (hroom : line.length < maxLine) (hmore : h.line (line ++ [10]) = .ok (.more h')) (s : Bytes) :
    readHead h started [] maxLine (line ++ 10 :: s) = readHead h' true [] maxLine s := by
  obtain ⟨room, heq⟩ := readHead_newline h started hline hroom s
  rw [heq, readHead, if_pos rfl, List.reverse_cons, List.reverse_reverse]
  simp only [hmore]

/-- Behind a blank line is the body. -/
theorem readHead_blank {started : Bool} (hline : ∀ b ∈ line, b ≠ 10)
    (hroom : line.length < maxLine) (hblank : h.line (line ++ [10]) = .ok .blank) (s : Bytes) :
    readHead h started [] maxLine (line ++ 10 :: s) = readBody h s := by
  obtain ⟨room, heq⟩ := readHead_newline h started hline hroom s
  rw [heq, readHead, if_pos rfl, List.reverse_cons, List.reverse_reverse]
  simp only [hblank]

end

/-! ### The line that tells the length -/

theorem utf8_return : utf8 "\r" = [13] := by decide

theorem utf8_break : utf8 "\r\n" = [13, 10] := by decide

theorem withoutBreak_append {line : String} (hline : ∀ c ∈ line.toList, c ≠ '\r' ∧ c ≠ '\n') :
    withoutBreak (line ++ "\r\n") = line.toList := by
  have hbreak : "\r\n".toList = ['\r', '\n'] := rfl
  have hkept : ∀ c ∈ line.toList.reverse, (c == '\r' || c == '\n') = false := by
    intro c hc
    obtain ⟨hreturn, hnewline⟩ := hline c (List.mem_reverse.1 hc)
    rw [beq_false_of_ne hreturn, beq_false_of_ne hnewline]
    rfl
  rw [withoutBreak, String.toList_append, hbreak, List.reverse_append]
  show ((line.toList.reverse).dropWhile _).reverse = _
  rw [dropWhile_kept hkept, List.reverse_reverse]

/-- What is before the first colon of a line, and what is behind it. -/
theorem colon_split {name : String} (hname : ':' ∉ name.toList) (value : String) :
    (name.toList ++ ':' :: value.toList).takeWhile (· != ':') = name.toList ∧
      ((name.toList ++ ':' :: value.toList).dropWhile (· != ':')).drop 1 = value.toList := by
  have hbefore : ∀ c ∈ name.toList, (c != ':') = true := by
    intro c hc
    rw [bne_iff_ne]
    rintro rfl
    exact hname hc
  rw [List.takeWhile_append_of_pos hbefore, List.dropWhile_append_of_pos hbefore]
  simp

theorem colon_mem (name value : String) : ':' ∈ name.toList ++ ':' :: value.toList :=
  List.mem_append_right _ List.mem_cons_self

/-- A line with a colon behind a name without one. -/
theorem Head.add_field (h : Head) {name : String} (hname : ':' ∉ name.toList) (value : String) :
    h.add (name.toList ++ ':' :: value.toList) =
      if eqIgnoringCase name lengthName then
        match readUnsigned UInt64.size (trim value) with
        | .ok n => .ok ⟨h.headers ++ [(trim name, trim value)], some n⟩
        | .error fault => .error (badLength (trim value) fault)
      else .ok ⟨h.headers ++ [(trim name, trim value)], h.length⟩ := by
  obtain ⟨htake, hdrop⟩ := colon_split hname value
  rw [Head.add, if_pos (colon_mem name value), htake, hdrop, String.ofList_toList,
    String.ofList_toList]
  dsimp only
  cases readUnsigned UInt64.size (trim value) with
  | error fault => rfl
  | ok n => rfl

/-- A line without a colon, or a name and a value. -/
theorem colon_cases (cs : List Char) :
    ':' ∉ cs ∨
      ∃ name value : String, ':' ∉ name.toList ∧ cs = name.toList ++ ':' :: value.toList := by
  by_cases hcolon : ':' ∈ cs
  · obtain ⟨name, value, hcs, hname⟩ := List.eq_append_cons_of_mem hcolon
    refine .inr ⟨String.ofList name, String.ofList value, ?_, ?_⟩
    · rwa [String.toList_ofList]
    · rwa [String.toList_ofList, String.toList_ofList]
  · exact .inl hcolon

/-- The line has the name of the header that tells the length, and this value. -/
def NamesLength (l value : String) : Prop :=
  ∃ name : String, ':' ∉ name.toList ∧ withoutBreak l = name.toList ++ ':' :: value.toList ∧
    eqIgnoringCase name lengthName = true

/-- Only a line that is to tell the length and tells none is refused. -/
theorem Head.add_ok_iff (h : Head) (l : String) :
    (∃ h', h.add (withoutBreak l) = .ok h') ↔
      ∀ value, NamesLength l value → ∃ n, readUnsigned UInt64.size (trim value) = .ok n := by
  rcases colon_cases (withoutBreak l) with hcolon | ⟨name, value, hname, heq⟩
  · refine iff_of_true ⟨h, by rw [Head.add, if_neg hcolon]; rfl⟩ ?_
    rintro value ⟨name, -, heq, -⟩
    exact (hcolon (heq ▸ colon_mem name value)).elim
  · have hvalue : ∀ other, NamesLength l other ↔
        other = value ∧ eqIgnoringCase name lengthName = true := by
      refine fun other => ⟨?_, fun ⟨hother, hsame⟩ => ⟨name, hname, hother ▸ heq, hsame⟩⟩
      rintro ⟨name', hname', heq', hsame'⟩
      have hname := colon_split hname value
      have hname' := colon_split hname' other
      rw [← heq] at hname
      rw [← heq'] at hname'
      rw [String.toList_inj.1 (hname.1.symm.trans hname'.1)]
      exact ⟨String.toList_inj.1 (hname'.2.symm.trans hname.2), hsame'⟩
    simp only [hvalue, and_imp, forall_eq]
    rw [heq, Head.add_field h hname]
    cases eqIgnoringCase name lengthName with
    | false => simp
    | true => cases readUnsigned UInt64.size (trim value) <;> simp

theorem Head.add_error {h : Head} {cs : List Char} {e : WireError} (hadd : h.add cs = .error e) :
    ∃ value fault, e = badLength value fault := by
  unfold Head.add at hadd
  dsimp only at hadd
  split at hadd
  · split at hadd
    · split at hadd
      · cases hadd
      · cases hadd
        exact ⟨_, _, rfl⟩
    · cases hadd
  · cases hadd

def lengthLine (n : Nat) : String := lengthName ++ (": " ++ toString n)

theorem toList_lengthLine (n : Nat) : (lengthLine n).toList =
    lengthName.toList ++ ':' :: (" " ++ toString n).toList := by
  rw [lengthLine, String.toList_append, String.toList_append, String.toList_append]
  rfl

theorem trim_length (n : Nat) : trim (" " ++ toString n) = toString n := by
  have hblank : (" " ++ toString n).toList = ' ' :: (toString n).toList := by
    rw [String.toList_append]
    rfl
  have hdigits := trimList_kept fun c hc => isBlank_digit (isDigit_toString (n := n) hc)
  have hlead : trimList isBlank (' ' :: (toString n).toList) =
      trimList isBlank (toString n).toList := rfl
  rw [trim, hblank, hlead, hdigits, String.ofList_toList]

theorem add_lengthLine (h : Head) {n : Nat} (hn : n < UInt64.size) :
    h.add (lengthLine n).toList = .ok ⟨h.headers ++ [(lengthName, toString n)], some n⟩ := by
  have hname : trim lengthName = lengthName := by decide
  have hsame : eqIgnoringCase lengthName lengthName = true := beq_self_eq_true _
  rw [toList_lengthLine, Head.add_field h (by decide), if_pos hsame, trim_length, hname,
    readUnsigned_toString hn]

theorem lengthLine_chars (n : Nat) : ∀ c ∈ (lengthLine n).toList,
    c ≠ '\r' ∧ c ≠ '\n' ∧ c.toNat < 128 := by
  have hname : ∀ c ∈ lengthName.toList ++ [':', ' '], c ≠ '\r' ∧ c ≠ '\n' ∧ c.toNat < 128 := by
    have hall : (lengthName.toList ++ [':', ' ']).all
        (fun c => decide (c ≠ '\r' ∧ c ≠ '\n' ∧ c.toNat < 128)) = true := rfl
    exact fun c hc => of_decide_eq_true (List.all_eq_true.1 hall c hc)
  intro c hc
  have hsplit : (lengthLine n).toList =
      (lengthName.toList ++ [':', ' ']) ++ (toString n).toList := by
    rw [lengthLine, String.toList_append, String.toList_append, List.append_assoc]
    rfl
  rw [hsplit, List.mem_append] at hc
  rcases hc with hc | hc
  · exact hname c hc
  · have hbounds := isDigit_bounds (isDigit_toString hc)
    refine ⟨?_, ?_, by omega⟩
    · rintro rfl
      exact absurd hbounds (by decide)
    · rintro rfl
      exact absurd hbounds (by decide)

theorem line_lengthLine (h : Head) {n : Nat} (hn : n < UInt64.size) :
    h.line (utf8 (lengthLine n ++ "\r\n")) =
      .ok (.more ⟨h.headers ++ [(lengthName, toString n)], some n⟩) := by
  have hchars : withoutBreak (lengthLine n ++ "\r\n") = (lengthLine n).toList :=
    withoutBreak_append fun c hc => ⟨(lengthLine_chars n c hc).1, (lengthLine_chars n c hc).2.1⟩
  have hstart : ∃ c cs, (lengthLine n).toList = c :: cs := ⟨_, _, toList_lengthLine n⟩
  obtain ⟨c, cs, heq⟩ := hstart
  rw [Head.line, decodeUtf8?_utf8]
  dsimp only
  rw [hchars, heq]
  dsimp only
  rw [← heq, add_lengthLine h hn]
  rfl

theorem utf8_lengthLine (n : Nat) : ∀ b ∈ utf8 (lengthLine n), b ≠ 10 := by
  rintro b hb rfl
  have hmem : '\n' ∈ (lengthLine n).toList := (byteOf_mem_utf8 (by decide)).1 hb
  exact (lengthLine_chars n '\n' hmem).2.1 rfl

/-- The line is short, since the number has eight digits at most. -/
theorem length_lengthLine {n : Nat} (hn : n ≤ maxBody) :
    (utf8 (lengthLine n ++ "\r")).length < maxLine := by
  have hdigits : (Nat.toDigits 10 n).length ≤ 8 := by
    rw [Nat.length_toDigits_le_iff (by decide) (by decide)]
    exact Nat.lt_of_le_of_lt hn (by decide)
  have hname : (utf8 lengthName).length = 14 := by decide
  have hcolon : (utf8 ": ").length = 2 := by decide
  have hmax : maxLine = 8192 := rfl
  rw [lengthLine, utf8_append, utf8_append, utf8_append, utf8_toString, utf8_return]
  simp only [List.length_append, List.length_map, List.length_singleton, hname, hcolon, hmax]
  omega

/-! ### Frames -/

/-- The bytes of a frame with this body and no header but the one that tells its length. -/
def framed (body : Bytes) : Bytes := utf8 (lengthLine body.length ++ "\r\n\r\n") ++ body

theorem readBody_framed {body : Bytes} {h : Head} (hlength : h.length = some body.length)
    (hsize : body.length ≤ maxBody) (t : Bytes) :
    readBody h (body ++ t) = .ok (some (⟨h.headers, body⟩, t)) := by
  have hbody : h.bodyLength = .ok body.length := by
    rw [Head.bodyLength, hlength]
    exact if_neg (Nat.not_lt.2 hsize)
  have hsplit : split? body.length [] (body ++ t) = some (body, t) := by
    rw [split?_eq, if_neg (by simp)]
    simp
  rw [readBody, hbody]
  simp only [bind, Except.bind, hsplit]
  rfl

/-- The line that tells a length is taken up, whatever has been before. -/
theorem readHead_lengthLine (h : Head) {n : Nat} (hn : n ≤ maxBody) (started : Bool) (s : Bytes) :
    readHead h started [] maxLine (utf8 (lengthLine n ++ "\r\n") ++ s) =
      readHead ⟨h.headers ++ [(lengthName, toString n)], some n⟩ true [] maxLine s := by
  have hbytes : utf8 (lengthLine n ++ "\r\n") = utf8 (lengthLine n ++ "\r") ++ [10] := by
    simp [utf8_return, utf8_break]
  have hnewline : ∀ b ∈ utf8 (lengthLine n ++ "\r"), b ≠ 10 := by
    rw [utf8_append, utf8_return]
    exact List.forall_mem_append.2 ⟨utf8_lengthLine n, List.forall_mem_singleton.2 (by decide)⟩
  have hmore := line_lengthLine h (Nat.lt_of_le_of_lt hn (by decide))
  rw [hbytes] at hmore ⊢
  rw [List.append_assoc]
  exact readHead_more hnewline (length_lengthLine hn) hmore s

theorem readHead_framed (h : Head) {body : Bytes} (hsize : body.length ≤ maxBody) (started : Bool)
    (t : Bytes) : readHead h started [] maxLine (framed body ++ t) =
      .ok (some (⟨h.headers ++ [(lengthName, toString body.length)], body⟩, t)) := by
  have hbytes : framed body ++ t =
      utf8 (lengthLine body.length ++ "\r\n") ++ ([13] ++ 10 :: (body ++ t)) := by
    have hbreaks : utf8 "\r\n\r\n" = utf8 "\r\n" ++ [13, 10] := by decide
    simp [framed, hbreaks]
  have hreturn : ∀ b ∈ [(13 : UInt8)], b ≠ 10 := List.forall_mem_singleton.2 (by decide)
  rw [hbytes, readHead_lengthLine h hsize, readHead_blank hreturn (by decide) rfl]
  exact readBody_framed rfl hsize t

/-- A body behind the line that tells its length and a blank one is read as a frame, and what follows
is left. -/
theorem read_framed {body : Bytes} (hsize : body.length ≤ maxBody) (t : Bytes) :
    read (framed body ++ t) =
      .ok (some (⟨[(lengthName, toString body.length)], body⟩, t)) :=
  readHead_framed {} hsize false t

def ofText (text : String) : Frame := ⟨[(lengthName, toString text.utf8ByteSize)], utf8 text⟩

theorem read_text {text : String} (hsize : text.utf8ByteSize ≤ maxBody) (t : Bytes) :
    read (utf8 (lengthLine text.utf8ByteSize ++ "\r\n\r\n" ++ text) ++ t) =
      .ok (some (ofText text, t)) := by
  have hbody : (utf8 text).length ≤ maxBody := by rwa [length_utf8]
  have hread := read_framed hbody t
  rwa [framed, length_utf8, ← utf8_append] at hread

end Frame

namespace Envelope

/-! ### Messages on the wire -/

/-- A message that has been read, and that can be written: its text is short enough for a frame, and
the printer and the reader of reals agree on the ones in it. -/
structure Transmissible (e : Envelope) : Prop where
  received : ∃ s, decode s = .ok e
  size : e.text.utf8ByteSize ≤ Frame.maxBody
  reals : ∀ x ∈ e.reals, (Json.Number.real x).IsReproducible

/-- The frame holds the message. Its only header tells the length of its body, and it is not taken for
a greeting. -/
structure CarriedBy (e : Envelope) (f : Frame) : Prop where
  headers : f.headers = [(Frame.lengthName, toString f.body.length)]
  notGreeting : f.isGreeting = false
  decode : Envelope.decode f.body = .ok e

theorem read_of_decode {s : Bytes} {e : Envelope} (h : decode s = .ok e) : read s = .ok e := by
  unfold decode at h
  split at h
  · next hread =>
    cases h
    exact hread
  · cases h

theorem decode_text {e : Envelope} (h : e.WellFormed)
    (hreals : ∀ x ∈ e.reals, (Json.Number.real x).IsReproducible) :
    decode (utf8 e.text) = .ok e := by
  rw [decode, read_text h hreals]

/-- What can be received is what is well formed. -/
theorem received_iff {e : Envelope}
    (hreals : ∀ x ∈ e.reals, (Json.Number.real x).IsReproducible) :
    (∃ s, decode s = .ok e) ↔ e.WellFormed := by
  constructor
  · rintro ⟨s, hs⟩
    exact wellFormed_read (read_of_decode hs)
  · intro h
    exact ⟨utf8 e.text, decode_text h hreals⟩

theorem utf8_text_cons (e : Envelope) : ∃ b s, utf8 e.text = b :: s :=
  ⟨_, _, Json.written_object_cons ("seq", .ofUInt64 e.seq) _⟩

theorem carriedBy_ofText {e : Envelope} (h : e.Transmissible) : e.CarriedBy (.ofText e.text) := by
  refine ⟨?_, ?_, decode_text ((received_iff h.reals).1 h.received) h.reals⟩
  · rw [Frame.ofText, length_utf8]
  · obtain ⟨b, s, heq⟩ := e.utf8_text_cons
    rw [Frame.isGreeting, Frame.ofText, heq]
    rfl

def frameBytes (e : Envelope) : Bytes :=
  utf8 (Frame.lengthLine e.text.utf8ByteSize ++ "\r\n\r\n" ++ e.text)

theorem encode_eq {e : Envelope} (hsize : e.text.utf8ByteSize ≤ Frame.maxBody) :
    e.encode = .ok e.frameBytes := by
  have hname : "Content-Length: " ++ toString e.text.utf8ByteSize =
      Frame.lengthLine e.text.utf8ByteSize := by
    have hliteral : Frame.lengthName ++ ": " = "Content-Length: " := by decide
    rw [Frame.lengthLine, ← String.append_assoc, hliteral]
  rw [encode, encodeText, if_neg (Nat.not_lt.2 hsize), hname]
  rfl

theorem read_frameBytes {e : Envelope} (hsize : e.text.utf8ByteSize ≤ Frame.maxBody) (t : Bytes) :
    Frame.read (e.frameBytes ++ t) = .ok (some (.ofText e.text, t)) :=
  Frame.read_text hsize t

/-- Frames are read one after the other, up to the end of the input. -/
theorem readAll_frameBytes {es : List Envelope}
    (hes : ∀ e ∈ es, e.text.utf8ByteSize ≤ Frame.maxBody) {fuel : Nat} (hfuel : es.length < fuel) :
    Frame.readAll fuel (es.flatMap frameBytes) = (es.map fun e => .ofText e.text, none) := by
  induction es generalizing fuel with
  | nil =>
      obtain ⟨fuel, rfl⟩ := Nat.exists_eq_succ_of_ne_zero (Nat.ne_zero_of_lt hfuel)
      rfl
  | cons e es ih =>
      obtain ⟨fuel, rfl⟩ := Nat.exists_eq_succ_of_ne_zero (Nat.ne_zero_of_lt hfuel)
      obtain ⟨he, hes⟩ := List.forall_mem_cons.1 hes
      rw [List.flatMap_cons, Frame.readAll, read_frameBytes he]
      dsimp only
      rw [ih hes (Nat.lt_of_succ_lt_succ hfuel)]
      rfl

theorem mapM_encode {es : List Envelope} (hes : ∀ e ∈ es, e.text.utf8ByteSize ≤ Frame.maxBody) :
    es.mapM encode = .ok (es.map frameBytes) := by
  induction es with
  | nil => rfl
  | cons e es ih =>
      obtain ⟨he, hes⟩ := List.forall_mem_cons.1 hes
      rw [List.mapM_cons, encode_eq he, ih hes]
      rfl

/-- Messages that have been read and are short enough can be written. Each is read back from its own
bytes alone, whatever follows them, and messages written one after the other are read back one after
the other, up to a clean end. -/
theorem messages_read_back (es : List Envelope) (hes : ∀ e ∈ es, e.Transmissible) :
    (∀ e ∈ es, ∃ s f, e.encode = .ok s ∧ e.CarriedBy f ∧
      ∀ t, Frame.read (s ++ t) = .ok (some (f, t))) ∧
    ∃ ss fs, es.mapM encode = .ok ss ∧ List.Forall₂ CarriedBy es fs ∧
      ∀ fuel, es.length < fuel → Frame.readAll fuel ss.flatten = (fs, none) := by
  refine ⟨fun e he => ?_, es.map frameBytes, es.map fun e => .ofText e.text, ?_, ?_, ?_⟩
  · have hsize := (hes e he).size
    exact ⟨e.frameBytes, .ofText e.text, encode_eq hsize, carriedBy_ofText (hes e he),
      read_frameBytes hsize⟩
  · exact mapM_encode fun e he => (hes e he).size
  · rw [List.forall₂_map_right_iff, List.forall₂_same]
    exact fun e he => carriedBy_ofText (hes e he)
  · intro fuel hfuel
    rw [← List.flatMap_def]
    exact readAll_frameBytes (fun e he => (hes e he).size) hfuel

def sampleRequest : Envelope where
  seq := 7
  kind := "request"
  command := some "evaluate"
  arguments := some (.object
    [("at", .array [.number (.integer (-3)), .number (.real ⟨0x3FF8000000000000⟩)]),
      ("expression", .string "\"a\\\n\u0001é")])

def sampleResponse : Envelope where
  seq := 8
  kind := "response"
  command := some "evaluate"
  requestSeq := some 7
  success := some true
  body := some (.bool true)
  refs := some []

theorem messages_read_back_pair :
    (∀ e ∈ [sampleRequest, sampleResponse], e.Transmissible) ∧
    (∀ e ∈ [sampleRequest, sampleResponse], ∃ s f, e.encode = .ok s ∧ e.CarriedBy f ∧
      ∀ t, Frame.read (s ++ t) = .ok (some (f, t))) ∧
    ∃ ss fs, [sampleRequest, sampleResponse].mapM encode = .ok ss ∧
      List.Forall₂ CarriedBy [sampleRequest, sampleResponse] fs ∧
      ∀ fuel, 2 < fuel → Frame.readAll fuel ss.flatten = (fs, none) := by
  have hreal : (Json.Number.real ⟨0x3FF8000000000000⟩).IsReproducible := by decide +kernel
  have hreals : ∀ x ∈ sampleRequest.reals, (Json.Number.real x).IsReproducible := by
    intro x hx
    rwa [List.mem_singleton.1 hx]
  have hrequest : sampleRequest.Transmissible := by
    refine ⟨(received_iff hreals).2 ⟨?_, by rintro _ ⟨⟩, by rintro _ ⟨⟩⟩, ?_, hreals⟩
    · rintro v ⟨⟩
      have horder : "at" < "expression" := by decide
      refine ⟨by rintro ⟨⟩, by decide, List.pairwise_pair.2 horder, ?_⟩
      simp [Json.Fits, Json.Number.InRange, int64Bound]
    · have htext : (Json.Number.real ⟨0x3FF8000000000000⟩).text = "1.5" := by decide +kernel
      have hbytes : utf8 sampleRequest.text = Json.written (.object sampleRequest.members) := rfl
      rw [← length_utf8, hbytes]
      simp only [sampleRequest, members, Option.map, Option.toList, List.append_nil,
        List.cons_append, List.nil_append, Json.written_object_cons, Json.writtenMembers,
        Json.writtenMember, List.flatMap_cons, List.flatMap_nil, Json.written_string,
        Json.ofUInt64, Json.written_number, Json.written_array_cons, Json.writtenItems, htext]
      decide +kernel
  have hresponse : sampleResponse.Transmissible := by
    -- The other form of a record: a list of the values of its fields.
    refine ⟨⟨utf8 "[8, \"response\", \"evaluate\", null, 7, true, null, null, null, true, []]", ?_⟩,
      ?_, by rintro _ ⟨⟩⟩
    · decide +kernel
    · decide +kernel
  have hes : ∀ e ∈ [sampleRequest, sampleResponse], e.Transmissible :=
    List.forall_mem_cons.2 ⟨hrequest, List.forall_mem_singleton.2 hresponse⟩
  exact ⟨hes, messages_read_back [sampleRequest, sampleResponse] hes⟩

end Envelope

end RemoteInspector
