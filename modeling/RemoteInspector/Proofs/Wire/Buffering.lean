import RemoteInspector.Proofs.Wire.Stream
import RemoteInspector.Wire.Chunks

/-!
What is read does not depend on how the bytes arrive. A line is gathered chunk by chunk, and the limit
on lines is checked against what has been gathered so far; what comes of it is what comes of the bytes
in one piece. The same holds of a body and of a frame, and of what is then left. So it depends on the
bytes alone whether a header line is accepted.
-/

namespace RemoteInspector

open Text

namespace Chunks

/-! ### The first line -/

theorem splitLine?_newline {start rest : Bytes} (hstart : 10 ∉ start) :
    splitLine? (start ++ 10 :: rest) = some (start ++ [10], rest) := by
  have hkeep : ∀ b ∈ start, (b != 10) = true := by
    intro b hb
    rw [bne_iff_ne]
    rintro rfl
    exact hstart hb
  rw [splitLine?, List.dropWhile_append_of_pos hkeep, List.takeWhile_append_of_pos hkeep]
  simp

theorem splitLine?_none {s : Bytes} (hs : 10 ∉ s) : splitLine? s = none := by
  have hall : s.dropWhile (· != 10) = [] := by
    rw [List.dropWhile_eq_nil_iff]
    intro b hb
    rw [bne_iff_ne]
    rintro rfl
    exact hs hb
  rw [splitLine?, hall]

/-- Bytes have no newline, or they are a line and what follows it. -/
theorem newline_cases (s : Bytes) :
    10 ∉ s ∨ ∃ start rest, s = start ++ 10 :: rest ∧ 10 ∉ start := by
  by_cases h : 10 ∈ s
  · obtain ⟨start, rest, hs, hstart⟩ := List.eq_append_cons_of_mem h
    exact .inr ⟨start, rest, hs, hstart⟩
  · exact .inl h

/-- The bytes up to the first newline, which is included, or all of them, and the rest. -/
def firstLine (s : Bytes) : Bytes × Bytes := (splitLine? s).getD (s, [])

theorem firstLine_newline {start rest : Bytes} (hstart : 10 ∉ start) :
    firstLine (start ++ 10 :: rest) = (start ++ [10], rest) := by
  rw [firstLine, splitLine?_newline hstart, Option.getD_some]

theorem firstLine_none {s : Bytes} (hs : 10 ∉ s) : firstLine s = (s, []) := by
  rw [firstLine, splitLine?_none hs, Option.getD_none]

/-- Bytes without a newline are the beginning of the first line. -/
theorem firstLine_append {start : Bytes} (hstart : 10 ∉ start) (s : Bytes) :
    firstLine (start ++ s) = (start ++ (firstLine s).1, (firstLine s).2) := by
  rcases newline_cases s with hs | ⟨line, rest, rfl, hline⟩
  · rw [firstLine_none hs, firstLine_none (List.not_mem_append hstart hs)]
  · rw [firstLine_newline hline, ← List.append_assoc,
      firstLine_newline (List.not_mem_append hstart hline), List.append_assoc]

/-! ### Lines -/

/-- The result of reading, with what is left of the stream in one piece. -/
def flat {α : Type} (r : Except WireError (Option α) × Stream) :
    Except WireError (Option (α × Bytes)) :=
  r.1.map (Option.map fun a => (a, r.2.flatten))

theorem flat_none {α : Type} {r : Except WireError (Option α) × Stream} :
    flat r = .ok none ↔ r.1 = .ok none := by
  rcases r with ⟨e | _ | a, left⟩ <;> simp [flat, Except.map]

theorem flat_error {α : Type} {r : Except WireError (Option α) × Stream} {e : WireError} :
    flat r = .error e ↔ r.1 = .error e := by
  rcases r with ⟨e | _ | a, left⟩ <;> simp [flat, Except.map]

theorem flat_some {α : Type} {r : Except WireError (Option α) × Stream} {a : α} {b : Bytes} :
    flat r = .ok (some (a, b)) ↔ r.1 = .ok (some a) ∧ r.2.flatten = b := by
  rcases r with ⟨e | _ | a, left⟩ <;> simp [flat, Except.map]

/-- The line that begins with what has been gathered and goes on in these bytes. -/
def nextLine (gathered s : Bytes) : Except WireError (Option (Bytes × Bytes)) :=
  if gathered ++ s = [] then .ok none
  else if Frame.maxLine < (gathered ++ (firstLine s).1).length then .error Frame.longLine
  else .ok (some (gathered ++ (firstLine s).1, (firstLine s).2))

theorem length_nil_le : ([] : Bytes).length ≤ Frame.maxLine := Nat.zero_le _

/-- A line is the same in whatever chunks it comes. -/
theorem readLine_flat {gathered : Bytes} (hgathered : gathered.length ≤ Frame.maxLine)
    (s : Stream) : flat (readLine gathered s) = nextLine gathered s.flatten := by
  induction s generalizing gathered with
  | nil =>
      rw [readLine, nextLine, List.flatten_nil, List.append_nil]
      cases gathered with
      | nil => rfl
      | cons b gathered =>
          rw [if_neg (List.cons_ne_nil _ _), firstLine_none List.not_mem_nil, List.append_nil,
            if_neg (Nat.not_lt.2 hgathered)]
          rfl
  | cons chunk s ih =>
      rw [readLine, List.flatten_cons]
      rcases newline_cases chunk with hchunk | ⟨start, left, rfl, hstart⟩
      · rw [splitLine?_none hchunk]
        dsimp only
        by_cases hlong : Frame.maxLine < gathered.length + chunk.length
        · -- The limit is passed within the line, before its newline is seen.
          have hne : gathered ++ (chunk ++ s.flatten) ≠ [] := by
            intro hnil
            have hlength := congrArg List.length hnil
            simp only [List.length_append, List.length_nil] at hlength
            omega
          have hline : Frame.maxLine <
              (gathered ++ (chunk ++ (firstLine s.flatten).1)).length := by
            simp only [List.length_append]
            omega
          rw [if_pos hlong, nextLine, if_neg hne, firstLine_append hchunk, if_pos hline]
          rfl
        · have hroom : (gathered ++ chunk).length ≤ Frame.maxLine := by
            rw [List.length_append]
            exact Nat.not_lt.1 hlong
          rw [if_neg hlong, ih hroom, nextLine, nextLine, firstLine_append hchunk,
            List.append_assoc, List.append_assoc]
      · have hbytes : start ++ 10 :: left ++ s.flatten = start ++ 10 :: (left ++ s.flatten) := by
          rw [List.append_assoc, List.cons_append]
        have hne : gathered ++ (start ++ 10 :: (left ++ s.flatten)) ≠ [] := by simp
        have hlength : (gathered ++ (start ++ [10])).length =
            gathered.length + (start ++ [10]).length := List.length_append
        rw [splitLine?_newline hstart, hbytes, nextLine, if_neg hne, firstLine_newline hstart]
        dsimp only
        rw [hlength]
        split
        · rfl
        · rfl

end Chunks

namespace Frame

open Chunks

/-- A line that does not come to its end in time. -/
theorem readHead_long {h : Head} {started : Bool} {start : Bytes} (hstart : 10 ∉ start)
    (hlong : maxLine ≤ start.length) (b : UInt8) (s : Bytes) :
    readHead h started [] maxLine (start ++ b :: s) = .error longLine := by
  obtain ⟨c, rest, hrest⟩ : ∃ c rest, start.drop maxLine ++ b :: s = c :: rest :=
    List.exists_cons_of_ne_nil (by simp)
  have hsplit : start ++ b :: s = start.take maxLine ++ c :: rest := by
    rw [← hrest, ← List.append_assoc, List.take_append_drop]
  have htake : (start.take maxLine).length = maxLine := by
    rw [List.length_take]
    exact Nat.min_eq_left hlong
  have hline : ∀ d ∈ start.take maxLine, d ≠ 10 := by
    rintro d hd rfl
    exact hstart (List.mem_of_mem_take hd)
  have hgather := readHead_gather h started hline [] 0 (c :: rest)
  rw [Nat.zero_add, htake] at hgather
  rw [hsplit, hgather]
  rfl

/-- The head is read line by line. -/
theorem readHead_line (h : Head) (started : Bool) (s : Bytes) :
    readHead h started [] maxLine s =
      match nextLine [] s with
      | .error e => .error e
      | .ok none => if started then .error cutHead else .ok none
      | .ok (some (line, rest)) =>
        match h.line line with
        | .error e => .error e
        | .ok .blank => readBody h rest
        | .ok (.more h) => readHead h true [] maxLine rest := by
  rw [nextLine, List.nil_append]
  rcases newline_cases s with hs | ⟨start, rest, rfl, hstart⟩
  · by_cases hnil : s = []
    · subst hnil
      rfl
    · rw [if_neg hnil, firstLine_none hs, List.nil_append]
      dsimp only
      by_cases hlong : maxLine < s.length
      · rw [if_pos hlong]
        obtain ⟨b, hlast⟩ : ∃ b, s = s.dropLast ++ [b] :=
          ⟨s.getLast hnil, (List.dropLast_concat_getLast hnil).symm⟩
        rw [hlast]
        refine readHead_long (fun hmem => hs (List.dropLast_subset s hmem)) ?_ b []
        rw [List.length_dropLast]
        omega
      · rw [if_neg hlong]
        have hline : ∀ b ∈ s, b ≠ 10 := by
          rintro b hb rfl
          exact hs hb
        have hgather := readHead_gather h started hline [] (maxLine - s.length) []
        have hroom : maxLine - s.length + s.length = maxLine := by omega
        rw [hroom, List.append_nil, List.append_nil] at hgather
        have hsome : s.reverse.isEmpty = false := by
          rw [List.isEmpty_reverse]
          exact List.isEmpty_eq_false_iff.2 hnil
        rw [hgather, readHead, hsome, if_neg Bool.false_ne_true, List.reverse_reverse]
        dsimp only
        cases h.line s with
        | error e => rfl
        | ok l =>
            cases l with
            | blank => rfl
            | more h' => rfl
  · have hlength : (start ++ [10]).length = start.length + 1 := List.length_append
    rw [if_neg (by simp), firstLine_newline hstart, List.nil_append]
    dsimp only
    by_cases hlong : maxLine < start.length + 1
    · rw [hlength, if_pos hlong]
      exact readHead_long hstart (Nat.le_of_lt_succ hlong) 10 rest
    · rw [hlength, if_neg hlong]
      obtain ⟨room, heq⟩ := readHead_newline h started
        (fun b hb => by rintro rfl; exact hstart hb) (by omega : start.length < maxLine) rest
      have hreverse : (10 :: start.reverse).reverse = start ++ [10] := by simp
      rw [heq]
      cases hline : h.line (start ++ [10]) with
      | error e => simp only [readHead, if_true, hreverse, hline]
      | ok l =>
          cases l with
          | blank => simp only [readHead, if_true, hreverse, hline]
          | more h' => simp only [readHead, if_true, hreverse, hline]

end Frame

namespace Chunks

/-! ### Bodies and frames -/

/-- The first bytes are gathered and the others left; where there are too few, nothing is. -/
theorem readExact_eq (n : Nat) (s : Stream) :
    (readExact n s).1 = (if s.flatten.length < n then none else some (s.flatten.take n)) ∧
      (readExact n s).2.flatten = s.flatten.drop n := by
  induction s generalizing n with
  | nil => cases n <;> simp [readExact]
  | cons chunk s ih =>
      cases n with
      | zero => simp [readExact]
      | succ n =>
          rw [readExact, List.flatten_cons, List.length_append]
          by_cases hle : n + 1 ≤ chunk.length
          · rw [if_pos hle, if_neg (by omega), List.take_append_of_le_length hle,
              List.drop_append_of_le_length hle]
            exact ⟨rfl, rfl⟩
          · obtain ⟨hrest, hleft⟩ := ih (n + 1 - chunk.length)
            have hle' : chunk.length ≤ n + 1 := by omega
            have hfew : s.flatten.length < n + 1 - chunk.length ↔
                chunk.length + s.flatten.length < n + 1 := by omega
            rw [if_neg hle, List.take_append, List.drop_append, List.take_of_length_le hle',
              List.drop_eq_nil_of_le hle']
            refine ⟨?_, hleft⟩
            dsimp only
            simp only [hrest, hfew]
            split
            · rfl
            · rfl

theorem readBody_flat (h : Frame.Head) (s : Stream) :
    flat (readBody h s) = Frame.readBody h s.flatten := by
  unfold readBody Frame.readBody
  cases h.bodyLength with
  | error e => rfl
  | ok n =>
      obtain ⟨hbody, hleft⟩ := readExact_eq n s
      simp only [bind, Except.bind, Frame.split?_eq, List.reverse_nil, List.nil_append, ← hleft]
      by_cases hfew : s.flatten.length < n
      · rw [if_pos hfew] at hbody ⊢
        rw [← Prod.mk.eta (p := readExact n s), hbody]
        rfl
      · rw [if_neg hfew] at hbody ⊢
        rw [← Prod.mk.eta (p := readExact n s), hbody]
        rfl

/-- A line takes a byte or more off the bytes. -/
theorem nextLine_some {s line rest : Bytes} (hnext : nextLine [] s = .ok (some (line, rest))) :
    line ≠ [] ∧ s = line ++ rest := by
  rw [nextLine, List.nil_append, List.nil_append] at hnext
  rcases newline_cases s with hs | ⟨start, left, rfl, hstart⟩
  · rw [firstLine_none hs] at hnext
    split at hnext
    · cases hnext
    · next hne =>
      split at hnext
      · cases hnext
      · cases hnext
        exact ⟨hne, (List.append_nil s).symm⟩
  · rw [firstLine_newline hstart, if_neg (by simp)] at hnext
    split at hnext
    · cases hnext
    · cases hnext
      exact ⟨by simp, by simp⟩

theorem length_nextLine {s line rest : Bytes} (hnext : nextLine [] s = .ok (some (line, rest))) :
    rest.length < s.length := by
  obtain ⟨hne, rfl⟩ := nextLine_some hnext
  have hpos := List.length_pos_iff.2 hne
  rw [List.length_append]
  omega

/-- Every line takes a byte or more, so there are as many rounds as it needs. -/
theorem readHead_flat (h : Frame.Head) (started : Bool) {fuel : Nat} {s : Stream}
    (hfuel : size s < fuel) :
    flat (readHead h started fuel s) =
      Frame.readHead h started [] Frame.maxLine s.flatten := by
  induction fuel generalizing h started s with
  | zero => exact (Nat.not_lt_zero _ hfuel).elim
  | succ fuel ih =>
      have hflat := readLine_flat length_nil_le s
      rw [Frame.readHead_line, ← hflat, readHead]
      rcases hread : readLine [] s with ⟨e | _ | line, left⟩
      · rfl
      · cases started <;> rfl
      · simp only [flat, Except.map, Option.map]
        cases hline : h.line line with
        | error e => rfl
        | ok l =>
            cases l with
            | blank => exact readBody_flat h left
            | more h' =>
                rw [hread] at hflat
                have hshort := length_nextLine hflat.symm
                refine ih h' true ?_
                unfold size at hfuel ⊢
                dsimp only at hshort
                omega

/-- A frame is the same in whatever chunks it comes, and so is what is left behind it. -/
theorem readFrame_flat (s : Stream) : flat (readFrame s) = Frame.read s.flatten :=
  readHead_flat {} false (Nat.lt_succ_self _)

/-! ### Which lines are accepted -/

/-- A line at the start of some bytes, and the rest: it ends with its newline, or with the bytes. -/
def IsLine (line rest : Bytes) : Prop :=
  ∃ start, 10 ∉ start ∧ (line = start ++ [10] ∨ line = start ∧ start ≠ [] ∧ rest = [])

theorem nextLine_line {line rest : Bytes} (hline : IsLine line rest) :
    nextLine [] (line ++ rest) =
      if Frame.maxLine < line.length then .error Frame.longLine else .ok (some (line, rest)) := by
  obtain ⟨start, hstart, rfl | ⟨rfl, hne, rfl⟩⟩ := hline
  · have hbytes : start ++ [10] ++ rest = start ++ 10 :: rest := by simp
    rw [hbytes, nextLine, if_neg (by simp), firstLine_newline hstart]
    rfl
  · rw [List.append_nil, nextLine, if_neg (by simpa using hne), firstLine_none hstart]
    rfl

/-- A line is taken off a stream as a whole, unless it is too long. -/
theorem readLine_line {s : Stream} {line rest : Bytes} (hline : IsLine line rest)
    (hbytes : s.flatten = line ++ rest) :
    if Frame.maxLine < line.length then (readLine [] s).1 = .error Frame.longLine
    else (readLine [] s).1 = .ok (some line) ∧ (readLine [] s).2.flatten = rest := by
  have hflat := readLine_flat length_nil_le s
  rw [hbytes, nextLine_line hline] at hflat
  by_cases hlong : Frame.maxLine < line.length
  · rw [if_pos hlong] at hflat ⊢
    exact flat_error.1 hflat
  · rw [if_neg hlong] at hflat ⊢
    exact flat_some.1 hflat

theorem line_notText {h : Frame.Head} {line : Bytes} :
    h.line line = .error Frame.notText ↔ decodeUtf8? line = none := by
  unfold Frame.Head.line
  cases decodeUtf8? line with
  | none => exact ⟨fun _ => rfl, fun _ => rfl⟩
  | some text =>
      refine ⟨fun hline => ?_, nofun⟩
      dsimp only at hline
      split at hline
      · cases hline
      · cases hadd : h.add (Frame.withoutBreak text) with
        | error e =>
            rw [hadd] at hline
            obtain ⟨value, fault, rfl⟩ := Frame.Head.add_error hadd
            cases hline
        | ok h' =>
            rw [hadd] at hline
            cases hline

/-- A line is to tell the length of the body, and tells none. -/
def Misleads (line : Bytes) : Prop :=
  ∃ text value, utf8 text = line ∧ Frame.NamesLength text value ∧
    ∀ n, readUnsigned UInt64.size (trim value) ≠ .ok n

theorem line_ok (h : Frame.Head) {text : String} (htells : ¬Misleads (utf8 text)) :
    ∃ l, h.line (utf8 text) = .ok l := by
  have htold : ∀ value, Frame.NamesLength text value →
      ∃ n, readUnsigned UInt64.size (trim value) = .ok n := by
    intro value hvalue
    by_contra hnone
    exact htells ⟨text, value, rfl, hvalue, fun n hn => hnone ⟨n, hn⟩⟩
  obtain ⟨h', hadd⟩ := (h.add_ok_iff text).2 htold
  rw [Frame.Head.line, decodeUtf8?_utf8]
  dsimp only
  split
  · exact ⟨_, rfl⟩
  · exact ⟨.more h', by rw [hadd]; rfl⟩

theorem line_badLength (h : Frame.Head) {l value : String} {fault : DigitsFault}
    (hl : Frame.NamesLength l value)
    (hfault : readUnsigned UInt64.size (trim value) = .error fault) :
    h.line (utf8 l) = .error (Frame.badLength (trim value) fault) := by
  obtain ⟨name, hname, heq, hsame⟩ := hl
  have hadd : h.add (Frame.withoutBreak l) = .error (Frame.badLength (trim value) fault) := by
    rw [heq, Frame.Head.add_field h hname, if_pos hsame, hfault]
  rw [Frame.Head.line, decodeUtf8?_utf8]
  dsimp only
  split
  · next hblank =>
    rw [heq] at hblank
    cases List.append_eq_nil_iff.1 hblank |>.2
  · rw [hadd]
    rfl

/-- A line at the start of a stream is accepted: it is taken off as a whole, what follows it is
left, and no head finds that it is no text. -/
structure Accepts (s : Stream) (line rest : Bytes) : Prop where
  taken : (readLine [] s).1 = .ok (some line) ∧ (readLine [] s).2.flatten = rest
  isText : ∀ h : Frame.Head, h.line line ≠ .error Frame.notText

/-- Reading fails at the first line in one of these ways, whatever has been read of the head before
it. -/
def Refuses (s : Stream) (Fault : WireError → Prop) : Prop :=
  ∀ (h : Frame.Head) (started : Bool) (fuel : Nat), ∃ e,
    (readHead h started (fuel + 1) s).1 = .error e ∧ Fault e

/-- Reading goes on behind the first line, with the body or with another line. -/
def GoesOn (s : Stream) (rest : Bytes) : Prop :=
  ∃ left : Stream, left.flatten = rest ∧ ∀ (h : Frame.Head) (started : Bool) (fuel : Nat),
    readHead h started (fuel + 1) s = readBody h left ∨
      ∃ h', readHead h started (fuel + 1) s = readHead h' true fuel left

theorem Accepts.exists_text {s : Stream} {line rest : Bytes} (haccepts : Accepts s line rest) :
    ∃ text, utf8 text = line := by
  have hsome := mt line_notText.2 (haccepts.isText {})
  obtain ⟨text, htext⟩ := Option.ne_none_iff_exists'.1 hsome
  exact ⟨text, decodeUtf8?_eq_some.1 htext⟩

theorem accepts_iff {s : Stream} {line rest : Bytes} (hline : IsLine line rest)
    (hbytes : s.flatten = line ++ rest) :
    Accepts s line rest ↔ line.length ≤ Frame.maxLine ∧ ∃ text, utf8 text = line := by
  have hread := readLine_line hline hbytes
  constructor
  · intro haccepts
    refine ⟨Nat.not_lt.1 fun hlong => ?_, haccepts.exists_text⟩
    rw [if_pos hlong, haccepts.taken.1] at hread
    cases hread
  · rintro ⟨hshort, text, rfl⟩
    rw [if_neg (Nat.not_lt.2 hshort)] at hread
    refine ⟨hread, fun h hnot => ?_⟩
    rw [line_notText, decodeUtf8?_utf8] at hnot
    cases hnot

theorem readHead_failed (h : Frame.Head) (started : Bool) (fuel : Nat) {s : Stream} {e : WireError}
    (hread : (readLine [] s).1 = .error e) :
    readHead h started (fuel + 1) s = (.error e, (readLine [] s).2) := by
  rw [readHead]
  rcases hresult : readLine [] s with ⟨result, left⟩
  rw [hresult] at hread
  dsimp only at hread
  subst hread
  rfl

/-- A head is read on by its next line. -/
theorem readHead_taken (h : Frame.Head) (started : Bool) (fuel : Nat) {s : Stream} {line : Bytes}
    (hread : (readLine [] s).1 = .ok (some line)) :
    readHead h started (fuel + 1) s =
      match h.line line with
      | .error e => (.error e, (readLine [] s).2)
      | .ok .blank => readBody h (readLine [] s).2
      | .ok (.more h) => readHead h true fuel (readLine [] s).2 := by
  rw [readHead]
  rcases hresult : readLine [] s with ⟨result, left⟩
  rw [hresult] at hread
  dsimp only at hread
  subst hread
  rfl

theorem refuses_of_not_accepts {s : Stream} {line rest : Bytes} (hline : IsLine line rest)
    (hbytes : s.flatten = line ++ rest) (hrefused : ¬Accepts s line rest) :
    Refuses s fun e => e = Frame.longLine ∨ e = Frame.notText := by
  have hread := readLine_line hline hbytes
  intro h started fuel
  by_cases hlong : Frame.maxLine < line.length
  · rw [if_pos hlong] at hread
    exact ⟨Frame.longLine, by rw [readHead_failed h started fuel hread], .inl rfl⟩
  · rw [if_neg hlong] at hread
    have hnot : h.line line = .error Frame.notText := by
      by_contra htext
      exact hrefused ⟨hread, fun h' hnot => htext (line_notText.2 (line_notText.1 hnot))⟩
    exact ⟨Frame.notText, by rw [readHead_taken h started fuel hread.1, hnot], .inr rfl⟩

theorem Accepts.refuses {s : Stream} {line rest : Bytes} (haccepts : Accepts s line rest)
    (hmisleads : Misleads line) :
    Refuses s fun e => ∃ value fault, e = Frame.badLength value fault := by
  intro h started fuel
  obtain ⟨text, value, rfl, hvalue, hnone⟩ := hmisleads
  cases hfault : readUnsigned UInt64.size (trim value) with
  | ok n => exact (hnone n hfault).elim
  | error fault =>
      refine ⟨Frame.badLength (trim value) fault, ?_, _, _, rfl⟩
      rw [readHead_taken h started fuel haccepts.taken.1, line_badLength h hvalue hfault]

theorem Accepts.goesOn {s : Stream} {line rest : Bytes} (haccepts : Accepts s line rest)
    (htells : ¬Misleads line) : GoesOn s rest := by
  refine ⟨(readLine [] s).2, haccepts.taken.2, fun h started fuel => ?_⟩
  obtain ⟨text, rfl⟩ := haccepts.exists_text
  obtain ⟨l, hl⟩ := line_ok h htells
  rw [readHead_taken h started fuel haccepts.taken.1, hl]
  cases l with
  | blank => exact .inl rfl
  | more h' => exact .inr ⟨h', rfl⟩

end Chunks

end RemoteInspector
