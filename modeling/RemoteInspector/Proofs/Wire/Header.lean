import RemoteInspector.Proofs.Wire.Frame

/-!
What a frame says about the length of its body. The body is as long as the last header line says whose
name is the one for the length as it stands there. Whoever asks the frame for that header is told the
value of the first line that has this name when blanks are trimmed off. The two agree if these lines say
the same number, as they do where there is only one.
-/

namespace RemoteInspector

open Text

namespace Frame

/-! ### Header lines of a stream -/

def lines : Bytes → List Bytes
  | [] => []
  | b :: s =>
    if b = 10 then [b] :: lines s
    else
      match lines s with
      | [] => [[b]]
      | l :: ls => (b :: l) :: ls

def chars? (line : Bytes) : Option (List Char) := (decodeUtf8? line).map withoutBreak

/-- The name of a header line as it stands, and its value. -/
def field? (cs : List Char) : Option (String × String) :=
  if ':' ∈ cs then
    some (String.ofList (cs.takeWhile (· != ':')),
      trim (String.ofList ((cs.dropWhile (· != ':')).drop 1)))
  else none

def fieldsOf (ls : List Bytes) : List (String × String) :=
  ((ls.map chars?).takeWhile (· != some [])).filterMap (·.bind field?)

/-- The names and values that a stream begins with. -/
def fields (s : Bytes) : List (String × String) := fieldsOf (lines s)

theorem lines_unfinished {l : Bytes} (hl : 10 ∉ l) (hne : l ≠ []) : lines l = [l] := by
  induction l with
  | nil => exact (hne rfl).elim
  | cons b l ih =>
      obtain ⟨hb, hl⟩ := not_or.1 (mt List.mem_cons.2 hl)
      rw [lines, if_neg (Ne.symm hb)]
      cases l with
      | nil => rfl
      | cons c l => rw [ih hl (List.cons_ne_nil c l)]

theorem lines_newline {l : Bytes} (hl : 10 ∉ l) (s : Bytes) :
    lines (l ++ 10 :: s) = (l ++ [10]) :: lines s := by
  induction l with
  | nil => rfl
  | cons b l ih =>
      obtain ⟨hb, hl⟩ := not_or.1 (mt List.mem_cons.2 hl)
      rw [List.cons_append, lines, if_neg (Ne.symm hb), ih hl]
      rfl

theorem fieldsOf_blank {l : Bytes} (hl : chars? l = some []) (ls : List Bytes) :
    fieldsOf (l :: ls) = [] := by
  rw [fieldsOf, List.map_cons, hl]
  rfl

theorem fieldsOf_cons {l : Bytes} {cs : List Char} (hl : chars? l = some cs) (hcs : cs ≠ [])
    (ls : List Bytes) : fieldsOf (l :: ls) = (field? cs).toList ++ fieldsOf ls := by
  have hkept : (some cs != some []) = true := bne_iff_ne.2 fun heq => hcs (Option.some.inj heq)
  rw [fieldsOf, List.map_cons, hl, List.takeWhile_cons]
  simp only [hkept, if_true, List.filterMap_cons, Option.bind_some]
  cases field? cs <;> rfl

/-! ### What a head gathers -/

def isLength (x : String × String) : Bool := eqIgnoringCase x.1 lengthName

/-- The line has this name but for blanks around it; so it is listed in a frame. -/
def isListedLength (x : String × String) : Bool := eqIgnoringCase (trim x.1) lengthName

/-- A head has become another one over some lines: all of them are listed, and the last one with the name
for the length tells it. -/
structure Head.Gathers (h : Head) (xs : List (String × String)) (h' : Head) : Prop where
  headers : h'.headers = h.headers ++ xs.map fun x => (trim x.1, x.2)
  length : h'.length = match xs.reverse.find? isLength with
    | some x => (readUnsigned UInt64.size x.2).toOption
    | none => h.length

theorem Head.Gathers.refl (h : Head) : h.Gathers [] h where
  headers := (List.append_nil _).symm
  length := rfl

theorem Head.Gathers.trans {h h' h'' : Head} {xs ys : List (String × String)}
    (hxs : h.Gathers xs h') (hys : h'.Gathers ys h'') : h.Gathers (xs ++ ys) h'' where
  headers := by rw [hys.headers, hxs.headers, List.map_append, List.append_assoc]
  length := by
    rw [hys.length, List.reverse_append, List.find?_append]
    cases ys.reverse.find? isLength with
    | some x => rfl
    | none => exact hxs.length

theorem Head.add_gathers {h h' : Head} {cs : List Char} (hadd : h.add cs = .ok h') :
    h.Gathers (field? cs).toList h' := by
  unfold Head.add at hadd
  unfold field?
  split at hadd
  · next hcolon =>
    rw [if_pos hcolon]
    generalize String.ofList (cs.takeWhile (· != ':')) = name at hadd ⊢
    generalize trim (String.ofList ((cs.dropWhile (· != ':')).drop 1)) = value at hadd ⊢
    dsimp only at hadd
    split at hadd
    · next hsame =>
      split at hadd
      · next n hn =>
        cases hadd
        exact ⟨rfl, by simp [isLength, hsame, hn, Except.toOption]⟩
      · cases hadd
    · next hother =>
      cases hadd
      exact ⟨rfl, by simp [isLength, hother]⟩
  · next hcolon =>
    cases hadd
    rw [if_neg hcolon]
    exact .refl h

/-- A line that is blank, or a line that is gathered. -/
theorem Head.line_gathers {h : Head} {l : Bytes} {r : Line} (hline : h.line l = .ok r) :
    match r with
    | .blank => chars? l = some []
    | .more h' => ∃ cs, chars? l = some cs ∧ cs ≠ [] ∧ h.Gathers (field? cs).toList h' := by
  unfold Head.line at hline
  unfold chars?
  split at hline
  · cases hline
  · next text htext =>
    rw [htext]
    split at hline
    · next hnil =>
      cases hline
      exact congrArg some hnil
    · next hsome =>
      cases hadd : h.add (withoutBreak text) with
      | error e =>
          rw [hadd] at hline
          cases hline
      | ok h' =>
          rw [hadd] at hline
          cases hline
          exact ⟨_, rfl, hsome, add_gathers hadd⟩

theorem readBody_some {h : Head} {s rest : Bytes} {f : Frame}
    (hread : readBody h s = .ok (some (f, rest))) :
    f.headers = h.headers ∧ h.length = some f.body.length := by
  unfold readBody Head.bodyLength at hread
  cases hn : h.length with
  | none =>
      rw [hn] at hread
      cases hread
  | some n =>
      rw [hn] at hread
      dsimp only at hread
      split at hread
      · cases hread
      · simp only [bind, Except.bind, split?_eq] at hread
        by_cases hlt : s.length < n
        · rw [if_pos hlt] at hread
          cases hread
        · rw [if_neg hlt] at hread
          cases hread
          refine ⟨rfl, congrArg some ?_⟩
          show n = (s.take n).length
          rw [List.length_take]
          omega

/-- A frame has the headers and the length that its head has gathered at the end of the lines. -/
theorem readHead_gathers {h : Head} {started : Bool} {line : Bytes} {room : Nat} {s rest : Bytes}
    {f : Frame} (hline : 10 ∉ line)
    (hread : readHead h started line room s = .ok (some (f, rest))) :
    ∃ h', h.Gathers (fields (line.reverse ++ s)) h' ∧ f.headers = h'.headers ∧
      h'.length = some f.body.length := by
  induction s generalizing h started line room with
  | nil =>
      have hreverse : 10 ∉ line.reverse := fun hmem => hline (List.mem_reverse.1 hmem)
      rw [readHead] at hread
      split at hread
      · split at hread <;> cases hread
      · next hsome =>
        have hne : line.reverse ≠ [] := by simpa using hsome
        split at hread
        · cases hread
        · next hblank =>
          obtain ⟨hheaders, hlength⟩ := readBody_some hread
          refine ⟨h, ?_, hheaders, hlength⟩
          rw [List.append_nil, fields, lines_unfinished hreverse hne,
            fieldsOf_blank (Head.line_gathers hblank)]
          exact .refl h
        · cases hread
  | cons b s ih =>
      cases room with
      | zero => cases hread
      | succ room =>
          rw [readHead] at hread
          by_cases hb : b = 10
          · subst hb
            have hreverse : 10 ∉ line.reverse := fun hmem => hline (List.mem_reverse.1 hmem)
            have hlines : lines (line.reverse ++ 10 :: s) = (10 :: line).reverse :: lines s := by
              rw [lines_newline hreverse, List.reverse_cons]
            rw [if_pos rfl] at hread
            rw [fields, hlines]
            split at hread
            · cases hread
            · next hblank =>
              obtain ⟨hheaders, hlength⟩ := readBody_some hread
              refine ⟨h, ?_, hheaders, hlength⟩
              rw [fieldsOf_blank (Head.line_gathers hblank)]
              exact .refl h
            · next h₁ hmore =>
              obtain ⟨cs, hchars, hcs, hgathers⟩ := Head.line_gathers hmore
              obtain ⟨h', hrest, hheaders, hlength⟩ := ih (List.not_mem_nil) hread
              refine ⟨h', ?_, hheaders, hlength⟩
              rw [fieldsOf_cons hchars hcs]
              exact hgathers.trans hrest
          · rw [if_neg hb] at hread
            have hgathers := ih (List.not_mem_cons_of_ne_of_not_mem (Ne.symm hb) hline) hread
            rwa [List.reverse_cons, List.append_assoc] at hgathers

/-! ### The length of a body -/

/-- The frame tells the length of its body to whoever asks for the header. -/
def Agrees (f : Frame) : Prop :=
  ∃ value, f.header? lengthName = some value ∧ readUnsigned UInt64.size value = .ok f.body.length

/-- There is no blank in the name of the header for the length. -/
theorem isListedLength_of_isLength {x : String × String} (hx : isLength x = true) :
    isListedLength x = true := by
  have hlower : x.1.toList.map Char.toLower = (lowerAscii lengthName).toList := by
    have heq : lowerAscii x.1 = lowerAscii lengthName := beq_iff_eq.1 hx
    rw [← heq, lowerAscii, String.toList_ofList]
  have hletters : (lowerAscii lengthName).toList.all (fun c => !isBlank c) = true := by
    decide +kernel
  have hkept : ∀ c ∈ x.1.toList, isBlank c = false := by
    intro c hc
    have hletter := List.all_eq_true.1 hletters _ (hlower ▸ List.mem_map_of_mem hc)
    rwa [Bool.not_eq_true', isBlank_toLower] at hletter
  rw [isListedLength, trim, trimList_kept hkept, String.ofList_toList]
  exact hx

theorem header?_eq {f : Frame} {xs : List (String × String)}
    (hheaders : f.headers = xs.map fun x => (trim x.1, x.2)) :
    f.header? lengthName = (xs.find? isListedLength).map (·.2) := by
  rw [header?, hheaders, List.find?_map, Option.map_map]
  rfl

/-- The header that a frame tells for the length of its body is there. It is the first line of the stream
that is listed under this name; the body is as long as the last line says that has this name as it
stands. The frame is right about its body just if these two lines say the same, and so it is if only one
line is listed under the name. -/
theorem header_of_first_body_of_last {s rest : Bytes} {f : Frame}
    (hread : read s = .ok (some (f, rest))) :
    f.headers = (fields s).map (fun x => (trim x.1, x.2)) ∧
      ∃ first last, (fields s).find? isListedLength = some first ∧
        (fields s).reverse.find? isLength = some last ∧
        f.header? lengthName = some first.2 ∧
        readUnsigned UInt64.size last.2 = .ok f.body.length ∧
        (f.Agrees ↔
          readUnsigned UInt64.size first.2 = readUnsigned UInt64.size last.2) ∧
        ((fields s).countP isListedLength = 1 → f.Agrees) := by
  obtain ⟨h, hgathers, hheaders, hlength⟩ := readHead_gathers (List.not_mem_nil) hread
  have hlisted : f.headers = (fields s).map fun x => (trim x.1, x.2) :=
    hheaders.trans hgathers.headers
  have htold := hgathers.length
  rw [hlength] at htold
  refine ⟨hlisted, ?_⟩
  cases hlast : (fields s).reverse.find? isLength with
  | none =>
      rw [List.reverse_nil, List.nil_append, hlast] at htold
      cases htold
  | some last =>
      rw [List.reverse_nil, List.nil_append, hlast] at htold
      have hbody : readUnsigned UInt64.size last.2 = .ok f.body.length := by
        cases hread : readUnsigned UInt64.size last.2 with
        | error e => simp [hread, Except.toOption] at htold
        | ok n => simp_all [Except.toOption]
      have hmem : last ∈ fields s := List.mem_reverse.1 (List.mem_of_find?_eq_some hlast)
      have hsome : ((fields s).find? isListedLength).isSome = true :=
        List.find?_isSome.2 ⟨last, hmem, isListedLength_of_isLength (List.find?_some hlast)⟩
      obtain ⟨first, hfirst⟩ := Option.isSome_iff_exists.1 hsome
      have hheader : f.header? lengthName = some first.2 := by rw [header?_eq hlisted, hfirst]; rfl
      have hagrees : f.Agrees ↔
          readUnsigned UInt64.size first.2 = readUnsigned UInt64.size last.2 := by
        rw [hbody, Agrees, hheader]
        simp
      refine ⟨first, last, hfirst, rfl, hheader, hbody, hagrees, fun honce => hagrees.2 ?_⟩
      rw [List.countP_eq_length_filter] at honce
      obtain ⟨x, hx⟩ := List.length_eq_one_iff.1 honce
      have hsame : ∀ y ∈ fields s, isListedLength y = true → y = x := by
        intro y hy hlisted
        have hmem : y ∈ (fields s).filter isListedLength := List.mem_filter.2 ⟨hy, hlisted⟩
        rwa [hx, List.mem_singleton] at hmem
      rw [hsame first (List.mem_of_find?_eq_some hfirst) (List.find?_some hfirst),
        hsame last hmem (isListedLength_of_isLength (List.find?_some hlast))]

/-- Two header lines are taken up one after the other, and the body behind the blank line is read. -/
theorem read_two_lines {l l' s : Bytes} {h h' : Head} (hl : ∀ b ∈ l, b ≠ 10)
    (hl' : ∀ b ∈ l', b ≠ 10) (hroom : l.length < maxLine) (hroom' : l'.length < maxLine)
    (hline : ({} : Head).line (l ++ [10]) = .ok (.more h))
    (hline' : h.line (l' ++ [10]) = .ok (.more h')) :
    read (l ++ 10 :: (l' ++ 10 :: 13 :: 10 :: s)) = readBody h' s := by
  have hreturn : ∀ b ∈ [(13 : UInt8)], b ≠ 10 := List.forall_mem_singleton.2 (by decide)
  rw [read, readHead_more hl hroom hline, readHead_more hl' hroom' hline']
  exact readHead_blank hreturn (by decide) rfl s

/-- The name of the first length has a blank at its end, and something follows the body. -/
def spacedStream : Bytes := utf8 "Content-Length : 9\r\ncontent-length:  2 \r\n\r\n\x7b\x7d!"

theorem header_of_first_body_of_last_spaced :
    ∃ f, read spacedStream = .ok (some (f, utf8 "!")) ∧ f.body = utf8 "\x7b\x7d" ∧
      f.header? lengthName = some "9" ∧ ¬f.Agrees := by
  have hlines : spacedStream = utf8 "Content-Length : 9\r" ++
      10 :: (utf8 "content-length:  2 \r" ++ 10 :: 13 :: 10 :: utf8 "\x7b\x7d!") := by
    decide +kernel
  have hfirst : ({} : Head).line (utf8 "Content-Length : 9\r" ++ [10]) =
      .ok (.more ⟨[("Content-Length", "9")], none⟩) := by decide +kernel
  have hsecond : (⟨[("Content-Length", "9")], none⟩ : Head).line
      (utf8 "content-length:  2 \r" ++ [10]) =
      .ok (.more ⟨[("Content-Length", "9"), ("content-length", "2")], some 2⟩) := by decide +kernel
  have hread : read spacedStream = .ok (some
      (⟨[("Content-Length", "9"), ("content-length", "2")], utf8 "\x7b\x7d"⟩, utf8 "!")) := by
    rw [hlines, read_two_lines (by decide +kernel) (by decide +kernel) (by decide +kernel)
      (by decide +kernel) hfirst hsecond]
    rfl
  obtain ⟨-, first, last, htold, hlast, hheader, -, hagrees, -⟩ := header_of_first_body_of_last hread
  have hnine : (fields spacedStream).find? isListedLength = some ("Content-Length ", "9") := by
    decide +kernel
  have htwo : (fields spacedStream).reverse.find? isLength = some ("content-length", "2") := by
    decide +kernel
  obtain rfl := Option.some.inj (htold.symm.trans hnine)
  obtain rfl := Option.some.inj (hlast.symm.trans htwo)
  exact ⟨_, hread, rfl, hheader, fun h => absurd (hagrees.1 h) (by decide)⟩

/-- A length put before a framed body is told in place of the right one. -/
theorem read_length_framed {n : Nat} {body : Bytes} (hn : n ≤ maxBody)
    (hsize : body.length ≤ maxBody) (t : Bytes) :
    read (utf8 (lengthLine n ++ "\r\n") ++ (framed body ++ t)) =
      .ok (some (⟨[(lengthName, toString n), (lengthName, toString body.length)], body⟩, t)) := by
  rw [read, readHead_lengthLine {} hn, readHead_framed _ hsize]
  rfl

/-- Of two lengths a frame tells the first, and its body has the last. -/
theorem body_shorter_than_told :
    ∃ f, read (utf8 "Content-Length: 3\r\nContent-Length: 0\r\n\r\n") = .ok (some (f, [])) ∧
      f.header? lengthName = some "3" ∧ f.body = [] ∧ ¬f.Agrees := by
  have hbytes : utf8 "Content-Length: 3\r\nContent-Length: 0\r\n\r\n" =
      utf8 (lengthLine 3 ++ "\r\n") ++ (framed [] ++ []) := by decide +kernel
  have hempty : ([] : Bytes).length ≤ maxBody := Nat.zero_le _
  have hread := read_length_framed (n := 3) (by decide) hempty []
  have hheader : (⟨[(lengthName, toString 3), (lengthName, toString 0)], []⟩ : Frame).header?
      lengthName = some "3" := by decide +kernel
  refine ⟨_, hbytes ▸ hread, hheader, rfl, ?_⟩
  rintro ⟨value, hvalue, hlength⟩
  obtain rfl := Option.some.inj (hheader.symm.trans hvalue)
  exact absurd hlength (by decide)

end Frame

end RemoteInspector
