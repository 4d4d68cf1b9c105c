import RemoteInspector.Proofs.Wire.Buffering

/-!
What reading takes off a stream, and what it leaves. Frame by frame the same bytes are taken however they
arrive, and up to the end of the stream all of them are. How the stream is cut shows in one place only:
reading fails at a header line that is too long, and then the chunks of this line are taken that came
before it got too long. Of bytes in one piece nothing of the line is taken.

The induction is on the lines of a head (`readHead_left`) and then on the frames (`Reads.left`). What is
compared is always what reading leaves of the bytes in one piece, `stop`.
-/

namespace RemoteInspector

open Text

namespace Chunks

/-! ### Where reading stops -/

/-- What is left of some bytes in one piece, also where reading fails. A line that is too long is left as
a whole. -/
def stop (h : Frame.Head) : (fuel : Nat) → Bytes → Bytes
  | 0, s => s
  | fuel + 1, s =>
    match nextLine [] s with
    | .error _ => s
    | .ok none => []
    | .ok (some (line, rest)) =>
      match h.line line with
      | .error _ => rest
      | .ok .blank =>
        match h.bodyLength with
        | .error _ => rest
        | .ok n => rest.drop n
      | .ok (.more h) => stop h fuel rest

theorem stop_suffix (h : Frame.Head) (fuel : Nat) (s : Bytes) : stop h fuel s <:+ s := by
  induction fuel generalizing h s with
  | zero => exact List.suffix_rfl
  | succ fuel ih =>
      rw [stop]
      split
      · exact List.suffix_rfl
      · exact List.nil_suffix
      · next line rest hnext =>
        have hrest : rest <:+ s := ⟨line, (nextLine_some hnext).2.symm⟩
        split
        · exact hrest
        · split
          · exact hrest
          · exact (List.drop_suffix _ _).trans hrest
        · exact (ih _ rest).trans hrest

theorem isLine_firstLine {s : Bytes} (hs : s ≠ []) :
    IsLine (firstLine s).1 (firstLine s).2 ∧ s = (firstLine s).1 ++ (firstLine s).2 := by
  rcases newline_cases s with hnone | ⟨start, rest, rfl, hstart⟩
  · rw [firstLine_none hnone]
    exact ⟨⟨s, hnone, .inr ⟨rfl, hs, rfl⟩⟩, (List.append_nil s).symm⟩
  · rw [firstLine_newline hstart]
    exact ⟨⟨start, hstart, .inl rfl⟩, by simp⟩

/-- The next line cannot be taken just because it is too long. -/
theorem nextLine_error {s : Bytes} {e : WireError} (hnext : nextLine [] s = .error e) :
    ∃ line rest, IsLine line rest ∧ s = line ++ rest ∧ Frame.maxLine < line.length := by
  rw [nextLine, List.nil_append, List.nil_append] at hnext
  split at hnext
  · cases hnext
  · next hs =>
    split at hnext
    · next hlong =>
      obtain ⟨hline, heq⟩ := isLine_firstLine hs
      exact ⟨_, _, hline, heq, hlong⟩
    · cases hnext

/-! ### What is left of a stream -/

/-- Reading has failed within a line that is too long: some of the line is taken, and only later chunks of
the stream are left. -/
structure MidLine (s : Stream) (whole : Bytes) (left : Stream) : Prop where
  tooLong : ∃ line rest, IsLine line rest ∧ whole = line ++ rest ∧ Frame.maxLine < line.length
  part : ∃ part, whole = part ++ left.flatten ∧ part.length ≤ Frame.maxLine
  later : left <:+ s.tail

theorem MidLine.mono {s t left : Stream} {whole : Bytes} (hleft : MidLine s whole left)
    (hlater : s.tail <:+ t.tail) : MidLine t whole left :=
  { hleft with later := hleft.later.trans hlater }

/-- There are no later chunks behind the only one. -/
theorem MidLine.not_single {s whole : Bytes} {left : Stream} : ¬MidLine [s] whole left := by
  rintro ⟨⟨line, rest, -, hwhole, hlong⟩, ⟨part, hpart, hshort⟩, hlater⟩
  rw [List.suffix_nil.1 hlater, List.flatten_nil, List.append_nil] at hpart
  have hlength := congrArg List.length (hwhole.symm.trans hpart)
  rw [List.length_append] at hlength
  omega

/-- A line is gathered from the first chunks. If it gets too long, those are taken that have been
gathered. -/
theorem readLine_left {gathered : Bytes} (hgathered : gathered.length ≤ Frame.maxLine)
    (s : Stream) :
    (readLine gathered s).2.tail <:+ s.tail ∧
      ((readLine gathered s).1 = .ok none → (readLine gathered s).2 = []) ∧
      ∀ e, (readLine gathered s).1 = .error e → e = Frame.longLine ∧
        ∃ taken, s = taken ++ (readLine gathered s).2 ∧
          gathered.length + taken.flatten.length ≤ Frame.maxLine := by
  induction s generalizing gathered with
  | nil => exact ⟨List.nil_suffix, fun _ => rfl, by rintro e ⟨⟩⟩
  | cons chunk s ih =>
      have hnone : ∃ taken, chunk :: s = taken ++ chunk :: s ∧
          gathered.length + taken.flatten.length ≤ Frame.maxLine := ⟨[], rfl, hgathered⟩
      rw [readLine]
      rcases splitLine? chunk with _ | ⟨line, left⟩
      · dsimp only
        by_cases hlong : Frame.maxLine < gathered.length + chunk.length
        · rw [if_pos hlong]
          exact ⟨List.suffix_rfl, (by rintro ⟨⟩),
            fun e he => ⟨(Except.error.inj he).symm, hnone⟩⟩
        · have hroom : (gathered ++ chunk).length ≤ Frame.maxLine := by
            rw [List.length_append]
            exact Nat.not_lt.1 hlong
          obtain ⟨hlater, hend, herror⟩ := ih hroom
          rw [if_neg hlong]
          refine ⟨hlater.trans (List.tail_suffix s), hend, fun e he => ?_⟩
          obtain ⟨rfl, taken, hs, htaken⟩ := herror e he
          refine ⟨rfl, chunk :: taken, congrArg (chunk :: ·) hs, ?_⟩
          rwa [List.flatten_cons, List.length_append, ← Nat.add_assoc, ← List.length_append]
      · dsimp only
        by_cases hlong : Frame.maxLine < gathered.length + line.length
        · rw [if_pos hlong]
          exact ⟨List.suffix_rfl, (by rintro ⟨⟩),
            fun e he => ⟨(Except.error.inj he).symm, hnone⟩⟩
        · rw [if_neg hlong]
          exact ⟨List.suffix_rfl, (by rintro ⟨⟩), by rintro e ⟨⟩⟩

theorem readExact_later (n : Nat) (s : Stream) : (readExact n s).2.tail <:+ s.tail := by
  induction s generalizing n with
  | nil => cases n <;> exact List.suffix_rfl
  | cons chunk s ih =>
      cases n with
      | zero => exact List.suffix_rfl
      | succ n =>
          rw [readExact]
          split
          · exact List.suffix_rfl
          · exact (ih _).trans (List.tail_suffix s)

theorem readBody_left (h : Frame.Head) (s : Stream) :
    (readBody h s).2.tail <:+ s.tail ∧
      (readBody h s).2.flatten =
        match h.bodyLength with
        | .error _ => s.flatten
        | .ok n => s.flatten.drop n := by
  unfold readBody
  cases h.bodyLength with
  | error e => exact ⟨List.suffix_rfl, rfl⟩
  | ok n =>
      have hlater := readExact_later n s
      have hleft := (readExact_eq n s).2
      dsimp only
      rcases hread : readExact n s with ⟨_ | body, left⟩
      · rw [hread] at hlater hleft
        exact ⟨hlater, hleft⟩
      · rw [hread] at hlater hleft
        exact ⟨hlater, hleft⟩

/-- Line by line: what is left is what is left of the bytes in one piece, or reading has failed within a
line. -/
theorem readHead_left (h : Frame.Head) (started : Bool) (fuel : Nat) (s : Stream) :
    (readHead h started fuel s).2.tail <:+ s.tail ∧
      ((readHead h started fuel s).2.flatten = stop h fuel s.flatten ∨
        (readHead h started fuel s).1 = .error Frame.longLine ∧
          MidLine s (stop h fuel s.flatten) (readHead h started fuel s).2) := by
  induction fuel generalizing h started s with
  | zero => exact ⟨List.suffix_rfl, .inl rfl⟩
  | succ fuel ih =>
      have hflat := readLine_flat length_nil_le s
      obtain ⟨hlater, hend, herror⟩ := readLine_left length_nil_le s
      rw [readHead, stop, ← hflat]
      rcases hread : readLine [] s with ⟨e | _ | line, left⟩
      · rw [hread] at hflat hlater herror
        obtain ⟨rfl, taken, hs, hshort⟩ := herror e rfl
        refine ⟨hlater, ?_⟩
        rw [List.length_nil, Nat.zero_add] at hshort
        cases taken with
        | nil => exact .inl (congrArg List.flatten hs).symm
        | cons chunk taken =>
            refine .inr ⟨rfl, nextLine_error hflat.symm, ⟨(chunk :: taken).flatten, ?_, hshort⟩,
              taken, ?_⟩
            · exact (congrArg List.flatten hs).trans List.flatten_append
            · exact (congrArg List.tail hs).symm
      · rw [hread] at hlater hend
        exact ⟨hlater, .inl (congrArg List.flatten (hend rfl))⟩
      · rw [hread] at hlater
        simp only [flat, Except.map, Option.map]
        cases h.line line with
        | error e => exact ⟨hlater, .inl rfl⟩
        | ok l =>
            cases l with
            | blank =>
                obtain ⟨hbody, hleft⟩ := readBody_left h left
                exact ⟨hbody.trans hlater, .inl hleft⟩
            | more h' =>
                obtain ⟨hrest, hleft⟩ := ih h' true left
                exact ⟨hrest.trans hlater, hleft.imp_right (.imp_right (·.mono hlater))⟩

/-- What is left of some bytes in one piece when one frame has been read. -/
def stopFrame (s : Bytes) : Bytes := stop {} (s.length + 1) s

theorem readFrame_left (s : Stream) :
    (readFrame s).2.tail <:+ s.tail ∧
      ((readFrame s).2.flatten = stopFrame s.flatten ∨
        (readFrame s).1 = .error Frame.longLine ∧
          MidLine s (stopFrame s.flatten) (readFrame s).2) :=
  readHead_left {} false _ s

/-! ### One frame after another -/

/-- Frames are read off a stream one after another, each with what is then left of the stream. At last
there is a clean end or a fault, and what is left then. -/
inductive Reads : Stream → List (Frame × Bytes) → Option WireError → Stream → Prop where
  | finished {s left : Stream} : readFrame s = (.ok none, left) → Reads s [] none left
  | failed {s left : Stream} {e : WireError} :
      readFrame s = (.error e, left) → Reads s [] (some e) left
  | frame {s rest left : Stream} {f : Frame} {fs : List (Frame × Bytes)} {e : Option WireError} :
      readFrame s = (.ok (some f), rest) → Reads rest fs e left →
      Reads s ((f, rest.flatten) :: fs) e left

/-- What is left of the bytes behind the last frame. -/
def behind (s : Bytes) (fs : List (Frame × Bytes)) : Bytes :=
  (s :: fs.map Prod.snd).getLast (List.cons_ne_nil _ _)

theorem behind_cons (s : Bytes) (x : Frame × Bytes) (fs : List (Frame × Bytes)) :
    behind s (x :: fs) = behind x.2 fs :=
  List.getLast_cons (List.cons_ne_nil _ _)

/-- The frames that are read depend on the bytes only, and so does the fault. -/
theorem Reads.of_flatten {s t left : Stream} {fs : List (Frame × Bytes)} {e : Option WireError}
    (hreads : Reads s fs e left) (hbytes : s.flatten = t.flatten) :
    ∃ left', Reads t fs e left' := by
  induction hreads generalizing t with
  | finished hread =>
      have hnone : (readFrame t).1 = .ok none := by
        rw [← flat_none, readFrame_flat, ← hbytes, ← readFrame_flat, flat_none, hread]
      exact ⟨_, .finished (Prod.ext hnone rfl)⟩
  | @failed s left e hread =>
      have herror : (readFrame t).1 = .error e := by
        rw [← flat_error, readFrame_flat, ← hbytes, ← readFrame_flat, flat_error, hread]
      exact ⟨_, .failed (Prod.ext herror rfl)⟩
  | @frame s rest left f fs e hread _ ih =>
      have hflat : flat (readFrame t) = .ok (some (f, rest.flatten)) := by
        rw [readFrame_flat, ← hbytes, ← readFrame_flat, hread]
        rfl
      obtain ⟨hsome, hrest⟩ := flat_some.1 hflat
      obtain ⟨left', hreads⟩ := ih hrest.symm
      rw [← hrest]
      exact ⟨left', .frame (Prod.ext hsome rfl) hreads⟩

theorem Reads.unique {s left left' : Stream} {fs fs' : List (Frame × Bytes)}
    {e e' : Option WireError} (hreads : Reads s fs e left) (hreads' : Reads s fs' e' left') :
    fs' = fs ∧ e' = e ∧ left' = left := by
  induction hreads generalizing fs' with
  | finished hread => cases hreads' <;> simp_all
  | failed hread => cases hreads' <;> simp_all
  | frame hread _ ih =>
      cases hreads' with
      | finished hread' => rw [hread] at hread'; cases hread'
      | failed hread' => rw [hread] at hread'; cases hread'
      | frame hread' hrest' =>
          rw [hread] at hread'
          cases hread'
          obtain ⟨rfl, rfl, rfl⟩ := ih hrest'
          exact ⟨rfl, rfl, rfl⟩

/-- At last as much is left as of the bytes in one piece, or reading has failed within a line. -/
theorem Reads.left {s left : Stream} {fs : List (Frame × Bytes)} {e : Option WireError}
    (hreads : Reads s fs e left) :
    left.flatten = stopFrame (behind s.flatten fs) ∨
      e = some Frame.longLine ∧ MidLine s (stopFrame (behind s.flatten fs)) left := by
  induction hreads with
  | @finished s left hread =>
      have hleft := (readFrame_left s).2
      rw [hread] at hleft
      exact hleft.imp_right fun hlong => nomatch hlong.1
  | @failed s left e hread =>
      have hleft := (readFrame_left s).2
      rw [hread] at hleft
      exact hleft.imp_right (.imp_left fun hlong => congrArg some (Except.error.inj hlong))
  | @frame s rest left f fs e hread _ ih =>
      have hlater := (readFrame_left s).1
      rw [hread] at hlater
      rw [behind_cons]
      exact ih.imp_right (.imp_right (·.mono hlater))

/-- Of bytes in one piece nothing is taken of a line that is too long. -/
theorem Reads.left_single {s : Bytes} {left : Stream} {fs : List (Frame × Bytes)}
    {e : Option WireError} (hreads : Reads [s] fs e left) :
    left.flatten = stopFrame (behind s fs) := by
  have hbytes : [s].flatten = s := by simp
  have hleft := hreads.left
  rw [hbytes] at hleft
  exact hleft.resolve_right fun hlong => hlong.2.not_single

/-! ### Progress -/

/-- One byte sequence is what is left of another when some of it has been taken. -/
def Leaves (s rest : Bytes) : Prop := ∃ taken, taken ≠ [] ∧ s = taken ++ rest

theorem Leaves.trans {s rest left : Bytes} (h : Leaves s rest) (h' : Leaves rest left) :
    Leaves s left := by
  obtain ⟨taken, hne, rfl⟩ := h
  obtain ⟨taken', -, rfl⟩ := h'
  exact ⟨taken ++ taken', by simp [hne], by rw [List.append_assoc]⟩

/-- What is left behind a frame is the end of what it was read from. -/
theorem leaves_of_readFrame {s rest : Stream} {f : Frame}
    (hread : readFrame s = (.ok (some f), rest)) : Leaves s.flatten rest.flatten := by
  have hflat := readFrame_flat s
  rw [hread] at hflat
  have hshort := Frame.read_shorter hflat.symm
  have hleft := (readFrame_left s).2
  rw [hread] at hleft
  obtain ⟨taken, htaken⟩ : rest.flatten <:+ s.flatten := by
    rw [hleft.resolve_right fun hlong => nomatch hlong.1]
    exact stop_suffix _ _ _
  refine ⟨taken, ?_, htaken.symm⟩
  rintro rfl
  rw [← htaken] at hshort
  exact (Nat.lt_irrefl _ hshort).elim

/-- Reading comes to an end; each frame takes a byte or more, and at the end of the stream nothing
is left of it. -/
theorem exists_reads (s : Stream) : ∃ fs e left, Reads s fs e left ∧
    (s.flatten :: fs.map Prod.snd).Pairwise Leaves ∧
    (e = none → behind s.flatten fs = []) := by
  induction hsize : size s using Nat.strongRecOn generalizing s with
  | ind n ih =>
      subst hsize
      have hflat := readFrame_flat s
      rcases hread : readFrame s with ⟨e | _ | f, rest⟩
      · exact ⟨[], some e, rest, .failed hread, List.pairwise_singleton _ _, nofun⟩
      · rw [hread] at hflat
        have hend := Frame.readHead_ok hflat.symm
        exact ⟨[], none, rest, .finished hread, List.pairwise_singleton _ _, fun _ => hend.2.2⟩
      · rw [hread] at hflat
        have hfirst := leaves_of_readFrame hread
        have hshort : rest.flatten.length < s.flatten.length := Frame.read_shorter hflat.symm
        obtain ⟨fs, e, left, hreads, hleft, hend⟩ := ih (size rest) hshort rest rfl
        refine ⟨(f, rest.flatten) :: fs, e, left, .frame hread hreads, ?_, ?_⟩
        · refine List.pairwise_cons.2 ⟨fun left hmem => ?_, hleft⟩
          rcases List.mem_cons.1 hmem with rfl | hmem
          · exact hfirst
          · exact hfirst.trans ((List.pairwise_cons.1 hleft).1 left hmem)
        · rwa [behind_cons]

theorem Reads.readAll {s left : Stream} {fs : List (Frame × Bytes)} {e : Option WireError}
    {fuel : Nat} (hreads : Reads s fs e left) (hfuel : size s < fuel) :
    readAll fuel s = (fs.map Prod.fst, e) := by
  induction hreads generalizing fuel with
  | finished hread =>
      obtain ⟨fuel, rfl⟩ := Nat.exists_eq_succ_of_ne_zero (Nat.ne_zero_of_lt hfuel)
      rw [Chunks.readAll, hread]
      rfl
  | failed hread =>
      obtain ⟨fuel, rfl⟩ := Nat.exists_eq_succ_of_ne_zero (Nat.ne_zero_of_lt hfuel)
      rw [Chunks.readAll, hread]
      rfl
  | @frame s rest left f fs e hread _ ih =>
      obtain ⟨fuel, rfl⟩ := Nat.exists_eq_succ_of_ne_zero (Nat.ne_zero_of_lt hfuel)
      have hflat := readFrame_flat s
      rw [hread] at hflat
      have hshort : size rest < size s := Frame.read_shorter hflat.symm
      rw [Chunks.readAll, hread]
      dsimp only
      rw [ih (by omega)]
      rfl

/-- It matters little how a stream is cut into chunks. Reading it frame by frame ends; the frames, what is
left behind each of them, and the clean end or the fault at last are those of the bytes in one piece, and
each frame has taken a byte or more. At last as much is left as of the bytes in one piece, unless reading
has failed within a line that is too long: then some whole chunks of the line may be taken, of which
otherwise nothing is. A header line is accepted just if it is short enough, its newline included, and a
text; any other one is where reading fails. Behind one that is accepted reading goes on, unless it is to
tell the length of the body and tells none. -/
theorem cuts_show_in_long_lines_only (s : Stream) :
    (∃ fs e left whole,
      (∀ fs' e' left', Reads s fs' e' left' ↔ fs' = fs ∧ e' = e ∧ left' = left) ∧
      (∀ fs' e' left', Reads [s.flatten] fs' e' left' ↔ fs' = fs ∧ e' = e ∧ left' = whole) ∧
      readAll (size s + 1) s = (fs.map Prod.fst, e) ∧
      (s.flatten :: fs.map Prod.snd).Pairwise Leaves ∧
      whole.flatten <:+ behind s.flatten fs ∧
      (e = none → behind s.flatten fs = []) ∧
      (left.flatten = whole.flatten ∨
        e = some Frame.longLine ∧ MidLine s whole.flatten left)) ∧
    ∀ line rest, IsLine line rest → s.flatten = line ++ rest →
      (Accepts s line rest ↔ line.length ≤ Frame.maxLine ∧ ∃ text, utf8 text = line) ∧
        (¬Accepts s line rest → Refuses s fun e => e = Frame.longLine ∨ e = Frame.notText) ∧
        (Accepts s line rest → ¬Misleads line → GoesOn s rest) ∧
        (Accepts s line rest → Misleads line →
          Refuses s fun e => ∃ value fault, e = Frame.badLength value fault) := by
  obtain ⟨fs, e, left, hreads, hprogress, hend⟩ := exists_reads s
  obtain ⟨whole, hwhole⟩ := hreads.of_flatten (t := [s.flatten]) (by simp)
  have hstop := hwhole.left_single
  refine ⟨⟨fs, e, left, whole, ?_, ?_, hreads.readAll (Nat.lt_succ_self _), hprogress, ?_, hend, ?_⟩,
    fun line rest hline hbytes => ⟨accepts_iff hline hbytes, refuses_of_not_accepts hline hbytes,
      Accepts.goesOn, Accepts.refuses⟩⟩
  · refine fun fs' e' left' => ⟨hreads.unique, ?_⟩
    rintro ⟨rfl, rfl, rfl⟩
    exact hreads
  · refine fun fs' e' left' => ⟨hwhole.unique, ?_⟩
    rintro ⟨rfl, rfl, rfl⟩
    exact hwhole
  · rw [hstop]
    exact stop_suffix _ _ _
  · rw [hstop]
    exact hreads.left

/-- A line that is too long, as one chunk and as two; of the two the first one is taken. And a line that
is short enough and a text, and at which reading fails since it tells no length. -/
theorem long_line_left_by_chunks :
    [List.replicate 5000 65, List.replicate 5000 65].flatten =
        [List.replicate 10000 (65 : UInt8)].flatten ∧
      readFrame [List.replicate 10000 65] =
        (.error Frame.longLine, [List.replicate 10000 65]) ∧
      readFrame [List.replicate 5000 65, List.replicate 5000 65] =
        (.error Frame.longLine, [List.replicate 5000 65]) ∧
      [List.replicate 5000 (65 : UInt8)].flatten ≠ [List.replicate 10000 (65 : UInt8)].flatten ∧
      IsLine (utf8 "Content-Length: x\n") [] ∧
      (utf8 "Content-Length: x\n").length ≤ Frame.maxLine ∧
      (readFrame [utf8 "Content-Length: x\n"]).1 =
        .error (Frame.badLength "x" .invalidDigit) := by
  have hplain : ∀ n, (10 : UInt8) ∉ List.replicate n 65 := by
    intro n hmem
    exact absurd (List.eq_of_mem_replicate hmem) (by decide)
  have hlong : ∀ s : Stream, readLine [] s = (.error Frame.longLine, s.drop (s.length - 1)) →
      readFrame s = (.error Frame.longLine, s.drop (s.length - 1)) := by
    intro s hread
    rw [readFrame, readHead, hread]
  have hline : utf8 "Content-Length: x\n" = utf8 "Content-Length: x" ++ [10] := by decide
  refine ⟨?bytes, hlong _ ?whole, hlong _ ?half, ?left, ⟨_, by decide, .inl hline⟩, by decide,
    ?length⟩
  case bytes =>
    rw [List.flatten_cons, List.flatten_singleton, List.flatten_singleton,
      List.replicate_append_replicate]
  case left =>
    intro heq
    have hlength := congrArg List.length heq
    rw [List.flatten_singleton, List.flatten_singleton, List.length_replicate,
      List.length_replicate] at hlength
    exact absurd hlength (by decide)
  case whole =>
    rw [readLine, splitLine?_none (hplain _)]
    dsimp only
    rw [List.length_replicate]
    rfl
  case half =>
    rw [readLine, splitLine?_none (hplain _)]
    dsimp only
    rw [List.length_replicate, if_neg (by decide), readLine, splitLine?_none (hplain _)]
    dsimp only
    rw [List.length_append, List.length_replicate]
    rfl
  case length =>
    have hreads : readLine [] [utf8 "Content-Length: x\n"] =
        (.ok (some (utf8 "Content-Length: x\n")), [[]]) := by decide
    have hnames : Frame.NamesLength "Content-Length: x\n" " x" :=
      ⟨Frame.lengthName, by decide, by decide, beq_self_eq_true _⟩
    have htrim : trim " x" = "x" := by decide
    have hfault : readUnsigned UInt64.size (trim " x") = .error .invalidDigit := by decide
    have hrefused := line_badLength {} hnames hfault
    rw [htrim] at hrefused
    rw [readFrame, readHead, hreads]
    dsimp only
    rw [hrefused]

end Chunks

end RemoteInspector
