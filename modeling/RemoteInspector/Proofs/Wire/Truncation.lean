import RemoteInspector.Proofs.Wire.Buffering

/-!
Streams that end too early. A parcel is a frame as it is sent: lines, a blank line and a body. Of a
stream of parcels that breaks off somewhere the whole ones are read, and then there is a clean end
between two parcels and a fault within one. There is one exception. The last line of a stream counts
as a line although it has no newline, so carriage returns at the end of a stream are a blank line.
If they come behind the line that announces an empty body, the parcel is read although its end is
missing.
-/

namespace RemoteInspector

open Text

/-! ### Where a sequence breaks off -/

/-- A beginning of pieces and a tail ends in the tail or within one of the pieces. -/
theorem prefix_flatMap_append {α β : Type} {f : α → List β} {as : List α} {tail cut : List β}
    (hcut : cut <+: as.flatMap f ++ tail) :
    (∃ part, part <+: tail ∧ cut = as.flatMap f ++ part) ∨
      ∃ before a after part, as = before ++ a :: after ∧ cut = before.flatMap f ++ part ∧
        part <+: f a ∧ part ≠ f a := by
  induction as generalizing cut with
  | nil => exact .inl ⟨cut, hcut, rfl⟩
  | cons a as ih =>
      rw [List.flatMap_cons, List.append_assoc] at hcut
      rcases List.prefix_or_prefix_of_prefix hcut (List.prefix_append _ _) with hpart | hwhole
      · by_cases heq : cut = f a
        · subst heq
          rcases ih (List.nil_prefix (l := as.flatMap f ++ tail)) with ⟨part, hpart, hnil⟩ |
            ⟨before, b, after, part, rfl, hnil, hpart, hne⟩
          · exact .inl ⟨part, hpart, by rw [List.flatMap_cons, List.append_assoc, ← hnil,
              List.append_nil]⟩
          · refine .inr ⟨a :: before, b, after, part, rfl, ?_, hpart, hne⟩
            rw [List.flatMap_cons, List.append_assoc, ← hnil, List.append_nil]
        · exact .inr ⟨[], a, as, cut, rfl, rfl, hpart, heq⟩
      · obtain ⟨cut, rfl⟩ := hwhole
        rw [List.prefix_append_right_inj] at hcut
        rcases ih hcut with ⟨part, hpart, rfl⟩ | ⟨before, b, after, part, rfl, rfl, hpart, hne⟩
        · exact .inl ⟨part, hpart, by rw [List.flatMap_cons, List.append_assoc]⟩
        · refine .inr ⟨a :: before, b, after, part, rfl, ?_, hpart, hne⟩
          rw [List.flatMap_cons, List.append_assoc]

namespace Frame

/-! ### Header lines -/

/-- A header line, without its break: it is not blank, and there is room for it. -/
structure IsHeaderLine (l : String) : Prop where
  oneLine : '\n' ∉ l.toList
  notBlank : withoutBreak l ≠ []
  short : (utf8 l).length + 2 ≤ maxLine

def lineBytes (l : String) : Bytes := utf8 l ++ [13, 10]

/-- The header that a line stands for: what is before the first colon and what is behind it. -/
def headerOf? (l : String) : Option (String × String) :=
  let cs := withoutBreak l
  if ':' ∈ cs then
    some (trim (String.ofList (cs.takeWhile (· != ':'))),
      trim (String.ofList ((cs.dropWhile (· != ':')).drop 1)))
  else none

theorem lineBytes_eq (l : String) : lineBytes l = utf8 (l ++ "\r\n") := by
  rw [utf8_append, utf8_break, lineBytes]

theorem withoutBreak_break (l : String) : withoutBreak (l ++ "\r\n") = withoutBreak l := by
  have hbreak : "\r\n".toList.reverse = ['\n', '\r'] := rfl
  rw [withoutBreak, withoutBreak, String.toList_append, List.reverse_append, hbreak]
  rfl

/-- A line that is not blank is added to the head. -/
theorem line_lineBytes (h : Head) {l : String} (hl : withoutBreak l ≠ []) :
    h.line (lineBytes l) = (h.add (withoutBreak l)).map .more := by
  rw [Head.line, lineBytes_eq, decodeUtf8?_utf8]
  dsimp only
  rw [withoutBreak_break]
  split
  · next hnil => exact (hl hnil).elim
  · rfl

theorem headerOf?_colon {l : String} {name value : String} (hname : ':' ∉ name.toList)
    (hl : withoutBreak l = name.toList ++ ':' :: value.toList) :
    headerOf? l = some (trim name, trim value) := by
  obtain ⟨htake, hdrop⟩ := colon_split hname value
  rw [headerOf?, hl, if_pos (colon_mem name value), htake, hdrop, String.ofList_toList,
    String.ofList_toList]

/-- The name of a line that tells a length is found before the first colon. -/
theorem NamesLength.sameName {l value : String} (hl : NamesLength l value) :
    eqIgnoringCase (String.ofList ((withoutBreak l).takeWhile (· != ':'))) lengthName = true := by
  obtain ⟨name, hname, heq, hsame⟩ := hl
  rwa [heq, (colon_split hname value).1, String.ofList_toList]

theorem add_other (h : Head) {l : String} (hl : ∀ value, ¬NamesLength l value) :
    h.add (withoutBreak l) = .ok ⟨h.headers ++ (headerOf? l).toList, h.length⟩ := by
  rcases colon_cases (withoutBreak l) with hcolon | ⟨name, value, hname, heq⟩
  · rw [Head.add, if_neg hcolon, headerOf?, if_neg hcolon, Option.toList_none, List.append_nil]
    rfl
  · have hother : ¬eqIgnoringCase name lengthName = true := fun hsame =>
      hl value ⟨name, hname, heq, hsame⟩
    rw [headerOf?_colon hname heq, heq, Head.add_field h hname, if_neg hother]
    rfl

theorem add_length (h : Head) {l value : String} {n : Nat} (hl : NamesLength l value)
    (hn : readUnsigned UInt64.size (trim value) = .ok n) :
    h.add (withoutBreak l) = .ok ⟨h.headers ++ (headerOf? l).toList, some n⟩ := by
  obtain ⟨name, hname, heq, hsame⟩ := hl
  rw [headerOf?_colon hname heq, heq, Head.add_field h hname, if_pos hsame, hn]
  rfl

/-! ### Line by line -/

inductive Takes : Head → List String → Head → Prop where
  | nil {h : Head} : Takes h [] h
  | cons {h h' h'' : Head} {l : String} {ls : List String} (hl : IsHeaderLine l)
      (hadd : h.add (withoutBreak l) = .ok h') (hrest : Takes h' ls h'') : Takes h (l :: ls) h''

theorem Takes.append {h h' h'' : Head} {ls ls' : List String} (hls : Takes h ls h')
    (hls' : Takes h' ls' h'') : Takes h (ls ++ ls') h'' := by
  induction hls with
  | nil => exact hls'
  | cons hl hadd _ ih => exact .cons hl hadd (ih hls')

theorem takes_other {ls : List String} (hls : ∀ l ∈ ls, IsHeaderLine l)
    (hother : ∀ l ∈ ls, ∀ value, ¬NamesLength l value) (h : Head) :
    Takes h ls ⟨h.headers ++ ls.filterMap headerOf?, h.length⟩ := by
  induction ls generalizing h with
  | nil =>
      rw [List.filterMap_nil, List.append_nil]
      exact .nil
  | cons l ls ih =>
      obtain ⟨hl, hls⟩ := List.forall_mem_cons.1 hls
      obtain ⟨hlother, hother⟩ := List.forall_mem_cons.1 hother
      refine .cons hl (add_other h hlother) ?_
      have hrest := ih hls hother ⟨h.headers ++ (headerOf? l).toList, h.length⟩
      have hheaders : (l :: ls).filterMap headerOf? =
          (headerOf? l).toList ++ ls.filterMap headerOf? := by
        cases hheader : headerOf? l <;> simp [hheader]
      rwa [List.append_assoc, ← hheaders] at hrest

theorem newline_notMem {l : String} (hl : '\n' ∉ l.toList) : 10 ∉ utf8 l ++ [13] := by
  have hbyte : (10 : UInt8) = byteOf '\n' := by decide
  rw [List.mem_append, List.mem_singleton, hbyte, byteOf_mem_utf8 (by decide)]
  rintro (hmem | heq)
  · exact hl hmem
  · exact absurd heq (by decide)

/-- A part of a line has no newline. -/
theorem unfinished_line {l : String} (hl : IsHeaderLine l) {part : Bytes}
    (hpart : part <+: lineBytes l) (hne : part ≠ lineBytes l) :
    10 ∉ part ∧ part.length ≤ maxLine := by
  have hbytes : lineBytes l = utf8 l ++ [13] ++ [10] := by simp [lineBytes]
  rw [hbytes] at hpart hne
  have hpart' := (List.prefix_concat_iff.1 hpart).resolve_left hne
  refine ⟨fun hmem => newline_notMem hl.oneLine (hpart'.subset hmem), ?_⟩
  have hshort := hl.short
  have hlength := hpart'.length_le
  rw [List.length_append, List.length_singleton] at hlength
  omega

/-- Lines are taken up one after the other, and reading goes on behind them. -/
theorem readHead_takes {h h' : Head} {ls : List String} (hls : Takes h ls h') (started : Bool)
    (s : Bytes) :
    readHead h started [] maxLine (ls.flatMap lineBytes ++ s) =
      readHead h' (started || !ls.isEmpty) [] maxLine s := by
  induction hls generalizing started with
  | nil => simp
  | @cons h h' h'' l ls hl hadd _ ih =>
      have hmore : h.line (utf8 l ++ [13] ++ [10]) = .ok (.more h') := by
        have hline := line_lineBytes h hl.notBlank
        rw [hadd, lineBytes] at hline
        rw [List.append_assoc]
        exact hline
      have hroom : (utf8 l ++ [13]).length < maxLine := by
        have hshort := hl.short
        rw [List.length_append, List.length_singleton]
        omega
      have hbytes : (l :: ls).flatMap lineBytes ++ s =
          (utf8 l ++ [13]) ++ 10 :: (ls.flatMap lineBytes ++ s) := by
        simp [lineBytes]
      rw [hbytes, readHead_more
        (fun b hb => by rintro rfl; exact newline_notMem hl.oneLine hb) hroom hmore, ih]
      simp

/-! ### The end of the input -/

/-- The bytes are the beginning of a line break, or of several. -/
def IsReturns (s : Bytes) : Prop := s ≠ [] ∧ ∀ b ∈ s, b = 13

theorem IsReturns.newline_notMem {s : Bytes} (hs : IsReturns s) : 10 ∉ s :=
  fun hmem => absurd (hs.2 10 hmem) (by decide)

theorem IsReturns.line {s : Bytes} (hs : IsReturns s) (h : Head) : h.line s = .ok .blank := by
  obtain ⟨-, hs⟩ := hs
  have hchars : ∀ n, withoutBreak (String.ofList (List.replicate n '\r')) = [] := by
    intro n
    rw [withoutBreak, String.toList_ofList, List.reverse_eq_nil_iff, List.dropWhile_eq_nil_iff]
    intro c hc
    rw [List.mem_reverse] at hc
    rw [List.eq_of_mem_replicate hc]
    rfl
  have hbytes : s = utf8 (String.ofList (List.replicate s.length '\r')) := by
    rw [utf8_ofList, flatMap_ascii fun c hc => by rw [List.eq_of_mem_replicate hc]; decide,
      List.map_replicate]
    exact List.eq_replicate_of_mem hs
  rw [Head.line, hbytes, decodeUtf8?_utf8]
  dsimp only
  rw [hchars]

/-- A line that is blank and has no newline is made of carriage returns. -/
theorem isReturns_of_blank {h : Head} {s : Bytes} (hne : s ≠ []) (hs : 10 ∉ s)
    (hblank : h.line s = .ok .blank) : IsReturns s := by
  refine ⟨hne, ?_⟩
  unfold Head.line at hblank
  split at hblank
  · cases hblank
  · next text htext =>
    rw [decodeUtf8?_eq_some] at htext
    subst htext
    split at hblank
    · next hnil =>
      rw [withoutBreak, List.reverse_eq_nil_iff, List.dropWhile_eq_nil_iff] at hnil
      have hchars : ∀ c ∈ text.toList, c = '\r' := by
        intro c hc
        have hbreak := hnil c (List.mem_reverse.2 hc)
        rw [Bool.or_eq_true, beq_iff_eq, beq_iff_eq] at hbreak
        refine hbreak.resolve_right ?_
        rintro rfl
        exact hs ((byteOf_mem_utf8 (c := '\n') (by decide)).2 hc)
      intro b hb
      rw [utf8_eq_flatMap, flatMap_ascii fun c hc => by rw [hchars c hc]; decide] at hb
      obtain ⟨c, hc, rfl⟩ := List.mem_map.1 hb
      rw [hchars c hc]
      rfl
    · cases hadd : h.add (withoutBreak text) with
      | error e => simp_all [Except.map]
      | ok h' => simp_all [Except.map]

/-- Carriage returns are not more than one line. -/
theorem IsReturns.short {s : Bytes} (hs : IsReturns s) {ls : List String}
    (hls : ∀ l ∈ ls, IsHeaderLine l) (hbegin : s <+: ls.flatMap lineBytes ++ [13, 10]) :
    s.length ≤ maxLine := by
  cases ls with
  | nil => exact Nat.le_trans hbegin.length_le (by decide)
  | cons l ls =>
      rw [List.flatMap_cons, List.append_assoc] at hbegin
      rcases List.prefix_or_prefix_of_prefix hbegin (List.prefix_append _ _) with hpart | hwhole
      · have hlength := hpart.length_le
        have hshort := (hls l List.mem_cons_self).short
        rw [lineBytes, List.length_append] at hlength
        exact Nat.le_trans hlength hshort
      · have hnewline : 10 ∈ lineBytes l := by simp [lineBytes]
        exact (hs.newline_notMem (hwhole.subset hnewline)).elim

theorem readBody_short {h : Head} {s : Bytes} (hshort : ∀ n, h.length = some n → s.length < n) :
    ∃ e, readBody h s = .error e := by
  unfold readBody
  cases hlength : h.bodyLength with
  | error e => exact ⟨e, rfl⟩
  | ok n =>
      have hn : h.length = some n := by
        unfold Head.bodyLength at hlength
        split at hlength
        · cases hlength
        · next m hm =>
          split at hlength
          · cases hlength
          · rw [hm, Except.ok.inj hlength]
      simp only [bind, Except.bind, split?_eq, if_pos (hshort n hn)]
      exact ⟨cutBody, rfl⟩

theorem readHead_part (h : Head) (started : Bool) {part : Bytes} (hne : part ≠ [])
    (hpart : 10 ∉ part) (hshort : part.length ≤ maxLine) :
    readHead h started [] maxLine part =
      match h.line part with
      | .error e => .error e
      | .ok .blank => readBody h []
      | .ok (.more _) => .error cutHead := by
  have hline : Chunks.IsLine part [] := ⟨part, hpart, .inr ⟨rfl, hne, rfl⟩⟩
  have hnext := Chunks.nextLine_line hline
  rw [List.append_nil, if_neg (Nat.not_lt.2 hshort)] at hnext
  rw [readHead_line, hnext]
  rfl

/-- Carriage returns at the end of the input are a blank line. -/
theorem readHead_returns {h : Head} (started : Bool) {part : Bytes} (hpart : IsReturns part)
    (hshort : part.length ≤ maxLine) (hlength : h.length = some 0) :
    readHead h started [] maxLine part = .ok (some (⟨h.headers, []⟩, [])) := by
  rw [readHead_part h started hpart.1 hpart.newline_notMem hshort, hpart.line]
  have hnone : h.length = some ([] : Bytes).length := hlength
  exact readBody_framed hnone (Nat.zero_le _) []

/-- Any other line that is not finished at the end of the input is a fault. -/
theorem readHead_cut {h : Head} (started : Bool) {part : Bytes} (hne : part ≠ [])
    (hpart : 10 ∉ part) (hshort : part.length ≤ maxLine)
    (hother : ¬(IsReturns part ∧ h.length = some 0)) :
    ∃ e, readHead h started [] maxLine part = .error e := by
  rw [readHead_part h started hne hpart hshort]
  cases hline : h.line part with
  | error e => exact ⟨e, rfl⟩
  | ok l =>
      cases l with
      | more h' => exact ⟨cutHead, rfl⟩
      | blank =>
          have hreturns := isReturns_of_blank hne hpart hline
          refine readBody_short fun n hn => Nat.pos_of_ne_zero ?_
          rintro rfl
          exact hother ⟨hreturns, hn⟩

end Frame

/-! ### Parcels -/

structure Parcel where
  before : List String
  lengthLine : String
  after : List String
  body : Bytes
  isHeaderLine : ∀ l ∈ before ++ lengthLine :: after, Frame.IsHeaderLine l
  tellsLength : ∃ value, Frame.NamesLength lengthLine value ∧
    readUnsigned UInt64.size (trim value) = .ok body.length
  tellsOnce : ∀ l ∈ before ++ after, ∀ value, ¬Frame.NamesLength l value
  size : body.length ≤ Frame.maxBody

namespace Parcel

open RemoteInspector.Frame

variable (p : Parcel)

def lines : List String := p.before ++ p.lengthLine :: p.after

def bytes : Bytes := p.lines.flatMap lineBytes ++ ([13, 10] ++ p.body)

def frame : Frame := ⟨p.lines.filterMap headerOf?, p.body⟩

theorem takes_before {before later : List String} (hbefore : p.before = before ++ later) :
    Takes {} before ⟨before.filterMap headerOf?, none⟩ := by
  have hmem : ∀ l ∈ before, l ∈ p.before := by
    intro l hl
    rw [hbefore]
    exact List.mem_append_left _ hl
  exact takes_other (fun l hl => p.isHeaderLine l (List.mem_append_left _ (hmem l hl)))
    (fun l hl => p.tellsOnce l (List.mem_append_left _ (hmem l hl))) {}

/-- Behind the line that tells the length, the length is known. -/
theorem takes_after {after later : List String} (hafter : p.after = after ++ later) :
    Takes {} (p.before ++ p.lengthLine :: after)
      ⟨(p.before ++ p.lengthLine :: after).filterMap headerOf?, some p.body.length⟩ := by
  obtain ⟨value, hname, hvalue⟩ := p.tellsLength
  have hmem : ∀ l ∈ after, l ∈ p.after := by
    intro l hl
    rw [hafter]
    exact List.mem_append_left _ hl
  have hbefore := p.takes_before (List.append_nil _).symm
  have hrest := takes_other
    (fun l hl => p.isHeaderLine l (List.mem_append_right _ (List.mem_cons_of_mem _ (hmem l hl))))
    (fun l hl => p.tellsOnce l (List.mem_append_right _ (hmem l hl)))
    ⟨p.before.filterMap headerOf? ++ (headerOf? p.lengthLine).toList, some p.body.length⟩
  have hline := p.isHeaderLine p.lengthLine (List.mem_append_right _ List.mem_cons_self)
  have htakes := hbefore.append (.cons hline (add_length _ hname hvalue) hrest)
  have hheaders : (p.before ++ p.lengthLine :: after).filterMap headerOf? =
      p.before.filterMap headerOf? ++ (headerOf? p.lengthLine).toList ++
        after.filterMap headerOf? := by
    rw [List.filterMap_append, List.append_assoc]
    cases hheader : headerOf? p.lengthLine <;> simp [hheader]
  rwa [← hheaders] at htakes

theorem takes_lines : Takes {} p.lines ⟨p.frame.headers, some p.body.length⟩ :=
  p.takes_after (List.append_nil _).symm

/-- A parcel is read as its frame, whatever follows it. -/
theorem isFrame : IsFrame p.bytes p.frame := by
  intro t
  have hreturn : ∀ b ∈ [(13 : UInt8)], b ≠ 10 := List.forall_mem_singleton.2 (by decide)
  have hbytes : p.bytes ++ t = p.lines.flatMap lineBytes ++ ([13] ++ 10 :: (p.body ++ t)) := by
    simp [bytes]
  rw [Frame.read, hbytes, readHead_takes p.takes_lines, readHead_blank hreturn (by decide) rfl]
  exact readBody_framed rfl p.size t

/-- The parcel has no body and breaks off behind the line that tells its length and some more lines,
within carriage returns. -/
structure BlankBehind (after : List String) (cut : Bytes) : Prop where
  noBody : p.body = []
  isBegin : after <+: p.after
  isCut : ∃ returns, IsReturns returns ∧
    cut = (p.before ++ p.lengthLine :: after).flatMap lineBytes ++ returns

variable {p}

theorem BlankBehind.read {after : List String} {cut : Bytes} (hblank : p.BlankBehind after cut)
    (hcut : cut <+: p.bytes) :
    Frame.read cut =
      .ok (some (⟨(p.before ++ p.lengthLine :: after).filterMap headerOf?, []⟩, [])) := by
  obtain ⟨hbody, ⟨later, hlater⟩, returns, hreturns, rfl⟩ := hblank
  have htakes := p.takes_after hlater.symm
  rw [hbody] at htakes
  have hlines : ∀ l ∈ later, IsHeaderLine l := by
    intro l hl
    refine p.isHeaderLine l (List.mem_append_right _ (List.mem_cons_of_mem _ ?_))
    rw [← hlater]
    exact List.mem_append_right _ hl
  have hbytes : p.bytes = (p.before ++ p.lengthLine :: after).flatMap lineBytes ++
      (later.flatMap lineBytes ++ [13, 10]) := by
    simp [bytes, lines, hbody, ← hlater]
  rw [hbytes, List.prefix_append_right_inj] at hcut
  rw [Frame.read, readHead_takes htakes]
  exact readHead_returns _ hreturns (hreturns.short hlines hcut) rfl

/-- A part of a parcel is a fault, if it is not taken for all of the parcel. -/
theorem read_cut {cut : Bytes} (hcut : cut <+: p.bytes) (hne : cut ≠ p.bytes) (hsome : cut ≠ [])
    (hblank : ∀ after, ¬p.BlankBehind after cut) : ∃ e, Frame.read cut = .error e := by
  rcases prefix_flatMap_append hcut with ⟨part, hpart, rfl⟩ |
    ⟨before, l, later, part, hlines, rfl, hpart, hpartne⟩
  · -- The lines are all there, and the blank line or the body breaks off.
    have hstarted : (false || !p.lines.isEmpty) = true := by simp [lines]
    change part <+: 13 :: 10 :: p.body at hpart
    rw [Frame.read, readHead_takes p.takes_lines, hstarted]
    rcases part with _ | ⟨b, _ | ⟨c, part⟩⟩
    · exact ⟨cutHead, rfl⟩
    · obtain ⟨rfl, -⟩ := List.cons_prefix_cons.1 hpart
      refine readHead_cut true (List.cons_ne_nil _ _) (by decide) (by decide) ?_
      rintro ⟨hreturns, hlength⟩
      have hbody : p.body = [] := List.length_eq_zero_iff.1 (Option.some.inj hlength)
      exact hblank p.after ⟨hbody, List.prefix_rfl, [13], hreturns, rfl⟩
    · obtain ⟨rfl, hbreak⟩ := List.cons_prefix_cons.1 hpart
      obtain ⟨rfl, hbody⟩ := List.cons_prefix_cons.1 hbreak
      have hreturn : ∀ b ∈ [(13 : UInt8)], b ≠ 10 := List.forall_mem_singleton.2 (by decide)
      have hbytes : (13 : UInt8) :: 10 :: part = [13] ++ 10 :: part := rfl
      rw [hbytes, readHead_blank hreturn (by decide) rfl]
      refine readBody_short ?_
      rintro n hn
      cases hn
      refine Nat.lt_of_le_of_ne hbody.length_le fun hlength => ?_
      rw [hbody.eq_of_length hlength] at hne
      exact hne rfl
  · -- One of the lines breaks off.
    have hmem : l ∈ p.lines := by
      rw [hlines]
      exact List.mem_append_right _ List.mem_cons_self
    obtain ⟨hnl, hshort⟩ := unfinished_line (p.isHeaderLine l hmem) hpart hpartne
    have hread : ∀ h, Takes {} before h → ¬(IsReturns part ∧ h.length = some 0) →
        ∃ e, Frame.read (before.flatMap lineBytes ++ part) = .error e := by
      intro h htakes hother
      rw [Frame.read, readHead_takes htakes]
      by_cases hnil : part = []
      · subst hnil
        have hstarted : (false || !before.isEmpty) = true := by
          cases before with
          | nil => exact (hsome rfl).elim
          | cons l' before => rfl
        rw [hstarted]
        exact ⟨cutHead, rfl⟩
      · exact readHead_cut _ hnil hnl hshort hother
    rcases List.append_eq_append_iff.1 hlines with ⟨rest, hbefore, hrest⟩ | ⟨rest, hbefore, -⟩
    · cases rest with
      | nil =>
          rw [List.append_nil] at hbefore
          exact hread _ (p.takes_before (by rw [hbefore, List.append_nil])) (by simp)
      | cons first rest =>
          obtain ⟨rfl, hafter⟩ := List.cons.inj hrest
          have htakes := p.takes_after hafter
          rw [← hbefore] at htakes
          refine hread _ htakes ?_
          rintro ⟨hreturns, hlength⟩
          have hbody : p.body = [] := List.length_eq_zero_iff.1 (Option.some.inj hlength)
          refine hblank rest ⟨hbody, ⟨l :: later, hafter.symm⟩, part, hreturns, ?_⟩
          rw [hbefore]
    · exact hread _ (p.takes_before hbefore) (by simp)

/-! ### Streams of parcels -/

theorem bytes_ne_nil (p : Parcel) : p.bytes ≠ [] := by simp [bytes]

/-- Whole parcels are read one after the other, and reading goes on behind them. -/
theorem readAll_whole (ps : List Parcel) (s : Bytes) :
    readAll ((ps.flatMap bytes ++ s).length + 1) (ps.flatMap bytes ++ s) =
      (ps.map frame ++ (readAll (s.length + 1) s).1, (readAll (s.length + 1) s).2) := by
  induction ps with
  | nil => rfl
  | cons p ps ih =>
      have hlonger :
          (ps.flatMap bytes ++ s).length < (p.bytes ++ (ps.flatMap bytes ++ s)).length := by
        have hpos := List.length_pos_iff.2 p.bytes_ne_nil
        have hlength : (p.bytes ++ (ps.flatMap bytes ++ s)).length =
            p.bytes.length + (ps.flatMap bytes ++ s).length := List.length_append
        omega
      rw [List.flatMap_cons, List.append_assoc, readAll, p.isFrame]
      dsimp only
      rw [readAll_fuel hlonger (Nat.lt_succ_self _), ih]
      rfl

theorem readAll_nil (fuel : Nat) : readAll (fuel + 1) [] = ([], none) := rfl

theorem readAll_error {s : Bytes} {e : WireError} (hread : Frame.read s = .error e) (fuel : Nat) :
    readAll (fuel + 1) s = ([], some e) := by
  rw [readAll, hread]

/-- A stream of parcels breaks off within one of them, behind some whole ones. -/
structure BreaksOff (ps : List Parcel) (s : Bytes) (whole : List Parcel) (next : Parcel)
    (cut : Bytes) : Prop where
  parcels : ∃ more, ps = whole ++ next :: more
  stream : s = whole.flatMap bytes ++ cut
  isPart : cut <+: next.bytes
  notAll : cut ≠ next.bytes

theorem exists_breaksOff {ps : List Parcel} {s : Bytes} (hbegin : s <+: ps.flatMap bytes)
    (hbroken : s ≠ ps.flatMap bytes) : ∃ whole next cut, BreaksOff ps s whole next cut := by
  rw [← List.append_nil (ps.flatMap bytes)] at hbegin
  rcases prefix_flatMap_append hbegin with ⟨part, hpart, rfl⟩ |
    ⟨whole, next, more, cut, rfl, rfl, hcut, hne⟩
  · rw [List.prefix_nil.1 hpart, List.append_nil] at hbroken
    exact (hbroken rfl).elim
  · exact ⟨whole, next, cut, ⟨more, rfl⟩, rfl, hcut, hne⟩

/-- The frame of a parcel of which nothing is seen but some of its lines. -/
def headFrame (p : Parcel) (after : List String) : Frame :=
  ⟨(p.before ++ p.lengthLine :: after).filterMap headerOf?, []⟩

/-- A stream of parcels that is broken off breaks off somewhere, and wherever it does, the parcels
before that are read. Then reading comes to a clean end if the next one is missing as a whole, and
else to a fault, but for one case: where a parcel without a body breaks off within carriage returns,
behind the line that tells its length, a frame is read of it, and then there is a clean end. -/
theorem broken_stream_reads {ps : List Parcel} {s : Bytes} (hbegin : s <+: ps.flatMap bytes)
    (hbroken : s ≠ ps.flatMap bytes) :
    (∃ whole next cut, BreaksOff ps s whole next cut) ∧
      ∀ whole next cut, BreaksOff ps s whole next cut →
        (cut = [] → readAll (s.length + 1) s = (whole.map frame, none)) ∧
        (cut ≠ [] → (∀ after, ¬next.BlankBehind after cut) →
          ∃ e, readAll (s.length + 1) s = (whole.map frame, some e)) ∧
        ∀ after, next.BlankBehind after cut →
          readAll (s.length + 1) s = (whole.map frame ++ [next.headFrame after], none) := by
  refine ⟨exists_breaksOff hbegin hbroken, ?_⟩
  rintro whole next cut ⟨-, rfl, hcut, hne⟩
  refine ⟨?_, ?_, ?_⟩
  · rintro rfl
    rw [readAll_whole, List.length_nil, readAll_nil, List.append_nil]
  · intro hsome hblank
    obtain ⟨e, hread⟩ := read_cut hcut hne hsome hblank
    refine ⟨e, ?_⟩
    rw [readAll_whole, readAll_error hread, List.append_nil]
  · intro after hblank
    have hread := hblank.read hcut
    have hlonger := read_shorter hread
    obtain ⟨fuel, hfuel⟩ := Nat.exists_eq_succ_of_ne_zero (Nat.ne_zero_of_lt hlonger)
    have hcutAll : readAll (cut.length + 1) cut = ([next.headFrame after], none) := by
      rw [readAll, hread, hfuel]
      rfl
    rw [readAll_whole, hcutAll]

def greeting : Parcel where
  before := ["Type: connect"]
  lengthLine := "Content-Length: 0"
  after := []
  body := []
  isHeaderLine := List.forall_mem_cons.2 ⟨⟨by decide, by decide, by decide⟩,
    List.forall_mem_singleton.2 ⟨by decide, by decide, by decide⟩⟩
  tellsLength := ⟨" 0", ⟨"Content-Length", by decide, by decide, by decide +kernel⟩, by decide⟩
  tellsOnce := List.forall_mem_singleton.2 fun _ hl => absurd hl.sameName (by decide +kernel)
  size := by decide

def message : Parcel where
  before := []
  lengthLine := "Content-Length: 10"
  after := []
  body := utf8 "\x7b\"seq\":12\x7d"
  isHeaderLine := List.forall_mem_singleton.2 ⟨by decide, by decide, by decide⟩
  tellsLength := ⟨" 10", ⟨"Content-Length", by decide, by decide, by decide +kernel⟩, by decide⟩
  tellsOnce := List.forall_mem_nil _
  size := by decide

/-- The message breaks off in the digits of its length, which leaves a smaller number. -/
theorem broken_stream_reads_digits :
    greeting.bytes ++ utf8 "Content-Length: 1" <+: [greeting, message].flatMap bytes ∧
      greeting.bytes ++ utf8 "Content-Length: 1" ≠ [greeting, message].flatMap bytes ∧
      ∃ e, readAll ((greeting.bytes ++ utf8 "Content-Length: 1").length + 1)
        (greeting.bytes ++ utf8 "Content-Length: 1") = ([greeting.frame], some e) := by
  have hbegin : greeting.bytes ++ utf8 "Content-Length: 1" <+:
      [greeting, message].flatMap bytes := by decide +kernel
  have hbroken : greeting.bytes ++ utf8 "Content-Length: 1" ≠
      [greeting, message].flatMap bytes := by decide +kernel
  obtain ⟨-, hreads⟩ := broken_stream_reads hbegin hbroken
  obtain ⟨-, hfault, -⟩ := hreads [greeting] message (utf8 "Content-Length: 1")
    ⟨⟨[], rfl⟩, rfl, by decide +kernel, by decide +kernel⟩
  refine ⟨hbegin, hbroken, hfault (by decide) ?_⟩
  rintro after ⟨hbody, -, -⟩
  exact absurd hbody (by decide)

/-- A greeting that lacks its last byte is read, and then there is a clean end. -/
theorem unfinished_greeting_is_read :
    BreaksOff [greeting] greeting.bytes.dropLast [] greeting greeting.bytes.dropLast ∧
      readAll (greeting.bytes.dropLast.length + 1) greeting.bytes.dropLast =
        ([greeting.frame], none) := by
  have hcut : greeting.bytes.dropLast <+: greeting.bytes := List.dropLast_prefix _
  have hne : greeting.bytes.dropLast ≠ greeting.bytes := by decide +kernel
  have hblank : greeting.BlankBehind [] greeting.bytes.dropLast :=
    ⟨rfl, List.prefix_rfl, [13], ⟨by decide, List.forall_mem_singleton.2 rfl⟩, by decide +kernel⟩
  have hread := hblank.read hcut
  refine ⟨⟨⟨[], rfl⟩, rfl, hcut, hne⟩, ?_⟩
  rw [readAll, hread]
  rfl

end Parcel

end RemoteInspector
