import RemoteInspector.Proofs.Wire.Frame

/-!
What a stream of bytes carries. A frame that is complete is read in the same way whatever follows it,
and so is a fault; reading goes on right behind the frame. What counts of a stream are its messages,
and a frame that holds none, for want of a body or because its body cannot be read, takes nothing
from those behind it.
-/

namespace RemoteInspector

open Text

namespace Frame

/-! ### What follows a frame -/

def followedBy (t : Bytes) (r : Except WireError (Option (Frame × Bytes))) :
    Except WireError (Option (Frame × Bytes)) :=
  r.map (Option.map fun x => (x.1, x.2 ++ t))

theorem followedBy_some {t : Bytes} {r : Except WireError (Option (Frame × Bytes))}
    {x : Frame × Bytes} (h : followedBy t r = .ok (some x)) : ∃ y, r = .ok (some y) := by
  cases r with
  | error e => cases h
  | ok r =>
      cases r with
      | none => cases h
      | some y => exact ⟨y, rfl⟩

theorem readBody_append {h : Head} {s : Bytes} (t : Bytes)
    (hdone : ∀ n, h.bodyLength = .ok n → n ≤ s.length) :
    readBody h (s ++ t) = followedBy t (readBody h s) := by
  unfold readBody
  cases hn : h.bodyLength with
  | error e => rfl
  | ok n =>
      have hle := hdone n hn
      have hwhole : ¬(s ++ t).length < n := by
        rw [List.length_append]
        omega
      simp only [bind, Except.bind, split?_eq, if_neg hwhole, if_neg (Nat.not_lt.2 hle),
        List.take_append_of_le_length hle, List.drop_append_of_le_length hle]
      rfl

theorem readHead_append {h : Head} {line : Bytes} {room : Nat} {s : Bytes} (started : Bool)
    (t : Bytes) (hdone : awaitsMore h line room s = false) :
    readHead h started line room (s ++ t) = followedBy t (readHead h started line room s) := by
  induction s generalizing h started line room with
  | nil => cases hdone
  | cons b s ih =>
      cases room with
      | zero => rfl
      | succ room =>
          rw [awaitsMore] at hdone
          rw [List.cons_append, readHead, readHead]
          by_cases hb : b = 10
          · rw [if_pos hb] at hdone
            rw [if_pos hb, if_pos hb]
            cases hline : h.line (b :: line).reverse with
            | error e => rfl
            | ok l =>
                rw [hline] at hdone
                cases l with
                | blank =>
                    refine readBody_append t fun n hn => ?_
                    simp only [hn] at hdone
                    exact Nat.not_lt.1 (of_decide_eq_false hdone)
                | more h' => exact ih true hdone
          · rw [if_neg hb] at hdone
            rw [if_neg hb, if_neg hb]
            exact ih started hdone

theorem awaitsMore_append {h : Head} {line : Bytes} {room : Nat} {s : Bytes} (t : Bytes)
    (hdone : awaitsMore h line room s = false) : awaitsMore h line room (s ++ t) = false := by
  induction s generalizing h line room with
  | nil => cases hdone
  | cons b s ih =>
      cases room with
      | zero => rfl
      | succ room =>
          rw [awaitsMore] at hdone
          rw [List.cons_append, awaitsMore]
          by_cases hb : b = 10
          · rw [if_pos hb] at hdone ⊢
            cases hline : h.line (b :: line).reverse with
            | error e => rfl
            | ok l =>
                rw [hline] at hdone
                cases l with
                | blank =>
                    dsimp only at hdone ⊢
                    cases hn : h.bodyLength with
                    | error e => rfl
                    | ok n =>
                        rw [hn] at hdone
                        have hle := Nat.not_lt.1 (of_decide_eq_false hdone)
                        dsimp only
                        rw [decide_eq_false_iff_not, List.length_append]
                        omega
                | more h' => exact ih hdone
          · rw [if_neg hb] at hdone ⊢
            exact ih hdone

/-- Where reading does not come to the end of the bytes, it does not look at what follows them. -/
theorem read_append {s : Bytes} (t : Bytes) (hdone : isPartial s = false) :
    read (s ++ t) = followedBy t (read s) ∧ isPartial (s ++ t) = false :=
  ⟨readHead_append false t hdone, awaitsMore_append t hdone⟩

/-! ### What is left behind a frame -/

/-- Behind a head there is a frame or a fault. -/
theorem readBody_ok {h : Head} {s : Bytes} {r : Option (Frame × Bytes)}
    (hread : readBody h s = .ok r) : ∃ f rest, r = some (f, rest) ∧ rest.length ≤ s.length := by
  unfold readBody at hread
  cases hn : h.bodyLength with
  | error e =>
      rw [hn] at hread
      cases hread
  | ok n =>
      simp only [hn, bind, Except.bind, split?_eq] at hread
      by_cases hlt : s.length < n
      · rw [if_pos hlt] at hread
        cases hread
      · rw [if_neg hlt] at hread
        cases hread
        exact ⟨_, _, rfl, by rw [List.length_drop]; exact Nat.sub_le ..⟩

/-- A frame takes a byte or more; neither a frame nor a fault is found only where there is nothing. -/
theorem readHead_ok {h : Head} {started : Bool} {line : Bytes} {room : Nat} {s : Bytes}
    {r : Option (Frame × Bytes)} (hread : readHead h started line room s = .ok r) :
    match r with
    | none => started = false ∧ line = [] ∧ s = []
    | some (_, rest) => rest.length < line.length + s.length := by
  induction s generalizing h started line room with
  | nil =>
      rw [readHead] at hread
      cases line with
      | nil =>
          cases started with
          | true => cases hread
          | false =>
              cases hread
              exact ⟨rfl, rfl, rfl⟩
      | cons b line =>
          simp only [List.isEmpty_cons, Bool.false_eq_true, if_false] at hread
          split at hread
          · cases hread
          · obtain ⟨f, rest, rfl, hle⟩ := readBody_ok hread
            exact Nat.lt_of_le_of_lt hle (Nat.zero_lt_succ _)
          · cases hread
  | cons b s ih =>
      cases room with
      | zero => cases hread
      | succ room =>
          rw [readHead] at hread
          by_cases hb : b = 10
          · rw [if_pos hb] at hread
            split at hread
            · cases hread
            · obtain ⟨f, rest, rfl, hle⟩ := readBody_ok hread
              simp only [List.length_cons]
              omega
            · have hrest := ih hread
              cases r with
              | none => cases hrest.1
              | some x =>
                  simp only [List.length_nil, List.length_cons] at hrest ⊢
                  omega
          · rw [if_neg hb] at hread
            have hrest := ih hread
            cases r with
            | none => cases hrest.2.1
            | some x =>
                simp only [List.length_cons] at hrest ⊢
                omega

theorem read_shorter {s rest : Bytes} {f : Frame} (hread : read s = .ok (some (f, rest))) :
    rest.length < s.length := by
  have hlt := readHead_ok hread
  simpa using hlt

/-! ### Messages -/

def message? (f : Frame) : Option Envelope :=
  if f.isGreeting then none else (Envelope.decode f.body).toOption

/-- A frame holds no message if it has no body or one that cannot be read. -/
theorem message?_eq_none {f : Frame} :
    f.message? = none ↔ f.body = [] ∨ ∃ e, Envelope.decode f.body = .error e := by
  unfold message? isGreeting
  cases hbody : f.body with
  | nil => simp
  | cons b s =>
      cases hdecode : Envelope.decode (b :: s) with
      | ok e => simp [Except.toOption]
      | error e => simp [Except.toOption]

/-- Every round of reading takes a frame off, so that more rounds than bytes are as good as any. -/
theorem readAll_fuel {s : Bytes} {fuel fuel' : Nat} (hfuel : s.length < fuel)
    (hfuel' : s.length < fuel') : readAll fuel s = readAll fuel' s := by
  induction fuel generalizing s fuel' with
  | zero => exact (Nat.not_lt_zero _ hfuel).elim
  | succ fuel ih =>
      obtain ⟨fuel', rfl⟩ := Nat.exists_eq_succ_of_ne_zero (Nat.ne_zero_of_lt hfuel')
      rw [readAll, readAll]
      cases hread : read s with
      | error e => rfl
      | ok r =>
          cases r with
          | none => rfl
          | some x =>
              have hlt : x.2.length < s.length := read_shorter hread
              have hrest : readAll fuel x.2 = readAll fuel' x.2 := ih (by omega) (by omega)
              dsimp only
              rw [hrest]

def messages (s : Bytes) : List Envelope := (readAll (s.length + 1) s).1.filterMap message?

theorem messages_frame {s rest : Bytes} {f : Frame} (hread : read s = .ok (some (f, rest))) :
    messages s = f.message?.toList ++ messages rest := by
  have hlt := read_shorter hread
  have hrest : readAll s.length rest = readAll (rest.length + 1) rest :=
    readAll_fuel hlt (Nat.lt_succ_self _)
  rw [messages, readAll, hread]
  dsimp only
  rw [hrest]
  cases hf : f.message? <;> simp [messages, hf]

theorem messages_end {s : Bytes} (hread : ∀ x, read s ≠ .ok (some x)) : messages s = [] := by
  rw [messages, readAll]
  cases hr : read s with
  | error e => rfl
  | ok r =>
      cases r with
      | none => rfl
      | some x => exact (hread x hr).elim

/-- These bytes are a frame, whatever follows them. -/
def IsFrame (s : Bytes) (f : Frame) : Prop := ∀ t, read (s ++ t) = .ok (some (f, t))

/-- Bytes that are read as a frame are one if reading stops within them. -/
theorem isFrame_of_read {s : Bytes} {f : Frame} (hread : read s = .ok (some (f, [])))
    (hdone : isPartial s = false) : IsFrame s f := by
  intro t
  rw [(read_append t hdone).1, hread]
  rfl

/-- A body behind the line that tells its length is one, be it that of a message or not. -/
theorem isFrame_framed {body : Bytes} (hsize : body.length ≤ maxBody) :
    IsFrame (framed body) ⟨[(lengthName, toString body.length)], body⟩ :=
  fun t => read_framed hsize t

/-- A frame that holds no message can be left out. -/
theorem messages_skip {before : List Bytes} (hbefore : ∀ s ∈ before, ∃ f, IsFrame s f) {s : Bytes}
    {f : Frame} (hs : IsFrame s f) (hf : f.body = [] ∨ ∃ e, Envelope.decode f.body = .error e)
    (t : Bytes) : messages (before.flatten ++ (s ++ t)) = messages (before.flatten ++ t) := by
  induction before with
  | nil =>
      rw [List.flatten_nil, List.nil_append, List.nil_append, messages_frame (hs t),
        message?_eq_none.2 hf]
      rfl
  | cons b before ih =>
      obtain ⟨⟨g, hg⟩, hbefore⟩ := List.forall_mem_cons.1 hbefore
      rw [List.flatten_cons, List.append_assoc, List.append_assoc, messages_frame (hg _),
        messages_frame (hg _), ih hbefore]

end Frame

end RemoteInspector
