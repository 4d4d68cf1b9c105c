import RemoteInspector.Channel.Connection
import RemoteInspector.Proofs.Channel.Responses
import RemoteInspector.Proofs.Wire.Stream

/-!
What comes of a stream while requests wait for their responses. The stream may arrive in any pieces,
and it ends anyhow: between frames, within one, or with a fault. Of all that is in it only the
messages count. Each request that waits receives the first response that names it, or else the fault
of a closed channel at the end.
-/

namespace RemoteInspector

open Correlator Text

instance (e : Envelope) (seq : UInt64) : Decidable (e.Answers seq) :=
  inferInstanceAs (Decidable (_ ∧ _))

namespace Connection

variable {τ : Type}

/-! ### Frame by frame -/

def reading (c : Connection τ) (s : Bytes) : Connection τ := { c with unread := s }

def takeFrame (c : Connection τ) (f : Frame) (rest : Bytes) : Connection τ × List (Firing τ) :=
  match f.message? with
  | none => (c.reading rest, [])
  | some e =>
    let r := (c.correlator.deliver e).value
    ({ c with correlator := r.correlator, events := c.events ++ r.returned.toList, unread := rest },
      r.fired.toList)

theorem takeFrame_unread (c : Connection τ) (f : Frame) (rest : Bytes) :
    (c.takeFrame f rest).1.unread = rest := by
  unfold takeFrame
  cases f.message? <;> rfl

theorem takeFrame_ended (c : Connection τ) (f : Frame) (rest : Bytes) :
    (c.takeFrame f rest).1.ended = c.ended := by
  unfold takeFrame
  cases f.message? <;> rfl

theorem takeFrame_reading (c : Connection τ) (s : Bytes) (f : Frame) (rest t : Bytes) :
    (c.reading s).takeFrame f (rest ++ t) =
      ((c.takeFrame f rest).1.reading (rest ++ t), (c.takeFrame f rest).2) := by
  unfold takeFrame
  cases f.message? <;> rfl

theorem takeFrame_greeting (c : Connection τ) {f : Frame} (hf : f.isGreeting = true)
    (rest : Bytes) : c.takeFrame f rest = (c.reading rest, []) := by
  rw [takeFrame, Frame.message?, hf]
  rfl

theorem takeBody_value (c : Connection τ) {f : Frame} (hf : f.isGreeting = false) (rest : Bytes) :
    ((c.reading rest).takeBody f.body).value = c.takeFrame f rest := by
  unfold takeBody takeFrame Frame.message?
  rw [hf]
  cases Envelope.decode f.body <;> rfl

def preceded (fired : List (Firing τ)) (r : Connection τ × List (Firing τ)) :
    Connection τ × List (Firing τ) :=
  (r.1, fired ++ r.2)

theorem preceded_preceded (fs gs : List (Firing τ)) (r : Connection τ × List (Firing τ)) :
    preceded fs (preceded gs r) = preceded (fs ++ gs) r := by
  simp [preceded]

/-- Nothing is read now: the connection has ended, or more has to come first. -/
def Waits (final : Bool) (c : Connection τ) : Prop :=
  c.ended = true ∨ final = false ∧ Frame.isPartial c.unread = true

theorem waits_iff {final : Bool} {c : Connection τ} :
    Waits final c ↔ (c.ended || (!final && Frame.isPartial c.unread)) = true := by
  simp [Waits]

theorem takeUp_waits {final : Bool} {c : Connection τ} (h : Waits final c) (fuel : Nat) :
    (takeUp final fuel c).value = (c, []) := by
  cases fuel with
  | zero => rfl
  | succ fuel =>
      rw [takeUp, waits_iff.1 h]
      rfl

/-- Behind the last frame the connection is closed, whether the stream is at its end or at a fault. -/
theorem takeUp_closes {final : Bool} {c : Connection τ} (h : ¬ Waits final c)
    (hread : ∀ x, Frame.read c.unread ≠ .ok (some x)) (fuel : Nat) :
    (takeUp final (fuel + 1) c).value = c.close.value := by
  rw [takeUp, Bool.eq_false_iff.2 (mt waits_iff.2 h)]
  cases hr : Frame.read c.unread with
  | error e => rfl
  | ok r =>
      cases r with
      | none => rfl
      | some x => exact (hread x hr).elim

theorem takeUp_takes {final : Bool} {c : Connection τ} (h : ¬ Waits final c) {f : Frame}
    {rest : Bytes} (hread : Frame.read c.unread = .ok (some (f, rest))) (fuel : Nat) :
    (takeUp final (fuel + 1) c).value =
      preceded (c.takeFrame f rest).2 (takeUp final fuel (c.takeFrame f rest).1).value := by
  rw [takeUp, Bool.eq_false_iff.2 (mt waits_iff.2 h), hread]
  simp only [Bool.false_eq_true, if_false]
  cases hf : f.isGreeting with
  | false =>
      rw [if_neg Bool.false_ne_true, ← takeBody_value c hf rest]
      rfl
  | true =>
      rw [if_pos rfl, takeFrame_greeting c hf]
      rfl

/-- Every round takes a frame off, so that more rounds than bytes are as good as any. -/
theorem takeUp_fuel {final : Bool} {c : Connection τ} {fuel fuel' : Nat}
    (hfuel : c.unread.length < fuel) (hfuel' : c.unread.length < fuel') :
    (takeUp final fuel c).value = (takeUp final fuel' c).value := by
  induction fuel generalizing c fuel' with
  | zero => omega
  | succ fuel ih =>
      obtain ⟨fuel', rfl⟩ := Nat.exists_eq_succ_of_ne_zero (Nat.ne_zero_of_lt hfuel')
      by_cases h : Waits final c
      · rw [takeUp_waits h, takeUp_waits h]
      · by_cases hread : ∃ x, Frame.read c.unread = .ok (some x)
        · obtain ⟨⟨f, rest⟩, hread⟩ := hread
          have hlt := Frame.read_shorter hread
          rw [← takeFrame_unread c f rest] at hlt
          have hrest : (takeUp final fuel (c.takeFrame f rest).1).value =
              (takeUp final fuel' (c.takeFrame f rest).1).value := ih (by omega) (by omega)
          rw [takeUp_takes h hread, takeUp_takes h hread, hrest]
        · rw [takeUp_closes h (not_exists.1 hread), takeUp_closes h (not_exists.1 hread)]

def drain (final : Bool) (c : Connection τ) : Connection τ × List (Firing τ) :=
  (takeUp final (c.unread.length + 1) c).value

theorem drain_waits {final : Bool} {c : Connection τ} (h : Waits final c) :
    drain final c = (c, []) :=
  takeUp_waits h _

theorem drain_closes {final : Bool} {c : Connection τ} (h : ¬ Waits final c)
    (hread : ∀ x, Frame.read c.unread ≠ .ok (some x)) : drain final c = c.close.value :=
  takeUp_closes h hread _

theorem drain_takes {final : Bool} {c : Connection τ} (h : ¬ Waits final c) {f : Frame}
    {rest : Bytes} (hread : Frame.read c.unread = .ok (some (f, rest))) :
    drain final c = preceded (c.takeFrame f rest).2 (drain final (c.takeFrame f rest).1) := by
  have hlt := Frame.read_shorter hread
  rw [← takeFrame_unread c f rest] at hlt
  have hrest : (takeUp final c.unread.length (c.takeFrame f rest).1).value =
      drain final (c.takeFrame f rest).1 :=
    takeUp_fuel hlt (Nat.lt_succ_self _)
  rw [drain, takeUp_takes h hread, hrest]

/-- What holds of a connection that waits and of one that closes, and of one that takes a frame if it
holds behind that frame, holds of every connection. -/
theorem drain_induct (final : Bool) {P : Connection τ → Prop} (waits : ∀ c, Waits final c → P c)
    (closes : ∀ c, ¬ Waits final c → (∀ x, Frame.read c.unread ≠ .ok (some x)) → P c)
    (takes : ∀ c f rest, ¬ Waits final c → Frame.read c.unread = .ok (some (f, rest)) →
      P (c.takeFrame f rest).1 → P c) (c : Connection τ) : P c := by
  induction hlen : c.unread.length using Nat.strong_induction_on generalizing c with
  | _ n ih =>
      subst hlen
      by_cases h : Waits final c
      · exact waits c h
      · by_cases hread : ∃ x, Frame.read c.unread = .ok (some x)
        · obtain ⟨⟨f, rest⟩, hread⟩ := hread
          have hlt := Frame.read_shorter hread
          rw [← takeFrame_unread c f rest] at hlt
          exact takes c f rest h hread (ih _ hlt _ rfl)
        · exact closes c h (not_exists.1 hread)

/-! ### Piece by piece -/

theorem not_waits_partial {c : Connection τ} (h : ¬ Waits false c) :
    Frame.isPartial c.unread = false := by
  obtain ⟨-, hdone⟩ := not_or.1 h
  simpa using hdone

theorem not_waits_reading {c : Connection τ} (h : ¬ Waits false c) (final : Bool) (t : Bytes) :
    ¬ Waits final (c.reading (c.unread ++ t)) := by
  rintro (hended | ⟨-, hpartial⟩)
  · exact h (.inl hended)
  · have hmore := (Frame.read_append t (not_waits_partial h)).2
    rw [reading, hmore] at hpartial
    cases hpartial

/-- To read the bytes that are there before more come is to read them together. -/
theorem drain_reading (final : Bool) (t : Bytes) (c : Connection τ) :
    drain final (c.reading (c.unread ++ t)) =
      preceded (drain false c).2
        (drain final ((drain false c).1.reading ((drain false c).1.unread ++ t))) := by
  induction c using drain_induct false with
  | waits c h =>
      rw [drain_waits h]
      rfl
  | closes c h hread =>
      have hclosed : Waits final (c.close.value.1.reading (c.close.value.1.unread ++ t)) := .inl rfl
      have hmore : ∀ x, Frame.read (c.unread ++ t) ≠ .ok (some x) := by
        intro x hx
        rw [(Frame.read_append t (not_waits_partial h)).1] at hx
        obtain ⟨y, hy⟩ := Frame.followedBy_some hx
        exact hread y hy
      rw [drain_closes (not_waits_reading h final t) hmore, drain_closes h hread,
        drain_waits hclosed, preceded, List.append_nil]
      rfl
  | takes c f rest h hread ih =>
      have hmore : Frame.read (c.unread ++ t) = .ok (some (f, rest ++ t)) := by
        rw [(Frame.read_append t (not_waits_partial h)).1, hread]
        rfl
      rw [takeFrame_unread] at ih
      rw [drain_takes (not_waits_reading h final t) hmore, takeFrame_reading, drain_takes h hread]
      dsimp only
      rw [ih, preceded_preceded]
      rfl

def receiveAll (c : Connection τ) : List Bytes → Connection τ × List (Firing τ)
  | [] => (c.receive [] true).value
  | s :: ss => preceded (c.receive s false).value.2 ((c.receive s false).value.1.receiveAll ss)

/-- In whatever pieces a stream arrives, it is received as a whole. -/
theorem receiveAll_eq (c : Connection τ) (ss : List Bytes) :
    c.receiveAll ss = drain true (c.reading (c.unread ++ ss.flatten)) := by
  induction ss generalizing c with
  | nil => rfl
  | cons s ss ih =>
      have hwhole := drain_reading true ss.flatten (c.reading (c.unread ++ s))
      have hbytes : (c.reading (c.unread ++ s)).unread ++ ss.flatten =
          c.unread ++ (s :: ss).flatten := by
        rw [List.flatten_cons, ← List.append_assoc]
        rfl
      rw [hbytes] at hwhole
      rw [receiveAll, ih]
      exact hwhole.symm

end Connection

/-! ### Messages and the end -/

namespace Exchange

variable {τ : Type}

/-- The moves of a stream with these messages: they are delivered, and then the channel is closed. -/
def streamMoves (es : List Envelope) : List (Move τ) := es.map .deliver ++ [.close]

def outcomeOf (es : List Envelope) (seq : UInt64) : Outcome :=
  match es.find? fun e => e.Answers seq with
  | some e => .ok e
  | none => .error .closed

theorem outcomeOf_cons_of_not {e : Envelope} {seq : UInt64} (h : ¬ e.Answers seq)
    (es : List Envelope) : outcomeOf (e :: es) seq = outcomeOf es seq := by
  rw [outcomeOf, List.find?_cons_of_neg (by simpa using h)]
  rfl

theorem outcomeOf_cons_of_answers {e : Envelope} {seq : UInt64} (h : e.Answers seq)
    (es : List Envelope) : outcomeOf (e :: es) seq = .ok e := by
  rw [outcomeOf, List.find?_cons_of_pos (by simpa using h)]

/-- What fires for an entry of the table by the end of these messages. -/
def ending (es : List Envelope) (p : UInt64 × Waiter τ) : Option (Firing τ) :=
  p.2.completion?.map fun t => ⟨t, outcomeOf es p.1, false⟩

theorem ending_nil (table : List (UInt64 × Waiter τ)) :
    table.filterMap (ending []) =
      (completions table).map fun t => ⟨t, .error .closed, false⟩ := by
  rw [completions, List.map_filterMap]
  rfl

theorem ending_cons_of_not {e : Envelope} {p : UInt64 × Waiter τ} (h : ¬ e.Answers p.1)
    (es : List Envelope) : ending (e :: es) p = ending es p := by
  rw [ending, outcomeOf_cons_of_not h]
  rfl

/-- A message answers a request that waits, or nothing comes of it. -/
theorem step_deliver_cases (x : Exchange τ) (e : Envelope) :
    ((∀ p ∈ x.correlator.pending, ¬ e.Answers p.1) ∧ x.step (.deliver e) = x) ∨
    ∃ seq w, e.Answers seq ∧ x.correlator.pending.lookup seq = some w ∧
      x.step (.deliver e) = x.answer seq w e := by
  cases hkind : e.isResponse with
  | false =>
      refine .inl ⟨fun p _ h => ?_, by simp [step, deliver, hkind]⟩
      rw [h.1] at hkind
      cases hkind
  | true =>
      rcases step_response x hkind with ⟨hnone, hstep⟩ | ⟨seq, w, hseq, hfind, hstep⟩
      · refine .inl ⟨fun p hp h => ?_, hstep⟩
        have hmissing := List.lookup_eq_none_iff.1 (hnone p.1 h.2) p hp
        simp at hmissing
      · exact .inr ⟨seq, w, ⟨hkind, hseq⟩, hfind, hstep⟩

/-- A response settles the entry of the table that it answers and leaves the others to what follows. -/
theorem perm_ending {e : Envelope} {seq : UInt64} {w : Waiter τ} {table : List (UInt64 × Waiter τ)}
    (hkeys : (table.map Prod.fst).Nodup) (hfind : table.lookup seq = some w) (h : e.Answers seq)
    (es : List Envelope) :
    (table.filterMap (ending (e :: es))).Perm
      ((w.completion?.map fun t => ⟨t, .ok e, false⟩).toList ++
        (without seq table).filterMap (ending es)) := by
  have hwhole := (perm_without hkeys hfind).filterMap (ending (e :: es))
  have hhead : ending (e :: es) (seq, w) = w.completion?.map fun t => ⟨t, .ok e, false⟩ := by
    rw [ending, outcomeOf_cons_of_answers h]
  have hrest : (without seq table).filterMap (ending (e :: es)) =
      (without seq table).filterMap (ending es) := by
    refine List.filterMap_congr fun p hp => ending_cons_of_not (fun hp' => ?_) es
    exact (mem_without.1 hp).2 (Option.some.inj (hp'.2.symm.trans h.2))
  have hcons : ((seq, w) :: without seq table).filterMap (ending (e :: es)) =
      (ending (e :: es) (seq, w)).toList ++ (without seq table).filterMap (ending (e :: es)) := by
    cases hending : ending (e :: es) (seq, w) <;> simp [hending]
  rwa [hcons, hhead, hrest] at hwhole

/-- By the end of a stream every completion in the table fires, with the first response that names its
number if there is one. -/
theorem fired_stream (es : List Envelope) {x : Exchange τ}
    (hkeys : (x.correlator.pending.map Prod.fst).Nodup) :
    ∃ fired, (x.after (streamMoves es)).fired = x.fired ++ fired ∧
      fired.Perm (x.correlator.pending.filterMap (ending es)) := by
  induction es generalizing x with
  | nil =>
      refine ⟨x.correlator.pending.filterMap (ending []), ?_, List.Perm.refl _⟩
      show (x.step .close).fired = _
      rw [step, close_eq, ending_nil]
  | cons e es ih =>
      have hsplit : x.after (streamMoves (e :: es)) =
          (x.step (.deliver e)).after (streamMoves es) := rfl
      rw [hsplit]
      rcases step_deliver_cases x e with ⟨hnone, hstep⟩ | ⟨seq, w, hanswers, hfind, hstep⟩
      · rw [hstep, List.filterMap_congr fun p hp => ending_cons_of_not (hnone p hp) es]
        exact ih hkeys
      · have hshort : ((x.answer seq w e).correlator.pending.map Prod.fst).Nodup := by
          rw [answer_pending]
          exact hkeys.sublist ((without_sublist ..).map _)
        obtain ⟨fired, heq, hperm⟩ := ih hshort
        rw [answer_pending] at hperm
        refine ⟨_, ?_, (hperm.append_left _).trans (perm_ending hkeys hfind hanswers es).symm⟩
        rw [hstep, heq, ← List.append_assoc]
        rfl

end Exchange

namespace Connection

variable {τ : Type}

open Exchange

/-- The messages of a stream that answer no request, in order. -/
def eventsOf (es : List Envelope) : List Envelope := es.filter fun e => !e.isResponse

theorem deliver_returned (c : Correlator τ) (e : Envelope) :
    (c.deliver e).value.returned.toList = eventsOf [e] := by
  rcases deliver_cases c e with ⟨hkind, hvalue⟩ | ⟨hkind, -, hvalue⟩ | ⟨hkind, _, _, -, -, hvalue⟩
  all_goals
    rw [hvalue]
    simp [eventsOf, hkind]

/-- A frame does to a connection what the message in it does to an exchange. -/
theorem takeFrame_follows {c : Connection τ} {x : Exchange τ} (hc : c.correlator = x.correlator)
    (f : Frame) (rest : Bytes) :
    let y := x.after (f.message?.toList.map .deliver)
    (c.takeFrame f rest).1.correlator = y.correlator ∧
      y.fired = x.fired ++ (c.takeFrame f rest).2 ∧
      (c.takeFrame f rest).1.events = c.events ++ eventsOf f.message?.toList := by
  cases hf : f.message? with
  | none =>
      simp only [takeFrame, hf, reading, eventsOf]
      exact ⟨hc, (List.append_nil _).symm, (List.append_nil _).symm⟩
  | some e =>
      simp only [takeFrame, hf, hc, deliver_returned]
      exact ⟨rfl, rfl, rfl⟩

/-- A connection has done with a stream what its messages and the closing behind them do to an
exchange, and has forwarded those that are no responses. -/
structure Follows (x : Exchange τ) (c : Connection τ) (es : List Envelope)
    (r : Connection τ × List (Firing τ)) : Prop where
  correlator : r.1.correlator = (x.after (streamMoves es)).correlator
  fired : (x.after (streamMoves es)).fired = x.fired ++ r.2
  events : r.1.events = c.events ++ eventsOf es
  ended : r.1.ended = true

theorem drain_follows {c : Connection τ} {x : Exchange τ} (hc : c.correlator = x.correlator)
    (hopen : c.ended = false) : Follows x c (Frame.messages c.unread) (drain true c) := by
  induction c using drain_induct true generalizing x with
  | waits c h =>
      rcases h with hended | ⟨hfinal, -⟩
      · rw [hopen] at hended
        cases hended
      · cases hfinal
  | closes c h hread =>
      rw [drain_closes h hread, Frame.messages_end hread]
      refine ⟨?_, ?_, (List.append_nil _).symm, rfl⟩
      · show c.correlator.close.value.1 = x.correlator.close.value.1
        rw [hc]
      · show x.fired ++ x.correlator.close.value.2 = x.fired ++ c.correlator.close.value.2
        rw [hc]
  | takes c f rest h hread ih =>
      have hsplit : x.after (streamMoves (Frame.messages c.unread)) =
          (x.after (f.message?.toList.map .deliver)).after (streamMoves (Frame.messages rest)) := by
        rw [Frame.messages_frame hread, streamMoves, List.map_append, List.append_assoc, after,
          List.foldl_append]
        rfl
      obtain ⟨hcorrelator, hfired, hevents⟩ := takeFrame_follows hc f rest
      have hrest := ih hcorrelator (by rw [takeFrame_ended, hopen])
      rw [takeFrame_unread] at hrest
      rw [drain_takes h hread]
      refine ⟨?_, ?_, ?_, hrest.ended⟩
      · rw [hsplit]
        exact hrest.correlator
      · rw [hsplit, hrest.fired, hfired, List.append_assoc]
        rfl
      · rw [preceded, hrest.events, hevents, List.append_assoc, Frame.messages_frame hread, eventsOf,
          eventsOf, eventsOf, List.filter_append]

/-! ### What the requests receive -/

theorem completion_ending (es : List Envelope) (table : List (UInt64 × Waiter τ)) :
    (table.filterMap (ending es)).map Firing.completion = completions table := by
  rw [List.map_filterMap, completions]
  refine List.filterMap_congr fun p _ => ?_
  rw [ending, Option.map_map]
  exact Option.map_id'

theorem closed_streamMoves (x : Exchange τ) (es : List Envelope) :
    (x.after (streamMoves es)).correlator.closed = true := by
  rw [streamMoves, after, List.foldl_append]
  show (step _ .close).correlator.closed = true
  rw [step, close_eq]

/-- What comes of a stream for the requests of a run, up to its end. -/
structure Served (moves : List (Move τ)) (c : Connection τ) (s : Bytes)
    (r : Connection τ × List (Firing τ)) : Prop where
  /-- Only the messages in the stream count. -/
  follows : Follows (run moves) c (Frame.messages s) r
  /-- A frame without a body, or with one that cannot be read, might as well not be there. -/
  skipped : ∀ (before : List Bytes) (idle rest : Bytes) (f : Frame), s = before.flatten ++ (idle ++ rest) →
    (∀ b ∈ before, ∃ g, Frame.IsFrame b g) → Frame.IsFrame idle f →
      (f.body = [] ∨ ∃ e, Envelope.decode f.body = .error e) →
        Frame.messages s = Frame.messages (before.flatten ++ rest)
  /-- Every request in the table receives the first response to it, or else the fault of a closed
  channel, and nothing more. -/
  outcomes : r.2.Perm ((run moves).correlator.pending.filterMap (ending (Frame.messages s)))
  /-- What fires belongs to a request that has been posted. -/
  posted : ∀ f ∈ r.2, ∃ p ∈ (run moves).posted, p.sender = ⟨.async, f.completion⟩ ∧
    f = ⟨f.completion, outcomeOf (Frame.messages s) p.seq, false⟩
  /-- By then every completion has fired as often as it was handed in, unless a synchronous sender
  keeps it. -/
  completed : ((run moves).completed ++ r.2.map Firing.completion ++ (run moves).kept).Perm
    (entrusted moves)
  /-- Later sends are refused. -/
  refused : ∀ q mode t, (r.1.correlator.start q mode t).value =
    .refused r.1.correlator ⟨t, .error .closed, false⟩ .closed
  /-- Nothing more is read. -/
  stopped : ∀ t final, (r.1.receive t final).value = (r.1.reading (r.1.unread ++ t), [])

/-- The requests of a run with fewer sends than there are numbers are served by every stream, in
whatever pieces it arrives and however it ends. -/
theorem stream_serves_requests (moves : List (Move τ)) (few : (entrusted moves).length < 2 ^ 64)
    (c : Connection τ) (hc : c.correlator = (run moves).correlator) (hopen : c.ended = false)
    (ss : List Bytes) : Served moves c (c.unread ++ ss.flatten) (c.receiveAll ss) := by
  have haccounted := accounted_run moves few
  have hreading : (c.reading (c.unread ++ ss.flatten)).correlator = (run moves).correlator := hc
  have hfollows := drain_follows hreading hopen
  rw [← receiveAll_eq] at hfollows
  have houtcomes : (c.receiveAll ss).2.Perm ((run moves).correlator.pending.filterMap
      (ending (Frame.messages (c.unread ++ ss.flatten)))) := by
    obtain ⟨fired, heq, hperm⟩ := fired_stream (Frame.messages (c.unread ++ ss.flatten))
      haccounted.keys
    have hsame := hfollows.fired.symm.trans heq
    rwa [List.append_cancel_left hsame]
  refine ⟨⟨hfollows.correlator, hfollows.fired, hfollows.events, hfollows.ended⟩, ?_, houtcomes,
    ?_, ?_, ?_, ?_⟩
  · intro before idle rest f hs hbefore hidle hf
    rw [hs]
    exact Frame.messages_skip hbefore hidle hf rest
  · intro f hf
    obtain ⟨⟨seq, w⟩, hmem, hending⟩ := List.mem_filterMap.1 (houtcomes.subset hf)
    cases w with
    | relay => cases hending
    | completion t =>
        cases hending
        obtain ⟨p, hp, rfl, hsender⟩ := haccounted.stored seq t hmem
        exact ⟨p, hp, hsender, rfl⟩
  · have hfired := houtcomes.map Firing.completion
    rw [completion_ending] at hfired
    have hlaw : ((run moves).completed ++ completions (run moves).correlator.pending ++
        (run moves).kept).Perm (entrusted moves) := by
      rw [← Multiset.coe_eq_coe, haccounted.law]
      simp
    exact ((hfired.append_left _).append_right _).trans hlaw
  · intro q mode t
    have hclosed : (c.receiveAll ss).1.correlator.closed = true := by
      rw [hfollows.correlator]
      exact closed_streamMoves ..
    rcases start_cases (c.receiveAll ss).1.correlator q mode t with ⟨-, hvalue⟩ | ⟨h, -⟩ | ⟨h, -⟩
    · exact hvalue
    all_goals
      rw [h] at hclosed
      cases hclosed
  · intro t final
    exact drain_waits (.inl hfollows.ended)

def twoRequests : List (Move Nat) :=
  [.start .resume .async 0, .finish 1 (.ok ()), .start .resume .async 1, .finish 2 (.ok ())]

def twoRequested : Connection Nat where
  greeting := ⟨[], []⟩
  correlator := (run twoRequests).correlator

/-- A frame without a body, one that is no message, an event, a response to the second request and
another one, and a frame that is cut. -/
def mixedStream : List Bytes :=
  [[], utf8 "\x7b", utf8 "\x7b\"seq\":7,\"type\":\"event\"\x7d",
    utf8 "\x7b\"seq\":8,\"type\":\"response\",\"request_seq\":2\x7d",
    utf8 "\x7b\"seq\":9,\"type\":\"response\",\"request_seq\":2\x7d"].map Frame.framed ++
      [utf8 "Content-Length: 5\r\n\r\n\x7b"]

theorem stream_serves_requests_mixed :
    (entrusted twoRequests).length < 2 ^ 64 ∧
    twoRequested.correlator = (run twoRequests).correlator ∧ twoRequested.ended = false ∧
    (run twoRequests).correlator.pending = [(1, .completion 0), (2, .completion 1)] ∧
    (Frame.messages mixedStream.flatten).map Envelope.seq = [7, 8, 9] ∧
    ([1, 2].map fun seq => (outcomeOf (Frame.messages mixedStream.flatten) seq).toOption.map
      Envelope.seq) = [none, some 8] ∧
    Served twoRequests twoRequested mixedStream.flatten (twoRequested.receiveAll mixedStream) :=
  ⟨by decide, rfl, rfl, by decide +kernel, by decide +kernel, by decide +kernel,
    stream_serves_requests twoRequests (by decide) twoRequested rfl rfl mixedStream⟩

end Connection

end RemoteInspector
