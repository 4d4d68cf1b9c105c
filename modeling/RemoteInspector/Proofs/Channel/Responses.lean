import RemoteInspector.Proofs.Channel.Correlation

/-!
The order in which responses come does not matter. Two runs that deliver the same responses to
different requests in different orders agree on everything but the order of what has come, and a run
goes on from there in the same way. Together with the correlation of a single run this says that every
request gets its own response.
-/

namespace RemoteInspector

open Correlator Text

/-! ### Tables that are looked up alike -/

namespace Correlator

variable {α : Type}

theorem lookup_append_congr {a b : List (UInt64 × α)} (h : ∀ seq, a.lookup seq = b.lookup seq)
    (c : List (UInt64 × α)) (seq : UInt64) : (a ++ c).lookup seq = (b ++ c).lookup seq := by
  rw [List.lookup_append, List.lookup_append, h]

theorem lookup_without_self (seq : UInt64) (table : List (UInt64 × α)) :
    (without seq table).lookup seq = none := by
  refine List.lookup_eq_none_iff.2 fun p hp => ?_
  simpa using Ne.symm (mem_without.1 hp).2

theorem lookup_without_congr {a b : List (UInt64 × α)} (h : ∀ seq, a.lookup seq = b.lookup seq)
    (k seq : UInt64) : (without k a).lookup seq = (without k b).lookup seq := by
  by_cases hk : seq = k
  · rw [hk, lookup_without_self, lookup_without_self]
  · rw [lookup_without hk, lookup_without hk, h]

theorem lookup_append_swap {i j : UInt64} (hne : i ≠ j) (a b : α) (table : List (UInt64 × α))
    (seq : UInt64) : (table ++ [(i, a)] ++ [(j, b)]).lookup seq =
      (table ++ [(j, b)] ++ [(i, a)]).lookup seq := by
  simp only [List.append_assoc, List.lookup_append]
  congr 1
  by_cases hi : seq = i
  · simp [List.lookup_cons, hi, beq_false_of_ne hne]
  · simp [List.lookup_cons, beq_false_of_ne hi]

theorem without_comm (i j : UInt64) (table : List (UInt64 × α)) :
    without i (without j table) = without j (without i table) := by
  simp only [without, List.filter_filter, Bool.and_comm]

end Correlator

namespace Exchange

variable {τ : Type}

/-! ### Runs that agree -/

/-- Two exchanges that have the same to do and have come to the same outcomes, be it in different
orders. -/
structure Agrees (x y : Exchange τ) : Prop where
  nextSeq : x.correlator.nextSeq = y.correlator.nextSeq
  closed : x.correlator.closed = y.correlator.closed
  pending : x.correlator.pending = y.correlator.pending
  received : ∀ seq, x.correlator.received.lookup seq = y.correlator.received.lookup seq
  sending : x.sending = y.sending
  posted : x.posted = y.posted
  fired : x.fired.Perm y.fired
  returned : x.returned = y.returned

namespace Agrees

theorem refl (x : Exchange τ) : Agrees x x :=
  ⟨rfl, rfl, rfl, fun _ => rfl, rfl, rfl, .refl _, rfl⟩

theorem trans {x y z : Exchange τ} (h : Agrees x y) (h' : Agrees y z) : Agrees x z where
  nextSeq := h.nextSeq.trans h'.nextSeq
  closed := h.closed.trans h'.closed
  pending := h.pending.trans h'.pending
  received seq := (h.received seq).trans (h'.received seq)
  sending := h.sending.trans h'.sending
  posted := h.posted.trans h'.posted
  fired := h.fired.trans h'.fired
  returned := h.returned.trans h'.returned

/-- What an exchange that agrees with another looks like. -/
theorem eq {x y : Exchange τ} (h : Agrees x y) :
    y = { x with
      correlator := { x.correlator with received := y.correlator.received }
      fired := y.fired } := by
  obtain ⟨⟨n, cl, p, rs⟩, s, q, f, r⟩ := y
  obtain ⟨rfl, rfl, rfl, -, rfl, rfl, -, rfl⟩ := h
  rfl

theorem start {x y : Exchange τ} (h : Agrees x y) (r : Request) (mode : SendMode) (t : τ) :
    Agrees (x.step (.start r mode t)) (y.step (.start r mode t)) := by
  rw [h.eq]
  cases hclosed : x.correlator.closed with
  | true =>
      simp only [step, Correlator.start, hclosed, if_true, Logged.value_pure]
      exact ⟨rfl, hclosed, rfl, h.received, rfl, rfl, h.fired.append_right _, rfl⟩
  | false =>
      cases htext : (r.envelope x.correlator.nextSeq).encodeText with
      | error e =>
          simp only [step, Correlator.start, hclosed, htext, Bool.false_eq_true, if_false,
            Logged.value_bind, Logged.value_pure]
          exact ⟨rfl, rfl, rfl, h.received, rfl, rfl, h.fired.append_right _, rfl⟩
      | ok frame =>
          simp only [step, Correlator.start, hclosed, htext, Bool.false_eq_true, if_false,
            Logged.value_bind, Logged.value_pure]
          exact ⟨rfl, rfl, rfl, h.received, rfl, rfl, h.fired, rfl⟩

theorem deliver {x y : Exchange τ} (h : Agrees x y) (e : Envelope) :
    Agrees (x.step (.deliver e)) (y.step (.deliver e)) := by
  rcases deliver_cases x.correlator e with ⟨hkind, hvalue⟩ | ⟨hkind, hnone, hvalue⟩ |
      ⟨hkind, seq, w, hseq, hfind, hvalue⟩
  · have hvalue' : (y.correlator.deliver e).value = { correlator := y.correlator, returned := some e } := by
      simp [Correlator.deliver, hkind]
    simpa [Exchange.step, hvalue, hvalue'] using h
  · rw [h.pending] at hnone
    simpa [Exchange.step, hvalue, deliver_dropped hkind hnone] using h
  · rw [h.eq]
    simp only [Exchange.step, Correlator.deliver, hkind, hseq, hfind, Bool.not_true,
      Bool.false_eq_true, if_false, Logged.value_pure]
    cases w with
    | completion t => exact ⟨rfl, rfl, rfl, h.received, rfl, rfl, h.fired.append_right _, rfl⟩
    | relay =>
        exact ⟨rfl, rfl, rfl, lookup_append_congr h.received _, rfl, rfl, h.fired.append_right _, rfl⟩

theorem close {x y : Exchange τ} (h : Agrees x y) : Agrees (x.step .close) (y.step .close) := by
  rw [h.eq]
  simp only [Exchange.step, close_eq]
  exact ⟨rfl, rfl, rfl, lookup_append_congr h.received _, rfl, rfl, h.fired.append_right _, rfl⟩

theorem finish {x y : Exchange τ} (h : Agrees x y) (seq : UInt64) (v : Verdict) :
    Agrees (x.step (.finish seq v)) (y.step (.finish seq v)) := by
  cases hfind : x.sending.lookup seq with
  | none =>
      have hfind' : y.sending.lookup seq = none := h.sending ▸ hfind
      simpa [Exchange.step, hfind, hfind'] using h
  | some s =>
      rw [h.eq]
      simp only [Exchange.step, hfind]
      obtain ⟨mode, t⟩ := s
      cases mode with
      | async =>
          have hfired := h.fired.append_right []
          cases v with
          | ok => exact ⟨rfl, rfl, rfl, h.received, rfl, rfl, hfired, rfl⟩
          | error fault =>
              simp only [Correlator.finish, finishAsync, Logged.value_pure]
              cases x.correlator.pending.lookup seq with
              | none => exact ⟨rfl, rfl, rfl, h.received, rfl, rfl, hfired, rfl⟩
              | some w =>
                  cases w with
                  | relay => exact ⟨rfl, rfl, rfl, h.received, rfl, rfl, hfired, rfl⟩
                  | completion u =>
                      exact ⟨rfl, rfl, rfl, h.received, rfl, rfl, h.fired.append_right _, rfl⟩
      | sync =>
          have hleft := lookup_without_congr h.received seq
          cases v with
          | error fault => exact ⟨rfl, rfl, rfl, hleft, rfl, rfl, h.fired.append_right _, rfl⟩
          | ok =>
              simp only [Correlator.finish, finishSync, ← h.received seq]
              cases x.correlator.received.lookup seq with
              | none => exact ⟨rfl, rfl, rfl, hleft, rfl, rfl, h.fired.append_right _, rfl⟩
              | some o => exact ⟨rfl, rfl, rfl, hleft, rfl, rfl, h.fired.append_right _, rfl⟩

/-- Exchanges that agree still agree after the same move. -/
theorem step {x y : Exchange τ} (h : Agrees x y) (m : Move τ) : Agrees (x.step m) (y.step m) := by
  cases m with
  | start r mode t => exact h.start r mode t
  | deliver e => exact h.deliver e
  | close => exact h.close
  | finish seq v => exact h.finish seq v

theorem after {x y : Exchange τ} (h : Agrees x y) (moves : List (Move τ)) :
    Agrees (x.after moves) (y.after moves) := by
  induction moves generalizing x y with
  | nil => exact h
  | cons m moves ih => exact ih (h.step m)

end Agrees

/-! ### Responses in another order -/

/-- What a response that finds an entry of the table does. -/
def answer (x : Exchange τ) (seq : UInt64) (w : Waiter τ) (e : Envelope) : Exchange τ :=
  { x with
    correlator := ({ x.correlator with pending := without seq x.correlator.pending }.settle seq w
      (.ok e)).1
    fired := x.fired ++ (w.completion?.map fun t => ⟨t, .ok e, false⟩).toList }

/-- A response is dropped, or answers the request that it names. -/
theorem step_response (x : Exchange τ) {e : Envelope} (hkind : e.isResponse = true) :
    ((∀ seq, e.requestSeq = some seq → x.correlator.pending.lookup seq = none) ∧
      x.step (.deliver e) = x) ∨
    ∃ seq w, e.requestSeq = some seq ∧ x.correlator.pending.lookup seq = some w ∧
      x.step (.deliver e) = x.answer seq w e := by
  rcases deliver_cases x.correlator e with ⟨hother, -⟩ | ⟨-, hnone, hvalue⟩ |
      ⟨-, seq, w, hseq, hfind, hvalue⟩
  · rw [hkind] at hother
    cases hother
  · exact .inl ⟨hnone, by simp [Exchange.step, hvalue]⟩
  · exact .inr ⟨seq, w, hseq, hfind, by simp only [Exchange.step, hvalue, answer, settle_fired]⟩

theorem step_dropped {x : Exchange τ} {e : Envelope} (hkind : e.isResponse = true)
    (h : ∀ seq, e.requestSeq = some seq → x.correlator.pending.lookup seq = none) :
    x.step (.deliver e) = x := by
  simp [Exchange.step, deliver_dropped hkind h]

theorem step_answered {x : Exchange τ} {e : Envelope} {seq : UInt64} {w : Waiter τ}
    (h : e.Answers seq) (hfind : x.correlator.pending.lookup seq = some w) :
    x.step (.deliver e) = x.answer seq w e := by
  rcases step_response x h.1 with ⟨hnone, -⟩ | ⟨k, u, hk, hfound, hstep⟩
  · rw [hnone seq h.2] at hfind
    cases hfind
  · obtain rfl := Option.some.inj (hk.symm.trans h.2)
    rw [hfind] at hfound
    cases hfound
    exact hstep

@[simp] theorem answer_pending (x : Exchange τ) (seq : UInt64) (w : Waiter τ) (e : Envelope) :
    (x.answer seq w e).correlator.pending = without seq x.correlator.pending := by
  cases w <;> rfl

theorem lookup_answer {x : Exchange τ} {seq k : UInt64} (hne : k ≠ seq) (w : Waiter τ)
    (e : Envelope) : (x.answer seq w e).correlator.pending.lookup k =
      x.correlator.pending.lookup k := by
  rw [answer_pending, lookup_without hne]

/-- To answer two requests in either order comes to the same. -/
theorem answer_comm (x : Exchange τ) {i j : UInt64} (hne : i ≠ j) (w u : Waiter τ)
    (a b : Envelope) : Agrees ((x.answer i w a).answer j u b) ((x.answer j u b).answer i w a) where
  nextSeq := by cases w <;> cases u <;> rfl
  closed := by cases w <;> cases u <;> rfl
  pending := by simp only [answer_pending, without_comm]
  received seq := by
    cases w with
    | completion t => cases u <;> rfl
    | relay =>
        cases u with
        | completion t => rfl
        | relay => exact lookup_append_swap hne _ _ _ seq
  sending := rfl
  posted := rfl
  fired := by
    show (_ ++ _ ++ _ : List (Firing τ)).Perm (_ ++ _ ++ _)
    rw [List.append_assoc, List.append_assoc]
    exact List.perm_append_comm.append_left _
  returned := rfl

/-- Two responses to different requests may come in either order. -/
theorem deliver_comm (x : Exchange τ) {a b : Envelope} (ha : a.isResponse = true)
    (hb : b.isResponse = true)
    (hne : ∀ i j, a.requestSeq = some i → b.requestSeq = some j → i ≠ j) :
    Agrees ((x.step (.deliver a)).step (.deliver b)) ((x.step (.deliver b)).step (.deliver a)) := by
  rcases step_response x ha with ⟨hdropped, hx⟩ | ⟨i, w, hi, hw, hx⟩
  · -- The first is dropped, also after the other.
    have hlater : (x.step (.deliver b)).step (.deliver a) = x.step (.deliver b) := by
      refine step_dropped ha fun seq hseq => ?_
      rcases step_response x hb with ⟨-, hy⟩ | ⟨j, u, hj, -, hy⟩
      · rw [hy]
        exact hdropped seq hseq
      · rw [hy, lookup_answer (hne seq j hseq hj)]
        exact hdropped seq hseq
    rw [hx, hlater]
    exact .refl _
  · rcases step_response x hb with ⟨hdropped, hy⟩ | ⟨j, u, hj, hu, hy⟩
    · rw [hy, hx, step_dropped hb]
      · exact .refl _
      · intro seq hseq
        rw [lookup_answer (hne i seq hi hseq).symm]
        exact hdropped seq hseq
    · have hij := hne i j hi hj
      rw [hx, hy, step_answered ⟨hb, hj⟩ ((lookup_answer hij.symm w a).trans hu),
        step_answered ⟨ha, hi⟩ ((lookup_answer hij u b).trans hw)]
      exact answer_comm x hij w u a b

/-- Responses to different requests may come in any order. -/
theorem agrees_of_perm {block other : List Envelope} (hperm : block.Perm other)
    (hkind : ∀ e ∈ block, e.isResponse = true)
    (hdistinct : (block.filterMap Envelope.requestSeq).Nodup) (x : Exchange τ) :
    Agrees (x.after (block.map .deliver)) (x.after (other.map .deliver)) := by
  induction hperm generalizing x with
  | nil => exact .refl x
  | cons e hperm ih =>
      refine ih (fun a ha => hkind a (List.mem_cons_of_mem _ ha)) ?_ (x.step (.deliver e))
      exact hdistinct.sublist ((List.sublist_cons_self ..).filterMap _)
  | swap a b block =>
      have hne : ∀ i j, b.requestSeq = some i → a.requestSeq = some j → i ≠ j := by
        rintro i j hi hj rfl
        simp [hi, hj] at hdistinct
      have hcomm := deliver_comm x (hkind b List.mem_cons_self)
        (hkind a (List.mem_cons_of_mem _ List.mem_cons_self)) hne
      exact hcomm.after _
  | trans hperm hperm' ih ih' =>
      refine (ih hkind hdistinct x).trans (ih' ?_ ?_ x)
      · exact fun e he => hkind e (hperm.mem_iff.2 he)
      · exact (hperm.filterMap _).nodup_iff.1 hdistinct

/-! ### Every request gets its own response -/

/-- What becomes of the messages that are delivered in a run. -/
structure Correlated (moves : List (Move τ)) : Prop where
  /-- A completion that receives a response receives the first one that was delivered while its
  request was pending and that names the number in the frame written for it. -/
  own : ∀ t e locked, ⟨t, .ok e, locked⟩ ∈ (run moves).fired →
    ∃ p ∈ (run moves).posted, p.sender.completion = t ∧ AnsweredBy moves p e ∧
      ∃ (f : Frame) (q : Envelope), (∀ rest, Frame.read (utf8 p.frame ++ rest) = .ok (some (f, rest))) ∧
          q.CarriedBy f ∧ e.Answers q.seq
  /-- A response that no request waits for fires nothing, is not handed back and changes nothing. -/
  strays : ∀ e, e.isResponse = true → Stray moves e →
    (run moves).step (.deliver e) = run moves ∧
      ((run moves).correlator.deliver e).value = { correlator := (run moves).correlator }
  /-- What is not a response is handed back as it is, and nothing else comes of it. -/
  others : ∀ e, e.isResponse = false →
    (run moves).step (.deliver e) = run moves ∧
      ((run moves).correlator.deliver e).value =
        { correlator := (run moves).correlator, returned := some e }
  /-- Responses to different requests that come one after the other may come in any order: whatever
  follows them, every completion has the same outcome. -/
  reordered : ∀ (block other : List Envelope) (rest : List (Move τ)), block.Perm other →
    (∀ e ∈ block, e.isResponse = true) → (block.filterMap Envelope.requestSeq).Nodup →
      Agrees (run (moves ++ block.map .deliver ++ rest)) (run (moves ++ other.map .deliver ++ rest))

/-- In every run with fewer sends than there are numbers and with completions of their own, responses
reach the requests that they answer, whatever their order. -/
theorem responses_reach_their_requests (moves : List (Move τ))
    (few : (entrusted moves).length < 2 ^ 64) (own : (entrusted moves).Nodup) :
    Correlated moves where
  own t e locked h := by
    obtain ⟨p, hsender, hanswered⟩ := fired_answered few h
    have hposted := hanswered.posted
    obtain ⟨f, hcarried, hread⟩ := Request.read_frame ((accounted_run moves few).frames p hposted)
    have hanswers : e.Answers p.seq := by
      obtain ⟨before, between, later, -, -, hanswers⟩ := hanswered
      exact hanswers
    exact ⟨p, hposted, hsender, hanswered, f, p.request.envelope p.seq, hread, hcarried, hanswers⟩
  strays e hkind h := by
    have hvalue := deliver_stray few own hkind h
    exact ⟨by simp [step, hvalue], hvalue⟩
  others e hkind := by
    have hvalue : ((run moves).correlator.deliver e).value =
        { correlator := (run moves).correlator, returned := some e } := by
      simp [deliver, hkind]
    exact ⟨by simp [step, hvalue], hvalue⟩
  reordered block other rest hperm hkind hdistinct := by
    have hrun (es : List Envelope) : run (moves ++ es.map .deliver ++ rest) =
        ((run moves).after (es.map .deliver)).after rest := by
      simp [run, after]
    rw [hrun, hrun]
    exact (agrees_of_perm hperm hkind hdistinct _).after rest

/-- Three requests under way at once, one of them synchronous. The second is answered first, then the
first, and that again. -/
def overlappingMoves : List (Move Nat) :=
  [.start .resume .async 0, .finish 1 (.ok ()), .start .resume .sync 1, .start .resume .async 2,
    .finish 3 (.ok ()), .deliver (.response 2 "continue" true none), .deliver { kind := "event" },
    .deliver (.response 1 "continue" true none), .deliver (.response 1 "continue" false none),
    .finish 2 (.ok ())]

theorem responses_reach_their_requests_overlapping :
    (entrusted overlappingMoves).length < 2 ^ 64 ∧ (entrusted overlappingMoves).Nodup ∧
      (run overlappingMoves).fired =
        [⟨0, .ok (.response 1 "continue" true none), false⟩,
          ⟨1, .ok (.response 2 "continue" true none), false⟩] ∧
      (run overlappingMoves).correlator.pending = [(3, .completion 2)] ∧
      Correlated overlappingMoves :=
  ⟨by decide, by decide, by decide +kernel, by decide +kernel,
    responses_reach_their_requests overlappingMoves (by decide) (by decide)⟩

end Exchange

end RemoteInspector
