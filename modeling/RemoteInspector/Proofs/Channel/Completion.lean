import Mathlib.Data.List.Induction
import RemoteInspector.Proofs.Channel.Exchange

/-!
Every completion that is handed to a correlator fires exactly once: at most once in any run, and when
no send is under way those that have not fired are the ones in the table. A send over a line, with
all that its sink does meanwhile, is such a run.
-/

namespace RemoteInspector

open Correlator

namespace Exchange

variable {τ : Type}

/-! ### Closing -/

/-- A closed correlator stays closed. -/
theorem closed_step {x : Exchange τ} (h : x.correlator.closed = true) (m : Move τ) :
    (x.step m).correlator.closed = true := by
  cases m with
  | start r mode t =>
      rcases start_cases x.correlator r mode t with ⟨-, hvalue⟩ | ⟨-, fault, hvalue⟩ |
          ⟨hopen, frame, -, hvalue⟩
      · simpa [step, hvalue] using h
      · simpa [step, hvalue] using h
      · rw [hopen] at h
        cases h
  | deliver e =>
      rcases deliver_cases x.correlator e with ⟨-, hvalue⟩ | ⟨-, -, hvalue⟩ |
          ⟨-, seq, w, -, -, hvalue⟩
      · simpa [step, hvalue] using h
      · simpa [step, hvalue] using h
      · cases w <;> simpa [step, hvalue, settle] using h
  | close =>
      obtain ⟨received, hvalue⟩ := close_value x.correlator
      simp [step, hvalue]
  | finish seq v =>
      cases hfind : x.sending.lookup seq with
      | none => simpa [step, hfind] using h
      | some s =>
          obtain ⟨mode, t⟩ := s
          cases mode with
          | async =>
              rcases finishAsync_cases x.correlator seq v with ⟨hc, -⟩ | ⟨fault, u, -, -, hvalue⟩
              · simpa [step, hfind, finish, hc] using h
              · simpa [step, hfind, finish, hvalue] using h
          | sync =>
              obtain ⟨o, hvalue⟩ := finishSync_value x.correlator seq t v
              simpa [step, hfind, finish, hvalue] using h

theorem closed_run {moves : List (Move τ)} (h : .close ∈ moves) :
    (run moves).correlator.closed = true := by
  induction moves using List.reverseRecOn with
  | nil => simp at h
  | append_singleton moves m ih =>
      rw [run_concat]
      rcases List.mem_append.1 h with hold | hlast
      · exact closed_step (ih hold) m
      · rw [← List.mem_singleton.1 hlast]
        obtain ⟨received, hvalue⟩ := close_value (run moves).correlator
        simp [step, hvalue]

/-- After closing, a send comes to nothing but the fault that it fires and returns. -/
theorem start_closed {x : Exchange τ} (h : x.correlator.closed = true) (r : Request)
    (mode : SendMode) (t : τ) :
    x.step (.start r mode t) =
      { x with fired := x.fired ++ [⟨t, .error .closed, false⟩]
               returned := x.returned ++ [(⟨mode, t⟩, .error .closed)] } := by
  rcases start_cases x.correlator r mode t with ⟨-, hvalue⟩ | ⟨hopen, -⟩ | ⟨hopen, -⟩
  · simp only [step, hvalue]
  · rw [hopen] at h
    cases h
  · rw [hopen] at h
    cases h

/-! ### Once and only once -/

theorem mem_kept {x : Exchange τ} {t : τ} : t ∈ x.kept ↔ ∃ seq, (seq, ⟨.sync, t⟩) ∈ x.sending := by
  simp only [kept, List.mem_filterMap, Prod.exists]
  constructor
  · rintro ⟨seq, ⟨mode, u⟩, hmem, hu⟩
    cases mode <;> simp only [Sender.kept?, Option.some.injEq, reduceCtorEq] at hu
    exact ⟨seq, hu ▸ hmem⟩
  · rintro ⟨seq, hmem⟩
    exact ⟨seq, _, hmem, rfl⟩

/-- What becomes of the completions that are handed in by moves. -/
structure ExactlyOnce (moves : List (Move τ)) : Prop where
  /-- No completion fires twice. -/
  once : (run moves).completed.Nodup
  entrusted : ∀ t ∈ (run moves).completed, t ∈ entrusted moves
  /-- While no send is under way, to be in the table is not to have fired. -/
  waiting : (run moves).sending = [] → ∀ t ∈ Exchange.entrusted moves,
    t ∉ (run moves).completed ↔ ∃ seq, (seq, .completion t) ∈ (run moves).correlator.pending
  /-- While no send is under way, every entry is a completion under the number of its frame. -/
  numbered : (run moves).sending = [] → ∀ p ∈ (run moves).correlator.pending,
    ∃ q ∈ (run moves).posted, p = (q.seq, .completion q.sender.completion) ∧
      (q.request.envelope q.seq).encodeText = .ok q.frame
  /-- A synchronous send, and any that has failed, returns after its completion has fired. -/
  returned : ∀ r ∈ (run moves).returned,
    r.1.mode = .sync ∨ r.2 ≠ .ok () → r.1.completion ∈ (run moves).completed
  /-- After closing, only a synchronous send that has not returned keeps its completion back. -/
  closing : .close ∈ moves → ∀ t ∈ Exchange.entrusted moves,
    t ∈ (run moves).completed ∨ ∃ seq, (seq, ⟨.sync, t⟩) ∈ (run moves).sending
  /-- After closing, a send fires the fault of a closed channel and returns it. -/
  refused : .close ∈ moves → ∀ r mode t, (run moves).step (.start r mode t) =
    { run moves with
      fired := (run moves).fired ++ [⟨t, .error .closed, false⟩]
      returned := (run moves).returned ++ [(⟨mode, t⟩, .error .closed)] }

/-- In every run with fewer sends than there are numbers, completions of their own each fire exactly
once or wait in the table. -/
theorem completes_exactly_once (moves : List (Move τ)) (few : (entrusted moves).length < 2 ^ 64)
    (own : (entrusted moves).Nodup) : ExactlyOnce moves := by
  have h := accounted_run moves few
  have hperm : (entrusted moves).Perm ((run moves).completed ++
      completions (run moves).correlator.pending ++ (run moves).kept) := by
    rw [← Multiset.coe_eq_coe, h.law]
    simp
  have hnodup := hperm.nodup_iff.1 own
  have hmem : ∀ t, t ∈ entrusted moves ↔ t ∈ (run moves).completed ∨
      t ∈ completions (run moves).correlator.pending ∨ t ∈ (run moves).kept := by
    intro t
    rw [hperm.mem_iff, List.mem_append, List.mem_append, or_assoc]
  constructor
  case once => exact hnodup.of_append_left.of_append_left
  case entrusted => exact fun t ht => (hmem t).2 (.inl ht)
  case waiting =>
    intro hidle t ht
    rw [← mem_completions]
    -- With no send under way nothing is kept, so a completion has fired or is stored, and not both.
    constructor
    · intro hunfired
      rcases (hmem t).1 ht with hfired | hstored | hkept
      · exact absurd hfired hunfired
      · exact hstored
      · simp [kept, hidle] at hkept
    · intro hstored hfired
      exact List.disjoint_of_nodup_append hnodup.of_append_left hfired hstored
  case numbered =>
    rintro hidle ⟨seq, w⟩ hp
    cases w with
    | completion t =>
        obtain ⟨q, hq, rfl, hsender⟩ := h.stored seq t hp
        exact ⟨q, hq, by rw [hsender], h.frames q hq⟩
    | relay =>
        obtain ⟨t, ht⟩ := h.relays seq hp
        simp [hidle] at ht
  case returned => exact h.returns
  case closing =>
    intro hclose t ht
    have hnone : completions (run moves).correlator.pending = [] := by
      rw [h.emptied (closed_run hclose)]
      rfl
    rcases (hmem t).1 ht with hfired | hstored | hkept
    · exact .inl hfired
    · simp [hnone] at hstored
    · exact .inr (mem_kept.1 hkept)
  case refused => exact fun hclose r mode t => start_closed (closed_run hclose) r mode t

/-- Sends of both modes: an answer while the sink writes, a wait that nothing comes for, a refusal,
an answer that is late, the closing, and a send after it. -/
def mixedMoves : List (Move Nat) :=
  [.start .resume .async 0, .finish 1 (.ok ()),
    .start .resume .sync 1, .deliver (.response 2 "continue" true none), .finish 2 (.ok ()),
    .start .resume .sync 2, .finish 3 (.ok ()), .start .resume .async 3,
    .finish 4 (.error .dropped), .deliver (.response 3 "continue" true none), .close,
    .start .resume .sync 4]

theorem completes_exactly_once_mixed :
    (entrusted mixedMoves).length < 2 ^ 64 ∧ (entrusted mixedMoves).Nodup ∧
      (run mixedMoves).completed = [1, 2, 3, 0, 4] ∧ ExactlyOnce mixedMoves :=
  ⟨by decide, by decide, by decide +kernel,
    completes_exactly_once mixedMoves (by decide) (by decide)⟩

end Exchange

/-! ### Sends over a line -/

namespace Line

variable {τ : Type}

def stepMoves (seq : UInt64) (step : SinkStep) : List (Exchange.Move τ) :=
  match step, step.message? seq with
  | .close, _ | .hangUp, _ => [.close]
  | _, some e => [.deliver e]
  | _, none => []

def reactionMoves (seq : UInt64) : Reaction → List (Exchange.Move τ)
  | [] => []
  | .refuse _ :: _ => []
  | step :: rest => stepMoves seq step ++ reactionMoves seq rest

theorem entrusted_stepMoves (seq : UInt64) (step : SinkStep) :
    Exchange.entrusted (stepMoves (τ := τ) seq step) = [] := by
  unfold stepMoves
  split <;> rfl

/-- A sink hands in no completions. -/
theorem entrusted_reactionMoves (seq : UInt64) (reaction : Reaction) :
    Exchange.entrusted (reactionMoves (τ := τ) seq reaction) = [] := by
  induction reaction with
  | nil => rfl
  | cons step rest ih =>
      have happend : Exchange.entrusted (stepMoves (τ := τ) seq step ++ reactionMoves seq rest) = [] := by
        rw [Exchange.entrusted_append, entrusted_stepMoves, ih]
        rfl
      cases step <;> first | rfl | exact happend

/-- An exchange with a line's correlator in its place and with completions that have fired on it. -/
def extend (x : Exchange τ) (l : Line τ) (trace : Trace τ) : Exchange τ :=
  { x with correlator := l.correlator, fired := x.fired ++ trace.fired }

theorem deliver_step (l : Line τ) (e : Envelope) (x : Exchange τ)
    (hx : x.correlator = l.correlator) :
    x.step (.deliver e) = extend x (l.deliver e).value.1 (l.deliver e).value.2 := by
  simp [Exchange.step, extend, deliver, hx]

theorem close_step (l : Line τ) (x : Exchange τ) (hx : x.correlator = l.correlator) :
    x.step .close = extend x l.close.value.1 l.close.value.2 := by
  simp [Exchange.step, extend, close, hx]

/-- What a sink does with a frame is a run of its moves. -/
theorem react_after (seq : UInt64) (reaction : Reaction) (l : Line τ) (x : Exchange τ)
    (hx : x.correlator = l.correlator) :
    x.after (reactionMoves seq reaction) =
      extend x (react seq reaction l).value.1 (react seq reaction l).value.2.1 := by
  induction reaction generalizing l x with
  | nil => simp [reactionMoves, Exchange.after, react, extend, ← hx]
  | cons step rest ih =>
      have hclose : Exchange.after (x.step .close) (reactionMoves seq rest) =
          extend x (react seq rest l.close.value.1).value.1
            (l.close.value.2.append (react seq rest l.close.value.1).value.2.1) := by
        rw [close_step l x hx, ih l.close.value.1 _ rfl]
        simp [extend, Trace.append]
      have hdeliver (e : Envelope) :
          Exchange.after (x.step (.deliver e)) (reactionMoves seq rest) =
            extend x (react seq rest (l.deliver e).value.1).value.1
              ((l.deliver e).value.2.append
                (react seq rest (l.deliver e).value.1).value.2.1) := by
        rw [deliver_step l e x hx, ih (l.deliver e).value.1 _ rfl]
        simp [extend, Trace.append]
      cases step with
      | close => simpa [reactionMoves, stepMoves, Exchange.after, react] using hclose
      | hangUp => simpa [reactionMoves, stepMoves, Exchange.after, react, hangUp] using hclose
      | refuse fault => simp [reactionMoves, Exchange.after, react, extend, ← hx]
      | resumed => simpa [reactionMoves, stepMoves, react, SinkStep.message?, Trace.append] using ih l x hx
      | reply members =>
          cases hm : (SinkStep.reply members).message? seq with
          | none => simpa [reactionMoves, stepMoves, react, hm, Trace.append] using ih l x hx
          | some e => simpa [reactionMoves, stepMoves, react, hm, Exchange.after] using hdeliver e
      | deliver message =>
          cases hm : (SinkStep.deliver message).message? seq with
          | none => simpa [reactionMoves, stepMoves, react, hm, Trace.append] using ih l x hx
          | some e => simpa [reactionMoves, stepMoves, react, hm, Exchange.after] using hdeliver e

/-- A send over a line is a run of its start, of what the sink does meanwhile, and of its end, after
which the same sends are under way as before. -/
theorem send_after (l : Line τ) (r : Request) (mode : SendMode) (t : τ) (x : Exchange τ)
    (hx : x.correlator = l.correlator) (hfresh : ∀ p ∈ x.sending, p.1 ≠ l.correlator.nextSeq) :
    ∃ moves posted, Exchange.entrusted moves = [t] ∧
      x.after moves =
        { extend x (l.send r mode t).value.1 (l.send r mode t).value.2.1 with
          posted := posted
          returned := x.returned ++ [(⟨mode, t⟩, (l.send r mode t).value.2.2)] } := by
  rcases start_cases l.correlator r mode t with ⟨-, hvalue⟩ | ⟨-, fault, hvalue⟩ |
      ⟨-, frame, -, hvalue⟩
  · refine ⟨[.start r mode t], x.posted, rfl, ?_⟩
    simp [Exchange.after, Exchange.step, send, hx, hvalue, extend]
  · refine ⟨[.start r mode t], x.posted, rfl, ?_⟩
    simp [Exchange.after, Exchange.step, send, hx, hvalue, extend]
  · let seq := l.correlator.nextSeq
    let begun : Line τ :=
      ⟨{ l.correlator with
          nextSeq := seq + 1
          pending := l.correlator.pending ++ [(seq, .of mode t)] }, l.reactions.drop 1⟩
    let mid := (react seq (l.reactions.headD []) begun).value
    refine ⟨.start r mode t :: (reactionMoves seq (l.reactions.headD []) ++ [.finish seq mid.2.2]),
      x.posted ++ [⟨seq, ⟨mode, t⟩, r, frame⟩], ?_, ?_⟩
    · rw [← List.singleton_append, Exchange.entrusted_append, Exchange.entrusted_append,
        entrusted_reactionMoves]
      rfl
    · have hstart : x.step (.start r mode t) =
          { x with correlator := begun.correlator, sending := x.sending ++ [(seq, ⟨mode, t⟩)]
                   posted := x.posted ++ [⟨seq, ⟨mode, t⟩, r, frame⟩] } := by
        simp only [Exchange.step, hx, hvalue]
        rfl
      -- No other sender has the number, so this one is found and taken off.
      have hothers : x.sending.lookup seq = none :=
        List.lookup_eq_none_iff.2 fun p hp => by simpa using Ne.symm (hfresh p hp)
      have hfind : (x.sending ++ [(seq, (⟨mode, t⟩ : Sender τ))]).lookup seq = some ⟨mode, t⟩ := by
        simp [List.lookup_append, hothers]
      have hrest : without seq (x.sending ++ [(seq, (⟨mode, t⟩ : Sender τ))]) = x.sending := by
        have hall : x.sending.filter (fun p => p.1 != seq) = x.sending :=
          List.filter_eq_self.2 fun p hp => bne_iff_ne.2 (hfresh p hp)
        simp [without, hall]
      have hreact := react_after seq (l.reactions.headD []) begun (x.step (.start r mode t))
        (by rw [hstart])
      have hafter : x.after (.start r mode t ::
          (reactionMoves seq (l.reactions.headD []) ++ [.finish seq mid.2.2])) =
            ((x.step (.start r mode t)).after (reactionMoves seq (l.reactions.headD []))).step
              (.finish seq mid.2.2) := by
        simp [Exchange.after]
      rw [hafter, hreact, hstart]
      have hsend : (l.send r mode t).value =
          (⟨(mid.1.correlator.finish seq mode t mid.2.2).value.correlator, mid.1.reactions⟩,
            (Trace.append { frames := [frame] } mid.2.1).append
              { fired := (mid.1.correlator.finish seq mode t mid.2.2).value.fired.toList },
            (mid.1.correlator.finish seq mode t mid.2.2).value.result) := by
        simp [send, hvalue, mid, begun, seq]
      simp [Exchange.step, extend, hsend, hfind, hrest, Trace.append, mid]

end Line

end RemoteInspector
