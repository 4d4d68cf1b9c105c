import RemoteInspector.Proofs.Channel.Completion

/-!
What a completion receives when its send fails. A sender learns of the failure twice, by the fault
that the send returns and by the outcome that its completion receives. The two agree in a synchronous
send, whatever the sink does. In an asynchronous send the sink may have answered the request or closed
the correlator before it refuses the frame; the completion has then received that outcome, and the
refusal reaches the caller only.
-/

namespace RemoteInspector

open Correlator

namespace SinkStep

/-- The outcome that a step gives to the request whose frame is being written. -/
def gives? (seq : UInt64) (step : SinkStep) : Option Outcome :=
  match step, step.message? seq with
  | .close, _ | .hangUp, _ => some (.error .closed)
  | _, some e => if e.isResponse ∧ e.requestSeq = some seq then some (.ok e) else none
  | _, none => none

def given? (seq : UInt64) : Reaction → Option Outcome
  | [] => none
  | .refuse _ :: _ => none
  | step :: rest => (step.gives? seq).or (given? seq rest)

end SinkStep

namespace Line

variable {τ : Type}

/-- What the completion of an asynchronous send has received by the time the sink gives its verdict.
A synchronous sender does not give its completion away. -/
def overtaken? (l : Line τ) (r : Request) (mode : SendMode) (t : τ) : Option Outcome :=
  match mode, (l.correlator.start r mode t).value with
  | .async, .written _ seq _ => SinkStep.given? seq (l.reactions.headD [])
  | _, _ => none

end Line

/-! ### While the sink works -/

namespace Correlator

variable {τ : Type}

theorem lookup_without {α : Type} {seq k : UInt64} (h : seq ≠ k) (table : List (UInt64 × α)) :
    (without k table).lookup seq = table.lookup seq := by
  induction table with
  | nil => rfl
  | cons p table ih =>
      obtain ⟨j, a⟩ := p
      by_cases hj : j = k
      · subst hj
        have hskip : without j ((j, a) :: table) = without j table := by
          simp [without]
        rw [hskip, ih, List.lookup_cons, beq_false_of_ne h]
      · have hkeep : without k ((j, a) :: table) = (j, a) :: without k table := by
          simp [without, hj]
        rw [hkeep, List.lookup_cons, List.lookup_cons, ih]

/-- A message is the response to a pending request, or leaves the request in the table. -/
theorem deliver_pending {c : Correlator τ} {seq : UInt64} {t : τ}
    (h : c.pending.lookup seq = some (.completion t)) (e : Envelope) :
    ((e.isResponse ∧ e.requestSeq = some seq) ∧
      ⟨t, .ok e, false⟩ ∈ (c.deliver e).value.fired.toList) ∨
    (¬(e.isResponse ∧ e.requestSeq = some seq) ∧
      (c.deliver e).value.correlator.pending.lookup seq = some (.completion t)) := by
  rcases deliver_cases c e with ⟨hkind, hvalue⟩ | ⟨-, hnone, hvalue⟩ |
      ⟨hkind, k, w, hseq, hfind, hvalue⟩
  · right
    rw [hvalue]
    refine ⟨?_, h⟩
    rintro ⟨hresponse, -⟩
    rw [hkind] at hresponse
    cases hresponse
  · right
    rw [hvalue]
    refine ⟨?_, h⟩
    rintro ⟨-, hseq⟩
    rw [hnone seq hseq] at h
    cases h
  · obtain ⟨received, hframe⟩ := settle_frame { c with pending := without k c.pending } k w (.ok e)
    rw [hvalue]
    by_cases hk : seq = k
    · subst hk
      rw [h] at hfind
      cases hfind
      exact .inl ⟨⟨hkind, hseq⟩, by simp [settle]⟩
    · right
      refine ⟨?_, ?_⟩
      · rintro ⟨-, hsame⟩
        rw [hseq] at hsame
        exact hk (Option.some.inj hsame).symm
      · rw [hframe]
        exact (lookup_without hk c.pending).trans h

theorem close_pending {c : Correlator τ} {seq : UInt64} {t : τ}
    (h : c.pending.lookup seq = some (.completion t)) :
    ⟨t, .error .closed, false⟩ ∈ c.close.value.2 := by
  obtain ⟨received, hvalue⟩ := close_value c
  have hmem : t ∈ completions c.pending := mem_completions.2 ⟨seq, mem_of_lookup h⟩
  rw [hvalue]
  exact List.mem_map_of_mem hmem

end Correlator

namespace Line

variable {τ : Type}

/-- What has come of a pending request: it has received the outcome that the sink has given, or it
still stands in the table. -/
def Overtakes (seq : UInt64) (t : τ) (l : Line τ) (trace : Trace τ) : Option Outcome → Prop
  | some o => ⟨t, o, false⟩ ∈ trace.fired
  | none => l.correlator.pending.lookup seq = some (.completion t)

theorem deliver_overtakes {l : Line τ} {seq : UInt64} {t : τ}
    (h : l.correlator.pending.lookup seq = some (.completion t)) (e : Envelope) :
    Overtakes seq t (l.deliver e).value.1 (l.deliver e).value.2
      (if e.isResponse ∧ e.requestSeq = some seq then some (.ok e) else none) := by
  simp only [deliver, Logged.value_bind, Logged.value_pure]
  rcases deliver_pending h e with ⟨hanswers, hfired⟩ | ⟨hnot, hstays⟩
  · rw [if_pos hanswers]
    exact hfired
  · rw [if_neg hnot]
    exact hstays

theorem close_overtakes {l : Line τ} {seq : UInt64} {t : τ}
    (h : l.correlator.pending.lookup seq = some (.completion t)) :
    Overtakes seq t l.close.value.1 l.close.value.2 (some (.error .closed)) := by
  simp only [close, Logged.value_bind, Logged.value_pure]
  exact close_pending h

/-- The first step decides, or the rest of the reaction does. -/
theorem overtakes_append {seq : UInt64} {t : τ} {l m : Line τ} {trace more : Trace τ}
    {o o' : Option Outcome} (h : Overtakes seq t l trace o)
    (h' : l.correlator.pending.lookup seq = some (.completion t) → Overtakes seq t m more o') :
    Overtakes seq t m (trace.append more) (o.or o') := by
  cases o with
  | some o => exact List.mem_append_left _ h
  | none =>
      have hrest := h' h
      rw [Option.none_or]
      cases o' with
      | some o' => exact List.mem_append_right _ hrest
      | none => exact hrest

/-- By its verdict the sink has given a pending request an outcome, or the request still stands in the
table. -/
theorem react_overtakes (seq : UInt64) (t : τ) (reaction : Reaction) (l : Line τ)
    (h : l.correlator.pending.lookup seq = some (.completion t)) :
    Overtakes seq t (react seq reaction l).value.1 (react seq reaction l).value.2.1
      (SinkStep.given? seq reaction) := by
  induction reaction generalizing l with
  | nil => exact h
  | cons step rest ih =>
      have hidle : Overtakes seq t (react seq rest l).value.1
          (Trace.append {} (react seq rest l).value.2.1)
          (Option.or none (SinkStep.given? seq rest)) :=
        overtakes_append (l := l) (o := none) h (ih l)
      have hclose : Overtakes seq t (react seq rest l.close.value.1).value.1
          (l.close.value.2.append (react seq rest l.close.value.1).value.2.1)
          (Option.or (some (.error .closed)) (SinkStep.given? seq rest)) :=
        overtakes_append (close_overtakes h) (ih _)
      have hdeliver (e : Envelope) : Overtakes seq t (react seq rest (l.deliver e).value.1).value.1
          ((l.deliver e).value.2.append (react seq rest (l.deliver e).value.1).value.2.1)
          (Option.or (if e.isResponse ∧ e.requestSeq = some seq then some (.ok e) else none)
            (SinkStep.given? seq rest)) :=
        overtakes_append (deliver_overtakes h e) (ih _)
      cases step with
      | refuse fault => exact h
      | close => simpa [react, SinkStep.given?, SinkStep.gives?] using hclose
      | hangUp => simpa [react, hangUp, SinkStep.given?, SinkStep.gives?] using hclose
      | resumed =>
          simpa [react, SinkStep.given?, SinkStep.gives?, SinkStep.message?] using hidle
      | reply members =>
          cases hm : (SinkStep.reply members).message? seq with
          | none => simpa [react, SinkStep.given?, SinkStep.gives?, hm] using hidle
          | some e => simpa [react, SinkStep.given?, SinkStep.gives?, hm] using hdeliver e
      | deliver message =>
          cases hm : (SinkStep.deliver message).message? seq with
          | none => simpa [react, SinkStep.given?, SinkStep.gives?, hm] using hidle
          | some e => simpa [react, SinkStep.given?, SinkStep.gives?, hm] using hdeliver e

end Line

/-! ### The end of a send -/

namespace Correlator

variable {τ : Type}

theorem finish_result (c : Correlator τ) (seq : UInt64) (mode : SendMode) (t : τ) (v : Verdict) :
    (c.finish seq mode t v).value.result = v := by
  cases mode with
  | async =>
      rcases finishAsync_cases c seq v with ⟨-, -, hresult, -⟩ | ⟨fault, u, -, -, hvalue⟩
      · exact hresult
      · simp [finish, hvalue]
  | sync =>
      obtain ⟨o, hvalue⟩ := finishSync_value c seq t v
      simp [finish, hvalue]

/-- A refusal reaches the completion of an asynchronous send that still stands in the table. -/
theorem finishAsync_refused {c : Correlator τ} {seq : UInt64} {t : τ}
    (h : c.pending.lookup seq = some (.completion t)) (fault : ChannelFault) :
    (c.finishAsync seq (.error fault)).fired = some ⟨t, .error fault, true⟩ := by
  rcases finishAsync_cases c seq (.error fault) with ⟨-, -, -, hdone⟩ |
      ⟨fault', u, hfault, hstored, hvalue⟩
  · rcases hdone with hok | hgone
    · cases hok
    · exact (hgone t h).elim
  · rw [h] at hstored
    cases hstored
    cases hfault
    rw [hvalue]

end Correlator

namespace Line

variable {τ : Type}

/-- A send that fails fires its completion with what the sink has given before it refused the frame,
and with the fault that is returned if the sink has given nothing. -/
theorem send_error_fires {l : Line τ} {r : Request} {mode : SendMode} {t : τ} {fault : ChannelFault}
    (hfresh : l.correlator.pending.lookup l.correlator.nextSeq = none)
    (hfail : (l.send r mode t).value.2.2 = .error fault) :
    ∃ locked, ⟨t, (l.overtaken? r mode t).getD (.error fault), locked⟩ ∈
      (l.send r mode t).value.2.1.fired := by
  rcases start_cases l.correlator r mode t with ⟨-, hvalue⟩ | ⟨-, refusal, hvalue⟩ |
      ⟨-, frame, -, hvalue⟩
  · have hnone : l.overtaken? r mode t = none := by
      cases mode <;> simp [overtaken?, hvalue]
    simp only [send, hvalue, Logged.value_bind, Logged.value_pure] at hfail ⊢
    cases hfail
    exact ⟨false, by simp [hnone]⟩
  · have hnone : l.overtaken? r mode t = none := by
      cases mode <;> simp [overtaken?, hvalue]
    simp only [send, hvalue, Logged.value_bind, Logged.value_pure] at hfail ⊢
    cases hfail
    exact ⟨false, by simp [hnone]⟩
  · simp only [send, hvalue, Logged.value_bind, Logged.value_pure] at hfail ⊢
    generalize hmid : (react l.correlator.nextSeq (l.reactions.headD []) _).value = mid at hfail ⊢
    rw [finish_result] at hfail
    rw [hfail]
    cases mode with
    | sync =>
        -- The sender has kept its completion and fires it with the fault.
        have hnone : l.overtaken? r .sync t = none := rfl
        rw [hnone]
        exact ⟨false, List.mem_append_right _ (by simp [finish, finishSync])⟩
    | async =>
        have hstored : (l.correlator.pending ++ [(l.correlator.nextSeq, Waiter.of .async t)]).lookup
            l.correlator.nextSeq = some (.completion t) := by
          simp [List.lookup_append, hfresh, Waiter.of]
        have hgiven := react_overtakes l.correlator.nextSeq t (l.reactions.headD [])
          ⟨{ l.correlator with
              nextSeq := l.correlator.nextSeq + 1
              pending := l.correlator.pending ++ [(l.correlator.nextSeq, Waiter.of .async t)] },
            l.reactions.drop 1⟩ hstored
        rw [hmid] at hgiven
        have hsame : l.overtaken? r .async t =
            SinkStep.given? l.correlator.nextSeq (l.reactions.headD []) := by
          simp [overtaken?, hvalue]
        rw [hsame]
        cases hg : SinkStep.given? l.correlator.nextSeq (l.reactions.headD []) with
        | some o =>
            rw [hg] at hgiven
            exact ⟨false, List.mem_append_left _ (List.mem_append_right _ hgiven)⟩
        | none =>
            rw [hg] at hgiven
            have hrefused := finishAsync_refused hgiven fault
            exact ⟨true, List.mem_append_right _ (by simp [finish, hrefused])⟩

/-- Take a correlator at any point of a run with fewer sends than there are numbers, and any sink. A
send that fails fires its completion exactly once. The completion receives the fault that the send
returns, unless the send is asynchronous and the sink has answered the request or closed the
correlator before it refused the frame; then the completion receives that. -/
theorem failed_send_fires_once (moves : List (Exchange.Move τ)) (l : Line τ) (r : Request)
    (mode : SendMode) (t : τ) (fault : ChannelFault)
    (hl : l.correlator = (Exchange.run moves).correlator)
    (few : (Exchange.entrusted moves).length + 1 < 2 ^ 64)
    (own : (Exchange.entrusted moves ++ [t]).Nodup)
    (hfail : (l.send r mode t).value.2.2 = .error fault) :
    t ∉ (Exchange.run moves).completed ∧
    ∃ before f after, (l.send r mode t).value.2.1.fired = before ++ f :: after ∧
      f.completion = t ∧ (∀ g ∈ before ++ after, g.completion ≠ t) ∧
      f.outcome = (l.overtaken? r mode t).getD (.error fault) := by
  have haccounted := Exchange.accounted_run moves (by omega)
  have hnumber : ∀ p ∈ (Exchange.run moves).posted, p.seq ≠ l.correlator.nextSeq := by
    rw [hl]
    exact fun p hp => haccounted.nextSeq_fresh few hp
  have hsenders : ∀ p ∈ (Exchange.run moves).sending, p.1 ≠ l.correlator.nextSeq := by
    rintro ⟨seq, s⟩ hp
    obtain ⟨q, hq, rfl, -⟩ := haccounted.senders seq s hp
    exact hnumber q hq
  have hfresh : l.correlator.pending.lookup l.correlator.nextSeq = none := by
    cases hfind : l.correlator.pending.lookup l.correlator.nextSeq with
    | none => rfl
    | some w =>
        have hmem := mem_of_lookup hfind
        rw [hl] at hmem
        cases w with
        | completion u =>
            obtain ⟨q, hq, hseq, -⟩ := haccounted.stored _ u hmem
            exact (hnumber q hq (hseq.trans (by rw [hl]))).elim
        | relay =>
            obtain ⟨u, hu⟩ := haccounted.relays _ hmem
            exact (hsenders _ hu (by rw [hl])).elim
  -- The send is part of a longer run, in which no completion fires twice.
  obtain ⟨sent, posted, hentrusted, hafter⟩ := send_after l r mode t (Exchange.run moves) hl.symm
    hsenders
  have hall : Exchange.entrusted (moves ++ sent) = Exchange.entrusted moves ++ [t] := by
    rw [Exchange.entrusted_append, hentrusted]
  have hrun : Exchange.run (moves ++ sent) = (Exchange.run moves).after sent := by
    simp [Exchange.run, Exchange.after]
  have hlaw := (Exchange.accounted_run (moves ++ sent) (by
    rw [hall, List.length_append]
    exact few)).law
  rw [hall, hrun, hafter] at hlaw
  have hnodup : ((Exchange.run moves).completed ++
      (l.send r mode t).value.2.1.fired.map Firing.completion).Nodup := by
    have hperm : (Exchange.entrusted moves ++ [t]).Perm
        (((Exchange.run moves).completed ++ (l.send r mode t).value.2.1.fired.map Firing.completion) ++
          (completions (l.send r mode t).value.1.correlator.pending ++
            (Exchange.run moves).kept)) := by
      rw [← Multiset.coe_eq_coe, hlaw]
      simp [Exchange.completed, Exchange.kept, extend]
    exact (hperm.nodup_iff.1 own).of_append_left
  obtain ⟨locked, hfired⟩ := send_error_fires hfresh hfail
  have hmem : t ∈ (l.send r mode t).value.2.1.fired.map Firing.completion :=
    List.mem_map.2 ⟨_, hfired, rfl⟩
  refine ⟨fun hold => List.disjoint_of_nodup_append hnodup hold hmem, ?_⟩
  obtain ⟨before, after, hsplit⟩ := List.append_of_mem hfired
  refine ⟨before, _, after, hsplit, rfl, fun g hg heq => ?_, rfl⟩
  have hrest := hnodup.of_append_right
  rw [hsplit, List.map_append, List.map_cons, List.nodup_middle, List.nodup_cons] at hrest
  refine hrest.1 ?_
  rw [← List.map_append]
  exact List.mem_map.2 ⟨g, hg, heq⟩

def answeredThenRefused : Line Nat :=
  { reactions := [[.reply [("success", .bool true)], .refuse (.undispatched "late")]] }

def earlyAnswer : Envelope :=
  { kind := "response", requestSeq := some 1, success := some true }

theorem failed_send_fires_once_answered :
    (answeredThenRefused.send .resume .async 0).value.2.2 = .error (.undispatched "late") ∧
      ∃ before f after,
        (answeredThenRefused.send .resume .async 0).value.2.1.fired = before ++ f :: after ∧
          f.completion = 0 ∧ (∀ g ∈ before ++ after, g.completion ≠ 0) ∧
          f.outcome = .ok earlyAnswer := by
  have hfail : (answeredThenRefused.send .resume .async 0).value.2.2 =
      .error (.undispatched "late") := by
    decide +kernel
  have hgiven : answeredThenRefused.overtaken? .resume .async 0 = some (.ok earlyAnswer) := by
    decide +kernel
  obtain ⟨-, before, f, after, hfired, hcompletion, honce, houtcome⟩ :=
    failed_send_fires_once [] answeredThenRefused .resume .async 0 _ rfl (by decide) (by decide)
      hfail
  rw [hgiven] at houtcome
  exact ⟨hfail, before, f, after, hfired, hcompletion, honce, houtcome⟩

/-- An asynchronous send returns a fault although its completion has received a response. -/
theorem async_fault_beside_response :
    (answeredThenRefused.send .resume .async 0).value.2.1.fired = [⟨0, .ok earlyAnswer, false⟩] ∧
      (answeredThenRefused.send .resume .async 0).value.2.2 = .error (.undispatched "late") := by
  constructor <;> decide +kernel

end Line

end RemoteInspector
