import RemoteInspector.Proofs.Channel.Refusal
import RemoteInspector.Proofs.Wire.Request

/-!
Which response answers which request. A request is pending from its start up to the first response
that names its number, so the response that a completion receives can be traced back to the frame
that was posted for it. A response that names no pending request changes nothing.
-/

namespace RemoteInspector

open Correlator Text

def Envelope.Answers (e : Envelope) (seq : UInt64) : Prop :=
  e.isResponse = true ∧ e.requestSeq = some seq

/-! ### What relays receive and completions fire with -/

namespace Correlator

variable {τ : Type}

theorem not_mem_relayed {fault : ChannelFault} {table : List (UInt64 × Waiter τ)} {seq : UInt64}
    {e : Envelope} : (seq, .ok e) ∉ relayed fault table := by
  intro hmem
  obtain ⟨⟨k, w⟩, -, hw⟩ := List.mem_filterMap.1 hmem
  cases w <;> cases hw

/-- A synchronous send completes with a response only if its relay has received it. -/
theorem finishSync_ok {c : Correlator τ} {seq : UInt64} {t u : τ} {v : Verdict} {e : Envelope}
    {locked : Bool} (h : (c.finishSync seq t v).value.fired = some ⟨u, .ok e, locked⟩) :
    u = t ∧ (seq, .ok e) ∈ c.received := by
  cases v with
  | error fault => cases h
  | ok =>
      cases hfind : c.received.lookup seq with
      | none => simp [finishSync, hfind] at h
      | some o =>
          simp only [finishSync, hfind, Logged.value_pure, Option.some.injEq, Firing.mk.injEq] at h
          obtain ⟨rfl, rfl, -⟩ := h
          exact ⟨rfl, mem_of_lookup hfind⟩

end Correlator

def Posted.move {τ : Type} (p : Posted τ) : Exchange.Move τ :=
  .start p.request p.sender.mode p.sender.completion

def Posted.waiter {τ : Type} (p : Posted τ) : Waiter τ := .of p.sender.mode p.sender.completion

namespace Exchange

variable {τ : Type}

def Move.Answers (seq : UInt64) : Move τ → Prop
  | .deliver e => e.Answers seq
  | _ => False

/-! ### One step -/

/-- An entry of the table has been there before and its request is not answered by the move, or it is
the entry of a frame that the move posts. -/
theorem mem_pending_step {x : Exchange τ} {m : Move τ} {seq : UInt64} {w : Waiter τ}
    (h : (seq, w) ∈ (x.step m).correlator.pending) :
    ((seq, w) ∈ x.correlator.pending ∧ ¬ m.Answers seq) ∨
    ∃ p ∈ (x.step m).posted, m = p.move ∧ p.seq = x.correlator.nextSeq ∧ p.seq = seq ∧
      p.waiter = w := by
  cases m with
  | start r mode t =>
      rcases start_cases x.correlator r mode t with ⟨-, hvalue⟩ | ⟨-, fault, hvalue⟩ |
          ⟨-, frame, -, hvalue⟩
      · simp only [step, hvalue] at h
        exact .inl ⟨h, id⟩
      · simp only [step, hvalue] at h
        exact .inl ⟨h, id⟩
      · simp only [step, hvalue, List.mem_append, List.mem_singleton, Prod.mk.injEq] at h ⊢
        rcases h with hold | ⟨rfl, rfl⟩
        · exact .inl ⟨hold, id⟩
        · exact .inr ⟨_, .inr rfl, rfl, rfl, rfl, rfl⟩
  | deliver e =>
      left
      rcases deliver_cases x.correlator e with ⟨hkind, hvalue⟩ | ⟨-, hnone, hvalue⟩ |
          ⟨-, k, u, hseq, -, hvalue⟩
      · simp only [step, hvalue] at h
        refine ⟨h, fun hanswers => ?_⟩
        rw [hanswers.1] at hkind
        cases hkind
      · simp only [step, hvalue] at h
        refine ⟨h, fun hanswers => ?_⟩
        have hmissing := List.lookup_eq_none_iff.1 (hnone seq hanswers.2) _ h
        simp at hmissing
      · obtain ⟨received, hframe⟩ :=
          settle_frame { x.correlator with pending := without k x.correlator.pending } k u (.ok e)
        simp only [step, hvalue, hframe, mem_without] at h
        refine ⟨h.1, fun hanswers => ?_⟩
        have hsame := hseq.symm.trans hanswers.2
        exact h.2 (Option.some.inj hsame).symm
  | close =>
      simp only [step, close_eq] at h
      cases h
  | finish k v =>
      left
      refine ⟨?_, id⟩
      cases hfind : x.sending.lookup k with
      | none => simpa [step, hfind] using h
      | some s =>
          obtain ⟨mode, t⟩ := s
          cases mode with
          | async =>
              rcases finishAsync_cases x.correlator k v with ⟨hc, -⟩ | ⟨fault, u, -, -, hvalue⟩
              · simpa [step, hfind, finish, hc] using h
              · simp only [step, hfind, finish, hvalue, Logged.value_pure, mem_without] at h
                exact h.1
          | sync =>
              obtain ⟨o, hvalue⟩ := finishSync_value x.correlator k t v
              simp only [step, hfind, finish, hvalue, mem_without] at h
              exact h.1

/-- A relay receives a response that is delivered while it stands in the table. -/
theorem mem_received_step {x : Exchange τ} {m : Move τ} {seq : UInt64} {e : Envelope}
    (h : (seq, .ok e) ∈ (x.step m).correlator.received) :
    (seq, .ok e) ∈ x.correlator.received ∨
    (m = .deliver e ∧ e.Answers seq ∧ x.correlator.pending.lookup seq = some .relay) := by
  cases m with
  | start r mode t =>
      left
      rcases start_cases x.correlator r mode t with ⟨-, hvalue⟩ | ⟨-, fault, hvalue⟩ |
          ⟨-, frame, -, hvalue⟩
      all_goals
        simp only [step, hvalue] at h
        exact h
  | deliver e' =>
      rcases deliver_cases x.correlator e' with ⟨-, hvalue⟩ | ⟨-, -, hvalue⟩ |
          ⟨hkind, k, u, hseq, hfind, hvalue⟩
      · simp only [step, hvalue] at h
        exact .inl h
      · simp only [step, hvalue] at h
        exact .inl h
      · cases u with
        | completion t =>
            simp only [step, hvalue, settle] at h
            exact .inl h
        | relay =>
            simp only [step, hvalue, settle, List.mem_append, List.mem_singleton, Prod.mk.injEq,
              Except.ok.injEq] at h
            rcases h with hold | ⟨rfl, rfl⟩
            · exact .inl hold
            · exact .inr ⟨rfl, ⟨hkind, hseq⟩, hfind⟩
  | close =>
      simp only [step, close_eq, List.mem_append] at h
      exact .inl (h.resolve_right not_mem_relayed)
  | finish k v =>
      left
      cases hfind : x.sending.lookup k with
      | none => simpa [step, hfind] using h
      | some s =>
          obtain ⟨mode, t⟩ := s
          cases mode with
          | async =>
              rcases finishAsync_cases x.correlator k v with ⟨hc, -⟩ | ⟨fault, u, -, -, hvalue⟩
              · simpa [step, hfind, finish, hc] using h
              · simpa [step, hfind, finish, hvalue] using h
          | sync =>
              obtain ⟨o, hvalue⟩ := finishSync_value x.correlator k t v
              simp only [step, hfind, finish, hvalue, mem_without] at h
              exact h.1

/-- A completion fires with a response that finds it in the table, or at the end of the synchronous
send whose relay has received the response. -/
theorem mem_fired_step {x : Exchange τ} {m : Move τ} {t : τ} {e : Envelope} {locked : Bool}
    (h : ⟨t, .ok e, locked⟩ ∈ (x.step m).fired) :
    ⟨t, .ok e, locked⟩ ∈ x.fired ∨
    (m = .deliver e ∧ ∃ seq, e.Answers seq ∧
      x.correlator.pending.lookup seq = some (.completion t)) ∨
    ∃ seq, (∃ v, m = .finish seq v) ∧ x.sending.lookup seq = some ⟨.sync, t⟩ ∧
      (seq, .ok e) ∈ x.correlator.received := by
  cases m with
  | start r mode u =>
      left
      rcases start_cases x.correlator r mode u with ⟨-, hvalue⟩ | ⟨-, fault, hvalue⟩ |
          ⟨-, frame, -, hvalue⟩
      · simpa [step, hvalue] using h
      · simpa [step, hvalue] using h
      · simpa [step, hvalue] using h
  | deliver e' =>
      rcases deliver_cases x.correlator e' with ⟨-, hvalue⟩ | ⟨-, -, hvalue⟩ |
          ⟨hkind, k, w, hseq, hfind, hvalue⟩
      · simp only [step, hvalue, Option.toList_none, List.append_nil] at h
        exact .inl h
      · simp only [step, hvalue, Option.toList_none, List.append_nil] at h
        exact .inl h
      · simp only [step, hvalue, settle_fired, List.mem_append] at h
        refine h.imp_right fun hnew => .inl ?_
        cases w with
        | relay => cases hnew
        | completion u =>
            cases List.mem_singleton.1 hnew
            exact ⟨rfl, k, ⟨hkind, hseq⟩, hfind⟩
  | close =>
      left
      simpa [step, close_eq] using h
  | finish k v =>
      cases hfind : x.sending.lookup k with
      | none =>
          simp only [step, hfind] at h
          exact .inl h
      | some s =>
          simp only [step, hfind, List.mem_append, Option.mem_toList] at h
          refine h.imp_right fun hnew => .inr ?_
          obtain ⟨mode, u⟩ := s
          cases mode with
          | async =>
              rcases finishAsync_cases x.correlator k v with ⟨-, hnone, -⟩ |
                  ⟨fault, u, -, -, hvalue⟩
              · simp [finish, hnone] at hnew
              · simp [finish, hvalue] at hnew
          | sync =>
              obtain ⟨rfl, hreceived⟩ := finishSync_ok hnew
              exact ⟨k, ⟨v, rfl⟩, hfind, hreceived⟩

/-- Frames that have been posted stay posted. -/
theorem posted_step (x : Exchange τ) (m : Move τ) : x.posted <+: (x.step m).posted := by
  cases m with
  | start r mode t =>
      rcases start_cases x.correlator r mode t with ⟨-, hvalue⟩ | ⟨-, fault, hvalue⟩ |
          ⟨-, frame, -, hvalue⟩
      · simp [step, hvalue]
      · simp [step, hvalue]
      · simp [step, hvalue]
  | deliver e => exact List.prefix_rfl
  | close => exact List.prefix_rfl
  | finish seq v =>
      cases hfind : x.sending.lookup seq with
      | none => simp [step, hfind]
      | some s => simp [step, hfind]

theorem posted_run (moves more : List (Move τ)) :
    (run moves).posted <+: (run (moves ++ more)).posted := by
  induction more using List.reverseRecOn with
  | nil => simp
  | append_singleton more m ih =>
      rw [← List.append_assoc, run_concat]
      exact ih.trans (posted_step _ m)

/-! ### From the start of a send to its response -/

/-- The frame is posted after the moves `before`; all through the moves `between` that follow, its
request stands in the table and is not answered. -/
structure Pends (p : Posted τ) (before between : List (Move τ)) : Prop where
  number : p.seq = (run before).correlator.nextSeq
  posted : p ∈ (run (before ++ [p.move])).posted
  pending : ∀ now, now <+: between →
    (run (before ++ p.move :: now)).correlator.pending.lookup p.seq = some p.waiter
  unanswered : ∀ m ∈ between, ¬ m.Answers p.seq

/-- What stands in the table has stood there since its frame was posted. -/
theorem pends_of_mem {moves : List (Move τ)} (few : (entrusted moves).length < 2 ^ 64) {seq : UInt64}
    {w : Waiter τ} (h : (seq, w) ∈ (run moves).correlator.pending) :
    ∃ p before between, moves = before ++ p.move :: between ∧ p.seq = seq ∧ p.waiter = w ∧
      Pends p before between := by
  induction moves using List.reverseRecOn generalizing seq w with
  | nil => cases h
  | append_singleton moves m ih =>
      have hfind := lookup_of_mem (accounted_run _ few).keys h
      rw [entrusted_append, List.length_append] at few
      rw [run_concat] at h
      rcases mem_pending_step h with ⟨hold, hnot⟩ | ⟨p, hp, rfl, hnumber, rfl, rfl⟩
      · obtain ⟨p, before, between, rfl, rfl, rfl, hpends⟩ := ih (by omega) hold
        refine ⟨p, before, between ++ [m], by simp, rfl, rfl, hpends.number, hpends.posted, ?_, ?_⟩
        · intro now hnow
          rcases List.prefix_concat_iff.1 hnow with rfl | hnow
          · simpa using hfind
          · exact hpends.pending now hnow
        · refine List.forall_mem_append.2 ⟨hpends.unanswered, ?_⟩
          exact List.forall_mem_singleton.2 hnot
      · refine ⟨p, moves, [], rfl, rfl, rfl, hnumber, by rwa [run_concat], ?_, by simp⟩
        intro now hnow
        rw [List.prefix_nil.1 hnow]
        exact hfind

/-- The response is the first that is delivered while the request of a posted frame is pending and
that names its number. -/
def AnsweredBy (moves : List (Move τ)) (p : Posted τ) (e : Envelope) : Prop :=
  ∃ before between later, moves = before ++ p.move :: between ++ .deliver e :: later ∧
    Pends p before between ∧ e.Answers p.seq

theorem answeredBy_concat {moves : List (Move τ)} {p : Posted τ} {e : Envelope}
    (h : AnsweredBy moves p e) (m : Move τ) : AnsweredBy (moves ++ [m]) p e := by
  obtain ⟨before, between, later, rfl, hpends, hanswers⟩ := h
  exact ⟨before, between, later ++ [m], by simp, hpends, hanswers⟩

/-- A response that is delivered while a request is pending answers it. -/
theorem answeredBy_deliver {moves : List (Move τ)} (few : (entrusted moves).length < 2 ^ 64)
    {seq : UInt64} {w : Waiter τ} {e : Envelope}
    (h : (run moves).correlator.pending.lookup seq = some w) (hanswers : e.Answers seq) :
    ∃ p, p.seq = seq ∧ p.waiter = w ∧ AnsweredBy (moves ++ [.deliver e]) p e := by
  obtain ⟨p, before, between, rfl, rfl, rfl, hpends⟩ := pends_of_mem few (mem_of_lookup h)
  exact ⟨p, rfl, rfl, before, between, [], rfl, hpends, hanswers⟩

theorem AnsweredBy.posted {moves : List (Move τ)} {p : Posted τ} {e : Envelope}
    (h : AnsweredBy moves p e) : p ∈ (run moves).posted := by
  obtain ⟨before, between, later, rfl, hpends, -⟩ := h
  have hsplit : before ++ p.move :: between ++ .deliver e :: later =
      before ++ [p.move] ++ (between ++ .deliver e :: later) := by
    simp
  rw [hsplit]
  exact (posted_run _ _).subset hpends.posted

theorem sender_of_async {p : Posted τ} {t : τ} (h : p.waiter = .completion t) :
    p.sender.completion = t := by
  obtain ⟨seq, ⟨mode, u⟩, r, frame⟩ := p
  cases mode <;> cases h
  rfl

/-- What a relay holds is the response to the request that the relay stood for. -/
theorem received_answered {moves : List (Move τ)} (few : (entrusted moves).length < 2 ^ 64)
    {seq : UInt64} {e : Envelope} (h : (seq, .ok e) ∈ (run moves).correlator.received) :
    ∃ p, p.seq = seq ∧ AnsweredBy moves p e := by
  induction moves using List.reverseRecOn with
  | nil => cases h
  | append_singleton moves m ih =>
      rw [entrusted_append, List.length_append] at few
      rw [run_concat] at h
      rcases mem_received_step h with hold | ⟨rfl, hanswers, hfind⟩
      · obtain ⟨p, hseq, hp⟩ := ih (by omega) hold
        exact ⟨p, hseq, answeredBy_concat hp m⟩
      · obtain ⟨p, hseq, -, hp⟩ := answeredBy_deliver (by omega) hfind hanswers
        exact ⟨p, hseq, hp⟩

/-- A completion that fires with a response has received the response to its own request. -/
theorem fired_answered {moves : List (Move τ)} (few : (entrusted moves).length < 2 ^ 64) {t : τ}
    {e : Envelope} {locked : Bool} (h : ⟨t, .ok e, locked⟩ ∈ (run moves).fired) :
    ∃ p, p.sender.completion = t ∧ AnsweredBy moves p e := by
  induction moves using List.reverseRecOn with
  | nil => cases h
  | append_singleton moves m ih =>
      rw [entrusted_append, List.length_append] at few
      rw [run_concat] at h
      rcases mem_fired_step h with hold | ⟨rfl, seq, hanswers, hfind⟩ |
          ⟨seq, ⟨v, rfl⟩, hfind, hreceived⟩
      · obtain ⟨p, hsender, hp⟩ := ih (by omega) hold
        exact ⟨p, hsender, answeredBy_concat hp m⟩
      · obtain ⟨p, -, hwaiter, hp⟩ := answeredBy_deliver (by omega) hfind hanswers
        exact ⟨p, sender_of_async hwaiter, hp⟩
      · obtain ⟨p, hseq, hp⟩ := received_answered (by omega) hreceived
        -- The sender who returns has posted the frame of this number.
        have haccounted := accounted_run moves (by omega)
        obtain ⟨q, hq, hqseq, hqsender⟩ := haccounted.senders seq _ (mem_of_lookup hfind)
        have hpq := haccounted.posted_inj hp.posted hq (hseq.trans hqseq.symm)
        exact ⟨p, by rw [hpq, hqsender], answeredBy_concat hp _⟩

/-! ### Responses that no request waits for -/

/-- A response that names no pending request. -/
inductive Stray (moves : List (Move τ)) (e : Envelope) : Prop
  | unnumbered (h : e.requestSeq = none)
  /-- No frame with the number has been posted. -/
  | unknown (seq : UInt64) (h : e.requestSeq = some seq) (hp : ∀ p ∈ (run moves).posted, p.seq ≠ seq)
  /-- The request has been answered before. -/
  | duplicate (p : Posted τ) (before later : List (Move τ)) (first : Envelope)
      (h : e.requestSeq = some p.seq) (hmoves : moves = before ++ .deliver first :: later)
      (hp : p ∈ (run before).posted) (hfirst : first.Answers p.seq)
  /-- The completion of the request has fired, be it with a fault or with a response. -/
  | late (p : Posted τ) (h : e.requestSeq = some p.seq) (hp : p ∈ (run moves).posted)
      (hfired : p.sender.completion ∈ (run moves).completed)
  | closed (h : .close ∈ moves)

theorem mem_posted_of_pending {moves : List (Move τ)} (few : (entrusted moves).length < 2 ^ 64)
    {seq : UInt64} {w : Waiter τ} (h : (seq, w) ∈ (run moves).correlator.pending) :
    ∃ p ∈ (run moves).posted, p.seq = seq ∧ p.waiter = w := by
  obtain ⟨p, before, between, rfl, hseq, hwaiter, hpends⟩ := pends_of_mem few h
  have hsplit : before ++ p.move :: between = before ++ [p.move] ++ between := by
    simp
  rw [hsplit]
  exact ⟨p, (posted_run _ _).subset hpends.posted, hseq, hwaiter⟩

/-- A request is not pending any more after a response has named it. -/
theorem not_pending_of_answered {before later : List (Move τ)} {first : Envelope} {p : Posted τ}
    (few : (entrusted (before ++ .deliver first :: later)).length < 2 ^ 64)
    (hp : p ∈ (run before).posted) (hfirst : first.Answers p.seq) (w : Waiter τ) :
    (p.seq, w) ∉ (run (before ++ .deliver first :: later)).correlator.pending := by
  intro hmem
  obtain ⟨q, start, between, hmoves, hseq, -, hpends⟩ := pends_of_mem few hmem
  rcases List.append_eq_append_iff.1 hmoves with ⟨more, rfl, hrest⟩ | ⟨more, rfl, hrest⟩
  · -- The frame that is pending would have been posted later, under a number that was taken.
    have hone : entrusted (q.move :: between) = q.sender.completion :: entrusted between := rfl
    rw [hmoves, entrusted_append, hone, List.length_append, List.length_cons] at few
    have hfresh := (accounted_run (before ++ more) (by omega)).nextSeq_fresh (by omega)
      ((posted_run before more).subset hp)
    exact hfresh (hseq.symm.trans hpends.number)
  · -- The response would stand among the moves that do not answer the request.
    have hbetween : .deliver first ∈ between := by
      cases more with
      | nil => cases hrest
      | cons m more =>
          rw [(List.cons.inj hrest).2]
          exact List.mem_append_right _ List.mem_cons_self
    exact hpends.unanswered _ hbetween (hseq ▸ hfirst)

/-- A request is not pending any more after its completion has fired. -/
theorem not_pending_of_completed {moves : List (Move τ)}
    (few : (entrusted moves).length < 2 ^ 64) (own : (entrusted moves).Nodup) {p : Posted τ}
    (hp : p ∈ (run moves).posted) (hfired : p.sender.completion ∈ (run moves).completed)
    (w : Waiter τ) : (p.seq, w) ∉ (run moves).correlator.pending := by
  intro hmem
  have haccounted := accounted_run moves few
  have hperm : (entrusted moves).Perm ((run moves).completed ++
      (completions (run moves).correlator.pending ++ (run moves).kept)) := by
    rw [← Multiset.coe_eq_coe, haccounted.law]
    simp
  have hdisjoint := List.disjoint_of_nodup_append (hperm.nodup_iff.1 own)
  refine hdisjoint hfired (List.mem_append.2 ?_)
  -- The completion still stands in the table, or its sender keeps it.
  cases w with
  | completion t =>
      obtain ⟨q, hq, hseq, hsender⟩ := haccounted.stored _ t hmem
      rw [haccounted.posted_inj hp hq hseq.symm, hsender]
      exact .inl (mem_completions.2 ⟨_, hmem⟩)
  | relay =>
      obtain ⟨t, ht⟩ := haccounted.relays _ hmem
      obtain ⟨q, hq, hseq, hsender⟩ := haccounted.senders _ _ ht
      rw [haccounted.posted_inj hp hq hseq.symm, hsender]
      exact .inr (mem_kept.2 ⟨_, ht⟩)

theorem not_pending_of_stray {moves : List (Move τ)} (few : (entrusted moves).length < 2 ^ 64)
    (own : (entrusted moves).Nodup) {e : Envelope} (h : Stray moves e) {seq : UInt64}
    (hseq : e.requestSeq = some seq) (w : Waiter τ) : (seq, w) ∉ (run moves).correlator.pending := by
  cases h with
  | unnumbered h => exact absurd (h.symm.trans hseq) (by simp)
  | unknown k h hp =>
      obtain rfl := Option.some.inj (h.symm.trans hseq)
      intro hmem
      obtain ⟨p, hposted, heq, -⟩ := mem_posted_of_pending few hmem
      exact hp p hposted heq
  | duplicate p before later first h hmoves hp hfirst =>
      obtain rfl := Option.some.inj (h.symm.trans hseq)
      subst hmoves
      exact not_pending_of_answered few hp hfirst w
  | late p h hp hfired =>
      obtain rfl := Option.some.inj (h.symm.trans hseq)
      exact not_pending_of_completed few own hp hfired w
  | closed h =>
      rw [(accounted_run moves few).emptied (closed_run h)]
      exact List.not_mem_nil

/-- A response that no request waits for is dropped. -/
theorem deliver_dropped {c : Correlator τ} {e : Envelope} (hkind : e.isResponse = true)
    (h : ∀ seq, e.requestSeq = some seq → c.pending.lookup seq = none) :
    (c.deliver e).value = { correlator := c } := by
  rcases deliver_cases c e with ⟨hother, -⟩ | ⟨-, -, hvalue⟩ | ⟨-, seq, w, hseq, hfind, -⟩
  · rw [hkind] at hother
    cases hother
  · exact hvalue
  · rw [h seq hseq] at hfind
    cases hfind

theorem deliver_stray {moves : List (Move τ)} (few : (entrusted moves).length < 2 ^ 64)
    (own : (entrusted moves).Nodup) {e : Envelope} (hkind : e.isResponse = true)
    (h : Stray moves e) :
    ((run moves).correlator.deliver e).value = { correlator := (run moves).correlator } := by
  refine deliver_dropped hkind fun seq hseq => ?_
  refine List.lookup_eq_none_iff.2 fun p hp => ?_
  by_contra heq
  obtain ⟨k, w⟩ := p
  obtain rfl : seq = k := by simpa using heq
  exact not_pending_of_stray few own h hseq w hp

end Exchange

end RemoteInspector
