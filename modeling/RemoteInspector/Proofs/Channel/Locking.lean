import RemoteInspector.Proofs.Channel.Completion

/-!
Who holds the lock of the table when a completion fires. The lock cannot be taken twice by one thread,
so the code behind a completion must not come back to the correlator while the thread that fires it
holds the lock. A statement that takes the lock gives it back at its end. A condition on what is found
under the lock keeps it through all that depends on the condition, and there the refusal of an
asynchronous send fires: it is the only firing under the lock.
-/

namespace RemoteInspector

open Correlator

/-- What a thread does at the correlator, as far as the lock of the table and completions go. -/
inductive Act (τ : Type) where
  | lock
  | unlock
  | fire (t : τ) (o : Outcome)

namespace Act

variable {τ : Type}

def statement : List (Act τ) := [.lock, .unlock]

def condition (body : List (Act τ)) : List (Act τ) := .lock :: (body ++ [.unlock])

/-- Completions fire one after the other with the same outcome. -/
def fires (ts : List τ) (o : Outcome) : List (Act τ) := ts.map fun t => .fire t o

def holds : Bool → List (Act τ) → Bool
  | held, [] => held
  | _, .lock :: acts => holds true acts
  | _, .unlock :: acts => holds false acts
  | held, .fire _ _ :: acts => holds held acts

/-- What fires, and whether the thread holds the lock meanwhile. -/
def firings : Bool → List (Act τ) → List (Firing τ)
  | _, [] => []
  | _, .lock :: acts => firings true acts
  | _, .unlock :: acts => firings false acts
  | held, .fire t o :: acts => ⟨t, o, held⟩ :: firings held acts

def GetsThrough (back : τ → Prop) : Bool → List (Act τ) → Prop
  | _, [] => True
  | held, .lock :: acts => held = false ∧ GetsThrough back true acts
  | _, .unlock :: acts => GetsThrough back false acts
  | held, .fire t _ :: acts => (held = true → ¬ back t) ∧ GetsThrough back held acts

theorem firings_append (held : Bool) (a b : List (Act τ)) :
    firings held (a ++ b) = firings held a ++ firings (holds held a) b := by
  induction a generalizing held with
  | nil => rfl
  | cons act a ih =>
      cases act with
      | lock => exact ih true
      | unlock => exact ih false
      | fire t o => exact congrArg _ (ih held)

theorem holds_append (held : Bool) (a b : List (Act τ)) :
    holds held (a ++ b) = holds (holds held a) b := by
  induction a generalizing held with
  | nil => rfl
  | cons act a ih =>
      cases act with
      | lock => exact ih true
      | unlock => exact ih false
      | fire t o => exact ih held

theorem getsThrough_append {back : τ → Prop} {held : Bool} {a b : List (Act τ)} :
    GetsThrough back held (a ++ b) ↔
      GetsThrough back held a ∧ GetsThrough back (holds held a) b := by
  induction a generalizing held with
  | nil => simp [GetsThrough, holds]
  | cons act a ih =>
      cases act with
      | lock => simp only [List.cons_append, GetsThrough, holds, ih, and_assoc]
      | unlock => exact ih
      | fire t o => simp only [List.cons_append, GetsThrough, holds, ih, and_assoc]

/-- A thread gets through if the lock is free wherever it takes it, and no completion that fires under
the lock comes back. -/
theorem getsThrough_iff {back : τ → Prop} {held : Bool} {acts : List (Act τ)} :
    GetsThrough back held acts ↔ GetsThrough (fun _ => False) held acts ∧
      ∀ f ∈ firings held acts, f.locked = true → ¬ back f.completion := by
  induction acts generalizing held with
  | nil => simp [GetsThrough, firings]
  | cons act acts ih =>
      cases act with
      | lock => rw [GetsThrough, GetsThrough, firings, ih, and_assoc]
      | unlock => exact ih
      | fire t o =>
          rw [GetsThrough, GetsThrough, firings, ih, List.forall_mem_cons]
          tauto

theorem firings_fires (held : Bool) (ts : List τ) (o : Outcome) :
    firings held (fires ts o) = ts.map fun t => ⟨t, o, held⟩ := by
  induction ts with
  | nil => rfl
  | cons t ts ih => exact congrArg _ ih

theorem firings_statement (held : Bool) (acts : List (Act τ)) :
    firings held (statement ++ acts) = firings false acts := rfl

theorem firings_condition (held : Bool) (body : List (Act τ)) :
    firings held (condition body) = firings true body := by
  rw [condition, firings, firings_append]
  exact List.append_nil _

/-- The acts take the lock only where it is free, and leave it free. -/
structure Balanced (acts : List (Act τ)) : Prop where
  through : GetsThrough (fun _ => False) false acts
  free : holds false acts = false

theorem Balanced.append {a b : List (Act τ)} (ha : Balanced a) (hb : Balanced b) :
    Balanced (a ++ b) := by
  refine ⟨getsThrough_append.2 ⟨ha.through, ?_⟩, ?_⟩
  · rw [ha.free]
    exact hb.through
  · rw [holds_append, ha.free]
    exact hb.free

/-- Firings leave the lock as it is. -/
theorem fires_keep (held : Bool) (ts : List τ) (o : Outcome) :
    GetsThrough (fun _ => False) held (fires ts o) ∧ holds held (fires ts o) = held := by
  induction ts with
  | nil => exact ⟨trivial, rfl⟩
  | cons t ts ih => exact ⟨⟨fun _ h => h, ih.1⟩, ih.2⟩

theorem balanced_fires (ts : List τ) (o : Outcome) : Balanced (fires ts o) :=
  ⟨(fires_keep false ts o).1, (fires_keep false ts o).2⟩

theorem balanced_nil : Balanced ([] : List (Act τ)) := ⟨trivial, rfl⟩

theorem balanced_statement : Balanced (statement : List (Act τ)) := ⟨⟨rfl, trivial⟩, rfl⟩

theorem balanced_condition (ts : List τ) (o : Outcome) : Balanced (condition (fires ts o)) := by
  obtain ⟨hthrough, hholds⟩ := fires_keep true ts o
  refine ⟨⟨rfl, getsThrough_append.2 ⟨hthrough, ?_⟩⟩, ?_⟩
  · rw [hholds]
    exact trivial
  · rw [condition, holds, holds_append]
    rfl

end Act

namespace Exchange

variable {τ : Type}

open Act

def found (w : Option (Waiter τ)) : List τ := (w.bind Waiter.completion?).toList

/-- What a thread does at the end of a send. A refused frame is taken off the table in a condition. -/
def finishActs (c : Correlator τ) (seq : UInt64) (s : Sender τ) (v : Verdict) : List (Act τ) :=
  match s.mode, v with
  | .async, .ok () => []
  | .async, .error fault => condition (fires (found (c.pending.lookup seq)) (.error fault))
  | .sync, .error fault => condition [] ++ fires [s.completion] (.error fault)
  | .sync, .ok () =>
    match c.received.lookup seq with
    | some o => fires [s.completion] o
    | none => statement ++ fires [s.completion] (.error .timeout)

def acts (x : Exchange τ) : Move τ → List (Act τ)
  | .start r mode t =>
    match (x.correlator.start r mode t).value with
    | .refused _ f _ => fires [f.completion] f.outcome
    | .written .. => statement
  | .deliver e =>
    match e.isResponse, e.requestSeq with
    | true, some seq => statement ++ fires (found (x.correlator.pending.lookup seq)) (.ok e)
    | _, _ => []
  | .close => statement ++ fires (completions x.correlator.pending) (.error .closed)
  | .finish seq v =>
    match x.sending.lookup seq with
    | none => []
    | some s => finishActs x.correlator seq s v

/-! ### One move -/

theorem finish_fired (c : Correlator τ) (seq : UInt64) (s : Sender τ) (v : Verdict) :
    (c.finish seq s.mode s.completion v).value.fired.toList =
      firings false (finishActs c seq s v) := by
  obtain ⟨mode, t⟩ := s
  cases mode with
  | async =>
      cases v with
      | ok => rfl
      | error fault =>
          simp only [finishActs, firings_condition, firings_fires, finish, finishAsync]
          cases c.pending.lookup seq with
          | none => rfl
          | some w => cases w <;> rfl
  | sync =>
      cases v with
      | error fault => rfl
      | ok =>
          simp only [finishActs, finish, finishSync]
          cases c.received.lookup seq <;> rfl

/-- A move fires what the thread that makes it fires. -/
theorem step_fired (x : Exchange τ) (m : Move τ) :
    (x.step m).fired = x.fired ++ firings false (x.acts m) := by
  cases m with
  | start r mode t =>
      rcases start_cases x.correlator r mode t with ⟨-, hvalue⟩ | ⟨-, fault, hvalue⟩ |
          ⟨-, frame, -, hvalue⟩
      · simp only [step, acts, hvalue, firings_fires, List.map]
      · simp only [step, acts, hvalue, firings_fires, List.map]
      · simp only [step, acts, hvalue]
        exact (List.append_nil _).symm
  | deliver e =>
      rcases deliver_cases x.correlator e with ⟨hkind, hvalue⟩ | ⟨hkind, hnone, hvalue⟩ |
          ⟨hkind, seq, w, hseq, hfind, hvalue⟩
      · simp [step, acts, hvalue, hkind, firings]
      · cases hseq : e.requestSeq with
        | none => simp [step, acts, hvalue, hkind, hseq, firings]
        | some seq =>
            simp [step, acts, hvalue, hkind, hseq, hnone seq hseq, firings_statement,
              firings_fires, found]
      · simp only [step, acts, hvalue, hkind, hseq, hfind, settle_fired, firings_statement,
          firings_fires]
        cases w <;> rfl
  | close => simp only [step, acts, close_eq, firings_statement, firings_fires]
  | finish seq v =>
      cases hfind : x.sending.lookup seq with
      | none => simp [step, acts, hfind, firings]
      | some s => simp only [step, acts, hfind, finish_fired]

theorem balanced_finishActs (c : Correlator τ) (seq : UInt64) (s : Sender τ) (v : Verdict) :
    Balanced (finishActs c seq s v) := by
  obtain ⟨mode, t⟩ := s
  cases mode with
  | async =>
      cases v with
      | ok => exact balanced_nil
      | error fault => exact balanced_condition _ _
  | sync =>
      cases v with
      | error fault => exact (balanced_condition [] (.error fault)).append (balanced_fires [t] _)
      | ok =>
          simp only [finishActs]
          cases c.received.lookup seq with
          | none => exact balanced_statement.append (balanced_fires [t] _)
          | some o => exact balanced_fires [t] o

theorem balanced_acts (x : Exchange τ) (m : Move τ) : Balanced (x.acts m) := by
  cases m with
  | start r mode t =>
      rw [acts]
      split
      · exact balanced_fires _ _
      · exact balanced_statement
  | deliver e =>
      rw [acts]
      split
      · exact balanced_statement.append (balanced_fires _ _)
      · exact balanced_nil
  | close => exact balanced_statement.append (balanced_fires _ _)
  | finish seq v =>
      rw [acts]
      split
      · exact balanced_nil
      · exact balanced_finishActs ..

/-- The move ends an asynchronous send whose frame the sink has refused, while its completion still
stands in the table. -/
def Refuses (x : Exchange τ) (m : Move τ) (t : τ) (fault : ChannelFault) : Prop :=
  ∃ seq, m = .finish seq (.error fault) ∧ x.sending.lookup seq = some ⟨.async, t⟩ ∧
    x.correlator.pending.lookup seq = some (.completion t)

/-- The completion under the number of an asynchronous send is its sender's. -/
theorem Accounted.completion_of_async {ts : List τ} {x : Exchange τ} (h : Accounted ts x)
    {seq : UInt64} {t u : τ} (hs : x.sending.lookup seq = some ⟨.async, t⟩)
    (hu : x.correlator.pending.lookup seq = some (.completion u)) : u = t := by
  obtain ⟨p, hp, hpseq, hpsender⟩ := h.stored seq u (mem_of_lookup hu)
  obtain ⟨q, hq, hqseq, hqsender⟩ := h.senders seq _ (mem_of_lookup hs)
  rw [h.posted_inj hp hq (hpseq.trans hqseq.symm), hqsender] at hpsender
  exact (congrArg Sender.completion hpsender).symm

theorem locked_fires {held : Bool} {ts : List τ} {o o' : Outcome} {t : τ} :
    ⟨t, o, true⟩ ∈ firings held (fires ts o') ↔ held = true ∧ o = o' ∧ t ∈ ts := by
  rw [firings_fires, List.mem_map]
  constructor
  · rintro ⟨u, hu, heq⟩
    cases heq
    exact ⟨rfl, rfl, hu⟩
  · rintro ⟨rfl, rfl, ht⟩
    exact ⟨t, ht, rfl⟩

/-- A statement leaves the lock free for what fires behind it. -/
theorem not_locked_fires {ts : List τ} {o o' : Outcome} {t : τ} :
    ⟨t, o, true⟩ ∉ firings false (fires ts o') := by
  intro h
  cases (locked_fires.1 h).1

theorem mem_found {w : Option (Waiter τ)} {t : τ} : t ∈ found w ↔ w = some (.completion t) := by
  cases w with
  | none => simp [found]
  | some w => cases w <;> simp [found, Waiter.completion?, eq_comm]

theorem locked_finishActs {c : Correlator τ} {seq : UInt64} {s : Sender τ} {v : Verdict} {t : τ}
    {o : Outcome} : ⟨t, o, true⟩ ∈ firings false (finishActs c seq s v) ↔
      ∃ fault, o = .error fault ∧ v = .error fault ∧ s.mode = .async ∧
        c.pending.lookup seq = some (.completion t) := by
  obtain ⟨mode, u⟩ := s
  cases mode with
  | async =>
      cases v with
      | ok => simp [finishActs, firings]
      | error fault =>
          have hacts : finishActs c seq ⟨.async, u⟩ (.error fault) =
              condition (fires (found (c.pending.lookup seq)) (.error fault)) := rfl
          rw [hacts, firings_condition, locked_fires, mem_found]
          constructor
          · rintro ⟨-, rfl, hfind⟩
            exact ⟨fault, rfl, rfl, rfl, hfind⟩
          · rintro ⟨_, rfl, hv, -, hfind⟩
            cases hv
            exact ⟨rfl, rfl, hfind⟩
  | sync =>
      refine ⟨fun h => ?_, fun ⟨_, _, _, hmode, _⟩ => by cases hmode⟩
      exfalso
      cases v with
      | error fault => exact not_locked_fires h
      | ok =>
          simp only [finishActs] at h
          split at h
          · exact not_locked_fires h
          · exact not_locked_fires h

/-- Under the lock fires the completion of a refused asynchronous send, and no other. -/
theorem locked_step {ts : List τ} {x : Exchange τ} (h : Accounted ts x) {m : Move τ} {t : τ}
    {o : Outcome} : ⟨t, o, true⟩ ∈ firings false (x.acts m) ↔
      ∃ fault, o = .error fault ∧ Refuses x m t fault := by
  constructor
  · intro hlocked
    cases m with
    | start r mode u =>
        rw [acts] at hlocked
        split at hlocked
        · exact (not_locked_fires hlocked).elim
        · cases hlocked
    | deliver e =>
        rw [acts] at hlocked
        split at hlocked
        · exact (not_locked_fires hlocked).elim
        · cases hlocked
    | close => exact (not_locked_fires hlocked).elim
    | finish seq v =>
        rw [acts] at hlocked
        split at hlocked
        · cases hlocked
        · next s hfind =>
          obtain ⟨fault, rfl, rfl, hmode, hstored⟩ := locked_finishActs.1 hlocked
          obtain ⟨mode, u⟩ := s
          cases hmode
          obtain rfl := h.completion_of_async hfind hstored
          exact ⟨fault, rfl, seq, rfl, hfind, hstored⟩
  · rintro ⟨fault, rfl, seq, rfl, hfind, hstored⟩
    rw [acts, hfind]
    exact locked_finishActs.2 ⟨fault, rfl, rfl, rfl, hstored⟩

/-! ### A run -/

def trail (x : Exchange τ) : List (Move τ) → List (Act τ)
  | [] => []
  | m :: moves => x.acts m ++ trail (x.step m) moves

theorem trail_concat (x : Exchange τ) (moves : List (Move τ)) (m : Move τ) :
    x.trail (moves ++ [m]) = x.trail moves ++ (x.after moves).acts m := by
  induction moves generalizing x with
  | nil => exact List.append_nil _
  | cons n moves ih =>
      rw [List.cons_append, trail, ih, trail, List.append_assoc]
      rfl

theorem balanced_trail (x : Exchange τ) (moves : List (Move τ)) : Balanced (x.trail moves) := by
  induction moves generalizing x with
  | nil => exact balanced_nil
  | cons m moves ih => exact (balanced_acts x m).append (ih _)

theorem firings_concat (moves : List (Move τ)) (m : Move τ) :
    firings false (trail {} (moves ++ [m])) =
      firings false (trail {} moves) ++ firings false ((run moves).acts m) := by
  rw [trail_concat, firings_append, (balanced_trail _ moves).free]
  rfl

/-- At some move of a run an asynchronous send is refused whose completion still stands in the
table. -/
def RefusesIn (moves : List (Move τ)) (t : τ) (fault : ChannelFault) : Prop :=
  ∃ before m later, moves = before ++ m :: later ∧ Refuses (run before) m t fault

theorem refusesIn_concat {moves : List (Move τ)} {m : Move τ} {t : τ} {fault : ChannelFault} :
    RefusesIn (moves ++ [m]) t fault ↔ RefusesIn moves t fault ∨ Refuses (run moves) m t fault := by
  constructor
  · rintro ⟨before, n, later, heq, hrefuses⟩
    cases later using List.reverseRecOn with
    | nil =>
        obtain ⟨rfl, hm⟩ := List.append_inj' heq rfl
        cases hm
        exact .inr hrefuses
    | append_singleton later k =>
        rw [← List.cons_append, ← List.append_assoc] at heq
        obtain ⟨rfl, -⟩ := List.append_inj' heq rfl
        exact .inl ⟨before, n, later, rfl, hrefuses⟩
  · rintro (⟨before, n, later, rfl, hrefuses⟩ | hrefuses)
    · exact ⟨before, n, later ++ [m], by simp, hrefuses⟩
    · exact ⟨moves, m, [], rfl, hrefuses⟩

structure LockUse (moves : List (Move τ)) : Prop where
  /-- The completions that have fired are those that the threads have fired. -/
  fired : (run moves).fired = firings false (trail {} moves)
  /-- Under the lock fires the completion of a refused asynchronous send, and no other. -/
  locked : ∀ t o, ⟨t, o, true⟩ ∈ (run moves).fired ↔
    ∃ fault, o = .error fault ∧ RefusesIn moves t fault
  /-- If some completions come back to the correlator, a thread waits for itself just where one of them
  fires with a refusal. -/
  through : ∀ back : τ → Prop, GetsThrough back false (trail {} moves) ↔
    ∀ t fault, RefusesIn moves t fault → ¬ back t

theorem fired_trail (moves : List (Move τ)) : (run moves).fired = firings false (trail {} moves) := by
  induction moves using List.reverseRecOn with
  | nil => rfl
  | append_singleton moves m ih => rw [run_concat, step_fired, firings_concat, ih]

theorem locked_run (moves : List (Move τ)) (few : (entrusted moves).length < 2 ^ 64) (t : τ)
    (o : Outcome) : ⟨t, o, true⟩ ∈ firings false (trail {} moves) ↔
      ∃ fault, o = .error fault ∧ RefusesIn moves t fault := by
  induction moves using List.reverseRecOn with
  | nil => simp [trail, firings, RefusesIn]
  | append_singleton moves m ih =>
      rw [entrusted_append, List.length_append] at few
      have hbefore : (entrusted moves).length < 2 ^ 64 := by omega
      rw [firings_concat, List.mem_append, ih hbefore, locked_step (accounted_run moves hbefore)]
      simp only [refusesIn_concat]
      constructor
      · rintro (⟨fault, ho, h⟩ | ⟨fault, ho, h⟩)
        · exact ⟨fault, ho, .inl h⟩
        · exact ⟨fault, ho, .inr h⟩
      · rintro ⟨fault, ho, h | h⟩
        · exact .inl ⟨fault, ho, h⟩
        · exact .inr ⟨fault, ho, h⟩

/-- In every run with fewer sends than there are numbers only a refused asynchronous send makes its
completion fire under the lock. -/
theorem locks_only_refusals (moves : List (Move τ)) (few : (entrusted moves).length < 2 ^ 64) :
    LockUse moves := by
  refine ⟨fired_trail moves, fun t o => ?_, fun back => ?_⟩
  · rw [fired_trail]
    exact locked_run moves few t o
  · rw [getsThrough_iff]
    constructor
    · rintro ⟨-, hfree⟩ t fault hrefuses
      exact hfree _ ((locked_run moves few t _).2 ⟨fault, rfl, hrefuses⟩) rfl
    · intro hfree
      refine ⟨(balanced_trail _ moves).through, ?_⟩
      rintro ⟨t, o, locked⟩ hf rfl
      obtain ⟨fault, -, hrefuses⟩ := (locked_run moves few t o).1 hf
      exact hfree t fault hrefuses

def refusedMoves : List (Move Nat) :=
  [.start .resume .async 0, .finish 1 (.error (.undispatched "full")), .start .resume .async 1,
    .finish 2 (.ok ()), .deliver (.response 2 "continue" true none)]

theorem locks_only_refusals_answered :
    (entrusted refusedMoves).length < 2 ^ 64 ∧ LockUse refusedMoves ∧
      GetsThrough (fun t => t = 1) false (trail {} refusedMoves) := by
  have huse := locks_only_refusals refusedMoves (by decide)
  refine ⟨by decide, huse, getsThrough_iff.2 ⟨(balanced_trail _ _).through, ?_⟩⟩
  decide +kernel

end Exchange

namespace Line

open Act

def refusing : Line Nat := { reactions := [[.refuse (.undispatched "full")]] }

/-- The completion of a refused asynchronous send fires under the lock, and if it comes back to the
correlator the thread waits for itself. -/
theorem refusal_fires_under_lock :
    (refusing.send .resume .async 0).value.2.1.fired =
        [⟨0, .error (.undispatched "full"), true⟩] ∧
      ¬ GetsThrough (fun _ => True) false
        (Exchange.trail {} [.start .resume .async 0, .finish 1 (.error (.undispatched "full"))] :
          List (Act Nat)) := by
  refine ⟨by decide +kernel, fun hthrough => ?_⟩
  have hback := (getsThrough_iff.1 hthrough).2 ⟨0, .error (.undispatched "full"), true⟩
  exact hback (by decide +kernel) rfl trivial

end Line

end RemoteInspector
