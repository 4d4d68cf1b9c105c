import RemoteInspector.Proofs.Channel.Responses
import RemoteInspector.Proofs.Session.Slot
import RemoteInspector.Proofs.Session.Suspension

/-!
Operations of a session that fail. To ask for a backtrace, to take one up and to let the machine go on
each check whatever may be wrong before they change anything: when one of them fails, the debugger is
what the send has left of it, and that is the session from before unless the channel has used the time
to give an outcome to a lookup or to tell of the end of the suspension. An outcome for a backtrace that
comes when its sender has returned is put where nobody looks any more; on a wire it is dropped.
-/

namespace RemoteInspector

open Correlator

namespace Session

variable {s : Session} {o : Option Outcome} {err : SessionError}

/-! ### How a backtrace is refused -/

/-- The body tells of frames, but not by a list. -/
def Malformed (body : Json) : Prop :=
  ∃ v, body.get? "frames" = some v ∧ ∀ frames, v ≠ .array frames

def malformedFrames : SessionError :=
  .wire (.protocol "backtrace `frames` is not an array")

/-- What may be wrong with the outcome of a request for a backtrace, and the error about it. -/
inductive Refusal : Option Outcome → SessionError → Prop where
  | unfinished : Refusal none (.channel unfinishedRequest)
  | failed (fault : ChannelFault) : Refusal (some (.error fault)) (.channel fault)
  | unsuccessful {e : Envelope} : e.isSuccessful = false →
      Refusal (some (.ok e)) (.wire (.protocol (e.message.getD "backtrace request failed")))
  | malformed {e : Envelope} : e.isSuccessful = true → Malformed (e.body.getD .null) →
      Refusal (some (.ok e)) malformedFrames

theorem listOfJson_cases (body : Json) :
    (Malformed body ∧ (StackFrame.listOfJson body =
      .error (.protocol "backtrace `frames` is not an array"))) ∨
    (¬ Malformed body ∧ ∃ frames, StackFrame.listOfJson body = .ok frames) := by
  unfold StackFrame.listOfJson
  split
  · next hnone =>
    refine .inr ⟨?_, _, rfl⟩
    rintro ⟨v, hv, -⟩
    rw [hnone] at hv
    cases hv
  · next frames harray =>
    refine .inr ⟨?_, _, rfl⟩
    rintro ⟨v, hv, hne⟩
    rw [harray] at hv
    exact hne frames (Option.some.inj hv).symm
  · next v hne hv =>
    exact .inl ⟨⟨v, hv, hne⟩, rfl⟩

theorem materialize_error_iff {body : Json} {refs : List Json} :
    (s.materialize body refs).value = .error err ↔ Malformed body ∧ err = malformedFrames := by
  rcases listOfJson_cases body with ⟨hbad, hlist⟩ | ⟨hgood, frames, hlist⟩
  · rw [s.materialize_refuses refs hlist]
    constructor
    · rintro ⟨⟩
      exact ⟨hbad, rfl⟩
    · rintro ⟨-, rfl⟩
      rfl
  · obtain ⟨ids, s', hvalue, -⟩ := s.materialize_takes refs hlist
    rw [hvalue]
    constructor
    · rintro ⟨⟩
    · rintro ⟨hbad, -⟩
      exact (hgood hbad).elim

theorem finishBacktrace_error_iff : (s.finishBacktrace o).value = .error err ↔ Refusal o err := by
  unfold finishBacktrace
  split
  · constructor
    · rintro ⟨⟩
      exact .unfinished
    · rintro ⟨⟩
      rfl
  · next fault =>
    constructor
    · rintro ⟨⟩
      exact .failed fault
    · rintro ⟨⟩
      rfl
  · next e =>
    split
    · next hok =>
      rw [materialize_error_iff]
      constructor
      · rintro ⟨hbad, rfl⟩
        exact .malformed hok hbad
      · rintro (_ | _ | hnot | ⟨-, hbad⟩)
        · rw [hok] at hnot
          cases hnot
        · exact ⟨hbad, rfl⟩
    · next hnot =>
      have hfalse : e.isSuccessful = false := Bool.eq_false_iff.2 hnot
      constructor
      · rintro ⟨⟩
        exact .unsuccessful hfalse
      · rintro (_ | _ | - | ⟨hok, -⟩)
        · rfl
        · exact (hnot hok).elim

end Session

namespace Debugger

variable {issue : Issue} {d : Debugger}

/-! ### Errands that are no lookups -/

/-- The outcome of what is no lookup does nothing to the session or the channel. -/
theorem fire_other (issue : Issue) {errand : Errand} (h : errand.waiting? = none) (o : Outcome) :
    Alike d (d.fire issue errand o).value := by
  cases errand with
  | lookup w => cases h
  | backtrace => exact ⟨rfl, rfl, rfl⟩
  | resume => cases o <;> exact .refl d

theorem fireAll_other (issue : Issue) {fs : List (Firing Errand)}
    (h : ∀ f ∈ fs, f.completion.waiting? = none) : Alike d (fireAll issue fs d).value := by
  induction fs generalizing d with
  | nil => exact .refl d
  | cons f fs ih =>
      rw [List.forall_mem_cons] at h
      simp only [fireAll, Logged.value_bind]
      exact (fire_other issue h.1 f.outcome).trans (ih h.2)

theorem fireAll_singleton (issue : Issue) (d : Debugger) (f : Firing Errand) :
    (fireAll issue [f] d).value = (d.fire issue f.completion f.outcome).value := rfl

def Unasked (table : List (UInt64 × Waiter Errand)) (seq : UInt64) : Prop :=
  ∀ w, (seq, .completion (.lookup w)) ∉ table

theorem Unasked.mono {table table' : List (UInt64 × Waiter Errand)} {seq : UInt64}
    (h : Unasked table seq) (hsub : table' ⊆ table) : Unasked table' seq :=
  fun w hw => h w (hsub hw)

/-- To enter an errand that is no lookup makes no difference. -/
theorem Unasked.entered {table : List (UInt64 × Waiter Errand)} {seq : UInt64}
    (h : Unasked table seq) {errand : Errand} (herrand : errand.waiting? = none) (k : UInt64)
    (mode : SendMode) : Unasked (table ++ [(k, .of mode errand)]) seq := by
  intro w hw
  rcases List.mem_append.1 hw with hold | hnew
  · exact h w hold
  · have heq : Waiter.completion (Errand.lookup w) = .of mode errand :=
      congrArg Prod.snd (List.mem_singleton.1 hnew)
    cases mode with
    | sync => cases heq
    | async =>
        cases heq
        cases herrand

theorem waiting?_of_unasked {table : List (UInt64 × Waiter Errand)} {seq : UInt64} {errand : Errand}
    (h : Unasked table seq) (hmem : (seq, .completion errand) ∈ table) : errand.waiting? = none := by
  cases errand with
  | lookup w => exact (h w hmem).elim
  | backtrace => rfl
  | resume => rfl

/-- What a sink does leaves the session alone: no lookup in the table gets an outcome, and nothing tells
of the end of the suspension. -/
def Act.Spares (table : List (UInt64 × Waiter Errand)) : Act → Prop
  | .nothing => True
  | .shut => ∀ k, Unasked table k
  | .retire => False
  | .route e => (e.isResponse = true → ∀ k, e.requestSeq = some k → Unasked table k) ∧
      (e.isResponse = false → ¬ e.TellsEnd)

theorem Act.Spares.mono {table table' : List (UInt64 × Waiter Errand)} {act : Act}
    (h : act.Spares table) (hsub : ∀ k, Unasked table k → Unasked table' k) : act.Spares table' := by
  cases act with
  | nothing => trivial
  | shut => exact fun k => hsub k (h k)
  | retire => exact h.elim
  | route e => exact ⟨fun hkind k hk => hsub k (h.1 hkind k hk), h.2⟩

/-- While a request is sent, the channel leaves the session alone. A machine in memory always does. -/
structure Undisturbed (d : Debugger) (r : Request) : Prop where
  fresh : ∀ c sink, d.channel = .wire c sink → Unasked c.pending c.nextSeq
  spared : ∀ c sink, d.channel = .wire c sink →
    ∀ step ∈ (sink.next r).1, ∀ act, act? c.nextSeq step = some act → act.Spares c.pending

/-- The debugger has changed in its correlator only, and no entry has come into the table. -/
def Worn (c : Correlator Errand) (sink : Sink) (d d' : Debugger) : Prop :=
  ∃ c' : Correlator Errand, c'.pending ⊆ c.pending ∧ Alike { d with channel := .wire c' sink } d'

theorem Worn.refl {c : Correlator Errand} {sink : Sink} (hc : d.channel = .wire c sink) :
    Worn c sink d d :=
  ⟨c, List.Subset.refl _, rfl, hc, rfl⟩

theorem route_worn {c : Correlator Errand} {sink : Sink} (hc : d.channel = .wire c sink)
    {e : Envelope} (h : (Act.route e).Spares c.pending) :
    Worn c sink d (d.route issue e).value.2 := by
  unfold route
  rw [hc]
  simp only [Logged.value_bind]
  rcases deliver_cases c e with ⟨hkind, hvalue⟩ | ⟨-, -, hvalue⟩ | ⟨hkind, seq, a, hseq, hfind, hvalue⟩
  · rw [hvalue]
    have hsame : (d.session.handleMessage e).value = d.session := by
      rcases d.session.handleMessage_cases e with ⟨hends, -⟩ | ⟨-, hsame⟩
      · exact (h.2 hkind hends).elim
      · exact hsame
    exact ⟨c, List.Subset.refl _, hsame, rfl, rfl⟩
  · rw [hvalue]
    exact ⟨c, List.Subset.refl _, .refl _⟩
  · rw [hvalue]
    obtain ⟨received, hsettle⟩ := settle_frame { c with pending := without seq c.pending } seq a (.ok e)
    rw [hsettle, settle_fired]
    refine ⟨_, (without_sublist seq c.pending).subset, fireAll_other _ fun f hf => ?_⟩
    -- What fires is the completion that stood under the number, and that is no lookup.
    cases a with
    | relay => cases hf
    | completion t =>
        obtain rfl := List.mem_singleton.1 hf
        exact waiting?_of_unasked (h.1 hkind seq hseq) (mem_of_lookup hfind)

theorem shut_worn {c : Correlator Errand} {sink : Sink} (hc : d.channel = .wire c sink)
    (hnone : ∀ k, Unasked c.pending k) : Worn c sink d (d.shut issue).value := by
  unfold shut
  rw [hc]
  obtain ⟨received, hvalue⟩ := close_value c
  simp only [Logged.value_bind, hvalue]
  refine ⟨_, List.nil_subset _, fireAll_other _ fun f hf => ?_⟩
  obtain ⟨t, ht, rfl⟩ := List.mem_map.1 hf
  obtain ⟨k, hk⟩ := mem_completions.1 ht
  exact waiting?_of_unasked (hnone k) hk

/-- One step of a sink that leaves the session alone, and the rest of what it does. -/
theorem Worn.andThen {c : Correlator Errand} {sink : Sink} {d' d'' : Debugger}
    (h : Worn c sink d d')
    (hrest : ∀ c' : Correlator Errand, c'.pending ⊆ c.pending → d'.channel = .wire c' sink →
      Worn c' sink d' d'') : Worn c sink d d'' := by
  obtain ⟨c', hsub, halike⟩ := h
  obtain ⟨c'', hsub', halike'⟩ := hrest c' hsub halike.channel
  exact ⟨c'', List.Subset.trans hsub' hsub, (halike.withChannel (.wire c'' sink)).trans halike'⟩

theorem perform_worn {c : Correlator Errand} {sink : Sink} (hc : d.channel = .wire c sink)
    {act : Act} (h : act.Spares c.pending) : Worn c sink d (d.perform issue act) := by
  cases act with
  | nothing => exact .refl hc
  | shut => exact shut_worn hc h
  | retire => exact h.elim
  | route e => exact route_worn hc h

theorem react_worn (issue : Issue) {c : Correlator Errand} {sink : Sink}
    (hc : d.channel = .wire c sink) {seq : UInt64} {reaction : Reaction}
    (h : ∀ step ∈ reaction, ∀ act, act? seq step = some act → act.Spares c.pending) :
    Worn c sink d (react issue seq reaction d).value.1 := by
  induction reaction generalizing d c with
  | nil => exact .refl hc
  | cons step rest ih =>
      obtain ⟨hstep, hrest⟩ := List.forall_mem_cons.1 h
      rcases react_cases issue seq step rest with ⟨-, fault, hvalue⟩ | ⟨act, hact, hvalue⟩
      · rw [hvalue]
        exact .refl hc
      · rw [hvalue]
        refine (perform_worn hc (hstep act hact)).andThen fun c' hsub hc' => ih hc' ?_
        exact fun step hmem act hact => (hrest step hmem act hact).mono fun k hk => hk.mono hsub

/-- A sender that waits completes its own errand and no other. -/
theorem finishSend_sync {errand : Errand} (herrand : errand.waiting? = none) (seq : UInt64)
    (v : Verdict) : (d.finishSend issue seq .sync errand v).value.1.session = d.session ∧
      ∀ c sink, (d.finishSend issue seq .sync errand v).value.1.channel = .wire c sink →
        c.pending.lookup seq = none := by
  unfold finishSend
  cases hc : d.channel with
  | memory vm =>
      refine ⟨rfl, fun c sink hwire => ?_⟩
      dsimp only [Logged.value_pure] at hwire
      rw [hc] at hwire
      cases hwire
  | wire c sink =>
      obtain ⟨outcome, hvalue⟩ := finishSync_value c seq errand v
      simp only [Logged.value_bind, Logged.value_pure, finish, hvalue, Option.toList_some,
        fireAll_singleton]
      have halike : Alike { d with channel := .wire { c with
          pending := without seq c.pending, received := without seq c.received } sink } _ :=
        fire_other issue herrand outcome
      refine ⟨halike.session, fun c' sink' hwire => ?_⟩
      rw [halike.channel] at hwire
      cases hwire
      exact lookup_without_self seq c.pending

theorem finishSend_session {c : Correlator Errand} {sink : Sink} (hc : d.channel = .wire c sink)
    {seq : UInt64} (hseq : Unasked c.pending seq) (mode : SendMode) {errand : Errand}
    (herrand : errand.waiting? = none) (v : Verdict) :
    (d.finishSend issue seq mode errand v).value.1.session = d.session := by
  cases mode with
  | sync => exact (finishSend_sync herrand seq v).1
  | async =>
      unfold finishSend
      rw [hc]
      simp only [Logged.value_bind, Logged.value_pure, finish]
      refine (fireAll_other _ fun f hf => ?_).session
      rcases finishAsync_cases c seq v with ⟨-, hnone, -, -⟩ | ⟨fault, t, -, hfind, hvalue⟩
      · simp only [hnone, Option.toList_none, List.not_mem_nil] at hf
      · simp only [hvalue, Option.toList_some, List.mem_singleton] at hf
        rw [hf]
        exact waiting?_of_unasked hseq (mem_of_lookup hfind)

def handing (d : Debugger) (c : Correlator Errand) (sink : Sink) (frame : String) : Debugger :=
  { d with channel := .wire c sink, written := frame :: d.written }

/-- The sink reacts to a request that is written, and then its sender finishes. -/
theorem send_written {c c' : Correlator Errand} {sink : Sink} (hc : d.channel = .wire c sink)
    {r : Request} {mode : SendMode} {errand : Errand} {seq : UInt64} {frame : String}
    (hstart : (c.start r mode errand).value = .written c' seq frame) (depth : Nat) :
    (send (depth + 1) r mode errand d).value =
      (finishSend (issueWithin depth)
        (react (issueWithin depth) seq (sink.next r).1 (d.handing c' (sink.next r).2 frame)).value.1
        seq mode errand (react (issueWithin depth) seq (sink.next r).1
          (d.handing c' (sink.next r).2 frame)).value.2).value := by
  unfold send
  simp only [hc, Logged.value_bind, hstart]
  rfl

theorem send_refused {c c' : Correlator Errand} {sink : Sink} (hc : d.channel = .wire c sink)
    {r : Request} {mode : SendMode} {errand : Errand} (herrand : errand.waiting? = none) {o : Outcome}
    {fault : ChannelFault}
    (hstart : (c.start r mode errand).value = .refused c' ⟨errand, o, false⟩ fault) (depth : Nat) :
    (send (depth + 1) r mode errand d).value.1.session = d.session := by
  unfold send
  simp only [hc, Logged.value_bind, hstart, Logged.value_pure, fireAll_singleton]
  exact (fire_other _ herrand o).session

theorem send_memory {vm : TableVm Errand} (hc : d.channel = .memory vm) (r : Request)
    (mode : SendMode) {errand : Errand} (herrand : errand.waiting? = none) (depth : Nat) :
    (send (depth + 1) r mode errand d).value.1.session = d.session := by
  unfold send
  simp only [hc]
  cases (vm.send r errand).outcome with
  | none => rfl
  | some o =>
      simp only [Logged.value_bind, Logged.value_pure]
      exact (fire_other _ herrand o).session

/-- A request that is no lookup and is sent undisturbed changes nothing in the session. -/
theorem send_other_session (depth : Nat) {r : Request} (mode : SendMode) {errand : Errand}
    (herrand : errand.waiting? = none) (h : d.Undisturbed r) :
    (send depth r mode errand d).value.1.session = d.session := by
  cases depth with
  | zero => rfl
  | succ depth =>
      cases hc : d.channel with
      | memory vm => exact send_memory hc r mode herrand depth
      | wire c sink =>
          rcases start_cases c r mode errand with ⟨-, hstart⟩ | ⟨-, fault, hstart⟩ |
              ⟨-, frame, -, hstart⟩
          · exact send_refused hc herrand hstart depth
          · exact send_refused hc herrand hstart depth
          · rw [send_written hc hstart depth]
            have hspared : ∀ step ∈ (sink.next r).1, ∀ act, act? c.nextSeq step = some act →
                act.Spares (c.pending ++ [(c.nextSeq, .of mode errand)]) :=
              fun step hmem act hact => (h.spared c sink hc step hmem act hact).mono fun k hk =>
                hk.entered herrand c.nextSeq mode
            obtain ⟨c', hsub, halike⟩ := react_worn (issueWithin depth) (c := { c with
              nextSeq := c.nextSeq + 1, pending := c.pending ++ [(c.nextSeq, .of mode errand)] })
              (d := d.handing _ _ frame) rfl hspared
            have hseq : Unasked c'.pending c.nextSeq :=
              ((h.fresh c sink hc).entered herrand c.nextSeq mode).mono hsub
            exact (finishSend_session halike.channel hseq mode herrand _).trans halike.session

/-- A synchronous request starts in the same way whatever its sender waits for. -/
theorem start_sync_cases (c : Correlator Errand) (r : Request) :
    (∃ c' o fault, ∀ t, (c.start r .sync t).value = .refused c' ⟨t, o, false⟩ fault) ∨
    ∃ c' seq frame, ∀ t, (c.start r .sync t).value = .written c' seq frame := by
  cases hclosed : c.closed with
  | true => exact .inl ⟨c, .error .closed, .closed, fun t => by simp [start, hclosed]⟩
  | false =>
      cases htext : (r.envelope c.nextSeq).encodeText with
      | error e =>
          refine .inl ⟨{ c with nextSeq := c.nextSeq + 1 }, .error (.undispatched e.message),
            .undispatched e.message, fun t => ?_⟩
          simp [start, hclosed, htext]
      | ok frame =>
          refine .inr ⟨{ c with
            nextSeq := c.nextSeq + 1, pending := c.pending ++ [(c.nextSeq, .relay)] }, c.nextSeq, frame,
            fun t => ?_⟩
          simp [start, hclosed, htext]

/-- What becomes of the session while a sender waits does not depend on what the sender waits for, as
long as that is no lookup. -/
theorem send_sync_session (depth : Nat) (r : Request) {a b : Errand} (ha : a.waiting? = none)
    (hb : b.waiting? = none) :
    (send depth r .sync a d).value.1.session = (send depth r .sync b d).value.1.session := by
  cases depth with
  | zero => rfl
  | succ depth =>
      cases hc : d.channel with
      | memory vm => rw [send_memory hc r .sync ha depth, send_memory hc r .sync hb depth]
      | wire c sink =>
          rcases start_sync_cases c r with ⟨c', o, fault, hstart⟩ | ⟨c', seq, frame, hstart⟩
          · rw [send_refused hc ha (hstart a) depth, send_refused hc hb (hstart b) depth]
          · rw [send_written hc (hstart a) depth, send_written hc (hstart b) depth,
              (finishSend_sync ha seq _).1, (finishSend_sync hb seq _).1]

/-- A machine in memory gives an outcome to nobody but the sender. -/
theorem undisturbed_memory {vm : TableVm Errand} (hc : d.channel = .memory vm) (r : Request) :
    d.Undisturbed r where
  fresh c sink hwire := by
    rw [hc] at hwire
    cases hwire
  spared c sink hwire := by
    rw [hc] at hwire
    cases hwire

/-! ### What an operation that fails leaves -/

/-- A request for a backtrace fails exactly if something is wrong with its outcome, and then the debugger
is what the send has left. -/
theorem requestBacktrace_error_iff {first last : UInt32} {err : SessionError} :
    (d.requestBacktrace first last).value.1 = .error err ↔
      Session.Refusal (d.asked first last).backtrace err := by
  rw [requestBacktrace_value, ← Session.finishBacktrace_error_iff]
  cases ((d.asked first last).session.finishBacktrace (d.asked first last).backtrace).value with
  | error err' =>
      constructor <;>
      · rintro ⟨⟩
        rfl
  | ok next => constructor <;> rintro ⟨⟩

theorem requestBacktrace_left {first last : UInt32} {err : SessionError}
    (h : (d.requestBacktrace first last).value.1 = .error err) :
    (d.requestBacktrace first last).value.2 = d.asked first last := by
  rw [requestBacktrace_value] at h ⊢
  cases hfinish : ((d.asked first last).session.finishBacktrace
      (d.asked first last).backtrace).value with
  | error err' => rfl
  | ok next =>
      rw [hfinish] at h
      cases h

theorem resume_error_iff {err : SessionError} :
    d.resume.value.1 = .error err ↔ ∃ fault, d.toldToGoOn.2 = .error fault ∧ err = .channel fault := by
  rw [resume_value]
  cases d.toldToGoOn.2 with
  | error fault =>
      constructor
      · rintro ⟨⟩
        exact ⟨fault, rfl, rfl⟩
      · rintro ⟨_, ⟨⟩, rfl⟩
        rfl
  | ok _ =>
      constructor
      · rintro ⟨⟩
      · rintro ⟨_, ⟨⟩, -⟩

theorem resume_left {err : SessionError} (h : d.resume.value.1 = .error err) :
    d.resume.value.2 = d.toldToGoOn.1 := by
  rw [resume_value] at h ⊢
  cases hverdict : d.toldToGoOn.2 with
  | error fault => rfl
  | ok _ =>
      rw [hverdict] at h
      cases h

/-- What asking for a backtrace leaves of the session is what the exchange leaves by itself. -/
theorem asked_session {first last : UInt32} : (d.asked first last).session =
    (send d.depth (.backtrace first last d.session.options.inlineRefs) .sync .resume
      d).value.1.session := by
  have hcleared : Alike d { d with backtrace := none } := ⟨rfl, rfl, rfl⟩
  rw [asked, send_sync_session d.depth _ (a := .backtrace) (b := .resume) rfl rfl]
  exact (hcleared.send _ _ _ _).2.session

/-! ### Outcomes that come too late -/

/-- What is put off and is no lookup changes nothing in the session when it is answered at last. -/
theorem releaseAll_other {deferred : List (Request × Errand)}
    (h : ∀ x ∈ deferred, x.2.waiting? = none) :
    (releaseAll deferred d).value.session = d.session := by
  induction deferred generalizing d with
  | nil => rfl
  | cons x rest ih =>
      rw [List.forall_mem_cons] at h
      unfold releaseAll
      cases d.channel with
      | wire c sink => rfl
      | memory vm =>
          simp only [Logged.value_bind]
          exact (ih h.2).trans (fire_other _ h.1 _).session

theorem failAll_other (fault : ChannelFault) {deferred : List (Request × Errand)}
    (h : ∀ x ∈ deferred, x.2.waiting? = none) : Alike d (failAll fault deferred d).value := by
  induction deferred generalizing d with
  | nil => exact .refl d
  | cons x rest ih =>
      rw [List.forall_mem_cons] at h
      simp only [failAll, Logged.value_bind]
      exact (fire_other _ h.1 _).trans (ih h.2)

/-- A response that names a number under which nothing stands is dropped. -/
theorem deliver_unanswered {seq : UInt64} (e : Envelope) (hkind : e.isResponse = true)
    (hseq : e.requestSeq = some seq)
    (hnone : ∀ c sink, d.channel = .wire c sink → c.pending.lookup seq = none) :
    (d.deliver e).value = (none, d) := by
  unfold deliver route
  cases hc : d.channel with
  | memory vm => rfl
  | wire c sink =>
      simp only [Logged.value_bind]
      rcases deliver_cases c e with ⟨hother, -⟩ | ⟨-, -, hvalue⟩ | ⟨-, k, a, hk, hfind, -⟩
      · rw [hkind] at hother
        cases hother
      · rw [hvalue, ← hc]
        rfl
      · obtain rfl : seq = k := Option.some.inj (hseq.symm.trans hk)
        rw [hnone c sink hc] at hfind
        cases hfind

theorem asked_leaves {first last : UInt32} {c c' : Correlator Errand} {sink : Sink} {seq : UInt64}
    {frame : String} (hc : d.channel = .wire c sink)
    (hstart : (c.start (.backtrace first last d.session.options.inlineRefs) .sync .backtrace).value =
      .written c' seq frame) {c'' : Correlator Errand} {sink' : Sink}
    (hleft : (d.asked first last).channel = .wire c'' sink') : c''.pending.lookup seq = none := by
  obtain ⟨depth, hdepth⟩ : ∃ depth, d.depth = depth + 1 := by
    unfold Debugger.depth
    cases d.channel with
    | memory vm => exact ⟨2, rfl⟩
    | wire c sink => exact ⟨sink.depth + 2, rfl⟩
  rw [asked, hdepth, send_written (d := { d with backtrace := none }) hc hstart depth] at hleft
  exact (finishSend_sync rfl seq _).2 c'' sink' hleft

/-! ### Operations that fail, and outcomes that come too late -/

/-- Operations of a debugger that fail have changed nothing, and an outcome for a backtrace that comes
when its sender has returned changes nothing either. -/
structure FailsClean (d : Debugger) : Prop where
  /-- A backtrace is not taken up exactly if its frames are no list. -/
  materialize_error : ∀ body refs err, (d.session.materialize body refs).value = .error err ↔
    Session.Malformed body ∧ err = Session.malformedFrames
  materialize_unchanged : ∀ x : Inquiry, x.session = d.session → ∀ body refs err,
    (d.session.materialize body refs).value = .error err → x.step (.materialize body refs) = x
  /-- A request for a backtrace fails exactly if its outcome is missing or wrong. -/
  backtrace_error : ∀ first last err, (d.requestBacktrace first last).value.1 = .error err ↔
    Session.Refusal (d.asked first last).backtrace err
  /-- It then leaves what the send has left. -/
  backtrace_left : ∀ first last err, (d.requestBacktrace first last).value.1 = .error err →
    (d.requestBacktrace first last).value.2 = d.asked first last
  /-- What the send leaves of the session is the doing of the channel: it is the same if the sender does
  nothing with the outcome. -/
  backtrace_exchange : ∀ first last, (d.asked first last).session =
    (send d.depth (.backtrace first last d.session.options.inlineRefs) .sync .resume d).value.1.session
  /-- So it is the session from before, unless the channel has settled lookups or told of an end. -/
  backtrace_unchanged : ∀ first last err, (d.requestBacktrace first last).value.1 = .error err →
    d.Undisturbed (.backtrace first last d.session.options.inlineRefs) →
      (d.requestBacktrace first last).value.2.session = d.session
  /-- To go on fails exactly if the request is not sent. -/
  resume_error : ∀ err, d.resume.value.1 = .error err ↔
    ∃ fault, d.toldToGoOn.2 = .error fault ∧ err = .channel fault
  resume_left : ∀ err, d.resume.value.1 = .error err → d.resume.value.2 = d.toldToGoOn.1
  resume_unchanged : ∀ err, d.resume.value.1 = .error err → d.Undisturbed .resume →
    d.resume.value.2.session = d.session
  /-- Whatever is done after an outcome that comes too late could be done without it, with the same
  session, channel and frames written. -/
  late : ∀ issue o d', Relation.ReflTransGen Works (d.fire issue .backtrace o).value d' →
    ∃ d'', Relation.ReflTransGen Works d d'' ∧ Alike d'' d'
  /-- And whatever could be done without it can be done after it. -/
  late_conversely : ∀ issue o d'', Relation.ReflTransGen Works d d'' →
    ∃ d', Relation.ReflTransGen Works (d.fire issue .backtrace o).value d' ∧ Alike d'' d'
  late_request : ∀ issue o first last,
    (d.fire issue .backtrace o).value.requestBacktrace first last = d.requestBacktrace first last
  /-- A machine in memory that answers or fails what it has put off, and that is no lookup, leaves the
  session alone. -/
  late_answers : (∀ errand ∈ d.errands, errand.waiting? = none) →
    d.releaseDeferred.value.2.session = d.session ∧
      ∀ fault, (d.failDeferred fault).value.2.session = d.session
  /-- On a wire the response to a request for a backtrace that has returned is dropped. -/
  late_response : ∀ first last c sink c' seq frame, d.channel = .wire c sink →
    (c.start (.backtrace first last d.session.options.inlineRefs) .sync .backtrace).value =
      .written c' seq frame →
    ∀ e, e.isResponse = true → e.requestSeq = some seq →
      ((d.requestBacktrace first last).value.2.deliver e).value =
        (none, (d.requestBacktrace first last).value.2)

theorem late_answers_session (h : ∀ errand ∈ d.errands, errand.waiting? = none) :
    d.releaseDeferred.value.2.session = d.session ∧
      ∀ fault, (d.failDeferred fault).value.2.session = d.session := by
  have htaken : (∀ x ∈ d.takeDeferred.1, x.2.waiting? = none) ∧
      d.takeDeferred.2.session = d.session := by
    unfold takeDeferred
    unfold errands at h
    cases hc : d.channel with
    | wire c sink => exact ⟨nofun, rfl⟩
    | memory vm =>
        rw [hc] at h
        exact ⟨List.forall_mem_map.1 h, rfl⟩
  simp only [releaseDeferred, failDeferred, Logged.value_bind, Logged.value_pure]
  exact ⟨(releaseAll_other htaken.1).trans htaken.2,
    fun fault => (failAll_other fault htaken.1).session.trans htaken.2⟩

theorem late_response_dropped {first last : UInt32} {c c' : Correlator Errand} {sink : Sink}
    {seq : UInt64} {frame : String} (hc : d.channel = .wire c sink)
    (hstart : (c.start (.backtrace first last d.session.options.inlineRefs) .sync .backtrace).value =
      .written c' seq frame) {e : Envelope} (hkind : e.isResponse = true)
    (hseq : e.requestSeq = some seq) :
    ((d.requestBacktrace first last).value.2.deliver e).value =
      (none, (d.requestBacktrace first last).value.2) := by
  refine deliver_unanswered e hkind hseq fun c'' sink' hleft => ?_
  -- What is done after the send is done to the session.
  have hchannel : (d.requestBacktrace first last).value.2.channel = (d.asked first last).channel := by
    rw [requestBacktrace_value]
    cases ((d.asked first last).session.finishBacktrace (d.asked first last).backtrace).value <;> rfl
  exact asked_leaves hc hstart (hchannel.symm.trans hleft)

/-- Whatever the state of a session and whatever comes of its requests, operations that fail change
nothing, and neither does an outcome for a backtrace that comes too late. -/
theorem failed_operations_change_nothing (d : Debugger) : d.FailsClean where
  materialize_error _ _ _ := Session.materialize_error_iff
  materialize_unchanged x hx body refs err h := by
    simp only [Inquiry.step, hx, h]
  backtrace_error _ _ _ := requestBacktrace_error_iff
  backtrace_left _ _ _ := requestBacktrace_left
  backtrace_exchange _ _ := asked_session
  backtrace_unchanged first last err h hquiet := by
    rw [requestBacktrace_left h]
    exact send_other_session d.depth .sync rfl (d := { d with backtrace := none })
      ⟨hquiet.fresh, hquiet.spared⟩
  resume_error _ := resume_error_iff
  resume_left _ := resume_left
  resume_unchanged err h hquiet := by
    rw [resume_left h]
    exact send_other_session d.depth .async rfl hquiet
  late issue o d' hrun := by
    obtain ⟨d'', hrun', halike⟩ := alike_of_works hrun (fire_other issue rfl o).symm
    exact ⟨d'', hrun', halike.symm⟩
  late_conversely issue o d'' hrun := alike_of_works hrun (fire_other issue rfl o)
  late_request issue o first last := (fire_other issue rfl o).requestBacktrace first last
  late_answers := late_answers_session
  late_response _ _ _ _ _ _ _ hc hstart _ := late_response_dropped hc hstart

def asking : Correlator Errand :=
  { nextSeq := 2, pending := [(1, .completion (.lookup (.batch 0 [(7, 0)] none)))] }

def waitingToo : Correlator Errand :=
  { asking with nextSeq := 3, pending := asking.pending ++ [(2, .relay)] }

/-- A frame whose variable has been asked for, on a wire that does this with the next request. -/
def inquiring (reaction : Reaction) : Debugger :=
  { session := { halted.session with
      callFrames := halted.session.callFrames.map fun f => { f with requested := true } }
    channel := .wire asking (.scripted [reaction]) }

theorem ensureVariables_halted (reaction : Reaction) : (halted.session.ensureVariables 0).value =
    .ok ((inquiring reaction).session, some ⟨[7], .batch 0 [(7, 0)] none⟩) := by
  have hasked : (halted.session.ensureVariables 0).value =
      .ok ((inquiring []).session, some ⟨[7], .batch 0 [(7, 0)] none⟩) := by
    decide +kernel
  exact hasked

theorem start_backtrace : ∃ frame, (asking.start (.backtrace 0 10 true) .sync .backtrace).value =
    .written waitingToo 2 frame := by
  have hfits : ¬ Frame.maxBody < ((Request.backtrace 0 10 true).envelope 2).text.utf8ByteSize := by
    decide +kernel
  obtain ⟨frame, hframe⟩ :
      ∃ frame, ((Request.backtrace 0 10 true).envelope 2).encodeText = .ok frame := by
    rw [Envelope.encodeText, if_neg hfits]
    exact ⟨_, rfl⟩
  refine ⟨frame, ?_⟩
  simp only [start, asking, hframe]
  rfl

theorem asked_inquiring (reaction : Reaction) : ∃ frame, (inquiring reaction).asked 0 10 =
    (finishSend (issueWithin 3)
      (react (issueWithin 3) 2 reaction
        ((inquiring reaction).handing waitingToo (.scripted []) frame)).value.1 2 .sync .backtrace
      (react (issueWithin 3) 2 reaction
        ((inquiring reaction).handing waitingToo (.scripted []) frame)).value.2).value.1 := by
  obtain ⟨frame, hstart⟩ := start_backtrace
  have hdepth : (inquiring reaction).depth = 3 + 1 := rfl
  have hoptions : (inquiring reaction).session.options.inlineRefs = true := rfl
  have hchannel : (inquiring reaction).channel = .wire asking (.scripted [reaction]) := rfl
  refine ⟨frame, ?_⟩
  rw [asked, hdepth, hoptions,
    send_written (d := { inquiring reaction with backtrace := none }) hchannel hstart 3]
  rfl

def unretrieved : Session :=
  let before := (inquiring [.close]).session
  { before with nodes := before.nodes.map fun n => { n with resolution := .failed } }

theorem deliver_closed :
    ((inquiring [.close]).session.deliver (.batch 0 [(7, 0)] none) (.error .closed)).value =
      (unretrieved, none) := by
  decide +kernel

theorem react_close (issue : Issue) (frame : String) :
    (react issue 2 [.close]
        ((inquiring [.close]).handing waitingToo (.scripted []) frame)).value =
      ({ session := unretrieved
         channel := .wire { nextSeq := 3, closed := true, received := [(2, .error .closed)] }
           (.scripted [])
         written := [frame] }, .ok ()) := by
  have hfired : completions waitingToo.pending = [.lookup (.batch 0 [(7, 0)] none)] := rfl
  simp only [react, handing, shut, close_eq, hfired, List.map_cons, List.map_nil, fireAll_singleton,
    fire, Logged.value_bind, deliver_closed]
  rfl

/-- A connection that is closed while a backtrace is asked for fails that request, and the lookup of a
variable along with it: the request has failed, and the variable is not what it was. -/
theorem closed_request_fails_variable :
    (halted.session.ensureVariables 0).value =
        .ok ((inquiring [.close]).session, some ⟨[7], .batch 0 [(7, 0)] none⟩) ∧
      ((inquiring [.close]).requestBacktrace 0 10).value.1 = .error (.channel .closed) ∧
      ∃ n, (inquiring [.close]).session.node? 0 = some n ∧ n.resolution = .unresolved ∧
        ((inquiring [.close]).requestBacktrace 0 10).value.2.session.node? 0 =
          some { n with resolution := .failed } := by
  obtain ⟨frame, hasked⟩ := asked_inquiring [.close]
  rw [react_close] at hasked
  have hslot : ((inquiring [.close]).asked 0 10).backtrace = some (.error .closed) := by
    rw [hasked]
    rfl
  have hsession : ((inquiring [.close]).asked 0 10).session = unretrieved := by
    rw [hasked]
    rfl
  have herror : ((inquiring [.close]).requestBacktrace 0 10).value.1 = .error (.channel .closed) := by
    refine requestBacktrace_error_iff.2 ?_
    rw [hslot]
    exact .failed .closed
  refine ⟨ensureVariables_halted [.close], herror, ?_⟩
  rw [requestBacktrace_left herror, hsession]
  refine ⟨_, rfl, rfl, ?_⟩
  simp only [unretrieved, Session.node?, Array.getElem?_map]
  rfl

/-- What a machine sends that does not tell of its frames. -/
def denying : SinkStep := .reply [("success", .bool false), ("message", .string "not halted")]

def denial : Envelope :=
  { kind := "response", requestSeq := some 2, success := some false, message := some "not halted" }

theorem message?_denying : denying.message? 2 = some denial := by decide +kernel

theorem act?_denying : act? 2 denying = some (.route denial) := by
  unfold act?
  rw [message?_denying]
  rfl

theorem undisturbed_denying (r : Request) : (inquiring [denying]).Undisturbed r where
  fresh := by
    rintro c sink ⟨⟩ w hw
    simp [asking] at hw
  spared := by
    rintro c sink ⟨⟩ step hstep act hact
    obtain rfl := List.mem_singleton.1 hstep
    cases act?_denying.symm.trans hact
    refine ⟨fun _ k hk w hw => ?_, fun hkind => ?_⟩
    · cases hk
      simp [asking] at hw
    · cases hkind

theorem react_denying (issue : Issue) {sink : Sink} (hc : d.channel = .wire waitingToo sink) :
    (react issue 2 [denying] d).value = ({ d with channel := .wire { asking with
      nextSeq := 3, received := [(2, .ok denial)] } sink }, .ok ()) := by
  have hmessage : (SinkStep.reply [("success", .bool false),
      ("message", .string "not halted")]).message? 2 = some denial := message?_denying
  simp only [denying, react, hmessage, route, hc, Logged.value_bind]
  rfl

theorem backtrace_denied : ((inquiring [denying]).asked 0 10).backtrace = some (.ok denial) := by
  obtain ⟨frame, hasked⟩ := asked_inquiring [denying]
  rw [react_denying (issueWithin 3) rfl] at hasked
  rw [hasked]
  rfl

def puttingOff : Debugger := { halted with channel := .memory { manner := .defer } }

/-- One backtrace is denied while a variable has been asked for, and another one is answered too late.
The frame and its variable are what they were. -/
theorem failed_operations_change_nothing_denied :
    ((inquiring [denying]).requestBacktrace 0 10).value.1 =
        .error (.wire (.protocol "not halted")) ∧
      ((inquiring [denying]).requestBacktrace 0 10).value.2.session = (inquiring [denying]).session ∧
      (puttingOff.requestBacktrace 0 10).value.1 = .error (.channel Session.unfinishedRequest) ∧
      (puttingOff.requestBacktrace 0 10).value.2.session = puttingOff.session ∧
      ((puttingOff.requestBacktrace 0 10).value.2.releaseDeferred).value.2.session =
        puttingOff.session := by
  have hdenied := failed_operations_change_nothing (inquiring [denying])
  have hput := failed_operations_change_nothing puttingOff
  have hreturned := failed_operations_change_nothing (puttingOff.requestBacktrace 0 10).value.2
  have hfirst : ((inquiring [denying]).requestBacktrace 0 10).value.1 =
      .error (.wire (.protocol "not halted")) := by
    refine (hdenied.backtrace_error 0 10 _).2 ?_
    rw [backtrace_denied]
    exact .unsuccessful rfl
  have hsecond : (puttingOff.requestBacktrace 0 10).value.1 =
      .error (.channel Session.unfinishedRequest) := rfl
  have hkept := hput.backtrace_unchanged 0 10 _ hsecond (undisturbed_memory rfl _)
  refine ⟨hfirst, hdenied.backtrace_unchanged 0 10 _ hfirst (undisturbed_denying _), hsecond, hkept,
    ?_⟩
  have hother : ∀ errand ∈ (puttingOff.requestBacktrace 0 10).value.2.errands,
      errand.waiting? = none := List.forall_mem_singleton.2 rfl
  exact (hreturned.late_answers hother).1.trans hkept

end Debugger

end RemoteInspector
