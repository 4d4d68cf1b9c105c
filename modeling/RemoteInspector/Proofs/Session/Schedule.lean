import Mathlib.Data.List.Perm.Basic
import RemoteInspector.Session.Debugger
import RemoteInspector.Proofs.Channel.Routing
import RemoteInspector.Proofs.Session.Inquiry

/-!
What a debugger does to its session is a list of moves. An account of a debugger is an inquiry with
the same session in which every lookup that the channel may still give an outcome to is under way; so
are those that are in the hands of whoever is at work, a synchronous sender or one who fires
completions in turn. Whatever the channel does, accounts are kept by moves.
-/

namespace RemoteInspector

open Correlator

def Errand.waiting? : Errand → Option Waiting
  | .lookup w => some w
  | _ => none

def due (es : List Errand) (w : Waiting) : Nat := (es.filterMap Errand.waiting?).count w

@[simp] theorem due_nil (w : Waiting) : due [] w = 0 := rfl

@[simp] theorem due_append (a b : List Errand) (w : Waiting) : due (a ++ b) w = due a w + due b w := by
  simp [due]

theorem due_cons (e : Errand) (es : List Errand) (w : Waiting) :
    due (e :: es) w = due [e] w + due es w := by
  rw [← due_append, List.singleton_append]

@[simp] theorem due_lookup (v w : Waiting) : due [.lookup v] w = if v = w then 1 else 0 := by
  simp [due, Errand.waiting?, List.count_singleton]

theorem due_sublist {a b : List Errand} (h : a.Sublist b) (w : Waiting) : due a w ≤ due b w :=
  (h.filterMap _).count_le w

/-! ### Errands in the table of a correlator -/

theorem due_without_le (seq : UInt64) (table : List (UInt64 × Waiter Errand)) (w : Waiting) :
    due (completions (without seq table)) w ≤ due (completions table) w :=
  due_sublist ((without_sublist seq table).filterMap _) w

/-- An entry that is taken off the table and the rest are no more than what stood there. -/
theorem due_taken_le {seq : UInt64} {a : Waiter Errand} {table : List (UInt64 × Waiter Errand)}
    (h : table.lookup seq = some a) (w : Waiting) :
    due (a.completion?.toList ++ completions (without seq table)) w ≤ due (completions table) w := by
  obtain ⟨before, after, rfl, -⟩ := List.lookup_eq_some_iff.1 h
  have hsplit : without seq (before ++ (seq, a) :: after) = without seq before ++ without seq after := by
    simp [without]
  have hwhole : completions (before ++ (seq, a) :: after) =
      completions before ++ (a.completion?.toList ++ completions after) := by
    cases a <;> simp [completions, Waiter.completion?]
  rw [hsplit, hwhole]
  simp only [completions_append, due_append]
  have hbefore := due_without_le seq before w
  have hafter := due_without_le seq after w
  omega

namespace Debugger

def errands (d : Debugger) : List Errand :=
  match d.channel with
  | .memory vm => vm.deferred.map (·.2)
  | .wire c _ => completions c.pending

end Debugger

namespace Inquiry

def awaits (x : Inquiry) (w : Waiting) : Nat := (x.underWay.map (·.lookup.waiting)).count w

/-- The inquiry is an account of a debugger and of the errands in hand. -/
structure Tracks (x : Inquiry) (d : Debugger) (hand : List Errand) : Prop where
  session : x.session = d.session
  covers : ∀ w, due hand w + due d.errands w ≤ x.awaits w

end Inquiry

/-- Every account of a debugger becomes one of another by moves that do not invalidate the cache
without ending the suspension. -/
def Leads (d : Debugger) (hand : List Errand) (d' : Debugger) (hand' : List Errand) : Prop :=
  ∀ x : Inquiry, x.Tracks d hand → ∃ moves, .invalidate ∉ moves ∧ (x.after moves).Tracks d' hand'

namespace Leads

variable {d d' d'' : Debugger} {hand hand' hand'' : List Errand}

theorem trans (h : Leads d hand d' hand') (h' : Leads d' hand' d'' hand'') :
    Leads d hand d'' hand'' := by
  intro x hx
  obtain ⟨moves, hno, hmoves⟩ := h x hx
  obtain ⟨moves', hno', hmoves'⟩ := h' _ hmoves
  refine ⟨moves ++ moves', ?_, ?_⟩
  · rw [List.mem_append, not_or]
    exact ⟨hno, hno'⟩
  · rw [Inquiry.after_append]
    exact hmoves'

/-- What is done to the channel alone makes nothing due that was not. -/
theorem of_channel (hsession : d'.session = d.session)
    (hdue : ∀ w, due hand' w + due d'.errands w ≤ due hand w + due d.errands w) :
    Leads d hand d' hand' := by
  intro x hx
  exact ⟨[], List.not_mem_nil, hx.session.trans hsession.symm,
    fun w => Nat.le_trans (hdue w) (hx.covers w)⟩

theorem refl (d : Debugger) (hand : List Errand) : Leads d hand d hand :=
  of_channel rfl fun _ => Nat.le_refl _

/-- An errand is let go of. -/
theorem drop (d : Debugger) (errand : Errand) (hand : List Errand) :
    Leads d (errand :: hand) d hand := by
  refine of_channel rfl fun w => ?_
  rw [due_cons]
  omega

/-- A move that sends nothing changes the session only. -/
theorem of_move (m : Inquiry.Move) {s : Session} (hno : .invalidate ≠ m)
    (hm : ∀ x : Inquiry, x.session = d.session → x.step m = { x with session := s }) :
    Leads d hand (d.withSession s) hand := by
  intro x hx
  refine ⟨[m], mt List.mem_singleton.1 hno, ?_, ?_⟩
  · rw [Inquiry.after_singleton, hm x hx.session]
    rfl
  · rw [Inquiry.after_singleton, hm x hx.session]
    exact hx.covers

end Leads

namespace Inquiry

/-- A session that has asked for a lookup has it under way, in the hands of who sends it. -/
theorem Tracks.issue {x : Inquiry} {d : Debugger} {hand : List Errand} (hx : x.Tracks d hand)
    (asker : Owner) (next : Session × Option Lookup) :
    (x.issue asker next).Tracks (d.withSession next.1)
      ((next.2.map fun l => Errand.lookup l.waiting).toList ++ hand) := by
  obtain ⟨s, l⟩ := next
  cases l with
  | none => exact ⟨rfl, hx.covers⟩
  | some l =>
      refine ⟨rfl, fun w => ?_⟩
      have hcovers := hx.covers w
      have hawaits : (x.issue asker (s, some l)).awaits w =
          x.awaits w + if l.waiting = w then 1 else 0 := by
        simp [Inquiry.issue, awaits, List.count_singleton]
      rw [hawaits]
      change due (.lookup l.waiting :: hand) w + due d.errands w ≤ _
      rw [due_cons, due_lookup]
      omega

end Inquiry

namespace Debugger

/-- A way to send lookups keeps accounts. -/
def Sound (issue : Issue) : Prop :=
  ∀ l d hand, Leads d (.lookup l.waiting :: hand) (issue l d).value hand

variable {issue : Issue} {d : Debugger} {hand : List Errand}

/-- A session that may have asked for a lookup is taken over, and the lookup is sent. -/
theorem follow_leads (hissue : Sound issue) (next : Session × Option Lookup) :
    Leads (d.withSession next.1) ((next.2.map fun l => Errand.lookup l.waiting).toList ++ hand)
      (follow issue d next).value hand := by
  obtain ⟨s, l⟩ := next
  cases l with
  | none => exact .refl _ _
  | some l => exact hissue l (d.withSession s) hand

/-- A move after which the debugger follows up a lookup. -/
theorem follow_move (hissue : Sound issue) (m : Inquiry.Move) (hno : .invalidate ≠ m) (asker : Owner)
    {next : Session × Option Lookup}
    (hm : ∀ x : Inquiry, x.session = d.session → x.step m = x.issue asker next) :
    Leads d hand (follow issue d next).value hand := by
  refine Leads.trans (fun x hx => ⟨[m], mt List.mem_singleton.1 hno, ?_⟩) (follow_leads hissue next)
  rw [Inquiry.after_singleton, hm x hx.session]
  exact hx.issue asker next

theorem fire_leads (hissue : Sound issue) (errand : Errand) (o : Outcome) :
    Leads d (errand :: hand) (d.fire issue errand o).value hand := by
  cases errand with
  | backtrace =>
      refine .of_channel rfl fun w => ?_
      rw [due_cons]
      exact Nat.add_le_add_right (Nat.le_add_left _ _) _
  | resume =>
      have hvalue : (d.fire issue .resume o).value = d := by
        cases o <;> rfl
      rw [hvalue]
      exact .drop d .resume hand
  | lookup w =>
      refine Leads.trans (fun x hx => ?_) (follow_leads hissue (d.session.deliver w o).value)
      -- The lookup is under way somewhere; that is where it is settled.
      have hdue := hx.covers w
      rw [due_cons, due_lookup, if_pos rfl] at hdue
      have hmem : w ∈ x.underWay.map (·.lookup.waiting) := by
        rw [← List.count_pos_iff]
        exact Nat.lt_of_lt_of_le (by omega) hdue
      obtain ⟨q, hq, hqw⟩ := List.mem_map.1 hmem
      obtain ⟨place, hplace, hget⟩ := List.mem_iff_getElem.1 hq
      have hat : x.underWay[place]? = some q := by
        rw [List.getElem?_eq_getElem hplace, hget]
      refine ⟨[.settle place o], mt List.mem_singleton.1 nofun, ?_⟩
      have hstep : x.step (.settle place o) =
          { x with underWay := x.underWay.eraseIdx place }.issue q.asker
            (d.session.deliver w o).value := by
        simp only [Inquiry.step, hat, hqw, hx.session]
      rw [Inquiry.after_singleton, hstep]
      -- One lookup less is under way, and one errand less in hand.
      suffices hrest : Inquiry.Tracks { x with underWay := x.underWay.eraseIdx place } d hand from
        hrest.issue q.asker _
      refine ⟨hx.session, fun v => ?_⟩
      have hperm : (q :: x.underWay.eraseIdx place).Perm x.underWay := by
        rw [← hget]
        exact List.getElem_cons_eraseIdx_perm hplace
      have hcount := (hperm.map (·.lookup.waiting)).count_eq v
      have hcovers := hx.covers v
      rw [due_cons, due_lookup] at hcovers
      rw [List.map_cons, List.count_cons, hqw] at hcount
      simp only [Inquiry.awaits] at hcovers ⊢
      simp only [beq_iff_eq] at hcount
      omega

theorem fireAll_leads (hissue : Sound issue) (fs : List (Firing Errand)) :
    Leads d (fs.map Firing.completion ++ hand) (fireAll issue fs d).value hand := by
  induction fs generalizing d with
  | nil => exact .refl d hand
  | cons f fs ih =>
      simp only [fireAll, Logged.value_bind]
      exact (fire_leads hissue f.completion f.outcome).trans ih

/-! ### The channel -/

theorem handleMessage_leads (e : Envelope) :
    Leads d hand (d.withSession (d.session.handleMessage e).value) hand :=
  .of_move (.message e) nofun fun x hx => by simp only [Inquiry.step, hx]

theorem retire_leads : Leads d hand (d.withSession d.session.retire.value) hand :=
  .of_move .retire nofun fun x hx => by simp only [Inquiry.step, hx]

/-- Completions that come off the table go into the hands of who fires them. -/
theorem deliver_leads {c : Correlator Errand} {sink : Sink} (hc : d.channel = .wire c sink)
    (e : Envelope) : Leads d hand { d with channel := .wire (c.deliver e).value.correlator sink }
      ((c.deliver e).value.fired.toList.map Firing.completion ++ hand) := by
  refine .of_channel rfl fun w => ?_
  simp only [errands, hc]
  rcases deliver_cases c e with ⟨-, hvalue⟩ | ⟨-, -, hvalue⟩ | ⟨-, seq, a, -, hfind, hvalue⟩
  · rw [hvalue]
    simp
  · rw [hvalue]
    simp
  · rw [hvalue]
    obtain ⟨received, hsettle⟩ := settle_frame { c with pending := without seq c.pending } seq a (.ok e)
    have htaken := due_taken_le hfind w
    rw [hsettle, settle_fired]
    cases a with
    | completion t =>
        simp only [Waiter.completion?, Option.map_some, Option.toList_some, List.map_cons,
          List.map_nil, due_append] at htaken ⊢
        omega
    | relay =>
        simp only [Waiter.completion?, Option.map_none, Option.toList_none, List.map_nil,
          due_append, due_nil] at htaken ⊢
        omega

theorem route_leads (hissue : Sound issue) (e : Envelope) :
    Leads d hand (d.route issue e).value.2 hand := by
  unfold route
  cases hc : d.channel with
  | memory vm => exact .refl d hand
  | wire c sink =>
      simp only [Logged.value_bind]
      have hfired : Leads d hand (fireAll issue (c.deliver e).value.fired.toList
          { d with channel := .wire (c.deliver e).value.correlator sink }).value hand :=
        (deliver_leads hc e).trans (fireAll_leads hissue _)
      split
      · next e' _ => exact hfired.trans (handleMessage_leads e')
      · exact hfired

theorem shut_leads (hissue : Sound issue) : Leads d hand (d.shut issue).value hand := by
  unfold shut
  cases hc : d.channel with
  | memory vm => exact .refl d hand
  | wire c sink =>
      obtain ⟨received, hvalue⟩ := close_value c
      simp only [Logged.value_bind, hvalue]
      refine Leads.trans ?_ (fireAll_leads hissue _)
      refine .of_channel rfl fun w => ?_
      have hsame : ((completions c.pending).map fun t =>
          (⟨t, .error .closed, false⟩ : Firing Errand)).map Firing.completion =
            completions c.pending := by
        simp [Function.comp_def]
      rw [hsame]
      simp only [errands, hc, due_append, completions, List.filterMap_nil, due_nil]
      omega

inductive Act where
  | nothing
  | shut
  | retire
  | route (e : Envelope)

/-- The act of a step that does not refuse the frame. -/
def act? (seq : UInt64) (step : SinkStep) : Option Act :=
  match step, step.message? seq with
  | .refuse _, _ => none
  | .close, _ | .hangUp, _ => some .shut
  | .resumed, _ => some .retire
  | _, some e => some (.route e)
  | _, none => some .nothing

def perform (issue : Issue) (d : Debugger) : Act → Debugger
  | .nothing => d
  | .shut => (d.shut issue).value
  | .retire => d.withSession d.session.retire.value
  | .route e => (d.route issue e).value.2

/-- A step of a sink refuses the frame, or is an act that the other steps go on from. -/
theorem react_cases (issue : Issue) (seq : UInt64) (step : SinkStep) (rest : Reaction) :
    (act? seq step = none ∧ ∃ fault, ∀ d, (react issue seq (step :: rest) d).value =
      (d, .error fault)) ∨
    ∃ act, act? seq step = some act ∧ ∀ d, (react issue seq (step :: rest) d).value =
      (react issue seq rest (d.perform issue act)).value := by
  cases step with
  | refuse fault => exact .inl ⟨rfl, fault, fun _ => rfl⟩
  | close => exact .inr ⟨.shut, rfl, fun _ => rfl⟩
  | hangUp => exact .inr ⟨.shut, rfl, fun _ => rfl⟩
  | resumed => exact .inr ⟨.retire, rfl, fun _ => rfl⟩
  | reply members =>
      cases hm : (SinkStep.reply members).message? seq with
      | none =>
          refine .inr ⟨.nothing, by simp only [act?, hm], fun d => ?_⟩
          simp only [react, hm, Logged.value_bind]
          rfl
      | some e =>
          refine .inr ⟨.route e, by simp only [act?, hm], fun d => ?_⟩
          simp only [react, hm, Logged.value_bind]
          rfl
  | deliver message =>
      cases hm : (SinkStep.deliver message).message? seq with
      | none =>
          refine .inr ⟨.nothing, by simp only [act?, hm], fun d => ?_⟩
          simp only [react, hm, Logged.value_bind]
          rfl
      | some e =>
          refine .inr ⟨.route e, by simp only [act?, hm], fun d => ?_⟩
          simp only [react, hm, Logged.value_bind]
          rfl

theorem perform_leads (hissue : Sound issue) (act : Act) :
    Leads d hand (d.perform issue act) hand := by
  cases act with
  | nothing => exact .refl d hand
  | shut => exact shut_leads hissue
  | retire => exact retire_leads
  | route e => exact route_leads hissue e

theorem react_leads (hissue : Sound issue) (seq : UInt64) (reaction : Reaction) :
    Leads d hand (react issue seq reaction d).value.1 hand := by
  induction reaction generalizing d with
  | nil => exact .refl d hand
  | cons step rest ih =>
      rcases react_cases issue seq step rest with ⟨-, fault, hvalue⟩ | ⟨act, -, hvalue⟩
      · rw [hvalue]
        exact .refl d hand
      · rw [hvalue]
        exact (perform_leads hissue act).trans ih

/-- What a sender has in hand while the sink works. -/
def inHand (mode : SendMode) (errand : Errand) : List Errand :=
  match mode with
  | .async => []
  | .sync => [errand]

theorem finishSend_leads (hissue : Sound issue) (seq : UInt64) (mode : SendMode)
    (errand : Errand) (v : Verdict) :
    Leads d (inHand mode errand ++ hand) (d.finishSend issue seq mode errand v).value.1 hand := by
  unfold finishSend
  cases hc : d.channel with
  | memory vm =>
      change Leads d _ d hand
      refine .of_channel rfl fun w => ?_
      simp only [due_append]
      omega
  | wire c sink =>
      simp only [Logged.value_bind, Logged.value_pure]
      refine Leads.trans ?_ (fireAll_leads hissue _)
      refine .of_channel rfl fun w => ?_
      simp only [errands, hc, due_append]
      cases mode with
      | sync =>
          obtain ⟨outcome, hvalue⟩ := finishSync_value c seq errand v
          have hleft := due_without_le seq c.pending w
          simp only [finish, hvalue, inHand, Option.toList_some, List.map_cons, List.map_nil]
          omega
      | async =>
          rcases finishAsync_cases c seq v with ⟨hsame, hnone, -, -⟩ |
              ⟨fault, t, -, hfind, hvalue⟩
          · simp only [finish, Logged.value_pure, hsame, hnone, Option.toList_none, List.map_nil,
              due_nil]
            omega
          · have htaken := due_taken_le hfind w
            simp only [Waiter.completion?, Option.toList_some, due_append] at htaken
            simp only [finish, Logged.value_pure, hvalue, Option.toList_some, List.map_cons,
              List.map_nil]
            omega

/-- A machine in memory gives an outcome at once or puts the request off. -/
theorem memory_send_cases (vm : TableVm Errand) (r : Request) (errand : Errand) :
    ((vm.send r errand).outcome = none ∧
      (vm.send r errand).vm.deferred = vm.deferred ++ [(r, errand)]) ∨
    ∃ o, (vm.send r errand).outcome = some o ∧ (vm.send r errand).vm.deferred = vm.deferred := by
  unfold TableVm.send
  cases vm.dropping with
  | true => exact .inr ⟨_, rfl, rfl⟩
  | false =>
      cases vm.manner with
      | defer => exact .inl ⟨rfl, rfl⟩
      | reply => exact .inr ⟨_, rfl, rfl⟩
      | transportFailure => exact .inr ⟨_, rfl, rfl⟩
      | sendError => exact .inr ⟨_, rfl, rfl⟩
      | unsuccessful => exact .inr ⟨_, rfl, rfl⟩

/-- What sends the lookups that come of a request while that is sent. -/
def issueWithin (depth : Nat) : Issue := fun l d => do
  let (d, v) ← send depth (l.request d.session.options) d.session.options.mode (.lookup l.waiting) d
  match v with
  | .error _ => Logged.note .debug Log.resolve "lookup not sent"
  | .ok () => pure ()
  pure d

theorem issueWithin_value (depth : Nat) (l : Lookup) (d : Debugger) :
    (issueWithin depth l d).value = (send depth (l.request d.session.options)
      d.session.options.mode (.lookup l.waiting) d).value.1 := by
  simp only [issueWithin, Logged.value_bind]
  split <;> rfl

/-- A send keeps accounts: the errand that is handed in is fired, put off or entered in the table. -/
theorem send_leads (depth : Nat) (r : Request) (mode : SendMode) (errand : Errand) :
    Leads d (errand :: hand) (send depth r mode errand d).value.1 hand := by
  induction depth generalizing r mode errand d hand with
  | zero => exact .drop d errand hand
  | succ depth ih =>
      unfold send
      -- Whatever comes of this request may send lookups with one level less.
      extract_lets issue
      have hissue : Sound issue := by
        intro l e hand
        change Leads e _ (issueWithin depth l e).value hand
        rw [issueWithin_value]
        exact ih _ _ _
      clear_value issue
      cases hc : d.channel with
      | memory vm =>
          dsimp only
          rcases memory_send_cases vm r errand with ⟨hnone, hdeferred⟩ | ⟨o, hsome, hdeferred⟩
          · rw [hnone]
            refine .of_channel rfl fun w => ?_
            simp only [Logged.value_pure, errands, hc, hdeferred, List.map_append, List.map_cons,
              List.map_nil, due_append]
            rw [due_cons errand hand]
            omega
          · rw [hsome]
            simp only [Logged.value_bind, Logged.value_pure]
            refine Leads.trans ?_ (fire_leads hissue errand o)
            refine .of_channel rfl fun w => ?_
            simp only [errands, hc, hdeferred]
            omega
      | wire c sink =>
          simp only [Logged.value_bind]
          rcases start_cases c r mode errand with ⟨-, hvalue⟩ | ⟨-, fault, hvalue⟩ |
              ⟨-, frame, -, hvalue⟩
          · simp only [hvalue, Logged.value_bind, Logged.value_pure]
            refine Leads.trans ?_ (fireAll_leads hissue _)
            refine .of_channel rfl fun w => ?_
            simp only [errands, hc, List.map_cons, List.map_nil, List.singleton_append]
            omega
          · simp only [hvalue, Logged.value_bind, Logged.value_pure]
            refine Leads.trans ?_ (fireAll_leads hissue _)
            refine .of_channel rfl fun w => ?_
            simp only [errands, hc, List.map_cons, List.map_nil, List.singleton_append]
            omega
          · simp only [hvalue, Logged.value_bind]
            refine Leads.trans ?_ (finishSend_leads hissue c.nextSeq mode errand _)
            refine Leads.trans ?_ (react_leads hissue c.nextSeq (sink.next r).1)
            -- While the sink works, the errand stands in the table or stays with its sender.
            refine .of_channel rfl fun w => ?_
            simp only [errands, hc, completions_append, due_append]
            rw [due_cons errand hand]
            cases mode with
            | async =>
                simp only [inHand, due_nil, completions, Waiter.of, List.filterMap_cons,
                  Waiter.completion?, List.filterMap_nil]
                omega
            | sync =>
                simp only [inHand, completions, Waiter.of, List.filterMap_cons,
                  Waiter.completion?, List.filterMap_nil, due_nil]
                omega

theorem sound_issue : Sound Debugger.issue := by
  intro l d hand
  change Leads d _ (issueWithin d.depth l d).value hand
  rw [issueWithin_value]
  exact send_leads _ _ _ _

/-! ### Operations of a debugger -/

theorem hold_leads (frames : List FrameId) (nodes : List NodeId) : Leads d hand
    (d.withSession { d.session with heldFrames := frames, heldNodes := nodes }) hand :=
  .of_move (.hold frames nodes) nofun fun x hx => by simp only [Inquiry.step, hx]

theorem holding_leads {α : Type} {ids : List NodeId} {act : Debugger → Logged (α × Debugger)}
    (hact : ∀ e, Leads e hand (act e).value.2 hand) :
    Leads d hand (d.holding ids act).value.2 hand := by
  simp only [holding, Logged.value_bind, Logged.value_pure]
  exact ((hold_leads d.session.heldFrames (ids ++ d.session.heldNodes)).trans (hact _)).trans
    (hold_leads _ d.session.heldNodes)

theorem expand_leads (id : NodeId) : Leads d hand (d.expand id).value hand := by
  simp only [expand, Logged.value_bind, Logged.value_pure]
  refine holding_leads fun e => ?_
  simp only [Logged.value_bind, Logged.value_pure]
  exact follow_move sound_issue (.expand id) nofun (.node id) fun x hx => by
    simp only [Inquiry.step, hx]

theorem ensureProperties_leads (id : NodeId) (refs : List PropertyRef) :
    Leads d hand (d.ensureProperties id refs).value hand := by
  simp only [ensureProperties, Logged.value_bind, Logged.value_pure]
  refine holding_leads fun e => ?_
  simp only [Logged.value_bind, Logged.value_pure]
  exact follow_move sound_issue (.ensureProperties id refs) nofun (.node id) fun x hx => by
    simp only [Inquiry.step, hx]

theorem ensureVariables_leads {id : FrameId} {d' : Debugger}
    (h : (d.ensureVariables id).value = .ok d') : Leads d hand d' hand := by
  simp only [ensureVariables, Logged.value_bind] at h
  cases hnext : (d.session.ensureVariables id).value with
  | error e =>
      simp only [hnext, Logged.value_pure] at h
      cases h
  | ok next =>
      simp only [hnext, Logged.value_bind, Logged.value_pure] at h
      cases h
      exact follow_move sound_issue (.ensureVariables id) nofun (.frame id) fun x hx => by
        simp only [Inquiry.step, hx, hnext]

theorem materialize_leads {body : Json} {refs : List Json} {ids : List FrameId} {s : Session}
    (h : (d.session.materialize body refs).value = .ok (ids, s)) :
    Leads d hand (d.withSession s) hand :=
  .of_move (.materialize body refs) nofun fun x hx => by simp only [Inquiry.step, hx, h]

/-- A request that is no lookup is sent. -/
theorem send_other_leads (depth : Nat) (r : Request) (mode : SendMode) (errand : Errand)
    (h : errand.waiting? = none) :
    Leads d hand (send depth r mode errand d).value.1 hand := by
  refine Leads.trans ?_ (send_leads depth r mode errand)
  refine .of_channel rfl fun w => ?_
  have hnone : due [errand] w = 0 := by simp [due, h]
  rw [due_cons, hnone]
  omega

theorem finishBacktrace_leads {o : Option Outcome} {ids : List FrameId} {s : Session}
    (h : (d.session.finishBacktrace o).value = .ok (ids, s)) :
    Leads d hand (d.withSession s) hand := by
  unfold Session.finishBacktrace at h
  split at h
  · cases h
  · cases h
  · split at h
    · exact materialize_leads h
    · cases h

def asked (d : Debugger) (first last : UInt32) : Debugger :=
  (send d.depth (.backtrace first last d.session.options.inlineRefs) .sync .backtrace
    { d with backtrace := none }).value.1

/-- What the send of the request to go on leaves of a debugger, and the word of the channel. -/
def toldToGoOn (d : Debugger) : Debugger × Verdict :=
  (send d.depth .resume .async .resume d).value

theorem requestBacktrace_value (d : Debugger) (first last : UInt32) :
    (d.requestBacktrace first last).value =
      match ((d.asked first last).session.finishBacktrace (d.asked first last).backtrace).value with
      | .error err => (.error err, d.asked first last)
      | .ok (ids, s) => (.ok ids, (d.asked first last).withSession s) := by
  simp only [requestBacktrace, asked, Logged.value_bind]
  generalize (send d.depth (.backtrace first last d.session.options.inlineRefs) .sync .backtrace
    { d with backtrace := none }).value.1 = sent
  cases (sent.session.finishBacktrace sent.backtrace).value <;> rfl

theorem resume_value (d : Debugger) : d.resume.value =
    match d.toldToGoOn.2 with
    | .error fault => (.error (.channel fault), d.toldToGoOn.1)
    | .ok () => (.ok (), d.toldToGoOn.1.withSession d.toldToGoOn.1.session.retire.value) := by
  simp only [resume, toldToGoOn, Logged.value_bind]
  generalize (send d.depth .resume .async .resume d).value = sent
  cases sent.2 <;> rfl

theorem requestBacktrace_leads (first last : UInt32) :
    Leads d hand (d.requestBacktrace first last).value.2 hand := by
  have hbegin : Leads d hand { d with backtrace := none } hand :=
    .of_channel rfl fun _ => Nat.le_refl _
  have hasked : Leads d hand (d.asked first last) hand :=
    hbegin.trans (send_other_leads _ _ _ _ rfl)
  rw [requestBacktrace_value]
  cases hnext : ((d.asked first last).session.finishBacktrace (d.asked first last).backtrace).value with
  | error e => exact hasked
  | ok next => exact hasked.trans (finishBacktrace_leads hnext)

theorem resume_leads : Leads d hand d.resume.value.2 hand := by
  have htold : Leads d hand d.toldToGoOn.1 hand := send_other_leads _ _ _ _ rfl
  rw [resume_value]
  split
  · exact htold
  · exact htold.trans retire_leads

/-- The errands that a machine in memory has put off go into the hands of who sees to them. -/
theorem takeDeferred_leads :
    Leads d hand d.takeDeferred.2 (d.takeDeferred.1.map (·.2) ++ hand) := by
  unfold takeDeferred
  cases hc : d.channel with
  | wire c sink => exact .refl d hand
  | memory vm =>
      refine .of_channel rfl fun w => ?_
      simp only [errands, hc, List.map_nil, due_append, due_nil]
      omega

theorem releaseAll_leads (deferred : List (Request × Errand)) :
    Leads d (deferred.map (·.2) ++ hand) (releaseAll deferred d).value hand := by
  induction deferred generalizing d with
  | nil => exact .refl d hand
  | cons x rest ih =>
      obtain ⟨r, errand⟩ := x
      unfold releaseAll
      cases hc : d.channel with
      | wire c sink =>
          -- Only a machine in memory puts requests off; a connection lets go of them.
          refine .of_channel rfl fun w => ?_
          simp only [due_append, Logged.value_pure]
          omega
      | memory vm =>
          simp only [Logged.value_bind]
          refine Leads.trans ?_ ((fire_leads sound_issue errand (.ok (vm.reply r).1)).trans ih)
          refine .of_channel rfl fun w => ?_
          simp only [errands, hc]
          exact Nat.le_refl _

theorem failAll_leads (f : ChannelFault) (deferred : List (Request × Errand)) :
    Leads d (deferred.map (·.2) ++ hand) (failAll f deferred d).value hand := by
  induction deferred generalizing d with
  | nil => exact .refl d hand
  | cons x rest ih =>
      simp only [failAll, Logged.value_bind]
      exact (fire_leads sound_issue x.2 (.error f)).trans ih

/-- What callers and the channel do to a debugger through its session. -/
inductive Works (d : Debugger) : Debugger → Prop where
  | createFrame (index : UInt32) (function : String) (bindings : List Binding) :
      Works d (d.withSession (d.session.createFrame index function bindings).value.2)
  | materialize {body refs ids s} : (d.session.materialize body refs).value = .ok (ids, s) →
      Works d (d.withSession s)
  | expand (id : NodeId) : Works d (d.expand id).value
  | ensureProperties (id : NodeId) (refs : List PropertyRef) :
      Works d (d.ensureProperties id refs).value
  | ensureVariables {id d'} : (d.ensureVariables id).value = .ok d' → Works d d'
  | requestBacktrace (first last : UInt32) : Works d (d.requestBacktrace first last).value.2
  | resume : Works d d.resume.value.2
  | retire : Works d (d.withSession d.session.retire.value)
  | handleMessage (e : Envelope) : Works d (d.withSession (d.session.handleMessage e).value)
  | remoteBinding (name : String) (o : RemoteObject) :
      Works d (d.withSession (d.session.remoteBinding name o).2)
  | callBinding (name : String) (data : CallResult) :
      Works d (d.withSession (d.session.callBinding name data).2)
  | absorb (parent : RemoteObject) (data : PropertyListing) :
      Works d (d.withSession (d.session.absorb parent data).2)
  | store (h : Handle) (p : Payload) : Works d (d.withSession (d.session.learned h p))
  | hold (frames : List FrameId) (nodes : List NodeId) :
      Works d (d.withSession { d.session with heldFrames := frames, heldNodes := nodes })
  | deliver (e : Envelope) : Works d (d.deliver e).value.2
  | close : Works d d.close.value
  | release : Works d d.releaseDeferred.value.2
  | fail (f : ChannelFault) : Works d (d.failDeferred f).value.2
  /-- The machine in memory is given something to answer, or another manner. -/
  | configure {vm vm'} : d.channel = .memory vm → vm'.deferred = vm.deferred →
      Works d { d with channel := .memory vm' }
  /-- The sink is told what to do with frames to come. -/
  | script {c sink} (sink' : Sink) : d.channel = .wire c sink →
      Works d { d with channel := .wire c sink' }

theorem Works.leads {d d' : Debugger} (h : d.Works d') : Leads d [] d' [] := by
  cases h with
  | createFrame index function bindings =>
      exact .of_move (.createFrame index function bindings) (by rintro ⟨⟩) fun x hx => by
        simp only [Inquiry.step, hx]
  | materialize h => exact materialize_leads h
  | expand id => exact expand_leads id
  | ensureProperties id refs => exact ensureProperties_leads id refs
  | ensureVariables h => exact ensureVariables_leads h
  | requestBacktrace first last => exact requestBacktrace_leads first last
  | resume => exact resume_leads
  | retire => exact retire_leads
  | handleMessage e => exact handleMessage_leads e
  | remoteBinding name o =>
      exact .of_move (.name o) (by rintro ⟨⟩) fun x hx => by
        simp only [Inquiry.step, hx, Session.remoteBinding]
  | callBinding name data =>
      have htable : (data.reduce d.session.table).2 = (data.result.reduce d.session.table).2 := by
        unfold CallResult.reduce
        dsimp only
        split <;> rfl
      exact .of_move (.name data.result) (by rintro ⟨⟩) fun x hx => by
        simp only [Inquiry.step, hx, Session.callBinding, htable]
  | absorb parent data =>
      exact .of_move (.absorb parent data) (by rintro ⟨⟩) fun x hx => by simp only [Inquiry.step, hx]
  | store h p => exact .of_move (.store h p) (by rintro ⟨⟩) fun x hx => by simp only [Inquiry.step, hx]
  | hold frames nodes => exact hold_leads frames nodes
  | deliver e => exact route_leads sound_issue e
  | close => exact shut_leads sound_issue
  | release =>
      have htaken : Leads d [] d.takeDeferred.2 (d.takeDeferred.1.map (·.2) ++ []) :=
        takeDeferred_leads
      exact htaken.trans (releaseAll_leads d.takeDeferred.1)
  | fail f =>
      have htaken : Leads d [] d.takeDeferred.2 (d.takeDeferred.1.map (·.2) ++ []) :=
        takeDeferred_leads
      exact htaken.trans (failAll_leads f d.takeDeferred.1)
  | configure hc hdeferred =>
      refine .of_channel rfl fun w => ?_
      simp only [errands, hc, hdeferred]
      exact Nat.le_refl _
  | script sink' hc =>
      refine .of_channel rfl fun w => ?_
      simp only [errands, hc]
      exact Nat.le_refl _

/-- What can happen to a debugger, also by a caller who has its cache and invalidates that. -/
inductive Does (d : Debugger) : Debugger → Prop where
  | works {d'} : Works d d' → Does d d'
  | invalidate :
      Does d (d.withSession { d.session with cache := d.session.cache.invalidate.value })

theorem Does.moves {d d' : Debugger} (h : d.Does d') {x : Inquiry} (hx : x.Tracks d []) :
    ∃ moves, (x.after moves).Tracks d' [] := by
  cases h with
  | works h =>
      obtain ⟨moves, -, hmoves⟩ := h.leads x hx
      exact ⟨moves, hmoves⟩
  | invalidate =>
      refine ⟨[.invalidate], ?_, hx.covers⟩
      show { x.session with cache := x.session.cache.invalidate.value } = _
      rw [hx.session]
      rfl

/-- Whatever is done to a debugger that begins with a new session and an idle channel, there are moves
that lead from a new session to the same one, with every lookup under way that the channel may yet
give an outcome to. -/
theorem reached_by_moves {options : LookupOptions} {start d : Debugger}
    (hsession : start.session = { options := options }) (hidle : start.errands = [])
    (h : Relation.ReflTransGen Does start d) :
    ∃ moves, (Inquiry.run options moves).Tracks d [] := by
  induction h with
  | refl =>
      refine ⟨[], hsession.symm, fun w => ?_⟩
      rw [hidle]
      exact Nat.zero_le _
  | tail _ hlast ih =>
      obtain ⟨moves, hmoves⟩ := ih
      obtain ⟨moves', hmoves'⟩ := hlast.moves hmoves
      refine ⟨moves ++ moves', ?_⟩
      rw [Inquiry.run_append]
      exact hmoves'

end Debugger

end RemoteInspector
