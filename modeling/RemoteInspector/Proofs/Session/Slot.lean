import RemoteInspector.Proofs.Session.Schedule

/-!
The place where the outcome of a request for a backtrace is put. Whoever asks for a backtrace clears
it, sends the request, and looks there when the send has returned. Nothing else looks there: two
debuggers that differ in that place only can do the same things, with the same results, and differ in
that place only afterwards. An outcome that is put there when its sender has looked already is
therefore lost, whatever is done from then on.
-/

namespace RemoteInspector

namespace Debugger

structure Alike (d e : Debugger) : Prop where
  session : e.session = d.session
  channel : e.channel = d.channel
  written : e.written = d.written

/-- A way to send lookups does not depend on what came of a request for a backtrace. -/
def Blind (issue : Issue) : Prop :=
  ∀ l d e, Alike d e → Alike (issue l d).value (issue l e).value

variable {issue : Issue} {d e f : Debugger}

namespace Alike

theorem refl (d : Debugger) : Alike d d := ⟨rfl, rfl, rfl⟩

theorem symm (h : Alike d e) : Alike e d := ⟨h.session.symm, h.channel.symm, h.written.symm⟩

theorem trans (h : Alike d e) (h' : Alike e f) : Alike d f :=
  ⟨h'.session.trans h.session, h'.channel.trans h.channel, h'.written.trans h.written⟩

theorem withSession (h : Alike d e) (s : Session) : Alike (d.withSession s) (e.withSession s) :=
  ⟨rfl, h.channel, h.written⟩

theorem withChannel (h : Alike d e) (c : Channel) :
    Alike { d with channel := c } { e with channel := c } :=
  ⟨h.session, rfl, h.written⟩

/-- What is done to the session alone is the same for both. -/
theorem onSession (h : Alike d e) (act : Session → Session) :
    Alike (d.withSession (act d.session)) (e.withSession (act e.session)) := by
  rw [h.session]
  exact h.withSession _

theorem depth (h : Alike d e) : e.depth = d.depth := by
  simp only [Debugger.depth, h.channel]

/-! ### Completions -/

theorem follow (h : Alike d e) (hissue : Blind issue) (next : Session × Option Lookup) :
    Alike (Debugger.follow issue d next).value (Debugger.follow issue e next).value := by
  obtain ⟨s, l⟩ := next
  cases l with
  | none => exact h.withSession s
  | some l => exact hissue l _ _ (h.withSession s)

theorem fire (h : Alike d e) (hissue : Blind issue) (errand : Errand) (o : Outcome) :
    Alike (d.fire issue errand o).value (e.fire issue errand o).value := by
  cases errand with
  | lookup w =>
      simp only [Debugger.fire, Logged.value_bind, h.session]
      exact h.follow hissue _
  | backtrace => exact ⟨h.session, h.channel, h.written⟩
  | resume => cases o <;> exact h

theorem fireAll (h : Alike d e) (hissue : Blind issue) (fs : List (Firing Errand)) :
    Alike (Debugger.fireAll issue fs d).value (Debugger.fireAll issue fs e).value := by
  induction fs generalizing d e with
  | nil => exact h
  | cons f fs ih =>
      simp only [Debugger.fireAll, Logged.value_bind]
      exact ih (h.fire hissue f.completion f.outcome)

/-! ### The channel -/

theorem route (h : Alike d e) (hissue : Blind issue) (m : Envelope) :
    (e.route issue m).value.1 = (d.route issue m).value.1 ∧
      Alike (d.route issue m).value.2 (e.route issue m).value.2 := by
  unfold Debugger.route
  rw [h.channel]
  cases d.channel with
  | memory vm => exact ⟨rfl, h⟩
  | wire c sink =>
      simp only [Logged.value_bind]
      have hfired := (h.withChannel (.wire (c.deliver m).value.correlator sink)).fireAll hissue
        (c.deliver m).value.fired.toList
      cases (c.deliver m).value.returned with
      | none => exact ⟨rfl, hfired⟩
      | some m' => exact ⟨rfl, hfired.onSession fun s => (s.handleMessage m').value⟩

theorem shut (h : Alike d e) (hissue : Blind issue) :
    Alike (d.shut issue).value (e.shut issue).value := by
  unfold Debugger.shut
  rw [h.channel]
  cases d.channel with
  | memory vm => exact h
  | wire c sink =>
      simp only [Logged.value_bind]
      exact (h.withChannel _).fireAll hissue _

theorem perform (h : Alike d e) (hissue : Blind issue) (act : Act) :
    Alike (d.perform issue act) (e.perform issue act) := by
  cases act with
  | nothing => exact h
  | shut => exact h.shut hissue
  | retire => exact h.onSession fun s => s.retire.value
  | route m => exact (h.route hissue m).2

theorem react (h : Alike d e) (hissue : Blind issue) (seq : UInt64) (reaction : Reaction) :
    (Debugger.react issue seq reaction e).value.2 = (Debugger.react issue seq reaction d).value.2 ∧
      Alike (Debugger.react issue seq reaction d).value.1
        (Debugger.react issue seq reaction e).value.1 := by
  induction reaction generalizing d e with
  | nil => exact ⟨rfl, h⟩
  | cons step rest ih =>
      rcases react_cases issue seq step rest with ⟨-, fault, hvalue⟩ | ⟨act, -, hvalue⟩
      · rw [hvalue, hvalue]
        exact ⟨rfl, h⟩
      · rw [hvalue, hvalue]
        exact ih (h.perform hissue act)

theorem finishSend (h : Alike d e) (hissue : Blind issue) (seq : UInt64) (mode : SendMode)
    (errand : Errand) (v : Correlator.Verdict) :
    (e.finishSend issue seq mode errand v).value.2 = (d.finishSend issue seq mode errand v).value.2 ∧
      Alike (d.finishSend issue seq mode errand v).value.1
        (e.finishSend issue seq mode errand v).value.1 := by
  unfold Debugger.finishSend
  rw [h.channel]
  cases d.channel with
  | memory vm => exact ⟨rfl, h⟩
  | wire c sink =>
      simp only [Logged.value_bind, Logged.value_pure]
      exact ⟨trivial, (h.withChannel _).fireAll hissue _⟩

theorem send (h : Alike d e) (depth : Nat) (r : Request) (mode : SendMode) (errand : Errand) :
    (Debugger.send depth r mode errand e).value.2 = (Debugger.send depth r mode errand d).value.2 ∧
      Alike (Debugger.send depth r mode errand d).value.1
        (Debugger.send depth r mode errand e).value.1 := by
  induction depth generalizing r mode errand d e with
  | zero => exact ⟨rfl, h⟩
  | succ depth ih =>
      unfold Debugger.send
      -- Whatever comes of this request may send lookups with one level less.
      extract_lets issue
      have hissue : Blind issue := by
        intro l d e h
        change Alike (issueWithin depth l d).value (issueWithin depth l e).value
        rw [issueWithin_value, issueWithin_value, h.session]
        exact (ih h _ _ _).2
      clear_value issue
      rw [h.channel]
      cases d.channel with
      | memory vm =>
          dsimp only
          cases (vm.send r errand).outcome with
          | none => exact ⟨rfl, h.withChannel _⟩
          | some o =>
              simp only [Logged.value_bind, Logged.value_pure]
              exact ⟨trivial, (h.withChannel _).fire hissue errand o⟩
      | wire c sink =>
          simp only [Logged.value_bind]
          cases (c.start r mode errand).value with
          | refused c f fault =>
              simp only [Logged.value_bind, Logged.value_pure]
              exact ⟨trivial, (h.withChannel _).fireAll hissue [f]⟩
          | written c seq frame =>
              simp only [Logged.value_bind]
              have hbegun : Alike
                  { d with channel := .wire c (sink.next r).2, written := frame :: d.written }
                  { e with channel := .wire c (sink.next r).2, written := frame :: e.written } :=
                ⟨h.session, rfl, congrArg (frame :: ·) h.written⟩
              obtain ⟨hverdict, hreacted⟩ := hbegun.react hissue seq (sink.next r).1
              rw [hverdict]
              exact hreacted.finishSend hissue seq mode errand _

end Alike

theorem blind_issue : Blind Debugger.issue := by
  intro l d e h
  change Alike (issueWithin d.depth l d).value (issueWithin e.depth l e).value
  rw [issueWithin_value, issueWithin_value, h.session, h.depth]
  exact (h.send _ _ _ _).2

namespace Alike

/-! ### Operations of a debugger -/

theorem holding {α : Type} {ids : List NodeId} {act : Debugger → Logged (α × Debugger)}
    (h : Alike d e) (hact : ∀ {d e}, Alike d e → Alike (act d).value.2 (act e).value.2) :
    Alike (d.holding ids act).value.2 (e.holding ids act).value.2 := by
  simp only [Debugger.holding, Logged.value_bind, Logged.value_pure, h.session]
  exact (hact (h.withSession _)).onSession fun s => { s with heldNodes := d.session.heldNodes }

theorem expand (h : Alike d e) (id : NodeId) : Alike (d.expand id).value (e.expand id).value := by
  simp only [Debugger.expand, Logged.value_bind, Logged.value_pure]
  refine h.holding fun h => ?_
  simp only [Logged.value_bind, Logged.value_pure, h.session]
  exact h.follow blind_issue _

theorem ensureProperties (h : Alike d e) (id : NodeId) (refs : List PropertyRef) :
    Alike (d.ensureProperties id refs).value (e.ensureProperties id refs).value := by
  simp only [Debugger.ensureProperties, Logged.value_bind, Logged.value_pure]
  refine h.holding fun h => ?_
  simp only [Logged.value_bind, Logged.value_pure, h.session]
  exact h.follow blind_issue _

theorem ensureVariables (h : Alike d e) {id : FrameId} {d' : Debugger}
    (hd : (d.ensureVariables id).value = .ok d') :
    ∃ e', (e.ensureVariables id).value = .ok e' ∧ Alike d' e' := by
  simp only [Debugger.ensureVariables, Logged.value_bind] at hd ⊢
  rw [h.session]
  cases hnext : (d.session.ensureVariables id).value with
  | error err =>
      simp only [hnext, Logged.value_pure] at hd
      cases hd
  | ok next =>
      simp only [hnext, Logged.value_bind, Logged.value_pure] at hd ⊢
      cases hd
      exact ⟨_, rfl, h.follow blind_issue next⟩

/-- Whoever asks for a backtrace looks at what comes of that, and at nothing older. -/
theorem requestBacktrace (h : Alike d e) (first last : UInt32) :
    e.requestBacktrace first last = d.requestBacktrace first last := by
  simp only [Debugger.requestBacktrace, h.depth, h.session, h.channel, h.written]

theorem resume (h : Alike d e) : e.resume.value.1 = d.resume.value.1 ∧
    Alike d.resume.value.2 e.resume.value.2 := by
  obtain ⟨hverdict, hsent⟩ := h.send d.depth .resume .async .resume
  simp only [Debugger.resume, Logged.value_bind, h.depth, hverdict]
  cases (Debugger.send d.depth .resume .async .resume d).value.2 with
  | error fault => exact ⟨rfl, hsent⟩
  | ok _ => exact ⟨rfl, hsent.onSession fun s => s.retire.value⟩

theorem takeDeferred (h : Alike d e) : e.takeDeferred.1 = d.takeDeferred.1 ∧
    Alike d.takeDeferred.2 e.takeDeferred.2 := by
  unfold Debugger.takeDeferred
  rw [h.channel]
  cases d.channel with
  | memory vm => exact ⟨rfl, h.withChannel _⟩
  | wire c sink => exact ⟨rfl, h⟩

theorem releaseAll (h : Alike d e) (deferred : List (Request × Errand)) :
    Alike (Debugger.releaseAll deferred d).value (Debugger.releaseAll deferred e).value := by
  induction deferred generalizing d e with
  | nil => exact h
  | cons x rest ih =>
      obtain ⟨r, errand⟩ := x
      unfold Debugger.releaseAll
      rw [h.channel]
      cases d.channel with
      | wire c sink => exact h
      | memory vm =>
          simp only [Logged.value_bind]
          exact ih ((h.withChannel _).fire blind_issue errand _)

theorem failAll (h : Alike d e) (fault : ChannelFault) (deferred : List (Request × Errand)) :
    Alike (Debugger.failAll fault deferred d).value (Debugger.failAll fault deferred e).value := by
  induction deferred generalizing d e with
  | nil => exact h
  | cons x rest ih =>
      simp only [Debugger.failAll, Logged.value_bind]
      exact ih (h.fire blind_issue x.2 (.error fault))

theorem releaseDeferred (h : Alike d e) :
    e.releaseDeferred.value.1 = d.releaseDeferred.value.1 ∧
      Alike d.releaseDeferred.value.2 e.releaseDeferred.value.2 := by
  obtain ⟨hsame, htaken⟩ := h.takeDeferred
  simp only [Debugger.releaseDeferred, Logged.value_bind, Logged.value_pure, hsame]
  exact ⟨trivial, htaken.releaseAll _⟩

theorem failDeferred (h : Alike d e) (fault : ChannelFault) :
    (e.failDeferred fault).value.1 = (d.failDeferred fault).value.1 ∧
      Alike (d.failDeferred fault).value.2 (e.failDeferred fault).value.2 := by
  obtain ⟨hsame, htaken⟩ := h.takeDeferred
  simp only [Debugger.failDeferred, Logged.value_bind, Logged.value_pure, hsame]
  exact ⟨trivial, htaken.failAll fault _⟩

end Alike

/-- Whatever is done to one of two debuggers that are alike can be done to the other, and they are alike
after it. -/
theorem Works.alike {d' : Debugger} (hd : d.Works d') (h : Alike d e) :
    ∃ e', e.Works e' ∧ Alike d' e' := by
  cases hd with
  | createFrame index function bindings =>
      exact ⟨_, .createFrame index function bindings,
        h.onSession fun s => (s.createFrame index function bindings).value.2⟩
  | materialize hnext =>
      rw [← h.session] at hnext
      exact ⟨_, .materialize hnext, h.withSession _⟩
  | expand id => exact ⟨_, .expand id, h.expand id⟩
  | ensureProperties id refs => exact ⟨_, .ensureProperties id refs, h.ensureProperties id refs⟩
  | ensureVariables hd =>
      obtain ⟨e', he, halike⟩ := h.ensureVariables hd
      exact ⟨e', .ensureVariables he, halike⟩
  | requestBacktrace first last =>
      refine ⟨_, .requestBacktrace first last, ?_⟩
      rw [h.requestBacktrace]
      exact .refl _
  | resume => exact ⟨_, .resume, h.resume.2⟩
  | retire => exact ⟨_, .retire, h.onSession fun s => s.retire.value⟩
  | handleMessage m => exact ⟨_, .handleMessage m, h.onSession fun s => (s.handleMessage m).value⟩
  | remoteBinding name o =>
      exact ⟨_, .remoteBinding name o, h.onSession fun s => (s.remoteBinding name o).2⟩
  | callBinding name data =>
      exact ⟨_, .callBinding name data, h.onSession fun s => (s.callBinding name data).2⟩
  | absorb parent data =>
      exact ⟨_, .absorb parent data, h.onSession fun s => (s.absorb parent data).2⟩
  | store k p => exact ⟨_, .store k p, h.onSession fun s => s.learned k p⟩
  | hold frames nodes =>
      exact ⟨_, .hold frames nodes,
        h.onSession fun s => { s with heldFrames := frames, heldNodes := nodes }⟩
  | deliver m => exact ⟨_, .deliver m, (h.route blind_issue m).2⟩
  | close => exact ⟨_, .close, h.shut blind_issue⟩
  | release => exact ⟨_, .release, h.releaseDeferred.2⟩
  | fail fault => exact ⟨_, .fail fault, (h.failDeferred fault).2⟩
  | configure hc hdeferred =>
      exact ⟨_, .configure (h.channel.trans hc) hdeferred, h.withChannel _⟩
  | script sink' hc => exact ⟨_, .script sink' (h.channel.trans hc), h.withChannel _⟩

theorem alike_of_works {d' : Debugger} (hd : Relation.ReflTransGen Works d d') (h : Alike d e) :
    ∃ e', Relation.ReflTransGen Works e e' ∧ Alike d' e' := by
  induction hd with
  | refl => exact ⟨e, .refl, h⟩
  | tail _ hlast ih =>
      obtain ⟨e', hrun, halike⟩ := ih
      obtain ⟨e'', hstep, halike'⟩ := hlast.alike halike
      exact ⟨e'', hrun.tail hstep, halike'⟩

end Debugger

end RemoteInspector
