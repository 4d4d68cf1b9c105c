import RemoteInspector.Proofs.Session.Captured
import RemoteInspector.Proofs.Session.Rest
import RemoteInspector.Proofs.Session.Schedule

/-!
Frames from one suspension to the next. The frames that a session lists are always those of the present
suspension, whichever operation has listed them. The end of a suspension leaves no frames, an empty
cache and no names of remote objects, and begins a generation that has not been before; from then on
every frame and every node that was there is invalid.
-/

namespace RemoteInspector

namespace Session

variable {s s' : Session}

def ListsCurrent (s : Session) : Prop :=
  ∀ id ∈ s.current, ∃ f, s.callFrame? id = some f ∧ s.isCurrent f.generation = true

/-- Frames that are listed in the same suspension as before are still valid. -/
theorem ListsCurrent.of_grows (h : s.ListsCurrent) (hgrows : s.Grows s')
    (hgen : s'.cache.generation = s.cache.generation) (hcurrent : s'.current = s.current) :
    s'.ListsCurrent := by
  intro id hid
  rw [hcurrent] at hid
  obtain ⟨f, hf, hvalid⟩ := h id hid
  obtain ⟨requested, hf'⟩ := hgrows.callFrames id f hf
  refine ⟨_, hf', ?_⟩
  rw [isCurrent_iff] at hvalid ⊢
  rw [hgen]
  exact hvalid

theorem current_of_rest (h : s'.rest = s.rest) : s'.current = s.current := by
  have hcurrent : s'.rest.current = s.rest.current := by rw [h]
  exact hcurrent

/-- A frame that has been entered is of the present generation. -/
theorem Enters.current {id : FrameId} {f : StackFrame} (h : s.Enters id f) :
    ∃ g, s.callFrame? id = some g ∧ s.isCurrent g.generation = true := by
  obtain ⟨start, hframe, -⟩ := h
  exact ⟨_, hframe, isCurrent_iff.2 rfl⟩

theorem listsCurrent_createFrame (h : s.ListsCurrent) (index : UInt32) (function : String)
    (bindings : List Binding) : (s.createFrame index function bindings).value.2.ListsCurrent := by
  let made : StackFrame := { index := index, function := function, arguments := bindings }
  obtain ⟨hid, hcaptures⟩ := s.addFrame_captures made
  have hsame : (s.addFrame made).value.2.current = s.current := by rw [hcaptures.rest]
  have hcurrent : (s.createFrame index function bindings).value.2.current =
      s.current ++ [s.callFrames.size] := by
    show (s.addFrame made).value.2.current ++ [(s.addFrame made).value.1] = _
    rw [hsame, hid]
  intro id hmem
  rw [hcurrent] at hmem
  rcases List.mem_append.1 hmem with hold | hnew
  · obtain ⟨f, hf, hvalid⟩ := h id hold
    refine ⟨f, hcaptures.callFrame? hf, ?_⟩
    rw [isCurrent_iff] at hvalid ⊢
    exact hvalid.trans (congrArg Cache.generation hcaptures.generation).symm
  · rw [List.mem_singleton.1 hnew]
    exact (hcaptures.enters 0 _ rfl).current

theorem listsCurrent_materialize {body : Json} {refs : List Json} {ids : List FrameId}
    (h : (s.materialize body refs).value = .ok (ids, s')) : s'.ListsCurrent := by
  cases hframes : StackFrame.listOfJson body with
  | error e =>
      rw [materialize_refuses s refs hframes] at h
      cases h
  | ok frames =>
      obtain ⟨ids', t, hvalue, htakes⟩ := s.materialize_takes refs hframes
      rw [hvalue] at h
      cases h
      intro id hid
      have hcurrent : s'.current = List.range' s.callFrames.size frames.length := by
        rw [htakes.rest]
        exact htakes.numbers
      rw [hcurrent] at hid
      obtain ⟨i, hi, rfl⟩ := List.mem_range'.1 hid
      rw [Nat.one_mul]
      exact (htakes.enters i frames[i] (List.getElem?_eq_getElem hi)).current

/-! ### The end of a suspension -/

/-- A suspension has ended, and nothing of it is left. -/
structure Retired (s s' : Session) : Prop where
  current : s'.current = []
  cache : s'.cache.entries = []
  entries : s'.table.entries = []
  names : s'.table.names = []
  generation : s.cache.generation < s'.cache.generation

theorem retired_retire (s : Session) : s.Retired s.retire.value where
  current := rfl
  cache := rfl
  entries := rfl
  names := rfl
  generation := Nat.lt_succ_self _

end Session

/-- The message tells that the machine runs, or it is an event that tells of a new halt. -/
def Envelope.TellsEnd (e : Envelope) : Prop :=
  e.running = some true ∨ e.kind = "event" ∧ (e.event = some "break" ∨ e.event = some "exception")

namespace Session

theorem endsSuspension_iff {e : Envelope} : endsSuspension e = true ↔ e.TellsEnd := by
  simp [endsSuspension, Envelope.TellsEnd, Envelope.isEvent]

/-- A message ends the suspension or changes nothing. -/
theorem handleMessage_cases (s : Session) (e : Envelope) :
    (e.TellsEnd ∧ (s.handleMessage e).value = s.retire.value) ∨
      (¬ e.TellsEnd ∧ (s.handleMessage e).value = s) := by
  unfold handleMessage
  by_cases he : endsSuspension e = true
  · rw [if_pos he]
    exact .inl ⟨endsSuspension_iff.1 he, rfl⟩
  · rw [if_neg he]
    exact .inr ⟨mt endsSuspension_iff.2 he, rfl⟩

end Session

namespace Inquiry

variable {w : Inquiry}

/-! ### Moves -/

/-- The frames that are listed after a move are valid, unless the move makes the cache invalid under
them. -/
theorem step_listsCurrent (hw : w.Coherent) (h : w.session.ListsCurrent) {m : Move}
    (hm : .invalidate ≠ m) : (w.step m).session.ListsCurrent := by
  by_cases hends : m.Ends
  · -- A suspension that ends lists no frames.
    have hnone : (w.step m).session.current = [] → (w.step m).session.ListsCurrent := by
      intro hnone id hid
      rw [hnone] at hid
      cases hid
    cases m with
    | message e =>
        have he : Session.endsSuspension e = true := hends
        refine hnone ?_
        rw [step, Session.handleMessage, if_pos he]
        rfl
    | retire => exact hnone rfl
    | invalidate => exact (hm rfl).elim
    | _ => exact hends.elim
  · have hkept : (w.step m).session.current = w.session.current →
        (w.step m).session.ListsCurrent :=
      h.of_grows (step_grows hw m) (step_generation hw hends)
    cases m with
    | createFrame index function bindings =>
        exact Session.listsCurrent_createFrame h index function bindings
    | materialize body refs =>
        simp only [step] at hkept ⊢
        split
        · next hnext => exact Session.listsCurrent_materialize hnext
        · exact h
    | expand id =>
        refine hkept ?_
        rw [step, issue_session]
        exact Session.current_of_rest (w.session.rest_expand id)
    | ensureProperties id refs =>
        refine hkept ?_
        rw [step, issue_session]
        exact Session.current_of_rest (w.session.rest_ensureProperties id refs)
    | ensureVariables id =>
        refine hkept ?_
        simp only [step]
        split
        · next hnext =>
          obtain ⟨_, _, hvalue⟩ := Session.ensureVariables_nodes hnext
          rw [issue_session, hvalue]
        · rfl
    | settle place o =>
        refine hkept ?_
        simp only [step]
        split
        · rw [issue_session]
          exact Session.current_of_rest (w.session.rest_deliver _ o)
        · rfl
    | message e =>
        have he : ¬ Session.endsSuspension e = true := hends
        refine hkept ?_
        rw [step, Session.handleMessage, if_neg he]
        rfl
    | retire => exact (hends trivial).elim
    | invalidate => exact (hm rfl).elim
    | name o => exact hkept rfl
    | absorb parent data => exact hkept rfl
    | store h p => exact hkept rfl
    | hold frames nodes => exact hkept rfl

theorem after_listsCurrent (hw : w.Coherent) (h : w.session.ListsCurrent) {moves : List Move}
    (hm : .invalidate ∉ moves) : (w.after moves).session.ListsCurrent := by
  induction moves generalizing w with
  | nil => exact h
  | cons m moves ih =>
      obtain ⟨hne, hrest⟩ := not_or.1 (mt List.mem_cons.2 hm)
      exact ih (step_coherent hw m) (step_listsCurrent hw h hne) hrest

/-- What was there before a later generation has begun is not valid any more. -/
theorem after_invalid (hw : w.Coherent) (moves : List Move)
    (hlater : w.session.cache.generation < (w.after moves).session.cache.generation) {o : Owner}
    {g : Nat} (hg : w.session.generationOf o = some g) :
    (w.after moves).session.generationOf o = some g ∧
      (w.after moves).session.isCurrent g = false := by
  have hle := hw.dated.generationOf_le hg
  refine ⟨Session.generationOf_mono (after_grows hw moves) hg, ?_⟩
  rw [← Bool.not_eq_true, Session.isCurrent_iff]
  omega

end Inquiry

namespace Debugger

/-! ### Operations of a debugger -/

theorem works_leads {d d' : Debugger} (h : Relation.ReflTransGen Works d d') :
    Leads d [] d' [] := by
  induction h with
  | refl => exact .refl d []
  | tail _ hlast ih => exact ih.trans hlast.leads

/-- Whoever tells the machine to go on and has no error to report has retired the suspension. -/
theorem resume_retires {x : Inquiry} {d : Debugger} (hx : x.Tracks d []) (hw : x.Coherent)
    (hok : d.resume.value.1 = .ok ()) : d.session.Retired d.resume.value.2.session := by
  have hsend : Leads d [] (send d.depth .resume .async .resume d).value.1 [] :=
    send_other_leads _ _ _ _ rfl
  obtain ⟨moves, -, hmoves⟩ := hsend x hx
  have hle := Inquiry.after_generation_le hw moves
  rw [hx.session, hmoves.session] at hle
  simp only [resume, Logged.value_bind] at hok ⊢
  generalize (send d.depth .resume .async .resume d).value = sent at hle hok ⊢
  obtain ⟨d', v⟩ := sent
  cases v with
  | error f => cases hok
  | ok _ =>
      have hretired := Session.retired_retire d'.session
      exact ⟨hretired.current, hretired.cache, hretired.entries, hretired.names,
        Nat.lt_of_le_of_lt hle hretired.generation⟩

/-- What suspensions have to do with one another at a point of the work of a debugger. -/
structure SuspensionsApart (d : Debugger) : Prop where
  /-- Every frame that is listed is valid. -/
  listed : d.session.ListsCurrent
  /-- A message that tells of an end retires the suspension, and another one changes nothing. -/
  message : ∀ e, (e.TellsEnd → d.session.Retired (d.session.handleMessage e).value) ∧
    (¬ e.TellsEnd → (d.session.handleMessage e).value = d.session)
  resumed : d.session.Retired d.session.retire.value
  resume : d.resume.value.1 = .ok () → d.session.Retired d.resume.value.2.session
  /-- Generations never come back. -/
  later : ∀ d', Relation.ReflTransGen Works d d' →
    d.session.cache.generation ≤ d'.session.cache.generation
  /-- Frames that were there before a suspension ended are invalid in every state after that. -/
  frames : ∀ d', Relation.ReflTransGen Works d d' →
    d.session.cache.generation < d'.session.cache.generation →
    ∀ id f, d.session.callFrame? id = some f →
      ∃ f', d'.session.callFrame? id = some f' ∧ d'.session.isCurrent f'.generation = false
  /-- So are variables. -/
  nodes : ∀ d', Relation.ReflTransGen Works d d' →
    d.session.cache.generation < d'.session.cache.generation →
    ∀ id n, d.session.node? id = some n →
      ∃ n', d'.session.node? id = some n' ∧ d'.session.isCurrent n'.generation = false

/-- Whatever is done to a debugger that begins with a new session and an idle channel, its suspensions
are kept apart. -/
theorem suspensions_are_apart {options : LookupOptions} {start d : Debugger}
    (hsession : start.session = { options := options }) (hidle : start.errands = [])
    (h : Relation.ReflTransGen Works start d) : SuspensionsApart d := by
  have hstart : (Inquiry.run options []).Tracks start [] := by
    refine ⟨hsession.symm, fun w => ?_⟩
    rw [hidle]
    exact Nat.zero_le _
  obtain ⟨moves, hno, hmoves⟩ := works_leads h _ hstart
  have hcoherent := Inquiry.after_coherent (Inquiry.coherent_run options []) moves
  have hlater : ∀ d', Relation.ReflTransGen Works d d' → ∃ later,
      d'.session = (((Inquiry.run options []).after moves).after later).session := by
    intro d' hd'
    obtain ⟨later, -, htracks⟩ := works_leads hd' _ hmoves
    exact ⟨later, htracks.session.symm⟩
  have hgone : ∀ d', Relation.ReflTransGen Works d d' →
      d.session.cache.generation < d'.session.cache.generation →
      ∀ o g, d.session.generationOf o = some g →
        d'.session.generationOf o = some g ∧ d'.session.isCurrent g = false := by
    intro d' hd' hlt o g hg
    obtain ⟨later, hsame⟩ := hlater d' hd'
    rw [hsame] at hlt ⊢
    rw [← hmoves.session] at hlt hg
    exact Inquiry.after_invalid hcoherent later hlt hg
  refine ⟨?_, fun e => ?_, d.session.retired_retire, resume_retires hmoves hcoherent, ?_, ?_, ?_⟩
  · have hlists := Inquiry.after_listsCurrent (Inquiry.coherent_run options []) ?_ hno
    · rwa [hmoves.session] at hlists
    · intro id hid
      cases hid
  · rcases d.session.handleMessage_cases e with ⟨hends, hvalue⟩ | ⟨hnot, hvalue⟩
    · refine ⟨fun _ => ?_, fun hnot => (hnot hends).elim⟩
      rw [hvalue]
      exact d.session.retired_retire
    · exact ⟨fun hends => (hnot hends).elim, fun _ => hvalue⟩
  · intro d' hd'
    obtain ⟨later, hsame⟩ := hlater d' hd'
    rw [hsame, ← hmoves.session]
    exact Inquiry.after_generation_le hcoherent later
  · intro d' hd' hlt id f hf
    obtain ⟨hkept, hinvalid⟩ :=
      hgone d' hd' hlt (.frame id) f.generation (Option.map_eq_some_iff.2 ⟨f, hf, rfl⟩)
    obtain ⟨f', hf', hgen⟩ := Option.map_eq_some_iff.1 hkept
    exact ⟨f', hf', hgen ▸ hinvalid⟩
  · intro d' hd' hlt id n hn
    obtain ⟨hkept, hinvalid⟩ :=
      hgone d' hd' hlt (.node id) n.generation (Option.map_eq_some_iff.2 ⟨n, hn, rfl⟩)
    obtain ⟨n', hn', hgen⟩ := Option.map_eq_some_iff.1 hkept
    exact ⟨n', hn', hgen ▸ hinvalid⟩

def idle : Debugger := {}

def halted : Debugger :=
  idle.withSession (idle.session.createFrame 0 "main" [⟨"x", { handle := some 7 }⟩]).value.2

/-- The machine goes on, and neither the frame nor the variable is valid any more. -/
theorem suspensions_are_apart_resumed :
    SuspensionsApart halted ∧ halted.session.current = [0] ∧
      (∃ f, halted.session.callFrame? 0 = some f ∧ halted.session.isCurrent f.generation = true) ∧
      (∃ f, (halted.withSession halted.session.retire.value).session.callFrame? 0 = some f ∧
        (halted.withSession halted.session.retire.value).session.isCurrent f.generation = false) ∧
      ∃ n, (halted.withSession halted.session.retire.value).session.node? 0 = some n ∧
        (halted.withSession halted.session.retire.value).session.isCurrent n.generation = false := by
  have hreached : Relation.ReflTransGen Works idle halted := .single (.createFrame 0 "main" _)
  have hnew : idle.session = { options := {} } := rfl
  have happart : SuspensionsApart halted := suspensions_are_apart hnew rfl hreached
  have hretire : Relation.ReflTransGen Works halted
      (halted.withSession halted.session.retire.value) := .single .retire
  have hlater := happart.resumed.generation
  exact ⟨happart, rfl, happart.listed 0 (List.mem_singleton_self 0),
    happart.frames _ hretire hlater 0 _ rfl, happart.nodes _ hretire hlater 0 _ rfl⟩

end Debugger

end RemoteInspector
