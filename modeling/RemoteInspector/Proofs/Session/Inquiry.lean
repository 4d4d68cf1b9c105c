import RemoteInspector.Proofs.Session.Arrival

/-!
A session with the lookups that it has asked for. The moves are what a caller, the machine and the
channel can do; a lookup that is under way may be settled at any time, by any outcome, so every order
of calls, replies, failures and resumes is a list of moves. A channel that answers before a send
returns is one that settles the lookup by the next move: no operation of a session does anything after
it has sent a lookup.
-/

namespace RemoteInspector

/-- A lookup and the node or frame on whose behalf it was asked for. -/
structure Query where
  asker : Owner
  lookup : Lookup
  deriving DecidableEq, Repr

/-- A session, its lookups under way, and all requests that it has sent. -/
structure Inquiry where
  session : Session := {}
  underWay : List Query := []
  sent : List Request := []

namespace Session

def generationOf (s : Session) : Owner → Option Nat
  | .node id => (s.node? id).map Node.generation
  | .frame id => (s.callFrame? id).map CallFrame.generation

theorem generationOf_mono {s s' : Session} (h : s.Grows s') {o : Owner} {g : Nat}
    (hg : s.generationOf o = some g) : s'.generationOf o = some g := by
  cases o with
  | node id =>
      obtain ⟨n, hn, rfl⟩ := Option.map_eq_some_iff.1 hg
      obtain ⟨n', hn', heir⟩ := h.nodes id n hn
      exact Option.map_eq_some_iff.2 ⟨n', hn', heir.generation⟩
  | frame id =>
      obtain ⟨f, hf, rfl⟩ := Option.map_eq_some_iff.1 hg
      obtain ⟨requested, hf'⟩ := h.callFrames id f hf
      exact Option.map_eq_some_iff.2 ⟨_, hf', rfl⟩

theorem Dated.generationOf_le {s : Session} (h : s.Dated) {o : Owner} {g : Nat}
    (hg : s.generationOf o = some g) : g ≤ s.cache.generation := by
  cases o with
  | node id =>
      obtain ⟨n, hn, rfl⟩ := Option.map_eq_some_iff.1 hg
      exact h.nodes id n hn
  | frame id =>
      obtain ⟨f, hf, rfl⟩ := Option.map_eq_some_iff.1 hg
      exact h.frames id f hf

end Session

namespace Inquiry

inductive Move where
  | createFrame (index : UInt32) (function : String) (bindings : List Binding)
  | materialize (body : Json) (refs : List Json)
  | expand (id : NodeId)
  | ensureProperties (id : NodeId) (refs : List PropertyRef)
  | ensureVariables (id : FrameId)
  /-- The lookup at a place among those under way has an outcome. -/
  | settle (place : Nat) (o : Outcome)
  /-- A message comes in that nobody has asked for. -/
  | message (e : Envelope)
  /-- The machine is told to go on. -/
  | retire
  /-- A remote object is given a handle. -/
  | name (o : RemoteObject)
  | absorb (parent : RemoteObject) (data : PropertyListing)
  /-- A caller that has the cache puts a payload there. -/
  | store (h : Handle) (p : Payload)
  /-- A caller that has the cache invalidates it. -/
  | invalidate
  /-- Callers hold on to these frames and nodes, and to no others. -/
  | hold (frames : List FrameId) (nodes : List NodeId)

/-- The move ends the suspension, or at least what is cached in it. -/
def Move.Ends : Move → Prop
  | message e => Session.endsSuspension e = true
  | retire => True
  | invalidate => True
  | _ => False

def issue (w : Inquiry) (asker : Owner) : Session × Option Lookup → Inquiry
  | (s, none) => { w with session := s }
  | (s, some l) =>
    { session := s, underWay := w.underWay ++ [⟨asker, l⟩],
      sent := w.sent ++ [l.request s.options] }

/-- The state after a move; a move that fails or does not apply changes nothing. -/
def step (w : Inquiry) : Move → Inquiry
  | .createFrame index function bindings =>
    { w with session := (w.session.createFrame index function bindings).value.2 }
  | .materialize body refs =>
    match (w.session.materialize body refs).value with
    | .ok (_, s) => { w with session := s }
    | .error _ => w
  | .expand id => w.issue (.node id) (w.session.expand id).value
  | .ensureProperties id refs => w.issue (.node id) (w.session.ensureProperties id refs).value
  | .ensureVariables id =>
    match (w.session.ensureVariables id).value with
    | .ok next => w.issue (.frame id) next
    | .error _ => w
  | .settle place o =>
    match w.underWay[place]? with
    | some q =>
      { w with underWay := w.underWay.eraseIdx place }.issue q.asker
        (w.session.deliver q.lookup.waiting o).value
    | none => w
  | .message e => { w with session := (w.session.handleMessage e).value }
  | .retire => { w with session := w.session.retire.value }
  | .name o => { w with session := { w.session with table := (o.reduce w.session.table).2 } }
  | .absorb parent data => { w with session := (w.session.absorb parent data).2 }
  | .store h p => { w with session := w.session.learned h p }
  | .invalidate =>
    { w with session := { w.session with cache := w.session.cache.invalidate.value } }
  | .hold frames nodes =>
    { w with session := { w.session with heldFrames := frames, heldNodes := nodes } }

/-- The state after moves in turn. -/
def after (w : Inquiry) (moves : List Move) : Inquiry := moves.foldl step w

def run (options : LookupOptions) (moves : List Move) : Inquiry :=
  after { session := { options := options } } moves

theorem after_append (w : Inquiry) (moves moves' : List Move) :
    w.after (moves ++ moves') = (w.after moves).after moves' :=
  List.foldl_append

theorem after_singleton (w : Inquiry) (m : Move) : w.after [m] = w.step m := rfl

theorem run_append (options : LookupOptions) (moves moves' : List Move) :
    run options (moves ++ moves') = (run options moves).after moves' :=
  after_append ..

/-! ### What a move does to the session -/

/-- `src` tells what a move brings in. An outcome that comes too late brings nothing. -/
def Supplied (src : Source) (w : Inquiry) : Move → Prop
  | .createFrame _ _ bindings => ∀ b ∈ bindings, src.binding b.value
  | .materialize body refs =>
    (∀ p ∈ Payload.ofRefs refs, ∀ h, p.handle = some h → src.payload h p) ∧
      ∀ fs, StackFrame.listOfJson body = .ok fs →
        ∀ f ∈ fs, ∀ b ∈ f.arguments ++ f.locals, src.binding b.value
  | .ensureProperties _ refs => src.refs refs
  | .settle place o => ∀ q, w.underWay[place]? = some q →
      q.lookup.waiting.generation = w.session.cache.generation →
        ∀ e, Session.successful? o = some e → src.Covers q.lookup.handles e
  | .absorb parent data =>
    (∀ p ∈ (data.reduce parent w.session.table).1.2, ∀ h, p.handle = some h → src.payload h p) ∧
      ∀ h, (data.reduce parent w.session.table).1.1.handle = some h →
        src.payload h (data.reduce parent w.session.table).1.1
  | .store h p => src.payload h p
  | _ => True

/-- The nodes that a move may touch. -/
def Touches (w : Inquiry) : Move → NodeId → Prop
  | .expand id, k => k = id
  | .ensureProperties id _, k => k = id
  | .ensureVariables id, k => ∃ f, w.session.callFrame? id = some f ∧
      f.generation = w.session.cache.generation ∧ k ∈ f.roots
  | .settle place _, k => ∃ q, w.underWay[place]? = some q ∧
      q.lookup.waiting.generation = w.session.cache.generation ∧ k ∈ q.lookup.waiting.nodes
  | _, _ => False

/-- The lookups under way are well posed and of the generation of who has asked for them. -/
structure Coherent (w : Inquiry) : Prop where
  dated : w.session.Dated
  posed : ∀ q ∈ w.underWay, q.lookup.WellPosed w.session
  asked : ∀ q ∈ w.underWay,
    w.session.generationOf q.asker = some q.lookup.waiting.generation

@[simp] theorem issue_session (w : Inquiry) (asker : Owner) (next : Session × Option Lookup) :
    (w.issue asker next).session = next.1 := by
  obtain ⟨s, l⟩ := next
  cases l <;> rfl

/-- Unless it ends the suspension, a move is made of updates to the nodes that it may touch. -/
theorem step_updates {src : Source} {w : Inquiry} {m : Move} (hw : w.Coherent) (hm : ¬m.Ends)
    (hsrc : w.Supplied src m) :
    Session.Updates src (w.Touches m) w.session (w.step m).session := by
  cases m with
  | createFrame index function bindings => exact Session.createFrame_updates hsrc
  | materialize body refs =>
      simp only [step]
      split
      · next ids s hnext => exact Session.materialize_updates hnext hsrc.1 hsrc.2
      · exact .refl
  | expand id =>
      simp only [step, issue_session]
      exact Session.expand_updates rfl
  | ensureProperties id refs =>
      simp only [step, issue_session]
      exact Session.ensureProperties_updates rfl hsrc
  | ensureVariables id =>
      simp only [step]
      split
      · next next hnext =>
        rw [issue_session]
        exact Session.ensureVariables_updates hnext fun f hf hgen r hr => ⟨f, hf, hgen, hr⟩
      · exact .refl
  | settle place o =>
      simp only [step]
      split
      · next q hq =>
        rw [issue_session]
        by_cases hgen : q.lookup.waiting.generation = w.session.cache.generation
        · exact Session.deliver_updates (hw.posed q (List.mem_of_getElem? hq))
            (fun id hid => ⟨q, hq, hgen, hid⟩) (hsrc q hq hgen)
        · rw [Session.deliver_stale hgen]
      · exact .refl
  | message e =>
      have hends : Session.endsSuspension e = false := by simpa [Move.Ends] using hm
      simp only [step, Session.handleMessage, hends, Bool.false_eq_true, if_false]
      exact .refl
  | retire => exact (hm trivial).elim
  | name o => exact .single (.manage rfl rfl rfl)
  | absorb parent data => exact Session.absorb_updates hsrc.1 hsrc.2
  | store h p => exact .single (.learn hsrc)
  | invalidate => exact (hm trivial).elim
  | hold frames nodes => exact .single (.manage rfl rfl rfl)

/-- The end of a suspension drops the cache and begins the next generation; nodes, frames and the
lookups under way are left as they are. -/
theorem step_ends {w : Inquiry} {m : Move} (hm : m.Ends) :
    ∃ current table, w.step m = { w with session := { w.session with
      cache := w.session.cache.invalidate.value, current := current, table := table } } := by
  cases m with
  | message e =>
      have hends : Session.endsSuspension e = true := hm
      refine ⟨[], w.session.table.clear, ?_⟩
      rw [step, Session.handleMessage, if_pos hends]
      rfl
  | retire => exact ⟨_, _, rfl⟩
  | invalidate => exact ⟨_, _, rfl⟩
  | _ => exact hm.elim

/-! ### What every move keeps -/

theorem supplied_any (w : Inquiry) (m : Move) : w.Supplied .any m := by
  cases m with
  | createFrame _ _ _ => exact fun _ _ => trivial
  | materialize _ _ => exact ⟨fun _ _ _ _ => trivial, fun _ _ _ _ _ _ => trivial⟩
  | ensureProperties _ _ => trivial
  | settle _ _ => exact fun _ _ _ _ _ => ⟨fun _ _ _ _ => trivial, fun _ _ _ _ => trivial⟩
  | absorb _ _ => exact ⟨fun _ _ _ _ => trivial, fun _ _ => trivial⟩
  | _ => trivial

theorem step_grows {w : Inquiry} (hw : w.Coherent) (m : Move) :
    w.session.Grows (w.step m).session := by
  by_cases hm : m.Ends
  · obtain ⟨current, table, hstep⟩ := step_ends hm
    rw [hstep]
    exact ⟨fun _ n hn => ⟨n, hn, .refl n⟩, fun _ f hf => ⟨f.requested, hf⟩⟩
  · exact Session.Updates.grows (step_updates hw hm (w.supplied_any m))

theorem step_generation {w : Inquiry} (hw : w.Coherent) {m : Move} (hm : ¬m.Ends) :
    (w.step m).session.cache.generation = w.session.cache.generation :=
  Session.Updates.generation (step_updates hw hm (w.supplied_any m))

theorem step_generation_ends {w : Inquiry} {m : Move} (hm : m.Ends) :
    (w.step m).session.cache.generation = w.session.cache.generation + 1 := by
  obtain ⟨current, table, hstep⟩ := step_ends hm
  rw [hstep]
  rfl

theorem mem_issue {w : Inquiry} {asker : Owner} {next : Session × Option Lookup} {q : Query}
    (hq : q ∈ (w.issue asker next).underWay) :
    q ∈ w.underWay ∨ ∃ l, next.2 = some l ∧ q = ⟨asker, l⟩ := by
  obtain ⟨s, l⟩ := next
  cases l with
  | none => exact .inl hq
  | some l =>
      rcases List.mem_append.1 hq with hq | hq
      · exact .inl hq
      · exact .inr ⟨l, rfl, List.mem_singleton.1 hq⟩

/-- A lookup that a move sends is well posed, and of the generation of who asks for it. -/
theorem step_asks {w : Inquiry} (hw : w.Coherent) {m : Move} {q : Query}
    (hq : q ∈ (w.step m).underWay) : q ∈ w.underWay ∨
      q.lookup.WellPosed (w.step m).session ∧
        w.session.generationOf q.asker = some q.lookup.waiting.generation := by
  cases m with
  | createFrame _ _ _ => exact .inl hq
  | materialize body refs =>
      simp only [step] at hq
      split at hq <;> exact .inl hq
  | expand id =>
      rcases mem_issue hq with hq | ⟨l, hl, rfl⟩
      · exact .inl hq
      · obtain ⟨hposed, n, hn, hgen⟩ := Session.expand_asks hl
        refine .inr ⟨by simpa only [step, issue_session] using hposed, ?_⟩
        exact Option.map_eq_some_iff.2 ⟨n, hn, hgen.symm⟩
  | ensureProperties id refs =>
      rcases mem_issue hq with hq | ⟨l, hl, rfl⟩
      · exact .inl hq
      · obtain ⟨hposed, n, hn, hgen⟩ := Session.ensureProperties_asks hl
        refine .inr ⟨by simpa only [step, issue_session] using hposed, ?_⟩
        exact Option.map_eq_some_iff.2 ⟨n, hn, hgen.symm⟩
  | ensureVariables id =>
      simp only [step] at hq ⊢
      split at hq
      · next next hnext =>
        rcases mem_issue hq with hq | ⟨l, hl, rfl⟩
        · exact .inl hq
        · obtain ⟨hposed, f, hf, hgen⟩ := Session.ensureVariables_asks hw.dated hnext hl
          refine .inr ⟨by simpa only [hnext, issue_session] using hposed, ?_⟩
          exact Option.map_eq_some_iff.2 ⟨f, hf, hgen.symm⟩
      · exact .inl hq
  | settle place o =>
      simp only [step] at hq ⊢
      split at hq
      · next q' hq' =>
        have hmem := List.mem_of_getElem? hq'
        rcases mem_issue hq with hq | ⟨l, hl, rfl⟩
        · exact .inl (List.mem_of_mem_eraseIdx hq)
        · obtain ⟨hposed, hgen⟩ := Session.deliver_asks (hw.posed q' hmem) hl
          refine .inr ⟨by simpa only [hq', issue_session] using hposed, ?_⟩
          rw [hw.asked q' hmem, hgen]
      · exact .inl hq
  | message _ => exact .inl hq
  | retire => exact .inl hq
  | name _ => exact .inl hq
  | absorb _ _ => exact .inl hq
  | store _ _ => exact .inl hq
  | invalidate => exact .inl hq
  | hold _ _ => exact .inl hq

theorem step_coherent {w : Inquiry} (hw : w.Coherent) (m : Move) : (w.step m).Coherent := by
  have hgrows := step_grows hw m
  -- What was well posed stays so, since nodes keep their generations and handles.
  refine ⟨?_, fun q hq => ?_, fun q hq => ?_⟩
  · by_cases hm : m.Ends
    · obtain ⟨current, table, hstep⟩ := step_ends hm
      rw [hstep]
      exact ⟨fun id n hn => Nat.le_succ_of_le (hw.dated.nodes id n hn),
        fun id f hf => Nat.le_succ_of_le (hw.dated.frames id f hf), hw.dated.roots⟩
    · exact Session.Updates.dated (step_updates hw hm (w.supplied_any m)) hw.dated
  · rcases step_asks hw hq with hold | ⟨hposed, -⟩
    · exact (hw.posed q hold).mono hgrows
    · exact hposed
  · rcases step_asks hw hq with hold | ⟨-, hgen⟩
    · exact Session.generationOf_mono hgrows (hw.asked q hold)
    · exact Session.generationOf_mono hgrows hgen

/-! ### What every run keeps -/

theorem after_coherent {w : Inquiry} (hw : w.Coherent) (moves : List Move) :
    (w.after moves).Coherent := by
  induction moves generalizing w with
  | nil => exact hw
  | cons m moves ih => exact ih (step_coherent hw m)

theorem coherent_run (options : LookupOptions) (moves : List Move) :
    (run options moves).Coherent := by
  refine after_coherent ⟨⟨?_, ?_, ?_⟩, fun q hq => ?_, fun q hq => ?_⟩ moves
  · intro id n hn
    simp [Session.node?] at hn
  · intro id f hf
    simp [Session.callFrame?] at hf
  · intro id f hf
    simp [Session.callFrame?] at hf
  · exact (List.not_mem_nil hq).elim
  · exact (List.not_mem_nil hq).elim

theorem after_grows {w : Inquiry} (hw : w.Coherent) (moves : List Move) :
    w.session.Grows (w.after moves).session := by
  induction moves generalizing w with
  | nil => exact .refl _
  | cons m moves ih => exact (step_grows hw m).trans (ih (step_coherent hw m))

/-- A generation never comes back. -/
theorem after_generation_le {w : Inquiry} (hw : w.Coherent) (moves : List Move) :
    w.session.cache.generation ≤ (w.after moves).session.cache.generation := by
  induction moves generalizing w with
  | nil => exact Nat.le_refl _
  | cons m moves ih =>
      refine Nat.le_trans ?_ (ih (step_coherent hw m))
      by_cases hm : m.Ends
      · rw [step_generation_ends hm]
        exact Nat.le_succ _
      · exact Nat.le_of_eq (step_generation hw hm).symm

end Inquiry

end RemoteInspector
