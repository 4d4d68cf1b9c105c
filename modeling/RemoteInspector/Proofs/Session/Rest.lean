import RemoteInspector.Proofs.Session.Inquiry
import RemoteInspector.Proofs.Session.Holding

/-!
What the operations of a session leave alone. `rest` is all of a session but its cache and its nodes;
what resolves nodes changes nothing of it, and what makes frames adds them to it.
-/

namespace RemoteInspector

namespace Session

variable {s : Session} {id : NodeId}

def rest (s : Session) : Session := { s with cache := {}, nodes := #[] }

theorem settings_of_rest {s' : Session} (h : s'.rest = s.rest) :
    s'.options = s.options ∧ s'.table = s.table := by
  have hoptions : s'.rest.options = s.rest.options := by rw [h]
  have htable : s'.rest.table = s.rest.table := by rw [h]
  exact ⟨hoptions, htable⟩

/-! ### Nodes -/

theorem rest_recordOn (s : Session) (id : NodeId) (e : Resolution.Event) :
    (s.recordOn id e).value.rest = s.rest := by
  rcases s.recordOn_cases id e with ⟨-, hvalue⟩ | ⟨n, -, hvalue⟩
  · rw [hvalue]
  · rw [hvalue]
    rfl

theorem rest_populate (s : Session) (id : NodeId) (n : Node) (refs : List PropertyRef) :
    (s.populate id n refs).value.1.rest = s.rest := by
  rcases s.populate_cases id n refs with ⟨-, hvalue⟩ | ⟨-, hvalue⟩
  · rw [hvalue]
    exact rest_recordOn _ id .replied
  · rw [hvalue]
    rfl

theorem rest_settleOwn (s : Session) (id : NodeId) (n : Node) (p : Payload) :
    (s.settleOwn id n p).value.1.rest = s.rest := by
  rcases s.settleOwn_cases id n p with ⟨-, hvalue⟩ | ⟨-, hvalue⟩
  · rw [hvalue]
    exact rest_populate _ id _ p.properties
  · rw [hvalue]
    rfl

theorem rest_expand (s : Session) (id : NodeId) : (s.expand id).value.1.rest = s.rest := by
  rcases s.expand_cases id with ⟨-, hvalue⟩ | ⟨n, -, -, -, hcase⟩
  · rw [hvalue]
  rcases hcase with ⟨refs, -, hvalue⟩ | ⟨h, p, -, -, -, hvalue⟩ | ⟨h, -, -, -, hvalue⟩
  · rw [hvalue]
    exact rest_populate s id n.begun refs
  · rw [hvalue]
    exact rest_settleOwn _ id n.begun p
  · rw [hvalue]
    rfl

theorem rest_ensureProperties (s : Session) (id : NodeId) (refs : List PropertyRef) :
    (s.ensureProperties id refs).value.1.rest = s.rest := by
  rcases s.ensureProperties_cases id refs with ⟨-, hvalue⟩ | ⟨n, -, -, -, hvalue⟩
  · rw [hvalue]
  · rw [hvalue]
    exact rest_populate s id n.begun refs

/-- To fill variables whose payloads are cached changes nothing but nodes. -/
theorem fillBare_nodes (s : Session) (ids : List NodeId) :
    ∃ nodes, (s.fillBare ids).value = { s with nodes := nodes } := by
  induction ids generalizing s with
  | nil => exact ⟨s.nodes, rfl⟩
  | cons id ids ih =>
      unfold fillBare
      cases s.node? id with
      | none => exact ih s
      | some n =>
          dsimp only
          split
          · next p _ _ =>
            rw [Logged.value_bind]
            exact ih (s.setNode id (n.fill p).value)
          · exact ih s

/-- To ask for the variables of a frame changes nothing but nodes and frames. -/
theorem ensureVariables_nodes {next : Session × Option Lookup}
    (hnext : (s.ensureVariables id).value = .ok next) :
    ∃ nodes callFrames, next.1 = { s with nodes := nodes, callFrames := callFrames } := by
  have hasked : ∀ f, ∃ nodes callFrames, ((s.asked id f).fillBare f.roots).value =
      { s with nodes := nodes, callFrames := callFrames } := by
    intro f
    obtain ⟨nodes, hvalue⟩ := (s.asked id f).fillBare_nodes f.roots
    exact ⟨nodes, _, hvalue⟩
  rcases s.ensureVariables_cases id with hvalue | hvalue | ⟨f, -, -, hvalue | hvalue⟩
  · rw [hvalue] at hnext
    cases hnext
    exact ⟨s.nodes, s.callFrames, rfl⟩
  · rw [hvalue] at hnext
    cases hnext
  · rw [hvalue] at hnext
    cases hnext
    exact hasked f
  · rw [hvalue] at hnext
    cases hnext
    exact hasked f

/-! ### Outcomes -/

theorem rest_seedRefs (s : Session) (e : Envelope) : (s.seedRefs e).rest = s.rest := by
  unfold seedRefs
  split <;> rfl

theorem rest_failAll (s : Session) (ids : List NodeId) : (s.failAll ids).value.rest = s.rest := by
  induction ids generalizing s with
  | nil => rfl
  | cons id ids ih =>
      unfold failAll
      split
      · rw [Logged.value_bind, ih, rest_recordOn]
      · exact ih s

theorem rest_distribute (s : Session) (r : LookupReply) (awaited : List (Handle × NodeId)) :
    (s.distribute r awaited).value.rest = s.rest := by
  induction awaited generalizing s with
  | nil => rfl
  | cons x rest ih =>
      unfold distribute
      split
      · exact ih s
      · split
        · rw [Logged.value_bind, ih]
          rfl
        · exact ih s

theorem rest_deliverBatch (s : Session) (g : Nat) (awaited : List (Handle × NodeId))
    (parent : Option NodeId) (o : Outcome) :
    (s.deliverBatch g awaited parent o).value.rest = s.rest := by
  unfold deliverBatch
  split
  · rfl
  · dsimp only
    split
    · rw [Logged.value_bind, rest_failAll]
    · rw [Logged.value_bind]
      split
      · rw [rest_recordOn, rest_distribute, rest_seedRefs]
      · rw [Logged.value_pure, rest_distribute, rest_seedRefs]

theorem rest_deliver (s : Session) (w : Waiting) (o : Outcome) :
    (s.deliver w o).value.1.rest = s.rest := by
  cases w with
  | batch g awaited parent => exact rest_deliverBatch s g awaited parent o
  | own g id h =>
      change (s.deliverOwn g id h o).value.1.rest = s.rest
      rcases s.deliverOwn_cases g id h o with hvalue | hvalue | ⟨e, -, hcase⟩
      · rw [hvalue]
      · rw [hvalue]
        exact rest_recordOn s id .failed
      rcases hcase with hvalue | ⟨p, n, -, -, hvalue⟩
      · rw [hvalue, rest_recordOn, rest_seedRefs]
      · rw [hvalue, rest_settleOwn]
        exact rest_seedRefs s e

/-! ### Frames -/

theorem addFrame_nodes (s : Session) (f : StackFrame) : ∃ nodes callFrames,
    (s.addFrame f).value.2 = { s with nodes := nodes, callFrames := callFrames } := by
  obtain ⟨news, hvalue, -⟩ :=
    addBindings_appends (s := s) s.callFrames.size (f.arguments ++ f.locals)
  unfold addFrame
  simp only [Logged.value_bind, Logged.value_pure]
  rw [hvalue]
  exact ⟨_, _, rfl⟩

theorem addFrames_nodes (s : Session) (fs : List StackFrame) : ∃ nodes callFrames,
    (addFrames fs s).value.2 = { s with nodes := nodes, callFrames := callFrames } := by
  induction fs generalizing s with
  | nil => exact ⟨s.nodes, s.callFrames, rfl⟩
  | cons f fs ih =>
      obtain ⟨nodes, callFrames, hfirst⟩ := s.addFrame_nodes f
      obtain ⟨nodes', callFrames', hrest⟩ := ih (s.addFrame f).value.2
      unfold addFrames
      simp only [Logged.value_bind, Logged.value_pure]
      rw [hrest, hfirst]
      exact ⟨_, _, rfl⟩

theorem createFrame_nodes (s : Session) (index : UInt32) (function : String) (bs : List Binding) :
    ∃ nodes callFrames current, (s.createFrame index function bs).value.2 =
      { s with nodes := nodes, callFrames := callFrames, current := current } := by
  obtain ⟨nodes, callFrames, hvalue⟩ :=
    s.addFrame_nodes { index := index, function := function, arguments := bs }
  unfold createFrame
  simp only [Logged.value_bind, Logged.value_pure]
  rw [hvalue]
  exact ⟨_, _, _, rfl⟩

theorem materialize_nodes {body : Json} {refs : List Json} {next : List FrameId × Session}
    (hnext : (s.materialize body refs).value = .ok next) : ∃ cache nodes callFrames current,
    next.2 = { s with
      cache := cache, nodes := nodes, callFrames := callFrames, current := current } := by
  unfold materialize at hnext
  split at hnext
  · cases hnext
  · next fs _ =>
    simp only [Logged.value_bind, Logged.value_pure] at hnext
    cases hnext
    obtain ⟨nodes, callFrames, hvalue⟩ := addFrames_nodes
      { s with cache := (s.cache.seed s.cache.generation (Payload.ofRefs refs)).1 } fs
    rw [hvalue]
    exact ⟨_, _, _, _, rfl⟩

end Session

namespace Inquiry

def Move.Names : Move → Prop
  | name _ => True
  | absorb _ _ => True
  | _ => False

/-- How lookups are sent does not change, and within a suspension only naming and absorbing number
remote objects. -/
theorem step_settings (w : Inquiry) (m : Move) :
    (w.step m).session.options = w.session.options ∧
      (¬m.Ends → ¬m.Names → (w.step m).session.table = w.session.table) := by
  have hsettings : ∀ t : Session, t.options = w.session.options ∧ t.table = w.session.table →
      t.options = w.session.options ∧ (¬m.Ends → ¬m.Names → t.table = w.session.table) :=
    fun t ht => ⟨ht.1, fun _ _ => ht.2⟩
  cases m with
  | createFrame index function bindings =>
      obtain ⟨_, _, _, hvalue⟩ := w.session.createFrame_nodes index function bindings
      exact hsettings _ (by rw [step, hvalue]; exact ⟨rfl, rfl⟩)
  | materialize body refs =>
      simp only [step]
      split
      · next ids s hnext =>
        obtain ⟨_, _, _, _, rfl⟩ := Session.materialize_nodes hnext
        exact hsettings _ ⟨rfl, rfl⟩
      · exact hsettings _ ⟨rfl, rfl⟩
  | expand id =>
      rw [step, issue_session]
      exact hsettings _ (Session.settings_of_rest (w.session.rest_expand id))
  | ensureProperties id refs =>
      rw [step, issue_session]
      exact hsettings _ (Session.settings_of_rest (w.session.rest_ensureProperties id refs))
  | ensureVariables id =>
      simp only [step]
      split
      · next next hnext =>
        obtain ⟨_, _, hvalue⟩ := Session.ensureVariables_nodes hnext
        rw [issue_session, hvalue]
        exact hsettings _ ⟨rfl, rfl⟩
      · exact hsettings _ ⟨rfl, rfl⟩
  | settle place o =>
      simp only [step]
      split
      · rw [issue_session]
        exact hsettings _ (Session.settings_of_rest (w.session.rest_deliver _ o))
      · exact hsettings _ ⟨rfl, rfl⟩
  | message e =>
      simp only [step, Session.handleMessage]
      split
      · next hends => exact ⟨rfl, fun hnot => (hnot hends).elim⟩
      · exact hsettings _ ⟨rfl, rfl⟩
  | retire => exact ⟨rfl, fun hnot => (hnot trivial).elim⟩
  | name o => exact ⟨rfl, fun _ hnot => (hnot trivial).elim⟩
  | absorb parent data => exact ⟨rfl, fun _ hnot => (hnot trivial).elim⟩
  | store h p => exact hsettings _ ⟨rfl, rfl⟩
  | invalidate => exact ⟨rfl, fun hnot => (hnot trivial).elim⟩
  | hold frames nodes => exact hsettings _ ⟨rfl, rfl⟩

end Inquiry

end RemoteInspector
