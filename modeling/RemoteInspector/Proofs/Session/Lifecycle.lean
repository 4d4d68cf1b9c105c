import RemoteInspector.Proofs.Session.Display
import RemoteInspector.Proofs.Session.Inquiry

/-!
The life of a node over a whole run. `Node.Consistent` is what holds of every node at any time: how
far it is resolved, what is known about it and what it shows agree. A single update takes a node one
transition further or none, and leaves a settled node exactly as it is. What the machine reports does
not matter, even if one report contradicts the other.
-/

namespace RemoteInspector

namespace Resolution

/-- One transition. Nothing leads back, and nothing leads away from a state that is final. -/
inductive Step : Resolution → Resolution → Prop where
  | begin : Step .unresolved .pending
  | resolve {r : Resolution} : r.isFinal = false → Step r .resolved
  | fail {r : Resolution} : r.isFinal = false → Step r .failed

theorem step_of_on {r r' : Resolution} {e : Event} (h : r.on e = some r') : r.Step r' := by
  cases r <;> cases e <;> simp only [on, Option.some.injEq, reduceCtorEq] at h <;> subst h
  case unresolved.expand => exact .begin
  case unresolved.filled => exact .resolve rfl
  case unresolved.failed => exact .fail rfl
  case pending.filled => exact .resolve rfl
  case pending.replied => exact .resolve rfl
  case pending.failed => exact .fail rfl

theorem not_step_unresolved (r : Resolution) : ¬r.Step .unresolved := by
  intro h
  cases h

end Resolution

/-! ### One node -/

theorem Facts.isCompound_fill (f : Facts) (p : Payload) (withProperties : Bool) :
    (f.fill p withProperties).isCompound = p.isCompound := by
  cases hp : p.isCompound with
  | true =>
      rw [fill_compound hp]
      simp only [Payload.isCompound, Bool.and_eq_true] at hp
      exact hp.2
  | false =>
      rw [fill_scalar hp]
      exact Payload.scalar_not_compound hp

namespace Node

/-- How far a node is resolved, what is known about it and what it shows agree. -/
structure Consistent (n : Node) : Prop where
  unresolved : n.resolution = .unresolved → n.view = none
  resolved : n.resolution = .resolved → n.view.isSome
  /-- A node shows a scalar exactly if it is known to be one. -/
  scalar : (∃ t text, n.view = some (.scalar t text)) ↔
    ∃ t, n.facts.valueType = some t ∧ t.isCompound = false
  shows : ∀ t text, n.view = some (.scalar t text) →
    n.resolution = .resolved ∧ n.facts.valueType = some t ∧ n.facts.text = some text
  textless : ∀ t, n.facts.valueType = some t → t.isCompound = true → n.facts.text = none
  untyped : n.facts.valueType = none → n.facts.text = none

namespace Consistent

variable {n : Node}

/-- Only a resolved node shows a scalar. -/
theorem not_scalar (h : n.Consistent) (hres : n.resolution ≠ .resolved) (t : ValueType)
    (text : String) : n.view ≠ some (.scalar t text) := by
  intro hview
  exact hres (h.shows t text hview).1

/-- What is not resolved is compound or of unknown type. -/
theorem not_known_scalar (h : n.Consistent) (hres : n.resolution ≠ .resolved) (t : ValueType)
    (ht : n.facts.valueType = some t) : t.isCompound = true := by
  cases hcompound : t.isCompound with
  | true => rfl
  | false =>
      obtain ⟨u, text, hview⟩ := h.scalar.2 ⟨t, ht, hcompound⟩
      exact (h.not_scalar hres u text hview).elim

theorem no_text (h : n.Consistent) (hres : n.resolution ≠ .resolved) : n.facts.text = none := by
  cases ht : n.facts.valueType with
  | none => exact h.untyped ht
  | some t => exact h.textless t ht (h.not_known_scalar hres t ht)

/-- A node that is not resolved may change its state and its view, as long as it does not show a
scalar. -/
theorem restate (h : n.Consistent) (hres : n.resolution ≠ .resolved) {r : Resolution}
    {view : Option View} (hview : ∀ t text, view ≠ some (.scalar t text))
    (hunresolved : r = .unresolved → view = none) (hresolved : r = .resolved → view.isSome) :
    Consistent { n with resolution := r, view := view } where
  unresolved := hunresolved
  resolved := hresolved
  scalar := by
    constructor
    · rintro ⟨t, text, hscalar⟩
      exact (hview t text hscalar).elim
    · rintro ⟨t, ht, hcompound⟩
      have hknown := h.not_known_scalar hres t ht
      rw [hcompound] at hknown
      cases hknown
  shows := fun t text hscalar => (hview t text hscalar).elim
  textless := h.textless
  untyped := h.untyped

theorem new (name path : String) (generation : Nat) (owner : Owner) (handle : Option Handle)
    (shallow : Bool) : (Node.new name path generation owner handle shallow).Consistent where
  unresolved := fun _ => rfl
  resolved := nofun
  scalar := by
    constructor
    · rintro ⟨t, text, hview⟩
      cases hview
    · rintro ⟨t, ht, -⟩
      cases ht
  shows := nofun
  textless := nofun
  untyped := fun _ => rfl

theorem fill (h : n.Consistent) (p : Payload) : (n.fill p).value.Consistent := by
  rcases n.fill_cases p with ⟨-, hvalue⟩ | ⟨hfinal, hcompound, hvalue⟩ |
      ⟨hfinal, hcompound, hvalue⟩
  · rw [hvalue]
    exact h
  · have hres : n.resolution ≠ .resolved := by
      intro heq
      rw [heq] at hfinal
      cases hfinal
    have htext := h.no_text hres
    rw [Facts.isCompound_fill] at hcompound
    rw [hvalue, Facts.fill_compound hcompound]
    -- The node becomes compound, or is so already, and what it shows is left alone.
    have htype : ∀ t, p.valueType? = some t → t.isCompound = true := by
      intro t ht
      simpa [Payload.isCompound, ht] using (Bool.and_eq_true_iff.1 hcompound).2
    have hadopt : (n.facts.adoptHandle p.handle).text = none := by
      unfold Facts.adoptHandle
      split <;> exact htext
    exact {
      unresolved := h.unresolved
      resolved := h.resolved
      scalar := by
        constructor
        · rintro ⟨t, text, hview⟩
          exact (h.not_scalar hres t text hview).elim
        · rintro ⟨t, ht, hnot⟩
          rw [htype t ht] at hnot
          cases hnot
      shows := fun t text hview => (h.not_scalar hres t text hview).elim
      textless := fun _ _ _ => hadopt
      untyped := fun _ => hadopt }
  · rw [Facts.isCompound_fill] at hcompound
    rw [hvalue, Facts.fill_scalar hcompound]
    have hscalar := Payload.scalar_not_compound hcompound
    exact {
      unresolved := by rintro ⟨⟩
      resolved := fun _ => rfl
      scalar := ⟨fun _ => ⟨_, rfl, hscalar⟩, fun _ => ⟨_, _, rfl⟩⟩
      shows := by
        intro t text hview
        cases hview
        exact ⟨rfl, rfl, rfl⟩
      textless := by
        intro t ht hnot
        cases ht
        rw [hscalar] at hnot
        cases hnot
      untyped := by rintro ⟨⟩ }

theorem begun (h : n.Consistent) (hres : n.resolution = .unresolved) : n.begun.Consistent := by
  have hview := h.unresolved hres
  refine h.restate (by rw [hres]; nofun) (fun t text => ?_) nofun nofun
  rw [hview]
  nofun

theorem list (h : n.Consistent) (hres : n.resolution = .pending) (children : List NodeId) :
    Consistent { n with view := some (n.compoundView children) } := by
  refine h.restate (by rw [hres]; nofun) (fun t text => ?_) (fun heq => ?_) (fun _ => rfl)
  · unfold compoundView
    split <;> nofun
  · rw [hres] at heq
    cases heq

/-- An event that gives a node no view it should have, and takes it none that it should not. -/
theorem record (h : n.Consistent) {e : Resolution.Event} (he : e = .replied ∨ e = .failed)
    (hview : e = .replied → n.view.isSome) : (n.record e).value.Consistent := by
  rw [record_value]
  cases hon : n.resolution.on e with
  | none => exact h
  | some r =>
      have hres : n.resolution ≠ .resolved := by
        intro heq
        rw [heq, Resolution.on_eq_none_of_isFinal rfl] at hon
        cases hon
      refine h.restate hres (h.not_scalar hres) (fun heq => ?_) (fun heq => ?_)
      · have hstep := Resolution.step_of_on hon
        rw [Option.getD_some] at heq
        rw [heq] at hstep
        exact (Resolution.not_step_unresolved _ hstep).elim
      · rcases he with rfl | rfl
        · exact hview rfl
        · rw [Option.getD_some] at heq
          cases hn : n.resolution <;> simp [hn, heq, Resolution.on] at hon

end Consistent

theorem consistent_ofBinding (generation : Nat) (owner : Owner) (name : String) (p : Payload) :
    (ofBinding generation owner name p).value.Consistent := by
  unfold ofBinding
  dsimp only
  split
  · exact (Consistent.new ..).fill p
  · exact .new ..

/-- A payload takes a node to the end of its life or leaves its state. -/
theorem fill_step (n : Node) (p : Payload) :
    (n.fill p).value.resolution = n.resolution ∨ n.resolution.Step (n.fill p).value.resolution := by
  rcases n.fill_cases p with ⟨-, hvalue⟩ | ⟨-, -, hvalue⟩ | ⟨hfinal, -, hvalue⟩
  · exact .inl (by rw [hvalue])
  · exact .inl (by rw [hvalue])
  · rw [hvalue]
    exact .inr (.resolve hfinal)

theorem fill_final {n : Node} (h : n.resolution.isFinal = true) (p : Payload) :
    (n.fill p).value = n := by
  rcases n.fill_cases p with ⟨-, hvalue⟩ | ⟨hnot, -⟩ | ⟨hnot, -⟩
  · exact hvalue
  · rw [h] at hnot
    cases hnot
  · rw [h] at hnot
    cases hnot

theorem record_step (n : Node) (e : Resolution.Event) :
    (n.record e).value.resolution = n.resolution ∨
      n.resolution.Step (n.record e).value.resolution := by
  rw [record_value]
  cases hon : n.resolution.on e with
  | none => exact .inl rfl
  | some r => exact .inr (Resolution.step_of_on hon)

theorem record_final {n : Node} (h : n.resolution.isFinal = true) (e : Resolution.Event) :
    (n.record e).value = n := by
  rw [record_value, Resolution.on_eq_none_of_isFinal h]
  rfl

end Node

/-! ### All nodes of a session -/

namespace Session

variable {src : Source} {on : NodeId → Prop} {s s' : Session}

def AllConsistent (s : Session) : Prop := ∀ id n, s.node? id = some n → n.Consistent

theorem AllConsistent.setNode (h : s.AllConsistent) {id : NodeId} {n n' : Node}
    (hn : s.node? id = some n) (hn' : n'.Consistent) : (s.setNode id n').AllConsistent := by
  intro k m hm
  rw [node?_setNode hn] at hm
  split at hm
  · cases hm
    exact hn'
  · exact h k m hm

theorem AllConsistent.recordOn (h : s.AllConsistent) {id : NodeId} {e : Resolution.Event}
    (he : e = .replied ∨ e = .failed)
    (hview : e = .replied → ∀ n, s.node? id = some n → n.view.isSome) :
    (s.recordOn id e).value.AllConsistent := by
  rcases s.recordOn_cases id e with ⟨-, hvalue⟩ | ⟨n, hn, hvalue⟩
  · rw [hvalue]
    exact h
  · rw [hvalue]
    exact h.setNode hn ((h id n hn).record he fun heq => hview heq n hn)

theorem consistent_childNode (s : Session) (parent : NodeId) (n : Node) (r : PropertyRef) :
    (s.childNode parent n r).value.Consistent := by
  rcases s.childNode_cases parent n r with ⟨-, hvalue⟩ | ⟨p, -, hvalue⟩
  · rw [hvalue]
    exact .new ..
  · rw [hvalue]
    exact (Node.Consistent.new ..).fill p

theorem Update.consistent (h : Update src on s s') (hs : s.AllConsistent) : s'.AllConsistent := by
  cases h with
  | learn _ => exact hs
  | fill _ hn _ _ => exact hs.setNode hn ((hs _ _ hn).fill _)
  | begin _ hn hres => exact hs.setNode hn ((hs _ _ hn).begun hres)
  | list _ hn hres _ =>
      intro k m hm
      rcases node?_withChildren_cases hn hm with ⟨rfl, rfl⟩ | ⟨-, hold⟩ | ⟨-, r, -, rfl⟩
      · exact (hs _ _ hn).list hres _
      · exact hs k m hold
      · exact consistent_childNode ..
  | reply _ hn hview =>
      refine hs.recordOn (.inl rfl) fun _ m hm => ?_
      rw [hn] at hm
      cases hm
      exact hview
  | fail _ => exact hs.recordOn (.inr rfl) nofun
  | bind _ =>
      intro k m hm
      rw [node?_addNode] at hm
      split at hm
      · cases hm
        exact Node.consistent_ofBinding ..
      · exact hs k m hm
  | enter _ _ => exact hs
  | ask _ => exact hs
  | manage _ hnodes _ =>
      intro k m hm
      rw [node?, hnodes] at hm
      exact hs k m hm

/-- A node that is there after an update of another one, or of its own. -/
theorem node?_setNode_cases {id k : NodeId} {n m : Node} (n' : Node) (hn : s.node? id = some n)
    (hm : s.node? k = some m) :
    (k = id ∧ m = n ∧ (s.setNode id n').node? k = some n') ∨
      (s.setNode id n').node? k = some m := by
  rw [node?_setNode hn]
  by_cases hk : k = id
  · subst hk
    rw [hn] at hm
    cases hm
    exact .inl ⟨rfl, rfl, if_pos rfl⟩
  · rw [if_neg hk]
    exact .inr hm

theorem node?_recordOn_cases {k : NodeId} {m : Node} (id : NodeId) (e : Resolution.Event)
    (hm : s.node? k = some m) :
    (s.recordOn id e).value.node? k = some (m.record e).value ∨
      (s.recordOn id e).value.node? k = some m := by
  by_cases hk : k = id
  · subst hk
    exact .inl (node?_recordOn_self hm e)
  · exact .inr ((node?_recordOn_of_ne s hk e).trans hm)

/-- An update takes a node one transition further or none, and a settled node it leaves as it is. -/
theorem Update.node_step (h : Update src on s s') {k : NodeId} {m : Node}
    (hm : s.node? k = some m) : ∃ m', s'.node? k = some m' ∧
      (m'.resolution = m.resolution ∨ m.resolution.Step m'.resolution) ∧
      (m.resolution.isFinal = true → m' = m) := by
  have same : ∀ t : Session, t.node? k = some m → ∃ m', t.node? k = some m' ∧
      (m'.resolution = m.resolution ∨ m.resolution.Step m'.resolution) ∧
      (m.resolution.isFinal = true → m' = m) := fun t ht => ⟨m, ht, .inl rfl, fun _ => rfl⟩
  have recorded : ∀ id e, ∃ m', (s.recordOn id e).value.node? k = some m' ∧
      (m'.resolution = m.resolution ∨ m.resolution.Step m'.resolution) ∧
      (m.resolution.isFinal = true → m' = m) := by
    intro id e
    rcases node?_recordOn_cases id e hm with hself | hother
    · exact ⟨_, hself, m.record_step e, fun hfinal => Node.record_final hfinal e⟩
    · exact same _ hother
  cases h with
  | learn _ => exact same _ hm
  | @fill id n _ p _ hn _ _ =>
      rcases node?_setNode_cases (n.fill p).value hn hm with ⟨rfl, rfl, hself⟩ | hother
      · exact ⟨_, hself, m.fill_step p, fun hfinal => Node.fill_final hfinal p⟩
      · exact same _ hother
  | @begin id n _ hn hres =>
      rcases node?_setNode_cases n.begun hn hm with ⟨rfl, rfl, hself⟩ | hother
      · refine ⟨_, hself, .inr ?_, fun hfinal => ?_⟩
        · rw [hres]
          exact .begin
        · rw [hres] at hfinal
          cases hfinal
      · exact same _ hother
  | @list id n refs _ hn hres _ =>
      by_cases hk : k = id
      · subst hk
        rw [hn] at hm
        cases hm
        refine ⟨_, node?_withChildren_self hn m refs, .inl rfl, fun hfinal => ?_⟩
        rw [hres] at hfinal
        cases hfinal
      · exact same _ (node?_withChildren_old hm hk n refs)
  | reply _ _ _ => exact recorded _ _
  | fail _ => exact recorded _ _
  | bind _ =>
      refine same _ ?_
      rw [node?_addNode, if_neg (Nat.ne_of_lt (lt_size_of_node? hm)), hm]
  | enter _ _ => exact same _ hm
  | ask _ => exact same _ hm
  | manage _ hnodes _ => exact same _ (by rwa [node?, hnodes])

/-- What a node has become by the time of another session: further on along its transitions, and the
same if it was settled. -/
def Lives (s s' : Session) : Prop := ∀ k m, s.node? k = some m → ∃ m', s'.node? k = some m' ∧
  Relation.ReflTransGen Resolution.Step m.resolution m'.resolution ∧
  (m.resolution.isFinal = true → m' = m)

theorem Lives.refl (s : Session) : s.Lives s := fun _ m hm => ⟨m, hm, .refl, fun _ => rfl⟩

theorem Lives.trans {a b c : Session} (h : a.Lives b) (h' : b.Lives c) : a.Lives c := by
  intro k m hm
  obtain ⟨m', hm', hpath, hfinal⟩ := h k m hm
  obtain ⟨m'', hm'', hpath', hfinal'⟩ := h' k m' hm'
  refine ⟨m'', hm'', hpath.trans hpath', fun hsettled => ?_⟩
  have heq := hfinal hsettled
  rw [heq] at hfinal'
  exact hfinal' hsettled

theorem Update.lives (h : Update src on s s') : s.Lives s' := by
  intro k m hm
  obtain ⟨m', hm', hstep, hfinal⟩ := h.node_step hm
  refine ⟨m', hm', ?_, hfinal⟩
  rcases hstep with heq | hstep
  · rw [heq]
  · exact .single hstep

theorem Updates.consistent (h : Updates src on s s') (hs : s.AllConsistent) :
    s'.AllConsistent := by
  induction h with
  | refl => exact hs
  | tail _ hlast ih => exact hlast.consistent ih

theorem Updates.lives (h : Updates src on s s') : s.Lives s' := by
  induction h with
  | refl => exact .refl s
  | tail _ hlast ih => exact ih.trans hlast.lives

end Session

/-! ### Runs -/

namespace Inquiry

theorem step_consistent {w : Inquiry} (hw : w.Coherent) (m : Move)
    (hs : w.session.AllConsistent) : (w.step m).session.AllConsistent := by
  by_cases hm : m.Ends
  · obtain ⟨current, table, hstep⟩ := step_ends hm
    rw [hstep]
    exact hs
  · exact Session.Updates.consistent (step_updates hw hm (w.supplied_any m)) hs

theorem step_lives {w : Inquiry} (hw : w.Coherent) (m : Move) :
    w.session.Lives (w.step m).session := by
  by_cases hm : m.Ends
  · obtain ⟨current, table, hstep⟩ := step_ends hm
    rw [hstep]
    exact .refl w.session
  · exact Session.Updates.lives (step_updates hw hm (w.supplied_any m))

theorem after_consistent {w : Inquiry} (hw : w.Coherent) (moves : List Move)
    (hs : w.session.AllConsistent) : (w.after moves).session.AllConsistent := by
  induction moves generalizing w with
  | nil => exact hs
  | cons m moves ih => exact ih (step_coherent hw m) (step_consistent hw m hs)

theorem after_lives {w : Inquiry} (hw : w.Coherent) (moves : List Move) :
    w.session.Lives (w.after moves).session := by
  induction moves generalizing w with
  | nil => exact .refl w.session
  | cons m moves ih => exact (step_lives hw m).trans (ih (step_coherent hw m))

theorem consistent_run (options : LookupOptions) (moves : List Move) :
    (run options moves).session.AllConsistent := by
  refine after_consistent (coherent_run options []) moves fun id n hn => ?_
  simp [run, after, Session.node?] at hn

/-- Every node of a run is consistent. Whatever happens after that, it goes on along its transitions
and never back; once it is settled, nothing about it changes any more. -/
theorem node_lives_once (options : LookupOptions) (moves later : List Move) (id : NodeId) (n : Node)
    (hn : (run options moves).session.node? id = some n) :
    n.Consistent ∧ ∃ n', (run options (moves ++ later)).session.node? id = some n' ∧
      Relation.ReflTransGen Resolution.Step n.resolution n'.resolution ∧
      (n.resolution.isFinal = true → n' = n) := by
  have hlives := after_lives (coherent_run options moves) later
  rw [run_append]
  exact ⟨consistent_run options moves id n hn, hlives id n hn⟩

/-- A variable is asked for twice, with its frame and by its expansion; one reply says that it is an
object and the other that it is a number. -/
def contradictedMoves : List Move :=
  [.createFrame 0 "main" [⟨"x", { handle := some 1 }⟩], .ensureVariables 0, .expand 0,
    .settle 0 (.ok (.response 1 "lookup" true (some (.object
      [("1", .object [("type", .string "object")])])))),
    .settle 0 (.ok (.response 2 "lookup" true (some (.object
      [("1", .object [("type", .string "number"), ("text", .string "5")])]))))]

def contradictedNode : Node :=
  { Node.new "x" "x" 0 (.frame 0) (some 1) false with
    facts := { name := "x", handle := some 1, valueType := some .number, text := some "5" }
    resolution := .resolved
    view := some (.scalar .number "5") }

theorem node_lives_once_contradicted :
    (run {} (contradictedMoves.take 4)).session.node? 0 = some
        { contradictedNode with
          facts := { name := "x", handle := some 1, valueType := some .object }
          resolution := .pending
          view := none } ∧
      (run {} contradictedMoves).session.node? 0 = some contradictedNode ∧
      contradictedNode.Consistent ∧
      (run {} (contradictedMoves ++ [.expand 0, .retire, .ensureProperties 0 [⟨"a", 2⟩]])).session.node?
        0 = some contradictedNode := by
  have hpending : (run {} (contradictedMoves.take 4)).session.node? 0 = some
      { contradictedNode with
        facts := { name := "x", handle := some 1, valueType := some .object }
        resolution := .pending
        view := none } := by
    decide +kernel
  have hsettled : (run {} contradictedMoves).session.node? 0 = some contradictedNode := by
    decide +kernel
  obtain ⟨hconsistent, n', hn', -, hsame⟩ := node_lives_once {} contradictedMoves
    [.expand 0, .retire, .ensureProperties 0 [⟨"a", 2⟩]] 0 contradictedNode hsettled
  rw [hsame rfl] at hn'
  exact ⟨hpending, hsettled, hconsistent, hn'⟩

end Inquiry

end RemoteInspector
