import RemoteInspector.Session.Basic

/-!
The nodes of a session as a store that only grows. A node that is there stays there under its number,
and what says which node it is does not change: `Node.Heir`. `Session.Grows` says so of all nodes and
frames; the lemmas here put it together from the single updates.
-/

namespace RemoteInspector

/-! ### What happens to one node -/

namespace Node

@[simp] theorem record_value (n : Node) (e : Resolution.Event) :
    (n.record e).value = { n with resolution := (n.resolution.on e).getD n.resolution } := by
  unfold record
  cases h : n.resolution.on e <;> simp

def scalarView (f : Facts) : View := .scalar (f.valueType.getD .unknown) (f.text.getD "")

/-- The node after its own payload: settled nodes ignore it, a scalar is resolved by it. -/
theorem fill_cases (n : Node) (p : Payload) :
    (n.resolution.isFinal = true ∧ (n.fill p).value = n) ∨
    (n.resolution.isFinal = false ∧ (n.facts.fill p (!n.shallow)).isCompound = true ∧
      (n.fill p).value = { n with facts := n.facts.fill p (!n.shallow), shallow := false }) ∨
    (n.resolution.isFinal = false ∧ (n.facts.fill p (!n.shallow)).isCompound = false ∧
      (n.fill p).value =
        { n with facts := n.facts.fill p (!n.shallow), shallow := false,
                 view := some (scalarView (n.facts.fill p (!n.shallow))),
                 resolution := .resolved }) := by
  cases hfinal : n.resolution.isFinal with
  | true => exact .inl ⟨rfl, by simp [fill, hfinal]⟩
  | false =>
      right
      cases hcompound : (n.facts.fill p (!n.shallow)).isCompound with
      | true => exact .inl ⟨rfl, rfl, by simp [fill, hfinal, hcompound]⟩
      | false =>
          refine .inr ⟨rfl, rfl, ?_⟩
          have hon : n.resolution.on .filled = some .resolved := by
            cases hr : n.resolution <;> simp_all [Resolution.isFinal, Resolution.on]
          simp [fill, hfinal, hcompound, hon, scalarView]

theorem fill_facts {n : Node} (hn : n.resolution.isFinal = false) (p : Payload) :
    (n.fill p).value.facts = n.facts.fill p (!n.shallow) := by
  rcases n.fill_cases p with ⟨hfinal, -⟩ | ⟨-, -, hvalue⟩ | ⟨-, -, hvalue⟩
  · rw [hn] at hfinal
    cases hfinal
  · rw [hvalue]
  · rw [hvalue]

/-- The same node at a later time: what names it is kept, and so are its handle, that its resolution
has begun, and that it has a view. -/
structure Heir (n n' : Node) : Prop where
  name : n'.name = n.name
  path : n'.path = n.path
  generation : n'.generation = n.generation
  owner : n'.owner = n.owner
  handle : ∀ h, n.facts.handle = some h → n'.facts.handle = some h
  begun : n.resolution ≠ .unresolved → n'.resolution ≠ .unresolved
  view : n.view.isSome → n'.view.isSome

theorem Heir.refl (n : Node) : n.Heir n := ⟨rfl, rfl, rfl, rfl, fun _ h => h, id, id⟩

theorem Heir.trans {a b c : Node} (h : a.Heir b) (h' : b.Heir c) : a.Heir c where
  name := h'.name.trans h.name
  path := h'.path.trans h.path
  generation := h'.generation.trans h.generation
  owner := h'.owner.trans h.owner
  handle := fun k hk => h'.handle k (h.handle k hk)
  begun := fun hr => h'.begun (h.begun hr)
  view := fun hv => h'.view (h.view hv)

theorem heir_record (n : Node) (e : Resolution.Event) : n.Heir (n.record e).value := by
  rw [record_value]
  refine ⟨rfl, rfl, rfl, rfl, fun _ h => h, fun hr => ?_, id⟩
  cases hn : n.resolution <;> cases e <;> simp_all [Resolution.on]

end Node

/-! ### Handles of facts -/

namespace Facts

@[simp] theorem handle_setText (f : Facts) (text : String) : (f.setText text).handle = f.handle := by
  unfold setText
  split <;> rfl

@[simp] theorem handle_setProperties (f : Facts) (c : Option String) (ps : List PropertyRef) :
    (f.setProperties c ps).handle = f.handle := by
  unfold setProperties
  split <;> rfl

theorem handle_adoptHandle (f : Facts) (h : Option Handle) :
    (f.adoptHandle h).handle = f.handle.or h := by
  unfold adoptHandle
  cases hf : f.handle <;> simp [hf]

/-- A payload brings a handle only where none is known. -/
theorem handle_fill (f : Facts) (p : Payload) (withProperties : Bool) :
    (f.fill p withProperties).handle = f.handle.or p.handle := by
  rw [← handle_adoptHandle]
  unfold fill
  dsimp only
  split
  · simp [setType]
  · split
    · split
      · split <;> simp [setType]
      · split <;> simp [setType]
    · simp [setType]

end Facts

theorem Node.heir_fill (n : Node) (p : Payload) : n.Heir (n.fill p).value := by
  rcases n.fill_cases p with ⟨-, hvalue⟩ | ⟨-, -, hvalue⟩ | ⟨-, -, hvalue⟩
  · rw [hvalue]
    exact Heir.refl n
  · rw [hvalue]
    exact ⟨rfl, rfl, rfl, rfl, fun h hh => by simp [Facts.handle_fill, hh], id, id⟩
  · rw [hvalue]
    exact ⟨rfl, rfl, rfl, rfl, fun h hh => by simp [Facts.handle_fill, hh], fun _ => nofun, fun _ => rfl⟩

/-! ### The store -/

namespace Session

theorem node?_setNode_self {s : Session} {id : NodeId} {m : Node} (h : s.node? id = some m)
    (n : Node) : (s.setNode id n).node? id = some n := by
  obtain ⟨hlt, -⟩ := Array.getElem?_eq_some_iff.1 h
  simp [node?, setNode, hlt]

theorem node?_setNode_of_ne (s : Session) {id k : NodeId} (h : k ≠ id) (n : Node) :
    (s.setNode id n).node? k = s.node? k := by
  simp [node?, setNode, Array.getElem?_setIfInBounds_ne (Ne.symm h)]

/-- What stands under a number after an update of the node `id`. -/
theorem node?_setNode {s : Session} {id : NodeId} {m : Node} (h : s.node? id = some m) (n : Node)
    (k : NodeId) : (s.setNode id n).node? k = if k = id then some n else s.node? k := by
  by_cases hk : k = id
  · rw [hk, node?_setNode_self h, if_pos rfl]
  · rw [node?_setNode_of_ne s hk, if_neg hk]

theorem lt_size_of_node? {s : Session} {id : NodeId} {n : Node} (h : s.node? id = some n) :
    id < s.nodes.size :=
  (Array.getElem?_eq_some_iff.1 h).1

theorem node?_addNode (s : Session) (n : Node) (k : NodeId) :
    (s.addNode n).2.node? k = if k = s.nodes.size then some n else s.node? k := by
  simp [node?, addNode, Array.getElem?_push]

theorem recordOn_cases (s : Session) (id : NodeId) (e : Resolution.Event) :
    (s.node? id = none ∧ (s.recordOn id e).value = s) ∨
    ∃ n, s.node? id = some n ∧ (s.recordOn id e).value = s.setNode id (n.record e).value := by
  unfold recordOn
  cases s.node? id with
  | none => exact .inl ⟨rfl, rfl⟩
  | some n => exact .inr ⟨n, rfl, rfl⟩

/-- An event touches nothing but the nodes. -/
theorem recordOn_rest (s : Session) (id : NodeId) (e : Resolution.Event) :
    (s.recordOn id e).value.cache = s.cache ∧
      (s.recordOn id e).value.callFrames = s.callFrames := by
  rcases s.recordOn_cases id e with ⟨-, hvalue⟩ | ⟨n, -, hvalue⟩ <;> rw [hvalue] <;>
    exact ⟨rfl, rfl⟩

theorem node?_recordOn_self {s : Session} {id : NodeId} {n : Node} (h : s.node? id = some n)
    (e : Resolution.Event) : (s.recordOn id e).value.node? id = some (n.record e).value := by
  rcases s.recordOn_cases id e with ⟨hnone, -⟩ | ⟨m, hm, hvalue⟩
  · rw [h] at hnone
    cases hnone
  · rw [h] at hm
    cases hm
    rw [hvalue, node?_setNode_self h]

theorem node?_recordOn_of_ne (s : Session) {id k : NodeId} (h : k ≠ id) (e : Resolution.Event) :
    (s.recordOn id e).value.node? k = s.node? k := by
  rcases s.recordOn_cases id e with ⟨-, hvalue⟩ | ⟨m, -, hvalue⟩
  · rw [hvalue]
  · rw [hvalue, node?_setNode_of_ne _ h]

theorem isCurrent_iff {s : Session} {generation : Nat} :
    s.isCurrent generation = true ↔ generation = s.cache.generation := by
  rw [isCurrent, beq_iff_eq, eq_comm]

/-! ### Sessions at a later time -/

/-- A session at a later time: nodes and frames that are there stay. -/
structure Grows (s s' : Session) : Prop where
  nodes : ∀ id n, s.node? id = some n → ∃ n', s'.node? id = some n' ∧ n.Heir n'
  callFrames : ∀ id f, s.callFrame? id = some f → ∃ requested,
    s'.callFrame? id = some { f with requested := requested }

namespace Grows

theorem refl (s : Session) : s.Grows s where
  nodes := fun _ n h => ⟨n, h, .refl n⟩
  callFrames := fun _ f h => ⟨f.requested, h⟩

theorem trans {a b c : Session} (h : a.Grows b) (h' : b.Grows c) : a.Grows c where
  nodes := by
    intro id n hn
    obtain ⟨m, hm, hnm⟩ := h.nodes id n hn
    obtain ⟨k, hk, hmk⟩ := h'.nodes id m hm
    exact ⟨k, hk, hnm.trans hmk⟩
  callFrames := by
    intro id f hf
    obtain ⟨r, hr⟩ := h.callFrames id f hf
    obtain ⟨r', hr'⟩ := h'.callFrames id _ hr
    exact ⟨r', hr'⟩

theorem setNode {s : Session} {id : NodeId} {n n' : Node} (hn : s.node? id = some n)
    (heir : n.Heir n') : s.Grows (s.setNode id n') where
  nodes := by
    intro k m hm
    rw [node?_setNode hn]
    by_cases hk : k = id
    · subst hk
      rw [hn] at hm
      cases hm
      exact ⟨n', if_pos rfl, heir⟩
    · exact ⟨m, by rw [if_neg hk, hm], .refl m⟩
  callFrames := fun _ f h => ⟨f.requested, h⟩

theorem addNode (s : Session) (n : Node) : s.Grows (s.addNode n).2 where
  nodes := by
    intro k m hm
    have hk : k ≠ s.nodes.size := Nat.ne_of_lt (lt_size_of_node? hm)
    exact ⟨m, by rw [node?_addNode, if_neg hk, hm], .refl m⟩
  callFrames := fun _ f h => ⟨f.requested, h⟩

end Grows

end Session

end RemoteInspector
