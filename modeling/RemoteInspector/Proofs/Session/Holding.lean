import RemoteInspector.Proofs.Session.Inquiry

/-!
What nobody holds on to any more stays gone. `Session.Calm` says so of two sessions, and says which
nodes have begun to be resolved in between; every operation of a session is calm, and only an
expansion begins anything. Frames enter with their own numbers, so no frame that is to come can hold
a node that is there already.
-/

namespace RemoteInspector

@[simp] theorem Node.children_compoundView (n : Node) (ids : List NodeId) :
    (n.compoundView ids).children = ids := by
  unfold compoundView
  split <;> rfl

namespace Session

variable {begun : NodeId → Prop} {s s' s'' : Session}

/-! ### Who is alive -/

theorem isAlive_iff {id : NodeId} : s.isAlive id = true ↔ id ∈ s.heldNodes ∨
    ∃ n, s.node? id = some n ∧ ((∃ f, n.owner = .frame f ∧ s.holdsFrame f = true) ∨
      ∃ p parent, n.owner = .node p ∧ p < id ∧ s.node? p = some parent ∧ id ∈ parent.children ∧
        s.isAlive p = true) := by
  rw [isAlive, Bool.or_eq_true, List.contains_iff_mem]
  refine or_congr_right ?_
  cases hn : s.node? id with
  | none => simp
  | some n =>
      cases howner : n.owner with
      | frame f => simp [howner]
      | node p =>
          by_cases hlt : p < id
          · cases hp : s.node? p <;> simp [howner, hlt, hp]
          · simp [howner, hlt]

theorem holdsFrame_iff {f : FrameId} :
    s.holdsFrame f = true ↔ f ∈ s.current ∨ f ∈ s.heldFrames := by
  simp [holdsFrame]

/-- Who owns a node that is there is there as well, if it is a frame. -/
def Framed (s : Session) : Prop :=
  ∀ id n f, s.node? id = some n → n.owner = .frame f → f < s.callFrames.size

/-- No node that was gone is alive again, and the nodes that have become pending are among `begun`. -/
structure Calm (begun : NodeId → Prop) (s s' : Session) : Prop where
  held : s'.heldNodes = s.heldNodes
  /-- A frame that comes to be held is a new one. -/
  frames : ∀ f, s'.holdsFrame f = true → s.holdsFrame f = true ∨ s.callFrames.size ≤ f
  frameCount : s.callFrames.size ≤ s'.callFrames.size
  nodeCount : s.nodes.size ≤ s'.nodes.size
  owner : ∀ id n n', s.node? id = some n → s'.node? id = some n' → n'.owner = n.owner
  /-- A node that comes to be listed is a new one. -/
  children : ∀ id n n', s.node? id = some n → s'.node? id = some n' → ∀ c ∈ n'.children,
    c ∈ n.children ∨ s.nodes.size ≤ c
  owned : ∀ id n' f, s'.node? id = some n' → s.node? id = none → n'.owner = .frame f →
    f < s'.callFrames.size
  pending : ∀ id n', s'.node? id = some n' → n'.resolution = .pending →
    begun id ∨ ∃ n, s.node? id = some n ∧ n.resolution = .pending

theorem node?_of_lt {id : NodeId} (h : id < s.nodes.size) : ∃ n, s.node? id = some n :=
  ⟨s.nodes[id], Array.getElem?_eq_getElem h⟩

/-- A node stays gone as long as what comes to be held or listed is new. -/
theorem isAlive_of_later (hs : s.Framed) (hheld : ∀ id ∈ s'.heldNodes, s.isAlive id = true)
    (hframes : ∀ f, s'.holdsFrame f = true → s.holdsFrame f = true ∨ s.callFrames.size ≤ f)
    (howner : ∀ id n n', s.node? id = some n → s'.node? id = some n' → n'.owner = n.owner)
    (hchildren : ∀ id n n', s.node? id = some n → s'.node? id = some n' → ∀ c ∈ n'.children,
      c ∈ n.children ∨ s.nodes.size ≤ c)
    {id : NodeId} (hid : id < s.nodes.size) (halive : s'.isAlive id = true) :
    s.isAlive id = true := by
  -- Owners come before what they own.
  induction id using Nat.strongRecOn with
  | ind id ih =>
      obtain ⟨n, hn⟩ := node?_of_lt hid
      rcases isAlive_iff.1 halive with hmem | ⟨n', hn', hcase⟩
      · exact hheld id hmem
      have hsame := howner id n n' hn hn'
      refine isAlive_iff.2 (.inr ⟨n, hn, ?_⟩)
      rcases hcase with ⟨f, hf, hholds⟩ | ⟨p, parent', hp, hlt, hparent', hlists, hp'⟩
      · rw [hsame] at hf
        rcases hframes f hholds with hold | hnew
        · exact .inl ⟨f, hf, hold⟩
        · exact (Nat.not_lt.2 hnew (hs id n f hn hf)).elim
      · rw [hsame] at hp
        have hplt := Nat.lt_trans hlt hid
        obtain ⟨parent, hparent⟩ := node?_of_lt hplt
        rcases hchildren p parent parent' hparent hparent' id hlists with hold | hnew
        · exact .inr ⟨p, parent, hp, hlt, hparent, hold, ih p hlt hplt hp'⟩
        · exact (Nat.not_lt.2 hnew hid).elim

namespace Calm

theorem refl (begun : NodeId → Prop) (s : Session) : Calm begun s s where
  held := rfl
  frames := fun _ h => .inl h
  frameCount := Nat.le_refl _
  nodeCount := Nat.le_refl _
  owner := by
    intro id n n' hn hn'
    rw [hn] at hn'
    cases hn'
    rfl
  children := by
    intro id n n' hn hn' c hc
    rw [hn] at hn'
    cases hn'
    exact .inl hc
  owned := by
    intro id n' f hn' hnone
    rw [hnone] at hn'
    cases hn'
  pending := fun id n' hn' hpending => .inr ⟨n', hn', hpending⟩

/-- A node that was there is there under its number. -/
theorem node? (h : Calm begun s s') {id : NodeId} {n : Node} (hn : s.node? id = some n) :
    ∃ n', s'.node? id = some n' :=
  node?_of_lt (Nat.lt_of_lt_of_le (lt_size_of_node? hn) h.nodeCount)

theorem trans (h : Calm begun s s') (h' : Calm begun s' s'') : Calm begun s s'' where
  held := h'.held.trans h.held
  frames := by
    intro f hf
    rcases h'.frames f hf with hold | hnew
    · exact h.frames f hold
    · exact .inr (Nat.le_trans h.frameCount hnew)
  frameCount := Nat.le_trans h.frameCount h'.frameCount
  nodeCount := Nat.le_trans h.nodeCount h'.nodeCount
  owner := by
    intro id n n'' hn hn''
    obtain ⟨n', hn'⟩ := h.node? hn
    exact (h'.owner id n' n'' hn' hn'').trans (h.owner id n n' hn hn')
  children := by
    intro id n n'' hn hn'' c hc
    obtain ⟨n', hn'⟩ := h.node? hn
    rcases h'.children id n' n'' hn' hn'' c hc with hold | hnew
    · exact h.children id n n' hn hn' c hold
    · exact .inr (Nat.le_trans h.nodeCount hnew)
  owned := by
    intro id n'' f hn'' hnone hf
    cases hn' : s'.node? id with
    | none => exact h'.owned id n'' f hn'' hn' hf
    | some n' =>
        rw [h'.owner id n' n'' hn' hn''] at hf
        exact Nat.lt_of_lt_of_le (h.owned id n' f hn' hnone hf) h'.frameCount
  pending := by
    intro id n'' hn'' hpending
    rcases h'.pending id n'' hn'' hpending with hbegun | ⟨n', hn', hpending'⟩
    · exact .inl hbegun
    · exact h.pending id n' hn' hpending'

theorem framed (h : Calm begun s s') (hs : s.Framed) : s'.Framed := by
  intro id n' f hn' hf
  cases hn : s.node? id with
  | none => exact h.owned id n' f hn' hn hf
  | some n =>
      rw [h.owner id n n' hn hn'] at hf
      exact Nat.lt_of_lt_of_le (hs id n f hn hf) h.frameCount

theorem isAlive (h : Calm begun s s') (hs : s.Framed) {id : NodeId} (hid : id < s.nodes.size)
    (halive : s'.isAlive id = true) : s.isAlive id = true :=
  isAlive_of_later hs (fun _ hk => isAlive_iff.2 (.inl (h.held ▸ hk))) h.frames h.owner h.children
    hid halive

/-! ### Single updates -/

/-- Nothing has happened to the nodes, and nobody holds on to more than before. -/
theorem of_nodes (hnodes : s'.nodes = s.nodes) (hframes : s'.callFrames.size = s.callFrames.size)
    (hcurrent : s'.current = s.current) (hheldFrames : s'.heldFrames = s.heldFrames)
    (hheld : s'.heldNodes = s.heldNodes) : Calm begun s s' := by
  have hsame : ∀ id, s'.node? id = s.node? id := by
    intro id
    rw [Session.node?, hnodes, Session.node?]
  have hrefl := refl begun s
  refine ⟨hheld, ?_, Nat.le_of_eq hframes.symm, Nat.le_of_eq (by rw [hnodes]), ?_, ?_, ?_, ?_⟩
  · intro f hf
    rw [holdsFrame_iff, hcurrent, hheldFrames, ← holdsFrame_iff] at hf
    exact .inl hf
  · intro id n n' hn hn'
    rw [hsame] at hn'
    exact hrefl.owner id n n' hn hn'
  · intro id n n' hn hn'
    rw [hsame] at hn'
    exact hrefl.children id n n' hn hn'
  · intro id n' f hn' hnone
    rw [hsame, hnone] at hn'
    cases hn'
  · intro id n' hn' hpending
    rw [hsame] at hn'
    exact .inr ⟨n', hn', hpending⟩

/-- A node takes the place of another one with the same owner, and lists none but new nodes beyond
those that are listed already. -/
theorem setNode {id : NodeId} {n n' : Node} (hn : s.node? id = some n) (howner : n'.owner = n.owner)
    (hchildren : ∀ c ∈ n'.children, c ∈ n.children ∨ s.nodes.size ≤ c)
    (hpending : n'.resolution = .pending → begun id ∨ n.resolution = .pending) :
    Calm begun s (s.setNode id n') where
  held := rfl
  frames := fun _ h => .inl h
  frameCount := Nat.le_refl _
  nodeCount := Nat.le_of_eq (by simp [Session.setNode])
  owner := by
    intro k m m' hm hm'
    rw [node?_setNode hn] at hm'
    split at hm'
    · next heq =>
      subst heq
      rw [hn] at hm
      cases hm
      cases hm'
      exact howner
    · exact (refl begun s).owner k m m' hm hm'
  children := by
    intro k m m' hm hm'
    rw [node?_setNode hn] at hm'
    split at hm'
    · next heq =>
      subst heq
      rw [hn] at hm
      cases hm
      cases hm'
      exact hchildren
    · exact (refl begun s).children k m m' hm hm'
  owned := fun k m' f hm' hnone => (not_added_setNode hn hm' hnone).elim
  pending := by
    intro k m' hm' hk
    rw [node?_setNode hn] at hm'
    split at hm'
    · next heq =>
      subst heq
      cases hm'
      exact (hpending hk).imp_right fun h => ⟨n, hn, h⟩
    · exact .inr ⟨m', hm', hk⟩

/-- New nodes come after the ones that are there. -/
theorem append {t : Session} (news : List Node) (hnodes : t.nodes = s.nodes ++ news.toArray)
    (hframes : s.callFrames.size ≤ t.callFrames.size) (hcurrent : t.current = s.current)
    (hheldFrames : t.heldFrames = s.heldFrames) (hheld : t.heldNodes = s.heldNodes)
    (howned : ∀ n ∈ news, ∀ f, n.owner = .frame f → f < t.callFrames.size)
    (hpending : ∀ n ∈ news, n.resolution ≠ .pending) : Calm begun s t := by
  have hold : ∀ k m, s.node? k = some m → t.node? k = some m := by
    intro k m hm
    have hlt := lt_size_of_node? hm
    rw [Session.node?, hnodes, Array.getElem?_append, if_pos hlt]
    exact hm
  have hnew : ∀ k m, t.node? k = some m → s.node? k = none → m ∈ news := by
    intro k m hm hnone
    have hle : s.nodes.size ≤ k := by simpa [Session.node?] using hnone
    rw [Session.node?, hnodes, Array.getElem?_append, if_neg (Nat.not_lt.2 hle)] at hm
    exact List.mem_of_getElem? (by simpa using hm)
  refine ⟨hheld, ?_, hframes, by simp [hnodes], ?_, ?_, ?_, ?_⟩
  · intro f hf
    rw [holdsFrame_iff, hcurrent, hheldFrames, ← holdsFrame_iff] at hf
    exact .inl hf
  · intro k m m' hm hm'
    rw [hold k m hm] at hm'
    cases hm'
    rfl
  · intro k m m' hm hm' c hc
    rw [hold k m hm] at hm'
    cases hm'
    exact .inl hc
  · intro k m' f hm' hnone
    exact howned m' (hnew k m' hm' hnone) f
  · intro k m' hm' hk
    cases hm : s.node? k with
    | none => exact (hpending m' (hnew k m' hm' hm) hk).elim
    | some m =>
        rw [hold k m hm] at hm'
        cases hm'
        exact .inr ⟨_, rfl, hk⟩

end Calm

/-! ### Nodes -/

theorem children_fill (n : Node) (p : Payload) :
    ∀ c ∈ (n.fill p).value.children, c ∈ n.children := by
  intro c hc
  rcases n.fill_cases p with ⟨-, hvalue⟩ | ⟨-, -, hvalue⟩ | ⟨-, -, hvalue⟩
  · rwa [hvalue] at hc
  · rwa [hvalue] at hc
  · rw [hvalue] at hc
    exact (List.not_mem_nil hc).elim

theorem calm_fill {id : NodeId} {n : Node} (hn : s.node? id = some n) (p : Payload) :
    Calm begun s (s.setNode id (n.fill p).value) :=
  .setNode hn (n.heir_fill p).owner (fun c hc => .inl (children_fill n p c hc))
    fun hpending => .inr (fill_pending hpending).1

theorem calm_recordOn (id : NodeId) {e : Resolution.Event} (he : e ≠ .expand) :
    Calm begun s (s.recordOn id e).value := by
  rcases s.recordOn_cases id e with ⟨-, hvalue⟩ | ⟨n, hn, hvalue⟩
  · rw [hvalue]
    exact .refl begun s
  · rw [hvalue]
    refine .setNode hn (n.heir_record e).owner (fun c hc => ?_) fun hpending => .inr ?_
    · rw [Node.record_value] at hc
      exact .inl hc
    · rw [Node.record_value] at hpending
      cases hr : n.resolution <;> cases e <;> simp_all [Resolution.on]

theorem children_list (n : Node) (ids : List NodeId) :
    Node.children { n with view := some (n.compoundView ids) } = ids := n.children_compoundView ids

theorem childNode_owner (s : Session) (parent : NodeId) (n : Node) (r : PropertyRef) :
    (s.childNode parent n r).value.owner = .node parent :=
  (s.heir_childNode parent n r).owner

theorem childNode_not_pending (s : Session) (parent : NodeId) (n : Node) (r : PropertyRef) :
    (s.childNode parent n r).value.resolution ≠ .pending := by
  intro hpending
  rcases s.childNode_cases parent n r with ⟨-, hvalue⟩ | ⟨p, -, hvalue⟩
  · rw [hvalue] at hpending
    cases hpending
  · rw [hvalue] at hpending
    cases (fill_pending hpending).1

theorem ofBinding_not_pending (generation : Nat) (owner : Owner) (name : String) (p : Payload) :
    (Node.ofBinding generation owner name p).value.resolution ≠ .pending := by
  unfold Node.ofBinding
  dsimp only
  split
  · intro hpending
    cases (fill_pending hpending).1
  · nofun

theorem calm_withChildren {id : NodeId} {m n : Node} (hm : s.node? id = some m)
    (howner : n.owner = m.owner)
    (hpending : n.resolution = .pending → begun id ∨ m.resolution = .pending)
    (refs : List PropertyRef) : Calm begun s (s.withChildren id n refs) := by
  refine ⟨rfl, fun _ h => .inl h, Nat.le_refl _, ?_, ?_, ?_, ?_, ?_⟩
  · simp [withChildren, setNode]
  · intro k a a' ha ha'
    by_cases hk : k = id
    · subst hk
      rw [hm] at ha
      cases ha
      rw [node?_withChildren_self hm] at ha'
      cases ha'
      exact howner
    · rw [node?_withChildren_old ha hk] at ha'
      cases ha'
      rfl
  · intro k a a' ha ha' c hc
    by_cases hk : k = id
    · subst hk
      rw [node?_withChildren_self hm] at ha'
      cases ha'
      rw [children_list] at hc
      exact .inr (List.mem_range'_1.1 hc).1
    · rw [node?_withChildren_old ha hk] at ha'
      cases ha'
      exact .inl hc
  · intro k a' f ha' hnone hf
    rcases node?_withChildren_cases hm ha' with ⟨rfl, -⟩ | ⟨-, hold⟩ | ⟨-, r, -, rfl⟩
    · rw [hm] at hnone
      cases hnone
    · rw [hold] at hnone
      cases hnone
    · rw [childNode_owner] at hf
      cases hf
  · intro k a' ha' hk
    rcases node?_withChildren_cases hm ha' with ⟨rfl, rfl⟩ | ⟨-, hold⟩ | ⟨-, r, -, rfl⟩
    · exact (hpending hk).imp_right fun h => ⟨m, hm, h⟩
    · exact .inr ⟨a', hold, hk⟩
    · exact (childNode_not_pending s id n r hk).elim

/-! ### Operations -/

theorem calm_populate {id : NodeId} {m n : Node} (hm : s.node? id = some m)
    (howner : n.owner = m.owner)
    (hpending : n.resolution = .pending → begun id ∨ m.resolution = .pending)
    (refs : List PropertyRef) : Calm begun s (s.populate id n refs).value.1 := by
  have hlist : Calm begun s (s.withChildren id n refs) := calm_withChildren hm howner hpending refs
  rcases s.populate_cases id n refs with ⟨-, hvalue⟩ | ⟨-, hvalue⟩
  · rw [hvalue]
    exact hlist.trans (calm_recordOn id nofun)
  · rw [hvalue]
    exact hlist

theorem calm_settleOwn {id : NodeId} {n : Node} (hn : s.node? id = some n) (p : Payload) :
    Calm begun s (s.settleOwn id n p).value.1 := by
  have hfill : Calm begun s (s.setNode id (n.fill p).value) := calm_fill hn p
  rcases s.settleOwn_cases id n p with ⟨-, hvalue⟩ | ⟨-, hvalue⟩
  · rw [hvalue]
    exact hfill.trans (calm_populate (node?_setNode_self hn _) rfl .inr _)
  · rw [hvalue]
    exact hfill

theorem calm_begin {id : NodeId} {n : Node} (hn : s.node? id = some n) :
    Calm (· = id) s (s.setNode id n.begun) :=
  .setNode hn rfl (fun _ hc => .inl hc) fun _ => .inl rfl

theorem calm_populate_begun {id : NodeId} {n : Node} (hn : s.node? id = some n)
    (refs : List PropertyRef) : Calm (· = id) s (s.populate id n.begun refs).value.1 := by
  refine calm_populate hn ?_ (fun _ => .inl ?_) refs
  · rfl
  · rfl

theorem calm_expand (id : NodeId) : Calm (· = id) s (s.expand id).value.1 := by
  rcases s.expand_cases id with ⟨-, hvalue⟩ | ⟨n, hn, -, -, hcase⟩
  · rw [hvalue]
    exact .refl _ s
  rcases hcase with ⟨refs, -, hvalue⟩ | ⟨h, p, -, -, -, hvalue⟩ | ⟨h, -, -, -, hvalue⟩
  · rw [hvalue]
    exact calm_populate_begun hn refs
  · rw [hvalue]
    exact (calm_begin hn).trans (calm_settleOwn (node?_setNode_self hn _) p)
  · rw [hvalue]
    exact calm_begin hn

theorem calm_ensureProperties (id : NodeId) (refs : List PropertyRef) :
    Calm (· = id) s (s.ensureProperties id refs).value.1 := by
  rcases s.ensureProperties_cases id refs with ⟨-, hvalue⟩ | ⟨n, hn, -, -, hvalue⟩
  · rw [hvalue]
    exact .refl _ s
  · rw [hvalue]
    exact calm_populate_begun hn refs

theorem calm_fillBare (ids : List NodeId) : Calm begun s (s.fillBare ids).value := by
  induction ids generalizing s with
  | nil => exact .refl begun s
  | cons id ids ih =>
      unfold fillBare
      cases hn : s.node? id with
      | none => exact ih
      | some n =>
          dsimp only
          split
          · next p _ _ =>
            rw [Logged.value_bind]
            exact (calm_fill hn p).trans ih
          · exact ih

theorem calm_ensureVariables {id : FrameId} {next : Session × Option Lookup}
    (hnext : (s.ensureVariables id).value = .ok next) : Calm begun s next.1 := by
  have hasked : ∀ f, Calm begun s ((s.asked id f).fillBare f.roots).value := by
    intro f
    have hask : Calm begun s (s.asked id f) := .of_nodes rfl (by simp [asked]) rfl rfl rfl
    exact hask.trans (calm_fillBare f.roots)
  rcases s.ensureVariables_cases id with hvalue | hvalue | ⟨f, -, -, hvalue | hvalue⟩
  · rw [hvalue] at hnext
    cases hnext
    exact .refl begun s
  · rw [hvalue] at hnext
    cases hnext
  · rw [hvalue] at hnext
    cases hnext
    exact hasked f
  · rw [hvalue] at hnext
    cases hnext
    exact hasked f

/-! ### Outcomes -/

theorem calm_cache (c : Cache) : Calm begun s { s with cache := c } := .of_nodes rfl rfl rfl rfl rfl

theorem calm_seedRefs (e : Envelope) : Calm begun s (s.seedRefs e) := by
  unfold seedRefs
  split
  · exact calm_cache _
  · exact .refl begun s

theorem calm_failAll (ids : List NodeId) : Calm begun s (s.failAll ids).value := by
  induction ids generalizing s with
  | nil => exact .refl begun s
  | cons id ids ih =>
      unfold failAll
      split
      · rw [Logged.value_bind]
        have hfail : Calm begun s (s.recordOn id .failed).value := calm_recordOn id (by decide)
        exact hfail.trans ih
      · exact ih

theorem calm_distribute (r : LookupReply) (awaited : List (Handle × NodeId)) :
    Calm begun s (s.distribute r awaited).value := by
  induction awaited generalizing s with
  | nil => exact .refl begun s
  | cons x rest ih =>
      obtain ⟨h, id⟩ := x
      unfold distribute
      split
      · exact ih
      · split
        · next p n _ hn =>
          rw [Logged.value_bind]
          have hlearn : Calm begun s (s.learned h p) := calm_cache _
          have hfill : Calm begun (s.learned h p) ((s.learned h p).setNode id (n.fill p).value) :=
            calm_fill (s := s.learned h p) hn p
          exact (hlearn.trans hfill).trans ih
        · exact ih

theorem calm_deliverBatch (g : Nat) (awaited : List (Handle × NodeId)) (parent : Option NodeId)
    (o : Outcome) : Calm begun s (s.deliverBatch g awaited parent o).value := by
  unfold deliverBatch
  split
  · exact .refl begun s
  · dsimp only
    split
    · rw [Logged.value_bind]
      exact calm_failAll _
    · next e _ =>
      have hgive : Calm begun s
          ((s.seedRefs e).distribute (LookupReply.ofEnvelope e) awaited).value :=
        (calm_seedRefs e).trans (calm_distribute _ _)
      rw [Logged.value_bind]
      split
      · exact hgive.trans (calm_recordOn _ nofun)
      · exact hgive

theorem calm_deliver (w : Waiting) (o : Outcome) : Calm begun s (s.deliver w o).value.1 := by
  cases w with
  | batch g awaited parent => exact calm_deliverBatch g awaited parent o
  | own g id h =>
      change Calm begun s (s.deliverOwn g id h o).value.1
      rcases s.deliverOwn_cases g id h o with hvalue | hvalue | ⟨e, -, hcase⟩
      · rw [hvalue]
        exact .refl begun s
      · rw [hvalue]
        exact calm_recordOn id nofun
      rcases hcase with hvalue | ⟨p, n, -, hn, hvalue⟩
      · rw [hvalue]
        exact (calm_seedRefs e).trans (calm_recordOn id nofun)
      · rw [hvalue]
        have hlearn : Calm begun (s.seedRefs e) ((s.seedRefs e).learned h p) := calm_cache _
        exact ((calm_seedRefs e).trans hlearn).trans
          (calm_settleOwn (s := (s.seedRefs e).learned h p) hn p)

/-! ### Frames -/

def shownBindings (bs : List Binding) : List Binding := bs.filter fun b => !isHidden b.name

def bindingNodes (s : Session) (frame : FrameId) (bs : List Binding) : List Node :=
  (shownBindings bs).map fun b =>
    (Node.ofBinding s.cache.generation (.frame frame) b.name b.value).value

theorem addBindings_value (frame : FrameId) (bs : List Binding) (s : Session) :
    (addBindings frame bs s).value = (List.range' s.nodes.size (shownBindings bs).length,
      { s with nodes := s.nodes ++ (s.bindingNodes frame bs).toArray }) := by
  induction bs generalizing s with
  | nil => simp [addBindings, bindingNodes, shownBindings]
  | cons b bs ih =>
      cases hb : isHidden b.name with
      | true => simp [addBindings, hb, ih, bindingNodes, shownBindings]
      | false =>
          generalize hn : (Node.ofBinding s.cache.generation (.frame frame) b.name b.value).value = n
          have hnodes : s.bindingNodes frame (b :: bs) = n :: (s.addNode n).2.bindingNodes frame bs := by
            simp [bindingNodes, shownBindings, hb, hn, addNode]
          have hcount : (shownBindings (b :: bs)).length = (shownBindings bs).length + 1 := by
            simp [shownBindings, hb]
          simp only [addBindings, hb, Bool.false_eq_true, if_false, Logged.value_bind, hn, ih,
            Logged.value_pure, hnodes, hcount, List.range'_succ]
          simp [addNode]

/-- The variables of a frame to be belong to it, and none of them is being resolved. -/
theorem addBindings_appends (frame : FrameId) (bs : List Binding) : ∃ news : List Node,
    (addBindings frame bs s).value.2 = { s with nodes := s.nodes ++ news.toArray } ∧
      ∀ n ∈ news, n.owner = .frame frame ∧ n.resolution ≠ .pending := by
  refine ⟨s.bindingNodes frame bs, by rw [addBindings_value], fun n hn => ?_⟩
  obtain ⟨b, -, rfl⟩ := List.mem_map.1 hn
  exact ⟨(ofBinding_heir s.cache.generation (.frame frame) b.name b.value).owner,
    ofBinding_not_pending s.cache.generation (.frame frame) b.name b.value⟩

/-- Frames have been made, and nobody holds on to them yet. -/
structure Prepared (begun : NodeId → Prop) (s : Session) (made : List FrameId) (s' : Session) :
    Prop where
  calm : Calm begun s s'
  current : s'.current = s.current
  heldFrames : s'.heldFrames = s.heldFrames
  made : ∀ id ∈ made, s.callFrames.size ≤ id

/-- Frames that have just been made are taken among the current ones, or in place of them. -/
theorem Prepared.enter {made : List FrameId} (h : Prepared begun s made s') {current : List FrameId}
    (hcurrent : ∀ f ∈ current, f ∈ s.current ∨ f ∈ made) :
    Calm begun s { s' with current := current } :=
  { h.calm with
    frames := by
      intro f hf
      rw [holdsFrame_iff] at hf ⊢
      rcases hf with hmem | hmem
      · rcases hcurrent f hmem with hold | hnew
        · exact .inl (.inl hold)
        · exact .inr (h.made f hnew)
      · rw [h.heldFrames] at hmem
        exact .inl (.inr hmem) }

theorem addFrame_prepared (f : StackFrame) :
    Prepared begun s [(s.addFrame f).value.1] (s.addFrame f).value.2 := by
  obtain ⟨news, hvalue, hnews⟩ :=
    addBindings_appends (s := s) s.callFrames.size (f.arguments ++ f.locals)
  unfold addFrame
  simp only [Logged.value_bind, Logged.value_pure]
  rw [hvalue]
  refine ⟨.append news rfl (by simp) rfl rfl rfl ?_ fun n hn => (hnews n hn).2, rfl, rfl, ?_⟩
  · intro n hn g hg
    rw [(hnews n hn).1] at hg
    cases hg
    simp
  · intro id hid
    exact Nat.le_of_eq (List.mem_singleton.1 hid).symm

theorem addFrames_prepared (fs : List StackFrame) :
    Prepared begun s (addFrames fs s).value.1 (addFrames fs s).value.2 := by
  induction fs generalizing s with
  | nil => exact ⟨.refl begun s, rfl, rfl, nofun⟩
  | cons f fs ih =>
      have hfirst : Prepared begun s [(s.addFrame f).value.1] (s.addFrame f).value.2 :=
        addFrame_prepared f
      have hrest := ih (s := (s.addFrame f).value.2)
      unfold addFrames
      simp only [Logged.value_bind, Logged.value_pure]
      refine ⟨hfirst.calm.trans hrest.calm, hrest.current.trans hfirst.current,
        hrest.heldFrames.trans hfirst.heldFrames, fun id hid => ?_⟩
      rcases List.mem_cons.1 hid with rfl | hid
      · exact hfirst.made _ List.mem_cons_self
      · exact Nat.le_trans hfirst.calm.frameCount (hrest.made id hid)

theorem calm_createFrame (index : UInt32) (function : String) (bs : List Binding) :
    Calm begun s (s.createFrame index function bs).value.2 := by
  let f : StackFrame := { index := index, function := function, arguments := bs }
  have hadd : Prepared begun s [(s.addFrame f).value.1] (s.addFrame f).value.2 :=
    addFrame_prepared f
  unfold createFrame
  simp only [Logged.value_bind, Logged.value_pure]
  refine hadd.enter fun g hg => ?_
  rw [hadd.current] at hg
  exact List.mem_append.1 hg

theorem calm_materialize {body : Json} {refs : List Json} {next : List FrameId × Session}
    (hnext : (s.materialize body refs).value = .ok next) : Calm begun s next.2 := by
  unfold materialize at hnext
  split at hnext
  · cases hnext
  · next fs _ =>
    simp only [Logged.value_bind, Logged.value_pure] at hnext
    cases hnext
    let t : Session :=
      { s with cache := (s.cache.seed s.cache.generation (Payload.ofRefs refs)).1 }
    have hseed : Calm begun s t := calm_cache _
    have hadd : Prepared begun t (addFrames fs t).value.1 (addFrames fs t).value.2 :=
      addFrames_prepared fs
    exact hseed.trans (hadd.enter fun f hf => .inr hf)

end Session

namespace Inquiry

def Move.Begins : Move → NodeId → Prop
  | expand id, k => k = id
  | ensureProperties id _, k => k = id
  | _, _ => False

/-- A caller comes by what it holds on to from somebody who still holds it. -/
def Honest (w : Inquiry) : Move → Prop
  | .hold frames nodes =>
    (∀ f ∈ frames, w.session.holdsFrame f = true) ∧ ∀ id ∈ nodes, w.session.isAlive id = true
  | _ => True

def AllHonest : Inquiry → List Move → Prop
  | _, [] => True
  | w, m :: moves => w.Honest m ∧ AllHonest (w.step m) moves

/-- Apart from the end of a suspension and what callers hold, a move is calm. -/
theorem step_calm {w : Inquiry} {m : Move} (hm : ¬m.Ends)
    (hhold : ∀ frames nodes, m ≠ .hold frames nodes) :
    Session.Calm m.Begins w.session (w.step m).session := by
  cases m with
  | createFrame index function bindings => exact Session.calm_createFrame index function bindings
  | materialize body refs =>
      simp only [step]
      split
      · next ids s hnext => exact Session.calm_materialize hnext
      · exact .refl _ _
  | expand id =>
      simp only [step, issue_session]
      exact Session.calm_expand id
  | ensureProperties id refs =>
      simp only [step, issue_session]
      exact Session.calm_ensureProperties id refs
  | ensureVariables id =>
      simp only [step]
      split
      · next next hnext =>
        rw [issue_session]
        exact Session.calm_ensureVariables hnext
      · exact .refl _ _
  | settle place o =>
      simp only [step]
      split
      · rw [issue_session]
        exact Session.calm_deliver _ o
      · exact .refl _ _
  | message e =>
      have hends : Session.endsSuspension e = false := by simpa [Move.Ends] using hm
      simp only [step, Session.handleMessage, hends, Bool.false_eq_true, if_false]
      exact .refl _ _
  | retire => exact (hm trivial).elim
  | name o => exact .of_nodes rfl rfl rfl rfl rfl
  | absorb parent data => exact .of_nodes rfl rfl rfl rfl rfl
  | store h p => exact .of_nodes rfl rfl rfl rfl rfl
  | invalidate => exact (hm trivial).elim
  | hold frames nodes => exact (hhold frames nodes rfl).elim

/-- What callers hold says nothing about which frames there are. -/
theorem step_framed {w : Inquiry} (m : Move) (hs : w.session.Framed) :
    (w.step m).session.Framed := by
  by_cases hm : m.Ends
  · obtain ⟨current, table, hstep⟩ := step_ends hm
    rw [hstep]
    exact hs
  · by_cases hhold : ∃ frames nodes, m = .hold frames nodes
    · obtain ⟨frames, nodes, rfl⟩ := hhold
      exact hs
    · simp only [not_exists] at hhold
      exact (step_calm hm hhold).framed hs

/-- Within a suspension, what is gone stays gone. -/
theorem step_alive {w : Inquiry} {m : Move} (hm : ¬m.Ends) (hhonest : w.Honest m)
    (hs : w.session.Framed) {id : NodeId} (hid : id < w.session.nodes.size)
    (halive : (w.step m).session.isAlive id = true) : w.session.isAlive id = true := by
  by_cases hhold : ∃ frames nodes, m = .hold frames nodes
  · obtain ⟨frames, nodes, rfl⟩ := hhold
    have hrefl := Session.Calm.refl (fun _ => False) w.session
    have hframes : ∀ f, (w.step (.hold frames nodes)).session.holdsFrame f = true →
        w.session.holdsFrame f = true ∨ w.session.callFrames.size ≤ f := by
      intro f hf
      rcases Session.holdsFrame_iff.1 hf with hmem | hmem
      · exact .inl (Session.holdsFrame_iff.2 (.inl hmem))
      · exact .inl (hhonest.1 f hmem)
    exact Session.isAlive_of_later hs hhonest.2 hframes hrefl.owner hrefl.children hid halive
  · simp only [not_exists] at hhold
    exact (step_calm hm hhold).isAlive hs hid halive

/-- Only an expansion begins anything. -/
theorem step_pending {w : Inquiry} {m : Move} (hm : ¬m.Ends) {id : NodeId} {n' : Node}
    (hn' : (w.step m).session.node? id = some n') (hpending : n'.resolution = .pending) :
    m.Begins id ∨ ∃ n, w.session.node? id = some n ∧ n.resolution = .pending := by
  by_cases hhold : ∃ frames nodes, m = .hold frames nodes
  · obtain ⟨frames, nodes, rfl⟩ := hhold
    exact .inr ⟨n', hn', hpending⟩
  · simp only [not_exists] at hhold
    exact (step_calm hm hhold).pending id n' hn' hpending

end Inquiry

end RemoteInspector
