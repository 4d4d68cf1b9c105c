import RemoteInspector.Proofs.Session.Poised
import RemoteInspector.Proofs.Session.Sight

/-!
What an answer of the machine does to the nodes. A batch tells those who wait for it what the machine
reports for their handles and leaves the tree as it is; a node that has waited for its own payload
comes to list the properties that this brings, and the new nodes are told what is reported for them
from the cache or by one more batch.
-/

namespace RemoteInspector

namespace Waiting

def awaits (w : Waiting) (id : NodeId) : Bool := (w.awaited.map (·.2)).contains id

/-- A node waits for its own payload, on its own behalf. -/
def owns : Waiting → NodeId → Bool
  | own _ k _, id => k == id
  | batch _ _ _, _ => false

/-- A node waits for all others. -/
def leads (w : Waiting) (id : NodeId) : Bool := w.parent? == some id

end Waiting

def Node.child (n : Node) (id : NodeId) (r : PropertyRef) : Node :=
  .new r.name (n.childPath r.name) n.generation (.node id) (some r.handle) true

theorem Node.Heir.child {n n' : Node} (h : n.Heir n') (id : NodeId) (r : PropertyRef) :
    n'.child id r = n.child id r := by
  unfold Node.child Node.childPath
  rw [h.path, h.generation]

namespace Session

variable {T : Machine} {s s' : Session}

/-! ### What an answer does to the nodes -/

/-- Only what shows a compound value has children. -/
theorem Shows.childless {p : Payload} {v : View} (h : s.Shows p v) (hp : p.isCompound = false) :
    v.children = [] := by
  have hnot : p.isCompound ≠ true := by simp [hp]
  cases v with
  | scalar t text => rfl
  | object t className children => exact (hnot h.1).elim
  | array className children => exact (hnot h.1).elim

/-- The children of a node stay listed when the machine's payload comes. -/
theorem children_fill_true (hs : s.Faithful T) {id : NodeId} {n : Node} (hn : s.node? id = some n)
    (hgen : n.generation = s.cache.generation) {h : Handle} (hh : n.facts.handle = some h)
    {p : Payload} (hp : T h = some p) : (n.fill p).value.children = n.children := by
  rcases n.fill_cases p with ⟨-, hvalue⟩ | ⟨-, -, hvalue⟩ | ⟨-, hcompound, hvalue⟩
  · rw [hvalue]
  · rw [hvalue]
    rfl
  · rw [Facts.isCompound_fill] at hcompound
    have hnone : n.children = [] := by
      unfold Node.children
      cases hview : n.view with
      | none => rfl
      | some v =>
          obtain ⟨q, hq, hshows⟩ := (hs.nodes id n hn hgen h hh).view v hview
          rw [hp] at hq
          cases hq
          exact hshows.childless hcompound
    rw [hvalue, hnone]
    rfl

structure Informs (T : Machine) (told : NodeId → Bool) (s s' : Session) : Prop where
  rest : s'.rest = s.rest
  nodes : ∀ id n, s.node? id = some n → ∃ n', s'.node? id = some n' ∧ n'.children = n.children ∧
    n'.core = n.informed (n.facts.handle.bind T) (told id)

namespace Informs

variable {told told' : NodeId → Bool} {s'' : Session}

theorem frame (h : s.Informs T told s') {id : NodeId} {n n' : Node} (hn : s.node? id = some n)
    (hn' : s'.node? id = some n') :
    n'.owner = n.owner ∧ n'.path = n.path ∧ n'.facts.handle = n.facts.handle := by
  obtain ⟨m, hm, -, hcore⟩ := h.nodes id n hn
  rw [hn'] at hm
  obtain rfl := Option.some.inj hm
  have hframe := n.informed_frame (n.facts.handle.bind T) (told id)
  rw [← hcore] at hframe
  exact hframe

theorem keeps (h : s.Informs T told s') : s.Keeps s' where
  rest := h.rest
  nodes := by
    intro id n hn
    obtain ⟨n', hn', hchildren, -⟩ := h.nodes id n hn
    exact ⟨n', hn', (h.frame hn hn').1, fun c _ => by rw [hchildren]⟩

theorem trans (h : s.Informs T told s') (h' : s'.Informs T told' s'') :
    s.Informs T (fun id => told' id || told id) s'' where
  rest := h'.rest.trans h.rest
  nodes := by
    intro id n hn
    obtain ⟨n', hn', hchildren, hcore⟩ := h.nodes id n hn
    obtain ⟨n'', hn'', hchildren', hcore'⟩ := h'.nodes id n' hn'
    refine ⟨n'', hn'', hchildren'.trans hchildren, ?_⟩
    have hsame : n'.core = (n.informed (n.facts.handle.bind T) (told id)).core := by
      rw [hcore, Node.core_informed]
    rw [hcore', (h.frame hn hn').2.2, Node.informed_congr hsame, Node.informed_informed]

/-- It is enough that the same payloads come to the nodes that are there. -/
theorem congr (h : s.Informs T told s') (hsame : ∀ id n, s.node? id = some n →
    n.informed (n.facts.handle.bind T) (told id) = n.informed (n.facts.handle.bind T) (told' id)) :
    s.Informs T told' s' where
  rest := h.rest
  nodes := by
    intro id n hn
    obtain ⟨n', hn', hchildren, hcore⟩ := h.nodes id n hn
    exact ⟨n', hn', hchildren, hcore.trans (hsame id n hn)⟩

end Informs

/-- The machine's payload is cached and told to the node. -/
theorem fill_informs (hs : s.Faithful T) {k : NodeId} {n : Node} (hk : s.node? k = some n)
    (hgen : n.generation = s.cache.generation) {h : Handle} (hh : n.facts.handle = some h)
    {p : Payload} (hp : T h = some p) :
    s.Informs T (fun id => id == k) ((s.learned h p).setNode k (n.fill p).value) := by
  refine ⟨rfl, fun id m hm => ?_⟩
  have hat := node?_setNode (s := s.learned h p) hk (n.fill p).value id
  by_cases hid : id = k
  · subst hid
    rw [hk] at hm
    obtain rfl := Option.some.inj hm
    refine ⟨_, hat.trans (if_pos rfl), children_fill_true hs hk hgen hh hp, ?_⟩
    rw [hh, beq_self_eq_true]
    simp only [Option.bind_some, hp]
    exact Node.core_fill (by simp [hh]) p
  · refine ⟨m, (hat.trans (if_neg hid)).trans hm, rfl, ?_⟩
    rw [beq_false_of_ne hid]
    rfl

/-- The nodes of a reply that are still there are told what the machine reports for their handles. -/
theorem distribute_informs {r : LookupReply} {awaited : List (Handle × NodeId)}
    (hs : s.Faithful T) (hcarries : ∀ x ∈ awaited, s.Carries s.cache.generation x.2 x.1)
    (hr : ∀ x ∈ awaited, r.get? x.1 = T x.1) :
    s.Informs T (fun id => s.isAlive id && (awaited.map (·.2)).contains id)
      (s.distribute r awaited).value := by
  induction awaited generalizing s with
  | nil =>
      refine ⟨rfl, fun id n hn => ⟨n, hn, rfl, ?_⟩⟩
      simp [Node.informed]
  | cons x rest ih =>
      obtain ⟨h, k⟩ := x
      have hcontains : ∀ id, (((h, k) :: rest).map (·.2)).contains id =
          (id == k || (rest.map (·.2)).contains id) := fun id => List.contains_cons
      have hcarries' : ∀ y ∈ rest, s.Carries s.cache.generation y.2 y.1 := fun y hy =>
        hcarries y (List.mem_cons_of_mem _ hy)
      have hr' : ∀ y ∈ rest, r.get? y.1 = T y.1 := fun y hy => hr y (List.mem_cons_of_mem _ hy)
      obtain ⟨n, hk, hgen, hh⟩ := hcarries (h, k) List.mem_cons_self
      have hreply : r.get? h = T h := hr (h, k) List.mem_cons_self
      -- A node that is gone, or of which nothing is reported, is passed over.
      have hskip : s.isAlive k = false ∨ T h = none →
          s.Informs T (fun id => s.isAlive id && (((h, k) :: rest).map (·.2)).contains id)
            (s.distribute r rest).value := by
        intro hpassed
        refine (ih hs hcarries' hr').congr fun id m hm => ?_
        rw [hcontains]
        by_cases hid : id = k
        · subst hid
          rw [hk] at hm
          obtain rfl := Option.some.inj hm
          rcases hpassed with hgone | hnone
          · rw [hgone, Bool.false_and, Bool.false_and]
          · rw [hh, Option.bind_some, hnone, Node.informed_none, Node.informed_none]
        · rw [beq_false_of_ne hid, Bool.false_or]
      unfold distribute
      split
      · next hgone => exact hskip (.inl (by simpa using hgone))
      · next halive =>
        split
        · next p m hp hm =>
          rw [hk] at hm
          obtain rfl := Option.some.inj hm
          have htold : T h = some p := hreply.symm.trans hp
          have hupdates : Updates (.trueTo T) (fun _ => True) s
              ((s.learned h p).setNode k (n.fill p).value) :=
            .tail (.single (.learn htold)) (.fill trivial hk hh (.inl htold))
          have hfill := fill_informs hs hk hgen hh htold
          have hrest := ih (Updates.faithful hupdates hs)
            (fun y hy => (hcarries' y hy).mono (Updates.grows hupdates)) hr'
          rw [Logged.value_bind]
          refine (hfill.trans hrest).congr fun id m hm => ?_
          rw [hfill.keeps.isAlive (lt_size_of_node? hm), hcontains]
          by_cases hid : id = k
          · subst hid
            simp only [beq_self_eq_true, Bool.or_true, Bool.true_or, Bool.and_true]
            rw [show s.isAlive id = true by simpa using halive]
          · rw [beq_false_of_ne hid, Bool.or_false, Bool.false_or]
        · next hnone =>
          rw [Logged.value_bind]
          refine hskip (.inr ?_)
          cases htold : T h with
          | none => rfl
          | some p => exact (hnone p n (hreply.trans htold) hk).elim

theorem seedRefs_informs (s : Session) (e : Envelope) :
    s.Informs T (fun _ => false) (s.seedRefs e) :=
  ⟨rest_seedRefs s e, fun id n hn => ⟨n, (seedRefs_node? s e id).trans hn, rfl, rfl⟩⟩

/-- What the machine reports to a batch is given to those who wait for it; then their parent is
answered. -/
theorem deliverBatch_answered {g : Nat} {awaited : List (Handle × NodeId)} {parent : Option NodeId}
    {handles : List Handle} {o : Outcome} {e : Envelope} (hs : s.Faithful T)
    (hl : (Lookup.mk handles (.batch g awaited parent)).WellPosed s)
    (hcurrent : g = s.cache.generation) (he : successful? o = some e)
    (hr : ∀ h ∈ handles, (LookupReply.ofEnvelope e).get? h = T h)
    (hcovers : (Source.trueTo T).Covers handles e) :
    ∃ t, s.Informs T (fun id => s.isAlive id && (awaited.map (·.2)).contains id) t ∧
      Updates (.trueTo T) (fun _ => True) s t ∧
      (s.deliverBatch g awaited parent o).value =
        (parent.filter s.isAlive).elim t fun p => (t.recordOn p .replied).value := by
  subst hcurrent
  have hseed : Updates (.trueTo T) (fun _ => True) s (s.seedRefs e) := seedRefs_updates hcovers.refs
  have hseeded := s.seedRefs_informs (T := T) e
  have hcarries : ∀ x ∈ awaited,
      (s.seedRefs e).Carries (s.seedRefs e).cache.generation x.2 x.1 := by
    intro x hx
    rw [Updates.generation hseed]
    exact (hl.awaited x hx).mono (Updates.grows hseed)
  have hgive := distribute_informs (Updates.faithful hseed hs) hcarries
    fun x hx => hr x.1 (hl.asked x hx)
  have hgiven : Updates (.trueTo T) (fun _ => True) (s.seedRefs e)
      ((s.seedRefs e).distribute (LookupReply.ofEnvelope e) awaited).value :=
    distribute_updates (fun _ _ => trivial) hcarries fun x hx => hcovers.reply x.1 (hl.asked x hx)
  refine ⟨_, (hseeded.trans hgive).congr fun id n hn => ?_, hseed.trans hgiven, ?_⟩
  · rw [hseeded.keeps.isAlive (lt_size_of_node? hn), Bool.or_false]
  · have hcurrent : s.isCurrent s.cache.generation = true := isCurrent_iff.2 rfl
    unfold deliverBatch
    rw [hcurrent]
    simp only [Bool.not_true, Bool.false_eq_true, if_false, he, Logged.value_bind]
    cases parent.filter s.isAlive <;> rfl

/-- What is shown of a node that is not settled is the compound value that the machine reports. -/
theorem reports_of_shown (hk : s.Known T) {id : NodeId} {n : Node} (hn : s.node? id = some n)
    (hconsistent : n.Consistent) (hgen : n.generation = s.cache.generation)
    (hfinal : n.resolution.isFinal = false) (hview : n.view.isSome) :
    ∀ p, n.facts.handle.bind T = some p → p.isCompound = true ∧ n.facts.Reports p := by
  intro p hp
  obtain ⟨h, hh, htold⟩ := Option.bind_eq_some_iff.1 hp
  obtain ⟨q, hq, hreports⟩ := hk id n hn hgen h hh hview
  rw [htold] at hq
  cases hq
  refine ⟨?_, hreports⟩
  have hres : n.resolution ≠ .resolved := by
    intro heq
    rw [heq] at hfinal
    cases hfinal
  cases hcompound : p.isCompound with
  | true => rfl
  | false =>
      have hknown := hconsistent.not_known_scalar hres _ (hreports.scalar hcompound).1
      rw [Payload.scalar_not_compound hcompound] at hknown
      cases hknown

/-! ### A node and its own payload -/

/-- Nobody is told of a payload that has come for a node that is gone. -/
theorem deliverOwn_gone {id : NodeId} (hgone : s.isAlive id = false) (g : Nat) (h : Handle)
    (o : Outcome) : (s.deliverOwn g id h o).value = (s, none) := by
  unfold deliverOwn
  split
  · rfl
  · simp [hgone]

/-- The payload of a node that has waited for it settles the node, or is missing and fails it. -/
theorem deliverOwn_answered {g : Nat} {id : NodeId} {h : Handle} {o : Outcome} {e : Envelope} {n : Node}
    (hcurrent : g = s.cache.generation) (halive : s.isAlive id = true) (hn : s.node? id = some n)
    (he : successful? o = some e) (hr : (LookupReply.ofEnvelope e).get? h = T h) :
    (s.deliverOwn g id h o).value = (T h).elim (((s.seedRefs e).recordOn id .failed).value, none)
      fun p => (((s.seedRefs e).learned h p).settleOwn id n p).value := by
  have hgen : s.isCurrent g = true := isCurrent_iff.2 hcurrent
  have hseeded := (seedRefs_node? s e id).trans hn
  unfold deliverOwn
  rw [hgen, halive]
  simp only [Bool.not_true, Bool.false_eq_true, if_false, he, hr, hseeded]
  cases T h <;> rfl

/-- A node that lists its properties waits for a batch, or is resolved at once. -/
theorem populate_node {id : NodeId} {m n : Node} (hm : s.node? id = some m)
    (hn : n.resolution = .pending) (refs : List PropertyRef) :
    ((s.populate id n refs).value.2 = none ∧ (s.populate id n refs).value.1.node? id =
      some { n with resolution := .resolved, view := some (n.compoundView (s.childIds refs)) }) ∨
    ((s.populate id n refs).value.2.isSome ∧ (s.populate id n refs).value.1.node? id =
      some { n with view := some (n.compoundView (s.childIds refs)) }) := by
  have hself := node?_withChildren_self hm n refs
  rcases s.populate_cases id n refs with ⟨-, hvalue⟩ | ⟨-, hvalue⟩
  · rw [hvalue]
    refine .inl ⟨rfl, (node?_recordOn_self hself .replied).trans ?_⟩
    rw [Node.record_value]
    simp [hn, Resolution.on]
  · rw [hvalue]
    exact .inr ⟨rfl, hself⟩

/-- Whether from the cache or by the batch, the node of a property is told what the machine reports. -/
theorem populate_child (hs : s.Faithful T) {id : NodeId} {m : Node} (hm : s.node? id = some m)
    (n : Node) {refs : List PropertyRef} {i : Nat} {r : PropertyRef}
    (hr : (visible refs)[i]? = some r) :
    ∃ c, (s.populate id n refs).value.1.node? (s.nodes.size + i) = some c ∧ c.children = [] ∧
      c.facts.handle = some r.handle ∧
      c.informed (T r.handle) ((s.populate id n refs).value.2.any fun l =>
        l.waiting.awaits (s.nodes.size + i)) = (n.child id r).informed (T r.handle) true := by
  have hhandle := (s.heir_childNode id n r).handle r.handle rfl
  have hthere : (s.populate id n refs).value.1.node? (s.nodes.size + i) =
      some (s.childNode id n r).value := by
    rw [node?_populate_new hm, childNodes, List.getElem?_map, hr]
    rfl
  refine ⟨_, hthere, children_childNode s id n r, hhandle, ?_⟩
  rcases s.childNode_cases id n r with ⟨hnone, hvalue⟩ | ⟨p, hp, hvalue⟩
  · -- What is not cached is asked for.
    have hmissing : (r.handle, s.nodes.size + i) ∈
        (s.withChildren id n refs).missing (s.childIds refs) :=
      (mem_missing_childIds hm).2 ⟨i, r, hr, rfl, rfl, hnone⟩
    have hawaits : ((s.populate id n refs).value.2.any fun l =>
        l.waiting.awaits (s.nodes.size + i)) = true := by
      rcases s.populate_cases id n refs with ⟨hnil, -⟩ | ⟨-, hlookup⟩
      · rw [hnil] at hmissing
        exact (List.not_mem_nil hmissing).elim
      · rw [hlookup]
        exact List.contains_iff_mem.2 (List.mem_map_of_mem (f := Prod.snd) hmissing)
    rw [hawaits, hvalue]
    rfl
  · have htold := hs.cache r.handle p hp
    rw [hvalue, htold]
    have hcore : ((n.child id r).fill p).value.core = (n.child id r).informed (some p) true :=
      Node.core_fill rfl p
    have hsame : ((n.child id r).fill p).value.core =
        ((n.child id r).informed (some p) true).core := by
      rw [hcore, Node.core_informed]
    exact (Node.informed_congr hsame _ _).trans
      ((Node.informed_informed _ _ _ _).trans (by rw [Bool.or_true]))

end Session

end RemoteInspector
