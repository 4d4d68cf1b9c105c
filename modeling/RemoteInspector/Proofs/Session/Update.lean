import Mathlib.Logic.Relation
import RemoteInspector.Session.Frames
import RemoteInspector.Proofs.Session.Expansion

/-!
The single updates that the operations of a session are made of. `Update src on` says all that can
happen to a session before the suspension ends: `src` is what comes in from outside, and `on` are the
nodes that may be touched. What every update keeps, every operation keeps.
-/

namespace RemoteInspector

/-- What comes in from outside while a session is at work: payloads for handles, payloads of bindings,
and property lists that a caller has from elsewhere. -/
structure Source where
  payload : Handle → Payload → Prop
  binding : Payload → Prop
  refs : List PropertyRef → Prop

namespace Source

def any : Source := ⟨fun _ _ => True, fun _ => True, fun _ => True⟩

/-- A payload is at hand for a handle: it has just come in, or is cached. -/
def Tells (src : Source) (s : Session) (h : Handle) (p : Payload) : Prop :=
  src.payload h p ∨ s.cache.get? h = some p

/-- Where the properties come from that a node gets children for: from the caller, from what is known
about the node, or from the payload that has made it compound. -/
def Lists (src : Source) (s : Session) (n : Node) (refs : List PropertyRef) : Prop :=
  src.refs refs ∨ n.facts.properties = some refs ∨
    ∀ h, n.facts.handle = some h →
      n.facts.isCompound = true ∧ ∃ p, src.Tells s h p ∧ p.properties = refs

end Source

namespace Session

/-- A node of a generation is there under a number and has a handle. -/
def Carries (s : Session) (generation : Nat) (id : NodeId) (h : Handle) : Prop :=
  ∃ n, s.node? id = some n ∧ n.generation = generation ∧ n.facts.handle = some h

def learned (s : Session) (h : Handle) (p : Payload) : Session :=
  { s with cache := s.cache.put h p }

inductive Update (src : Source) (on : NodeId → Prop) (s : Session) : Session → Prop where
  | learn {h p} : src.payload h p → Update src on s (s.learned h p)
  | fill {id n h p} : on id → s.node? id = some n → n.facts.handle = some h → src.Tells s h p →
      Update src on s (s.setNode id (n.fill p).value)
  | begin {id n} : on id → s.node? id = some n → n.resolution = .unresolved →
      Update src on s (s.setNode id n.begun)
  | list {id n refs} : on id → s.node? id = some n → n.resolution = .pending →
      src.Lists s n refs → Update src on s (s.withChildren id n refs)
  | reply {id n} : on id → s.node? id = some n → n.view.isSome →
      Update src on s (s.recordOn id .replied).value
  | fail {id} : on id → Update src on s (s.recordOn id .failed).value
  | bind {frame name p} : src.binding p →
      Update src on s
        (s.addNode (Node.ofBinding s.cache.generation (.frame frame) name p).value).2
  | enter {f} : f.generation = s.cache.generation →
      (∀ r ∈ f.roots, ∃ n, s.node? r = some n ∧ n.generation = f.generation) →
      Update src on s { s with callFrames := s.callFrames.push f }
  | ask {id f} : s.callFrame? id = some f →
      Update src on s
        { s with callFrames := s.callFrames.setIfInBounds id { f with requested := true } }
  | manage {s'} : s'.cache = s.cache → s'.nodes = s.nodes → s'.callFrames = s.callFrames →
      Update src on s s'

abbrev Updates (src : Source) (on : NodeId → Prop) : Session → Session → Prop :=
  Relation.ReflTransGen (Update src on)

/-- No node or frame is of a generation to come, and the variables of a frame are nodes of its
generation. -/
structure Dated (s : Session) : Prop where
  nodes : ∀ id n, s.node? id = some n → n.generation ≤ s.cache.generation
  frames : ∀ id f, s.callFrame? id = some f → f.generation ≤ s.cache.generation
  roots : ∀ id f, s.callFrame? id = some f → ∀ r ∈ f.roots, ∃ n, s.node? r = some n ∧
    n.generation = f.generation

/-! ### What an update keeps -/

theorem ofBinding_heir (generation : Nat) (owner : Owner) (name : String) (p : Payload) :
    (Node.new name name generation owner p.handle false).Heir
      (Node.ofBinding generation owner name p).value := by
  unfold Node.ofBinding
  dsimp only
  split
  · exact Node.heir_fill _ p
  · exact .refl _

theorem grows_withChildren {s : Session} {id : NodeId} {n : Node} (hn : s.node? id = some n)
    (refs : List PropertyRef) : s.Grows (s.withChildren id n refs) where
  nodes := by
    intro k m hm
    by_cases hk : k = id
    · subst hk
      rw [hn] at hm
      cases hm
      exact ⟨_, node?_withChildren_self hn n refs, rfl, rfl, rfl, rfl, fun _ h => h, id, fun _ => rfl⟩
    · exact ⟨m, node?_withChildren_old hm hk n refs, .refl m⟩
  callFrames := fun _ f h => ⟨f.requested, h⟩

theorem grows_recordOn (s : Session) (id : NodeId) (e : Resolution.Event) :
    s.Grows (s.recordOn id e).value := by
  rcases s.recordOn_cases id e with ⟨-, hvalue⟩ | ⟨n, hn, hvalue⟩
  · rw [hvalue]
    exact .refl s
  · rw [hvalue]
    exact .setNode hn (n.heir_record e)

theorem callFrame?_ask {s : Session} {id : FrameId} {f : CallFrame} (hf : s.callFrame? id = some f)
    (g : CallFrame) (k : FrameId) :
    callFrame? { s with callFrames := s.callFrames.setIfInBounds id g } k =
      if k = id then some g else s.callFrame? k := by
  obtain ⟨hlt, -⟩ := Array.getElem?_eq_some_iff.1 hf
  by_cases hk : k = id
  · simp [callFrame?, hk, hlt]
  · simp [callFrame?, hk, Array.getElem?_setIfInBounds_ne (Ne.symm hk)]

theorem callFrame?_enter (s : Session) (f : CallFrame) (k : FrameId) :
    callFrame? { s with callFrames := s.callFrames.push f } k =
      if k = s.callFrames.size then some f else s.callFrame? k := by
  simp [callFrame?, Array.getElem?_push]

/-- A number under which there is no node after an update of a node had none before. -/
theorem not_added_setNode {s : Session} {id k : NodeId} {m n n' : Node}
    (hm : s.node? id = some m) (hn : (s.setNode id n).node? k = some n') : s.node? k ≠ none := by
  rw [node?_setNode hm] at hn
  split at hn
  · next heq => simp [heq, hm]
  · simp [hn]

theorem not_added_recordOn {s : Session} {id k : NodeId} {e : Resolution.Event} {n' : Node}
    (hn : (s.recordOn id e).value.node? k = some n') : s.node? k ≠ none := by
  rcases s.recordOn_cases id e with ⟨-, hvalue⟩ | ⟨m, hm, hvalue⟩
  · rw [hvalue] at hn
    simp [hn]
  · rw [hvalue] at hn
    exact not_added_setNode hm hn

variable {src : Source} {on : NodeId → Prop} {s s' : Session}

theorem Update.grows (h : Update src on s s') : s.Grows s' := by
  cases h with
  | learn _ => exact ⟨fun _ n hn => ⟨n, hn, .refl n⟩, fun _ f hf => ⟨f.requested, hf⟩⟩
  | fill _ hn _ _ => exact .setNode hn (Node.heir_fill _ _)
  | begin _ hn _ => exact .setNode hn (Node.heir_begun _)
  | list _ hn _ _ => exact grows_withChildren hn _
  | reply _ _ _ => exact grows_recordOn s _ _
  | fail _ => exact grows_recordOn s _ _
  | bind _ => exact .addNode s _
  | enter _ _ =>
      refine ⟨fun _ n hn => ⟨n, hn, .refl n⟩, fun id f hf => ⟨f.requested, ?_⟩⟩
      obtain ⟨hlt, -⟩ := Array.getElem?_eq_some_iff.1 hf
      rw [callFrame?_enter, if_neg (Nat.ne_of_lt hlt), hf]
  | ask hg =>
      refine ⟨fun _ n hn => ⟨n, hn, .refl n⟩, fun id f hf => ?_⟩
      rw [callFrame?_ask hg]
      split
      · next heq =>
        rw [heq, hg] at hf
        cases hf
        exact ⟨true, rfl⟩
      · exact ⟨f.requested, hf⟩
  | manage _ hnodes hframes =>
      refine ⟨fun _ n hn => ⟨n, ?_, .refl n⟩, fun _ f hf => ⟨f.requested, ?_⟩⟩
      · rwa [node?, hnodes]
      · rwa [callFrame?, hframes]

theorem Update.generation (h : Update src on s s') :
    s'.cache.generation = s.cache.generation := by
  cases h with
  | reply _ _ _ => rw [(s.recordOn_rest _ _).1]
  | fail _ => rw [(s.recordOn_rest _ _).1]
  | manage hcache _ _ => rw [hcache]
  | learn _ => rfl
  | fill _ _ _ _ => rfl
  | begin _ _ _ => rfl
  | list _ _ _ _ => rfl
  | bind _ => rfl
  | enter _ _ => rfl
  | ask _ => rfl

/-- A node that an update adds is of the present generation, or of that of a node that was there. -/
theorem Update.added (h : Update src on s s') {id : NodeId} {n : Node}
    (hn : s'.node? id = some n) (hnone : s.node? id = none) :
    n.generation = s.cache.generation ∨ ∃ k m, s.node? k = some m ∧ n.generation = m.generation := by
  -- Only `list` and `bind` make nodes.
  cases h with
  | learn _ => exact absurd hnone (by simp [show s.node? id = some n from hn])
  | fill _ hm _ _ => exact absurd hnone (not_added_setNode hm hn)
  | begin _ hm _ => exact absurd hnone (not_added_setNode hm hn)
  | @list k m refs _ hm _ _ =>
      rcases node?_withChildren_cases hm hn with ⟨rfl, -⟩ | ⟨-, hold⟩ | ⟨-, r, -, rfl⟩
      · rw [hm] at hnone
        cases hnone
      · rw [hold] at hnone
        cases hnone
      · exact .inr ⟨k, m, hm, (s.heir_childNode k m r).generation⟩
  | reply _ _ _ => exact absurd hnone (not_added_recordOn hn)
  | fail _ => exact absurd hnone (not_added_recordOn hn)
  | @bind frame name p _ =>
      rw [node?_addNode] at hn
      split at hn
      · cases hn
        exact .inl (ofBinding_heir _ _ name p).generation
      · rw [hn] at hnone
        cases hnone
  | enter _ _ => exact absurd hnone (by simp [show s.node? id = some n from hn])
  | ask _ => exact absurd hnone (by simp [show s.node? id = some n from hn])
  | manage _ hnodes _ =>
      rw [node?, hnodes] at hn
      rw [node?, hn] at hnone
      cases hnone

/-- A frame that an update adds is of the present generation, and so are its variables. -/
theorem Update.addedFrame (h : Update src on s s') {id : FrameId} {f : CallFrame}
    (hf : s'.callFrame? id = some f) (hnone : s.callFrame? id = none) :
    f.generation = s.cache.generation ∧
      ∀ r ∈ f.roots, ∃ n, s.node? r = some n ∧ n.generation = f.generation := by
  -- Only `enter` changes what frames there are.
  have hsame : ∀ t : Session, t.callFrames = s.callFrames → t.callFrame? id = some f → False := by
    intro t ht hsome
    rw [callFrame?, ht] at hsome
    rw [callFrame?, hsome] at hnone
    cases hnone
  cases h with
  | enter hgen hroots =>
      rw [callFrame?_enter] at hf
      split at hf
      · cases hf
        exact ⟨hgen, hroots⟩
      · rw [hf] at hnone
        cases hnone
  | ask hg =>
      rw [callFrame?_ask hg] at hf
      split at hf
      · next heq =>
        rw [heq, hg] at hnone
        cases hnone
      · rw [hf] at hnone
        cases hnone
  | reply _ _ _ => exact (hsame _ (s.recordOn_rest _ _).2 hf).elim
  | fail _ => exact (hsame _ (s.recordOn_rest _ _).2 hf).elim
  | manage _ _ hframes => exact (hsame _ hframes hf).elim
  | learn _ => exact (hsame _ rfl hf).elim
  | fill _ _ _ _ => exact (hsame _ rfl hf).elim
  | begin _ _ _ => exact (hsame _ rfl hf).elim
  | list _ _ _ _ => exact (hsame _ rfl hf).elim
  | bind _ => exact (hsame _ rfl hf).elim

theorem Update.dated (h : Update src on s s') (hs : s.Dated) : s'.Dated := by
  have hgrows := h.grows
  have hroots : ∀ id f, s'.callFrame? id = some f → f.generation ≤ s'.cache.generation ∧
      ∀ r ∈ f.roots, ∃ n, s'.node? r = some n ∧ n.generation = f.generation := by
    intro id f hf
    -- The frame in `s` with the same generation and variables, whose nodes are still there.
    have hfrom : f.generation ≤ s.cache.generation ∧
        ∀ r ∈ f.roots, ∃ n, s.node? r = some n ∧ n.generation = f.generation := by
      cases hold : s.callFrame? id with
      | none =>
          obtain ⟨hgen, hr⟩ := h.addedFrame hf hold
          exact ⟨Nat.le_of_eq hgen, hr⟩
      | some g =>
          obtain ⟨_, hg⟩ := hgrows.callFrames id g hold
          rw [hf] at hg
          cases hg
          exact ⟨hs.frames id g hold, hs.roots id g hold⟩
    refine ⟨h.generation ▸ hfrom.1, fun r hr => ?_⟩
    obtain ⟨n, hn, hgen⟩ := hfrom.2 r hr
    obtain ⟨n', hn', heir⟩ := hgrows.nodes r n hn
    exact ⟨n', hn', heir.generation.trans hgen⟩
  refine ⟨fun id n hn => ?_, fun id f hf => (hroots id f hf).1, fun id f hf => (hroots id f hf).2⟩
  rw [h.generation]
  cases hold : s.node? id with
  | some m =>
      obtain ⟨n', hn', heir⟩ := hgrows.nodes id m hold
      rw [hn] at hn'
      cases hn'
      rw [heir.generation]
      exact hs.nodes id m hold
  | none =>
      rcases h.added hn hold with hgen | ⟨k, m, hm, hgen⟩
      · exact Nat.le_of_eq hgen
      · rw [hgen]
        exact hs.nodes k m hm

/-- A node that is not among those that may be touched stays exactly as it is. -/
theorem Update.kept (h : Update src on s s') {id : NodeId} {n : Node} (hn : s.node? id = some n)
    (hon : ¬on id) : s'.node? id = some n := by
  have hne : ∀ {k}, on k → id ≠ k := fun hk heq => hon (heq ▸ hk)
  cases h with
  | learn _ => exact hn
  | fill hk _ _ _ => rw [node?_setNode_of_ne _ (hne hk), hn]
  | begin hk _ _ => rw [node?_setNode_of_ne _ (hne hk), hn]
  | list hk _ _ _ => exact node?_withChildren_old hn (hne hk) _ _
  | reply hk _ _ => rw [node?_recordOn_of_ne _ (hne hk), hn]
  | fail hk => rw [node?_recordOn_of_ne _ (hne hk), hn]
  | bind _ => rw [node?_addNode, if_neg (Nat.ne_of_lt (lt_size_of_node? hn)), hn]
  | enter _ _ => exact hn
  | ask _ => exact hn
  | manage _ hnodes _ => rwa [node?, hnodes]

/-! ### What any number of updates keeps -/

theorem Updates.generation (h : Updates src on s s') :
    s'.cache.generation = s.cache.generation := by
  induction h with
  | refl => rfl
  | tail _ hlast ih => exact hlast.generation.trans ih

theorem Update.mono {on' : NodeId → Prop} (hon : ∀ id, on id → on' id) (h : Update src on s s') :
    Update src on' s s' := by
  cases h with
  | learn hp => exact .learn hp
  | fill hid hn hh hp => exact .fill (hon _ hid) hn hh hp
  | begin hid hn hres => exact .begin (hon _ hid) hn hres
  | list hid hn hres hlists => exact .list (hon _ hid) hn hres hlists
  | reply hid hn hview => exact .reply (hon _ hid) hn hview
  | fail hid => exact .fail (hon _ hid)
  | bind hp => exact .bind hp
  | enter hgen hroots => exact .enter hgen hroots
  | ask hf => exact .ask hf
  | manage hcache hnodes hframes => exact .manage hcache hnodes hframes

/-- More nodes may be touched than are. -/
theorem Updates.mono {on' : NodeId → Prop} (hon : ∀ id, on id → on' id) (h : Updates src on s s') :
    Updates src on' s s' := by
  induction h with
  | refl => exact .refl
  | tail _ hlast ih => exact ih.tail (hlast.mono hon)

theorem Updates.grows (h : Updates src on s s') : s.Grows s' := by
  induction h with
  | refl => exact .refl s
  | tail _ hlast ih => exact ih.trans hlast.grows

theorem Updates.dated (h : Updates src on s s') (hs : s.Dated) : s'.Dated := by
  induction h with
  | refl => exact hs
  | tail _ hlast ih => exact hlast.dated ih

theorem Updates.kept (h : Updates src on s s') {id : NodeId} {n : Node} (hn : s.node? id = some n)
    (hon : ¬on id) : s'.node? id = some n := by
  induction h with
  | refl => exact hn
  | tail _ hlast ih => exact hlast.kept ih hon

theorem Carries.mono {generation : Nat} {id : NodeId} {k : Handle} (h : s.Grows s')
    (hs : s.Carries generation id k) : s'.Carries generation id k := by
  obtain ⟨n, hn, hgen, hh⟩ := hs
  obtain ⟨n', hn', heir⟩ := h.nodes id n hn
  exact ⟨n', hn', heir.generation.trans hgen, heir.handle k hh⟩

end Session

end RemoteInspector
