import Mathlib.Data.List.Induction
import Mathlib.Data.List.Perm.Basic
import RemoteInspector.Proofs.Session.Economy
import RemoteInspector.Proofs.Session.Faithful
import RemoteInspector.Proofs.Session.Lifecycle

/-!
What holds at every moment of a run about who is listed where. Children are nodes of the session, and a
node that waits for its own payload has none yet; what is shown of a node is what is known about it.
`Session.Keeps` says that between two sessions no node has been taken away from who lists it, so that
the same nodes are alive.
-/

namespace RemoteInspector

namespace Session

variable {src : Source} {on : NodeId → Prop} {s s' : Session}

/-! ### Children are nodes -/

def Listed (s : Session) : Prop :=
  ∀ id n, s.node? id = some n → ∀ c ∈ n.children, c < s.nodes.size

theorem Listed.setNode (hs : s.Listed) {id : NodeId} {n n' : Node} (hn : s.node? id = some n)
    (hchildren : ∀ c ∈ n'.children, c ∈ n.children) : (s.setNode id n').Listed := by
  have hsize : (s.setNode id n').nodes.size = s.nodes.size := by simp [Session.setNode]
  intro k m hm c hc
  rw [hsize]
  rw [node?_setNode hn] at hm
  split at hm
  · cases hm
    exact hs id n hn c (hchildren c hc)
  · exact hs k m hm c hc

theorem Listed.recordOn (hs : s.Listed) (id : NodeId) (e : Resolution.Event) :
    (s.recordOn id e).value.Listed := by
  rcases s.recordOn_cases id e with ⟨-, hvalue⟩ | ⟨n, hn, hvalue⟩
  · rw [hvalue]
    exact hs
  · rw [hvalue]
    refine hs.setNode hn fun c hc => ?_
    rwa [Node.record_value] at hc

theorem children_childNode (s : Session) (parent : NodeId) (n : Node) (r : PropertyRef) :
    (s.childNode parent n r).value.children = [] := by
  rcases s.childNode_cases parent n r with ⟨-, hvalue⟩ | ⟨p, -, hvalue⟩
  · rw [hvalue]
    rfl
  · rw [hvalue]
    exact List.eq_nil_iff_forall_not_mem.2 fun c hc => List.not_mem_nil (children_fill _ p c hc)

theorem children_ofBinding (generation : Nat) (owner : Owner) (name : String) (p : Payload) :
    (Node.ofBinding generation owner name p).value.children = [] := by
  unfold Node.ofBinding
  dsimp only
  split
  · exact List.eq_nil_iff_forall_not_mem.2 fun c hc => List.not_mem_nil (children_fill _ p c hc)
  · rfl

theorem Update.listed (h : Update src on s s') (hs : s.Listed) : s'.Listed := by
  cases h with
  | learn _ => exact hs
  | fill _ hn _ _ => exact hs.setNode hn (children_fill _ _)
  | begin _ hn _ => exact hs.setNode hn fun _ hc => hc
  | @list id n refs _ hn _ _ =>
      have hsize : (s.withChildren id n refs).nodes.size =
          s.nodes.size + (visible refs).length := by
        simp [withChildren, setNode, childNodes]
      intro k m hm c hc
      rw [hsize]
      rcases node?_withChildren_cases hn hm with ⟨rfl, rfl⟩ | ⟨-, hold⟩ | ⟨-, r, -, rfl⟩
      · rw [children_list] at hc
        exact (List.mem_range'_1.1 hc).2
      · exact Nat.lt_add_right _ (hs k m hold c hc)
      · rw [children_childNode] at hc
        exact (List.not_mem_nil hc).elim
  | reply _ _ _ => exact hs.recordOn _ _
  | fail _ => exact hs.recordOn _ _
  | @bind frame name p _ =>
      intro k m hm c hc
      rw [node?_addNode] at hm
      split at hm
      · cases hm
        rw [children_ofBinding] at hc
        exact (List.not_mem_nil hc).elim
      · rw [addNode, Array.size_push]
        exact Nat.lt_succ_of_lt (hs k m hm c hc)
  | enter _ _ => exact hs
  | ask _ => exact hs
  | manage _ hnodes _ =>
      intro k m hm c hc
      rw [node?, hnodes] at hm
      rw [hnodes]
      exact hs k m hm c hc

theorem Updates.listed (h : Updates src on s s') (hs : s.Listed) : s'.Listed := by
  induction h with
  | refl => exact hs
  | tail _ hlast ih => exact hlast.listed ih

/-! ### The number of nodes -/

theorem size_setNode (s : Session) (id : NodeId) (n : Node) :
    (s.setNode id n).nodes.size = s.nodes.size := by
  simp [setNode]

theorem size_recordOn (s : Session) (id : NodeId) (e : Resolution.Event) :
    (s.recordOn id e).value.nodes.size = s.nodes.size := by
  rcases s.recordOn_cases id e with ⟨-, hvalue⟩ | ⟨n, -, hvalue⟩
  · rw [hvalue]
  · rw [hvalue, size_setNode]

theorem size_failAll (s : Session) (ids : List NodeId) :
    (s.failAll ids).value.nodes.size = s.nodes.size := by
  induction ids generalizing s with
  | nil => rfl
  | cons id ids ih =>
      unfold failAll
      split
      · rw [Logged.value_bind, ih, size_recordOn]
      · exact ih s

theorem size_distribute (s : Session) (r : LookupReply) (awaited : List (Handle × NodeId)) :
    (s.distribute r awaited).value.nodes.size = s.nodes.size := by
  induction awaited generalizing s with
  | nil => rfl
  | cons x rest ih =>
      unfold distribute
      split
      · exact ih s
      · split
        · rw [Logged.value_bind, ih, size_setNode]
        · exact ih s

theorem size_seedRefs (s : Session) (e : Envelope) :
    (s.seedRefs e).nodes.size = s.nodes.size := by
  unfold seedRefs
  split <;> rfl

/-- A batch makes no nodes. -/
theorem size_deliverBatch (s : Session) (g : Nat) (awaited : List (Handle × NodeId))
    (parent : Option NodeId) (o : Outcome) :
    (s.deliverBatch g awaited parent o).value.nodes.size = s.nodes.size := by
  unfold deliverBatch
  split
  · rfl
  · dsimp only
    split
    · rw [Logged.value_bind, size_failAll]
    · rw [Logged.value_bind]
      split
      · rw [size_recordOn, size_distribute, size_seedRefs]
      · rw [Logged.value_pure, size_distribute, size_seedRefs]

/-- Nor does it give a node any children. -/
theorem children_deliverBatch {s : Session} (hs : s.Listed) {g : Nat}
    {awaited : List (Handle × NodeId)} {parent : Option NodeId} {o : Outcome}
    (hupdates : Updates src on s (s.deliverBatch g awaited parent o).value)
    {id : NodeId} {n n' : Node} (hn : s.node? id = some n)
    (hn' : (s.deliverBatch g awaited parent o).value.node? id = some n') :
    ∀ c ∈ n'.children, c ∈ n.children := by
  intro c hc
  have hcalm : Calm (fun _ => False) s (s.deliverBatch g awaited parent o).value :=
    calm_deliverBatch g awaited parent o
  rcases hcalm.children id n n' hn hn' c hc with hold | hnew
  · exact hold
  · have hlt := Updates.listed hupdates hs id n' hn' c hc
    rw [size_deliverBatch] at hlt
    exact (Nat.not_lt.2 hnew hlt).elim

/-- What has begun to be resolved is not filled with the variables of its frame. -/
theorem fillBare_begun {id : NodeId} {n : Node} (hn : s.node? id = some n)
    (hres : n.resolution ≠ .unresolved) (ids : List NodeId) :
    (s.fillBare ids).value.node? id = some n := by
  induction ids generalizing s with
  | nil => exact hn
  | cons k ids ih =>
      unfold fillBare
      cases hk : s.node? k with
      | none => exact ih hn
      | some m =>
          dsimp only
          split
          · next p hbare _ =>
            rw [Logged.value_bind]
            refine ih ?_
            -- What is filled is unresolved.
            have hne : id ≠ k := by
              rintro rfl
              rw [hn] at hk
              cases hk
              simp [isBare, hres] at hbare
            rw [node?_setNode_of_ne _ hne, hn]
          · exact ih hn

theorem ensureVariables_begun {frame : FrameId} {next : Session × Option Lookup}
    (hnext : (s.ensureVariables frame).value = .ok next) {id : NodeId} {n : Node}
    (hn : s.node? id = some n) (hres : n.resolution ≠ .unresolved) : next.1.node? id = some n := by
  have hasked : ∀ f : CallFrame, ((s.asked frame f).fillBare f.roots).value.node? id = some n :=
    fun f => fillBare_begun (s := s.asked frame f) hn hres f.roots
  rcases s.ensureVariables_cases frame with hvalue | hvalue | ⟨f, -, -, hvalue | hvalue⟩
  · rw [hvalue] at hnext
    cases hnext
    exact hn
  · rw [hvalue] at hnext
    cases hnext
  · rw [hvalue] at hnext
    cases hnext
    exact hasked f
  · rw [hvalue] at hnext
    cases hnext
    exact hasked f

/-! ### Who is alive -/

structure Keeps (s s' : Session) : Prop where
  rest : s'.rest = s.rest
  nodes : ∀ id n, s.node? id = some n → ∃ n', s'.node? id = some n' ∧ n'.owner = n.owner ∧
    ∀ c < s.nodes.size, c ∈ n'.children ↔ c ∈ n.children

theorem holds_of_rest (h : s'.rest = s.rest) :
    s'.heldNodes = s.heldNodes ∧ ∀ f, s'.holdsFrame f = s.holdsFrame f := by
  have hheld : s'.rest.heldNodes = s.rest.heldNodes := by rw [h]
  have hcurrent : s'.rest.current = s.rest.current := by rw [h]
  have hframes : s'.rest.heldFrames = s.rest.heldFrames := by rw [h]
  refine ⟨hheld, fun f => ?_⟩
  show (s'.rest.current.contains f || s'.rest.heldFrames.contains f) = _
  rw [hcurrent, hframes]
  rfl

/-- Who is alive is said by the owners up to a node, and by what those before it list. -/
theorem isAlive_congr {id : NodeId} (hrest : s'.rest = s.rest)
    (howner : ∀ k ≤ id, (s'.node? k).map Node.owner = (s.node? k).map Node.owner)
    (hlists : ∀ p < id, ∀ c ≤ id, (∃ n, s'.node? p = some n ∧ c ∈ n.children) ↔
      ∃ n, s.node? p = some n ∧ c ∈ n.children) : s'.isAlive id = s.isAlive id := by
  obtain ⟨hheld, hholds⟩ := holds_of_rest hrest
  -- Owners come before what they own.
  induction id using Nat.strongRecOn with
  | ind id ih =>
      have hbefore : ∀ p < id, s'.isAlive p = s.isAlive p := fun p hp =>
        ih p hp (fun k hk => howner k (Nat.le_trans hk (Nat.le_of_lt hp))) fun q hq c hc =>
          hlists q (Nat.lt_trans hq hp) c (Nat.le_trans hc (Nat.le_of_lt hp))
      have hself := howner id (Nat.le_refl id)
      rw [Bool.eq_iff_iff, isAlive_iff, isAlive_iff, hheld]
      refine or_congr_right ?_
      cases hn : s.node? id with
      | none =>
          rw [hn, Option.map_none, Option.map_eq_none_iff] at hself
          simp [hself]
      | some n =>
          rw [hn, Option.map_some] at hself
          obtain ⟨n', hn', hsame⟩ := Option.map_eq_some_iff.1 hself
          simp only [hn', Option.some.injEq, exists_eq_left', hsame, hholds]
          refine or_congr_right (exists_congr fun p => ?_)
          constructor
          · rintro ⟨parent', hp, hlt, hparent', hmem', halive⟩
            obtain ⟨parent, hparent, hmem⟩ :=
              (hlists p hlt id (Nat.le_refl id)).1 ⟨parent', hparent', hmem'⟩
            exact ⟨parent, hp, hlt, hparent, hmem, hbefore p hlt ▸ halive⟩
          · rintro ⟨parent, hp, hlt, hparent, hmem, halive⟩
            obtain ⟨parent', hparent', hmem'⟩ :=
              (hlists p hlt id (Nat.le_refl id)).2 ⟨parent, hparent, hmem⟩
            exact ⟨parent', hp, hlt, hparent', hmem', (hbefore p hlt).trans halive⟩

theorem Keeps.isAlive (h : s.Keeps s') {id : NodeId} (hid : id < s.nodes.size) :
    s'.isAlive id = s.isAlive id := by
  refine isAlive_congr h.rest (fun k hk => ?_) fun p hp c hc => ?_
  · obtain ⟨n, hn⟩ := node?_of_lt (Nat.lt_of_le_of_lt hk hid)
    obtain ⟨n', hn', howner, -⟩ := h.nodes k n hn
    rw [hn, hn', Option.map_some, Option.map_some, howner]
  · obtain ⟨n, hn⟩ := node?_of_lt (Nat.lt_trans hp hid)
    obtain ⟨n', hn', -, hchildren⟩ := h.nodes p n hn
    simp only [hn, hn', Option.some.injEq, exists_eq_left']
    exact hchildren c (Nat.lt_of_le_of_lt hc hid)

/-- It is enough that everything before the node is as it was. -/
theorem isAlive_of_older {id : NodeId} (hrest : s'.rest = s.rest)
    (howner : (s'.node? id).map Node.owner = (s.node? id).map Node.owner)
    (hold : ∀ k < id, s'.node? k = s.node? k) : s'.isAlive id = s.isAlive id := by
  refine isAlive_congr hrest (fun k hk => ?_) fun p hp c _ => ?_
  · rcases Nat.lt_or_eq_of_le hk with hlt | rfl
    · rw [hold k hlt]
    · exact howner
  · rw [hold p hp]

end Session

/-! ### What is shown is known -/

/-- What is known about a node that has a view agrees with what the machine reports for its handle. -/
def Node.Known (T : Machine) (n : Node) (h : Handle) : Prop :=
  n.view.isSome → ∃ p, T h = some p ∧ n.facts.Reports p

theorem Node.Known.fill {T : Machine} {s : Session} {n : Node} {h : Handle} {p whole : Payload}
    (hn : n.Known T h) (hfaithful : n.Faithful T s h) (hwhole : T h = some whole)
    (hp : p.Abridges whole) : (n.fill p).value.Known T h := by
  intro hview
  cases hfinal : n.resolution.isFinal with
  | true =>
      rw [fill_final hfinal] at hview ⊢
      exact hn hview
  | false =>
      rw [fill_facts hfinal]
      refine ⟨whole, hwhole, Facts.reports_fill hp ?_ _⟩
      rcases hfaithful.facts with hblank | ⟨q, hq, hreports⟩
      · exact .inl hblank
      · rw [hwhole] at hq
        cases hq
        exact .inr hreports

namespace Session

variable {T : Machine} {on : NodeId → Prop} {s s' : Session}

/-- What is shown of the nodes of the present generation is known about them. -/
def Known (T : Machine) (s : Session) : Prop :=
  ∀ id n, s.node? id = some n → n.generation = s.cache.generation →
    ∀ h, n.facts.handle = some h → n.Known T h

theorem Known.setNode (hs : s.Known T) {id : NodeId} {n n' : Node} (hn : s.node? id = some n)
    (hgen : n'.generation = n.generation)
    (hn' : n.generation = s.cache.generation → ∀ h, n'.facts.handle = some h → n'.Known T h) :
    (s.setNode id n').Known T := by
  intro k m hm
  rw [node?_setNode hn] at hm
  split at hm
  · cases hm
    rw [hgen]
    exact hn'
  · exact hs k m hm

theorem Known.recordOn (hs : s.Known T) (id : NodeId) (e : Resolution.Event) :
    (s.recordOn id e).value.Known T := by
  rcases s.recordOn_cases id e with ⟨-, hvalue⟩ | ⟨n, hn, hvalue⟩
  · rw [hvalue]
    exact hs
  · rw [hvalue]
    refine hs.setNode hn (n.heir_record e).generation fun hgen h hh => ?_
    rw [Node.record_value] at hh ⊢
    exact hs id n hn hgen h hh

theorem known_childNode (hs : s.Faithful T) (id : NodeId) (n : Node) (r : PropertyRef) :
    (s.childNode id n r).value.Known T r.handle := by
  rcases s.childNode_cases id n r with ⟨-, hvalue⟩ | ⟨p, hp, hvalue⟩
  · rw [hvalue]
    rintro ⟨⟩
  · rw [hvalue]
    refine Node.Known.fill (s := s) ?_ (.new ..) (hs.cache r.handle p hp) (.inl rfl)
    rintro ⟨⟩

/-- What is known about the node of a binding that shows anything has come with the binding. -/
theorem known_ofBinding {p : Payload} (hp : (Source.trueTo T).binding p) {generation : Nat}
    {owner : Owner} {name : String} {h : Handle}
    (hh : (Node.ofBinding generation owner name p).value.facts.handle = some h) :
    (Node.ofBinding generation owner name p).value.Known T h := by
  rw [handle_ofBinding] at hh
  rcases hp h hh with rfl | ⟨whole, hwhole, habridges⟩
  · rintro ⟨⟩
  · unfold Node.ofBinding
    dsimp only
    split
    · refine Node.Known.fill (s := {}) ?_ (.new ..) hwhole habridges
      rintro ⟨⟩
    · rintro ⟨⟩

theorem Update.known (h : Update (.trueTo T) on s s') (hs : s.Faithful T) (hk : s.Known T) :
    s'.Known T := by
  cases h with
  | learn _ => exact hk
  | @fill id n k p _ hn hh htells =>
      refine hk.setNode hn (n.heir_fill p).generation fun hgen j hj => ?_
      rw [(n.heir_fill p).handle k hh] at hj
      cases hj
      exact (hk id n hn hgen k hh).fill (hs.nodes id n hn hgen k hh) (hs.tells htells) (.inl rfl)
  | begin _ hn _ => exact hk.setNode hn rfl fun hgen h hh => hk _ _ hn hgen h hh
  | @list id n refs _ hn _ hlists =>
      intro k m hm hgen h hh
      rcases node?_withChildren_cases hn hm with ⟨-, rfl⟩ | ⟨-, hold⟩ | ⟨-, r, -, rfl⟩
      · intro _
        obtain ⟨p, hp, -, hreports, -⟩ := hs.lists hlists hn hgen hh
        exact ⟨p, hp, hreports⟩
      · exact hk k m hold hgen h hh
      · have hhandle := (s.heir_childNode id n r).handle r.handle rfl
        rw [hh] at hhandle
        cases hhandle
        exact known_childNode hs id n r
  | reply _ _ _ => exact hk.recordOn _ _
  | fail _ => exact hk.recordOn _ _
  | @bind frame name p hp =>
      intro k m hm hgen h hh
      rw [node?_addNode] at hm
      split at hm
      · cases hm
        exact fun hview => known_ofBinding hp hh hview
      · exact hk k m hm hgen h hh
  | enter _ _ => exact hk
  | ask _ => exact hk
  | manage hcache hnodes _ =>
      intro k m hm hgen
      rw [node?, hnodes] at hm
      rw [hcache] at hgen
      exact hk k m hm hgen

theorem Updates.known (h : Updates (.trueTo T) on s s') (hs : s.Faithful T) (hk : s.Known T) :
    s'.Known T := by
  induction h with
  | refl => exact hk
  | tail hfirst hlast ih => exact hlast.known (Updates.faithful hfirst hs) ih

end Session

namespace Inquiry

/-! ### Who waits for its own payload has no children -/

def Childless (w : Inquiry) : Prop :=
  ∀ q ∈ w.underWay, ∀ id, q.purpose = .payload id → ∀ n, w.session.node? id = some n →
    n.children = []

/-- Of two lookups under way only one is for a thing. -/
theorem Spent.others {past : List Purpose} {w : Inquiry} (h : Spent past w) {place : Nat} {q : Query}
    (hq : w.underWay[place]? = some q) :
    ∀ q' ∈ w.underWay.eraseIdx place, q'.purpose ≠ q.purpose := by
  obtain ⟨hplace, rfl⟩ := List.getElem?_eq_some_iff.1 hq
  have hperm := (List.getElem_cons_eraseIdx_perm hplace).map Query.purpose
  have hnodup := hperm.nodup_iff.2 h.distinct
  intro q' hq' heq
  exact (List.nodup_cons.1 hnodup).1 (List.mem_map.2 ⟨q', hq', heq⟩)

/-- Only an expansion asks for a node's own payload, and it does nothing else but begin. -/
theorem asks_payload {w : Inquiry} (hw : w.Coherent) {m : Move} {q : Query}
    (hq : w.asks? m = some q) {id : NodeId} (hid : q.purpose = .payload id) :
    ∃ n, w.session.node? id = some n ∧ n.resolution = .unresolved ∧
      (w.step m).session = w.session.setNode id n.begun := by
  -- All other lookups are for properties, or for the variables of a frame.
  have hnot : ∀ {s : Session} {k : NodeId}, s.Serves q (.properties k) → False := by
    intro s k hserves
    rw [Session.purpose_of_serves hserves] at hid
    cases hid
  cases m with
  | expand k =>
      obtain ⟨l, hl, rfl⟩ := Option.map_eq_some_iff.1 hq
      rcases w.session.expand_cases k with ⟨-, hvalue⟩ | ⟨n, hn, -, hres, hcase⟩
      · rw [hvalue] at hl
        cases hl
      have hself := Session.node?_setNode_self hn n.begun
      rcases hcase with ⟨refs, -, hvalue⟩ | ⟨h, p, -, -, -, hvalue⟩ | ⟨h, -, -, -, hvalue⟩
      · rw [hvalue] at hl
        exact (hnot (Session.populate_query hn hl).2).elim
      · rw [hvalue] at hl
        exact (hnot (Session.settleOwn_query hself hl).2).elim
      · rw [hvalue] at hl
        cases hl
        cases hid
        exact ⟨n, hn, hres, by rw [step, issue_session, hvalue]⟩
  | ensureProperties k refs =>
      obtain ⟨l, hl, rfl⟩ := Option.map_eq_some_iff.1 hq
      exact (hnot (Session.ensureProperties_query hl).2).elim
  | ensureVariables k =>
      simp only [asks?] at hq
      split at hq
      · next next hnext =>
        obtain ⟨l, hl, rfl⟩ := Option.map_eq_some_iff.1 hq
        have hserves := (Session.ensureVariables_query hw.dated hnext hl).2
        rw [Session.purpose_of_serves hserves] at hid
        cases hid
      · cases hq
  | settle place o =>
      simp only [asks?] at hq
      split at hq
      · next q' hq' =>
        obtain ⟨l, hl, rfl⟩ := Option.map_eq_some_iff.1 hq
        obtain ⟨-, k, -, -, -, hserves⟩ := Session.deliver_query hl
        obtain ⟨n, awaited, -, -, hbatch⟩ := hserves
        cases hbatch
        cases q'.asker <;> cases hid
      · cases hq
  | _ => cases hq

/-- What has begun to be resolved gets children with its own payload only. -/
theorem step_children {w : Inquiry} (hw : w.Coherent) (hs : w.session.Listed) {m : Move} {id : NodeId}
    {n n' : Node} (hn : w.session.node? id = some n) (hbegun : n.resolution ≠ .unresolved)
    (hn' : (w.step m).session.node? id = some n')
    (hother : ∀ place o q, m = .settle place o → w.underWay[place]? = some q →
      q.purpose ≠ .payload id) :
    ∀ c ∈ n'.children, c ∈ n.children := by
  have hsame : (w.step m).session.node? id = some n → ∀ c ∈ n'.children, c ∈ n.children := by
    intro hkept c hc
    rw [hn'] at hkept
    cases hkept
    exact hc
  by_cases hm : m.Ends
  · obtain ⟨current, table, hstep⟩ := step_ends hm
    exact hsame (hstep ▸ hn)
  have hupdates := step_updates hw hm (w.supplied_any m)
  by_cases htouches : w.Touches m id
  · cases m with
    | expand k =>
        obtain rfl : id = k := htouches
        refine hsame ?_
        rw [step, issue_session, Session.expand_stopped fun m hm hexp => ?_]
        · exact hn
        · rw [hn] at hm
          cases hm
          exact hbegun hexp.2
    | ensureProperties k refs =>
        obtain rfl : id = k := htouches
        refine hsame ?_
        rw [step, issue_session, Session.ensureProperties_stopped fun m hm hexp => ?_]
        · exact hn
        · rw [hn] at hm
          cases hm
          exact hbegun hexp.2
    | ensureVariables k =>
        refine hsame ?_
        simp only [step]
        split
        · next next hnext =>
          rw [issue_session]
          exact Session.ensureVariables_begun hnext hn hbegun
        · exact hn
    | settle place o =>
        obtain ⟨q, hq, -, hmem⟩ := htouches
        cases hwait : q.lookup.waiting with
        | own g k h =>
            rw [hwait] at hmem
            obtain rfl : id = k := by simpa [Waiting.nodes, Waiting.parent?, Waiting.awaited] using hmem
            exact (hother place o q rfl hq (by rw [Query.purpose, hwait])).elim
        | batch g awaited parent =>
            simp only [step, hq, issue_session, hwait] at hn' hupdates
            exact Session.children_deliverBatch hs hupdates hn hn'
    | _ => exact htouches.elim
  · exact hsame (Session.Updates.kept hupdates hn htouches)

theorem step_childless {past : List Purpose} {w : Inquiry} (hw : w.Coherent)
    (hs : w.session.AllConsistent) (hl : w.session.Listed) (hp : Spent past w) (h : w.Childless)
    (m : Move) : (w.step m).Childless := by
  intro q hq id hid n' hn'
  rw [(w.step_sends m).2] at hq
  rcases List.mem_append.1 hq with hold | hnew
  · have hmem := (w.remaining_sublist m).subset hold
    obtain ⟨n, hn, hbegun⟩ : w.session.Marked (.payload id) :=
      hid ▸ hp.marked _ (hp.underWay q hmem)
    have hnone := h q hmem id hid n hn
    refine List.eq_nil_iff_forall_not_mem.2 fun c hc => ?_
    have hlisted := step_children hw hl hn hbegun hn' (fun place o q' hm hq' hid' => ?_) c hc
    · rw [hnone] at hlisted
      exact List.not_mem_nil hlisted
    · subst hm
      exact hp.others hq' q hold (hid.trans hid'.symm)
  · obtain ⟨n, hn, hres, hstep⟩ := asks_payload hw (Option.mem_toList.1 hnew) hid
    rw [hstep, Session.node?_setNode_self hn] at hn'
    cases hn'
    have hview := (hs id n hn).unresolved hres
    simp [Node.children, Node.begun, hview]

/-! ### Runs -/

/-- What the order of the outcomes to come does not depend on. -/
structure Poised (T : Machine) (w : Inquiry) : Prop where
  coherent : w.Coherent
  faithful : w.session.Faithful T
  consistent : w.session.AllConsistent
  known : w.session.Known T
  listed : w.session.Listed
  childless : w.Childless
  spent : ∃ past, Spent past w

theorem step_listed {w : Inquiry} (hw : w.Coherent) (hs : w.session.Listed) (m : Move) :
    (w.step m).session.Listed := by
  by_cases hm : m.Ends
  · obtain ⟨current, table, hstep⟩ := step_ends hm
    rw [hstep]
    exact hs
  · exact Session.Updates.listed (step_updates hw hm (w.supplied_any m)) hs

/-- In every run children are nodes, and who waits for its own payload has none. -/
theorem listed_run (options : LookupOptions) (moves : List Move) :
    (run options moves).session.Listed ∧ (run options moves).Childless := by
  induction moves using List.reverseRecOn with
  | nil =>
      refine ⟨fun id n hn => ?_, nofun⟩
      simp [run, after, Session.node?] at hn
  | append_singleton moves m ih =>
      have hw := coherent_run options moves
      have hlast : run options (moves ++ [m]) = (run options moves).step m :=
        run_append options moves [m]
      rw [hlast]
      exact ⟨step_listed hw ih.1 m, step_childless hw (consistent_run options moves) ih.1
        (spent_run options moves) ih.2 m⟩

theorem poised_begin (T : Machine) (options : LookupOptions) {before : List Move}
    (hbegins : BeginsSuspension before) : (run options before).Poised T where
  coherent := coherent_run options before
  faithful := faithful_begin T options hbegins
  consistent := consistent_run options before
  known := by
    -- Nothing is shown yet: not even a machine that knows nothing is contradicted.
    intro id n hn hgen h hh hview
    obtain ⟨v, hv⟩ := Option.isSome_iff_exists.1 hview
    obtain ⟨p, hp, -⟩ :=
      ((faithful_begin (fun _ => none) options hbegins).nodes id n hn hgen h hh).view v hv
    cases hp
  listed := (listed_run options before).1
  childless := (listed_run options before).2
  spent := ⟨_, spent_run options before⟩

theorem step_poised {T : Machine} {w : Inquiry} (h : w.Poised T) {m : Move} (hm : ¬m.Ends)
    (htrue : w.Supplied (.trueTo T) m) : (w.step m).Poised T := by
  obtain ⟨past, hspent⟩ := h.spent
  exact {
    coherent := step_coherent h.coherent m
    faithful := step_faithful h.coherent hm htrue h.faithful
    consistent := step_consistent h.coherent m h.consistent
    known := Session.Updates.known (step_updates h.coherent hm htrue) h.faithful h.known
    listed := step_listed h.coherent h.listed m
    childless := step_childless h.coherent h.consistent h.listed hspent h.childless m
    spent := ⟨_, step_spent h.coherent hspent m⟩ }

theorem after_poised {T : Machine} {w : Inquiry} (h : w.Poised T) {moves : List Move}
    (htrue : TrueTo T w moves) : (w.after moves).Poised T := by
  induction moves generalizing w with
  | nil => exact h
  | cons m moves ih => exact ih (step_poised h htrue.1 htrue.2.1) htrue.2.2

end Inquiry

end RemoteInspector
