import RemoteInspector.Proofs.Session.Inquiry

/-!
Nodes that a caller holds on to after their suspension has ended. Expanding such a node, or giving it
properties, does not look whether the machine has resumed, while asking for the variables of a frame
does. So a retained node of which nothing had been asked is begun anew, and its handles are taken for
those of the present suspension: what the cache now holds under them is shown for the node and its
children. Everything else leaves a retained node as it is.
-/

namespace RemoteInspector

/-- To expand the node is to take up a payload that is cached: its own if its properties are not known,
else that of a property that is shown. -/
def Node.Draws (n : Node) (c : Cache) : Prop :=
  match n.facts.properties, n.facts.handle with
  | some refs, _ => ∃ r ∈ visible refs, c.contains r.handle = true
  | none, some h => c.contains h = true
  | none, none => False

namespace Session

/-- What was known before of a node of a later session: of a new one, the name and the handle. -/
def former (s : Session) (k : NodeId) (n' : Node) : Facts :=
  match s.node? k with
  | some n => n.facts
  | none => { name := n'.name, handle := n'.facts.handle }

/-- No payload has reached a node. -/
def Unfilled (s s' : Session) : Prop := ∀ k n', s'.node? k = some n' → n'.facts = s.former k n'

/-- A payload that was cached under the handle of a node has reached the node. -/
def FilledFromCache (s s' : Session) : Prop :=
  ∃ k n' h p withProperties, s'.node? k = some n' ∧ n'.facts.handle = some h ∧
    s.cache.get? h = some p ∧ n'.facts = (s.former k n').fill p withProperties

theorem former_eq {s : Session} {k : NodeId} {n : Node} (h : s.node? k = some n) (n' : Node) :
    s.former k n' = n.facts := by
  rw [former, h]

theorem former_new {s : Session} {k : NodeId} (h : s.node? k = none) (n' : Node) :
    s.former k n' = { name := n'.name, handle := n'.facts.handle } := by
  rw [former, h]

theorem Unfilled.refl (s : Session) : s.Unfilled s := fun _ n' hn' => (former_eq hn' n').symm

/-- A node after the children of another have been made is the parent, an old node or a child. -/
theorem node?_populate_cases {s : Session} {id : NodeId} {m n : Node} {refs : List PropertyRef}
    (hm : s.node? id = some m) {k : NodeId} {c : Node}
    (hc : (s.populate id n refs).value.1.node? k = some c) :
    (k = id ∧ c.facts = n.facts) ∨ (k ≠ id ∧ s.node? k = some c) ∨
    (s.node? k = none ∧ ∃ r ∈ visible refs, c = (s.childNode id n r).value) := by
  have hlisted : ∀ {c}, (s.withChildren id n refs).node? k = some c →
      (k = id ∧ c.facts = n.facts) ∨ (k ≠ id ∧ s.node? k = some c) ∨
      (s.node? k = none ∧ ∃ r ∈ visible refs, c = (s.childNode id n r).value) := by
    intro c hc
    rcases node?_withChildren_cases hm hc with ⟨hk, rfl⟩ | hold | hnew
    · exact .inl ⟨hk, rfl⟩
    · exact .inr (.inl hold)
    · exact .inr (.inr hnew)
  rcases s.populate_cases id n refs with ⟨-, hvalue⟩ | ⟨-, hvalue⟩
  · rw [hvalue] at hc
    by_cases hk : k = id
    · rw [hk, node?_recordOn_self (node?_withChildren_self hm n refs)] at hc
      obtain rfl := Option.some.inj hc
      exact .inl ⟨hk, by rw [Node.record_value]⟩
    · rw [node?_recordOn_of_ne _ hk] at hc
      exact hlisted hc
  · rw [hvalue] at hc
    exact hlisted hc

theorem node?_populate_self {s : Session} {id : NodeId} {m n : Node} {refs : List PropertyRef}
    (hm : s.node? id = some m) :
    ∃ c, (s.populate id n refs).value.1.node? id = some c ∧ c.facts = n.facts := by
  have hself := node?_withChildren_self hm n refs
  rcases s.populate_cases id n refs with ⟨-, hvalue⟩ | ⟨-, hvalue⟩
  · rw [hvalue]
    exact ⟨_, node?_recordOn_self hself _, by rw [Node.record_value]⟩
  · rw [hvalue]
    exact ⟨_, hself, rfl⟩

/-- Every property that is shown gets its child. -/
theorem exists_child {s : Session} {id : NodeId} {m n : Node} {refs : List PropertyRef}
    (hm : s.node? id = some m) {r : PropertyRef} (hr : r ∈ visible refs) :
    ∃ k, s.node? k = none ∧
      (s.populate id n refs).value.1.node? k = some (s.childNode id n r).value := by
  obtain ⟨i, hi, rfl⟩ := List.mem_iff_getElem.1 hr
  have hne : s.nodes.size + i ≠ id :=
    Nat.ne_of_gt (Nat.lt_add_right i (lt_size_of_node? hm))
  have hchild := node?_child hm n hi
  refine ⟨s.nodes.size + i, by simp [node?], ?_⟩
  rcases s.populate_cases id n refs with ⟨-, hvalue⟩ | ⟨-, hvalue⟩
  · rw [hvalue, node?_recordOn_of_ne _ hne, hchild]
  · rw [hvalue, hchild]

theorem populate_unfilled {s : Session} {id : NodeId} {m n : Node} {refs : List PropertyRef}
    (hm : s.node? id = some m) (hfacts : n.facts = m.facts)
    (hrefs : ¬∃ r ∈ visible refs, s.cache.contains r.handle = true) :
    s.Unfilled (s.populate id n refs).value.1 := by
  intro k c hc
  rcases node?_populate_cases hm hc with ⟨rfl, hsame⟩ | ⟨-, hold⟩ | ⟨hnone, r, hr, rfl⟩
  · rw [former_eq hm, hsame, hfacts]
  · rw [former_eq hold]
  · rw [former_new hnone]
    rcases s.childNode_cases id n r with ⟨-, hvalue⟩ | ⟨p, hp, -⟩
    · rw [hvalue]
      rfl
    · exact (hrefs ⟨r, hr, by simp [Cache.contains, hp]⟩).elim

theorem populate_fills {s : Session} {id : NodeId} {m n : Node} {refs : List PropertyRef}
    (hm : s.node? id = some m)
    (hrefs : ∃ r ∈ visible refs, s.cache.contains r.handle = true) :
    s.FilledFromCache (s.populate id n refs).value.1 := by
  obtain ⟨r, hr, hcached⟩ := hrefs
  obtain ⟨p, hp⟩ := Option.isSome_iff_exists.1 hcached
  obtain ⟨k, hnone, hchild⟩ := exists_child (n := n) hm hr
  have heir := s.heir_childNode id n r
  refine ⟨k, _, r.handle, p, false, hchild, heir.handle r.handle rfl, hp, ?_⟩
  rw [former_new hnone, heir.name, heir.handle r.handle rfl]
  rcases s.childNode_cases id n r with ⟨hmiss, -⟩ | ⟨q, hq, hvalue⟩
  · rw [hp] at hmiss
    cases hmiss
  · rw [hp] at hq
    cases hq
    rw [hvalue]
    exact Node.fill_facts rfl p

theorem expand_unfilled {s : Session} {id : NodeId} {n : Node} (hn : s.node? id = some n)
    (hdraws : ¬n.Draws s.cache) : s.Unfilled (s.expand id).value.1 := by
  have hbegun : s.Unfilled (s.setNode id n.begun) := by
    intro k c hc
    rw [node?_setNode hn] at hc
    split at hc
    · next hk =>
      cases hc
      rw [hk, former_eq hn]
      rfl
    · rw [former_eq hc]
  rcases s.expand_cases id with ⟨-, hvalue⟩ | ⟨m, hm, -, -, hcase⟩
  · rw [hvalue]
    exact .refl s
  rw [hn] at hm
  obtain rfl := Option.some.inj hm
  rcases hcase with ⟨refs, hrefs, hvalue⟩ | ⟨h, p, hnone, hh, hp, -⟩ | ⟨h, -, -, -, hvalue⟩
  · rw [hvalue]
    refine populate_unfilled hn rfl fun hcached => ?_
    rcases hrefs with hrefs | ⟨-, -, rfl⟩
    · exact hdraws (by simpa [Node.Draws, hrefs] using hcached)
    · simp [visible] at hcached
  · exact (hdraws (by simp [Node.Draws, hnone, hh, Cache.contains, hp])).elim
  · rw [hvalue]
    exact hbegun

theorem expand_fills {s : Session} {id : NodeId} {n : Node} (hn : s.node? id = some n)
    (hexp : n.isExpandable = true) (hres : n.resolution = .unresolved)
    (hdraws : n.Draws s.cache) : s.FilledFromCache (s.expand id).value.1 := by
  rcases s.expand_cases id with ⟨hstop, -⟩ | ⟨m, hm, -, -, hcase⟩
  · exact (hstop n hn ⟨hexp, hres⟩).elim
  rw [hn] at hm
  obtain rfl := Option.some.inj hm
  rcases hcase with ⟨refs, hrefs, hvalue⟩ | ⟨h, p, -, hh, hp, hvalue⟩ | ⟨h, hnone, hh, hp, -⟩
  · rw [hvalue]
    rcases hrefs with hrefs | ⟨hnone, hh, -⟩
    · exact populate_fills hn (by simpa [Node.Draws, hrefs] using hdraws)
    · simp [Node.Draws, hnone, hh] at hdraws
  · rw [hvalue]
    -- The node's own payload stays applied whether or not children are made after it.
    obtain ⟨c, hc, hfacts⟩ : ∃ c,
        ((s.setNode id n.begun).settleOwn id n.begun p).value.1.node? id = some c ∧
          c.facts = (n.begun.fill p).value.facts := by
      have hself := node?_setNode_self (node?_setNode_self hn n.begun) (n.begun.fill p).value
      rcases (s.setNode id n.begun).settleOwn_cases id n.begun p with ⟨-, hown⟩ | ⟨-, hown⟩
      · rw [hown]
        exact node?_populate_self hself
      · rw [hown]
        exact ⟨_, hself, rfl⟩
    have hfill := Node.fill_facts (n := n.begun) rfl p
    refine ⟨id, c, h, p, !n.shallow, hc, ?_, hp, ?_⟩
    · rw [hfacts]
      exact (n.begun.heir_fill p).handle h hh
    · rw [hfacts, former_eq hn]
      exact hfill
  · simp [Node.Draws, hnone, hh, Cache.contains, hp] at hdraws

end Session

namespace Inquiry

/-- A move has left resolution, facts and view of a node as they were, and has sent nothing. -/
def LeftAlone (w w' : Inquiry) (id : NodeId) (n : Node) : Prop :=
  (∃ n', w'.session.node? id = some n' ∧ n'.resolution = n.resolution ∧ n'.facts = n.facts ∧
    n'.view = n.view) ∧ w'.sent = w.sent

theorem not_leftAlone_of_begun {w w' : Inquiry} {id : NodeId} {n : Node}
    (hn : w.session.node? id = some n) (hres : n.resolution = .unresolved)
    (hupdates : Session.Updates .any (fun _ => True) (w.session.setNode id n.begun) w'.session) :
    ¬w.LeftAlone w' id n := by
  rintro ⟨⟨n', hn', hsame, -, -⟩, -⟩
  -- Nothing takes a resolution back to its beginning.
  obtain ⟨m, hm, heir⟩ :=
    (Session.Updates.grows hupdates).nodes id n.begun (Session.node?_setNode_self hn _)
  rw [hn'] at hm
  cases hm
  exact heir.begun nofun (hsame.trans hres)

theorem leftAlone_expand_iff {w : Inquiry} {id : NodeId} {n : Node}
    (hn : w.session.node? id = some n) : w.LeftAlone (w.step (.expand id)) id n ↔
      ¬(n.isExpandable = true ∧ n.resolution = .unresolved) := by
  constructor
  · rintro halone ⟨hexp, hres⟩
    refine not_leftAlone_of_begun hn hres ?_ halone
    rw [step, issue_session]
    exact Session.expand_begun trivial hn hexp hres
  · intro hstop
    rcases w.session.expand_cases id with ⟨-, hvalue⟩ | ⟨m, hm, hexp, hres, -⟩
    · rw [step, hvalue]
      exact ⟨⟨n, hn, rfl, rfl, rfl⟩, rfl⟩
    · rw [hn] at hm
      cases hm
      exact (hstop ⟨hexp, hres⟩).elim

theorem leftAlone_ensureProperties_iff {w : Inquiry} {id : NodeId} {n : Node}
    (hn : w.session.node? id = some n) (refs : List PropertyRef) :
    w.LeftAlone (w.step (.ensureProperties id refs)) id n ↔
      ¬(n.facts.isScalar = false ∧ n.resolution = .unresolved) := by
  constructor
  · rintro halone ⟨hscalar, hres⟩
    refine not_leftAlone_of_begun hn hres ?_ halone
    rw [step, issue_session]
    exact Session.ensureProperties_begun trivial trivial hn hscalar hres
  · intro hstop
    rcases w.session.ensureProperties_cases id refs with ⟨-, hvalue⟩ | ⟨m, hm, hscalar, hres, -⟩
    · rw [step, hvalue]
      exact ⟨⟨n, hn, rfl, rfl, rfl⟩, rfl⟩
    · rw [hn] at hm
      cases hm
      exact (hstop ⟨hscalar, hres⟩).elim

/-- Unless it begins to resolve a node, a move touches only nodes of the present generation. -/
theorem touches_present {w : Inquiry} (hw : w.Coherent) {m : Move} (hexpand : ∀ k, m ≠ .expand k)
    (hproperties : ∀ k refs, m ≠ .ensureProperties k refs) {id : NodeId} (h : w.Touches m id) :
    ∃ n, w.session.node? id = some n ∧ n.generation = w.session.cache.generation := by
  cases m with
  | expand k => exact (hexpand k rfl).elim
  | ensureProperties k refs => exact (hproperties k refs rfl).elim
  | ensureVariables k =>
      -- The variables of a frame are of its generation, and only a current frame has them asked for.
      obtain ⟨f, hf, hgen, hroot⟩ := h
      obtain ⟨n, hn, hsame⟩ := hw.dated.roots k f hf id hroot
      exact ⟨n, hn, hsame.trans hgen⟩
  | settle place o =>
      obtain ⟨q, hq, hgen, hwaits⟩ := h
      have hposed := hw.posed q (List.mem_of_getElem? hq)
      rcases List.mem_append.1 hwaits with hparent | hawaited
      · obtain ⟨n, hn, hsame, -⟩ := hposed.parent id (Option.mem_toList.1 hparent)
        exact ⟨n, hn, hsame.trans hgen⟩
      · obtain ⟨x, hx, rfl⟩ := List.mem_map.1 hawaited
        obtain ⟨n, hn, hsame, -⟩ := hposed.awaited x hx
        exact ⟨n, hn, hsame.trans hgen⟩
  | _ => exact h.elim

/-- A node of an earlier generation is touched by no move but an expansion of it or properties given
to it. -/
theorem not_touches_retained {w : Inquiry} (hw : w.Coherent) {id : NodeId} {n : Node}
    (hn : w.session.node? id = some n) (hstale : n.generation ≠ w.session.cache.generation)
    {m : Move} (hexpand : m ≠ .expand id) (hproperties : ∀ refs, m ≠ .ensureProperties id refs) :
    ¬w.Touches m id := by
  intro htouches
  obtain ⟨n', hn', hgen⟩ : ∃ n', w.session.node? id = some n' ∧
      n'.generation = w.session.cache.generation := by
    refine touches_present hw ?_ ?_ htouches
    · rintro k rfl
      obtain rfl : id = k := htouches
      exact hexpand rfl
    · rintro k refs rfl
      obtain rfl : id = k := htouches
      exact hproperties refs rfl
  obtain rfl := Option.some.inj (hn.symm.trans hn')
  exact hstale hgen

theorem step_retained {w : Inquiry} (hw : w.Coherent) {id : NodeId} {n : Node}
    (hn : w.session.node? id = some n) (hstale : n.generation ≠ w.session.cache.generation)
    {m : Move} (hexpand : m ≠ .expand id) (hproperties : ∀ refs, m ≠ .ensureProperties id refs) :
    (w.step m).session.node? id = some n := by
  by_cases hm : m.Ends
  · obtain ⟨current, table, hstep⟩ := step_ends hm
    rw [hstep]
    exact hn
  · exact Session.Updates.kept (step_updates hw hm (w.supplied_any m)) hn
      (not_touches_retained hw hn hstale hexpand hproperties)

/-- Take a node at any point of a run whose suspension is over. An expansion leaves it alone exactly
when it would in its own suspension: if it cannot be expanded or has begun before; and likewise
properties given to it. What the cache then holds under the handles of the node reaches the node or
its children exactly when the expansion draws on it. No other move changes the node. -/
theorem retained_node_left_alone_iff (options : LookupOptions) (moves : List Move) (id : NodeId)
    (n : Node) (hn : (run options moves).session.node? id = some n)
    (hstale : (run options moves).session.isCurrent n.generation = false) :
    ((run options moves).LeftAlone ((run options moves).step (.expand id)) id n ↔
      ¬(n.isExpandable = true ∧ n.resolution = .unresolved)) ∧
    (∀ refs, (run options moves).LeftAlone
        ((run options moves).step (.ensureProperties id refs)) id n ↔
      ¬(n.facts.isScalar = false ∧ n.resolution = .unresolved)) ∧
    (n.isExpandable = true → n.resolution = .unresolved →
      (n.Draws (run options moves).session.cache → (run options moves).session.FilledFromCache
        ((run options moves).step (.expand id)).session) ∧
      (¬n.Draws (run options moves).session.cache → (run options moves).session.Unfilled
        ((run options moves).step (.expand id)).session)) ∧
    (∀ refs, n.facts.isScalar = false → n.resolution = .unresolved →
      ((∃ r ∈ visible refs, (run options moves).session.cache.contains r.handle = true) →
        (run options moves).session.FilledFromCache
          ((run options moves).step (.ensureProperties id refs)).session) ∧
      ((¬∃ r ∈ visible refs, (run options moves).session.cache.contains r.handle = true) →
        (run options moves).session.Unfilled
          ((run options moves).step (.ensureProperties id refs)).session)) ∧
    (∀ m, m ≠ .expand id → (∀ refs, m ≠ .ensureProperties id refs) →
      ((run options moves).step m).session.node? id = some n) := by
  have hw := coherent_run options moves
  have hold : n.generation ≠ (run options moves).session.cache.generation := by
    rw [← Bool.not_eq_true, Session.isCurrent_iff] at hstale
    exact hstale
  refine ⟨leftAlone_expand_iff hn, leftAlone_ensureProperties_iff hn, fun hexp hres => ?_,
    fun refs hscalar hres => ?_,
    fun m hexpand hproperties => step_retained hw hn hold hexpand hproperties⟩
  · simp only [step, issue_session]
    exact ⟨Session.expand_fills hn hexp hres, Session.expand_unfilled hn⟩
  · simp only [step, issue_session]
    rw [Session.ensureProperties_value hn hscalar hres]
    exact ⟨Session.populate_fills hn, Session.populate_unfilled hn rfl⟩

/-- A variable is kept across a resume, and the next suspension reports another value under the same
handle. -/
def retainedMoves : List Move :=
  [.createFrame 0 "main" [⟨"x", { handle := some 7 }⟩], .retire,
    .materialize (.object [("frames", .array [])])
      [.object [("handle", .ofUInt64 7), ("type", .string "string"), ("value", .string "other")]]]

def retainedNode : Node :=
  .new "x" "x" 0 (.frame 0) (some 7) false

theorem retained_node_left_alone_iff_resumed :
    (run {} retainedMoves).session.FilledFromCache
        ((run {} retainedMoves).step (.expand 0)).session ∧
      ¬(run {} retainedMoves).LeftAlone ((run {} retainedMoves).step (.expand 0)) 0 retainedNode := by
  have hdraws : retainedNode.Draws (run {} retainedMoves).session.cache := by
    change Cache.contains _ 7 = true
    decide
  obtain ⟨hexpand, -, hfills, -⟩ :=
    retained_node_left_alone_iff {} retainedMoves 0 retainedNode (by decide) (by decide)
  exact ⟨(hfills rfl rfl).1 hdraws, fun halone => hexpand.1 halone ⟨rfl, rfl⟩⟩

/-- The value of the later suspension is shown under the retained variable. -/
theorem retained_node_shows_later_value :
    ∃ n, ((run {} retainedMoves).step (.expand 0)).session.node? 0 = some n ∧
      ((run {} retainedMoves).step (.expand 0)).session.isCurrent n.generation = false ∧
      n.shown = some (.scalar .string "other") :=
  ⟨_, rfl, by decide, rfl⟩

end Inquiry

end RemoteInspector
