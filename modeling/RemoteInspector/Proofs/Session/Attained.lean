import RemoteInspector.Proofs.Session.Foreseen
import RemoteInspector.Proofs.Session.Outline

/-!
What a lookup comes to when it is answered, and the lookups that its answer calls for as well.
`Attains` says so of all answers of the machine at once: an expansion takes two lookups at most, the
variables of a frame one. Afterwards the node is opened as the outline has it, with children that are
ready for their own part in it, and the variables of the frame are ready. It does not matter what has
been cached before.
-/

namespace RemoteInspector

def Machine.Mentions (T : Machine) (P : List Handle) : Prop :=
  ∀ h p, T h = some p → ∀ r ∈ p.properties, r.handle ∈ P

/-- Handles that are asked for at once: ascending, without repetitions, and out of `P`. -/
structure Handles (P hs : List Handle) : Prop where
  sorted : hs.Pairwise (· < ·)
  known : ∀ h ∈ hs, h ∈ P

theorem handles_handleSet {P hs : List Handle} (h : ∀ k ∈ hs, k ∈ P) : Handles P (handleSet hs) where
  sorted := Session.sorted_handleSet hs
  known := fun k hk => h k (Session.mem_handleSet.1 hk)

theorem handles_singleton {P : List Handle} {h : Handle} (hh : h ∈ P) : Handles P [h] where
  sorted := List.pairwise_singleton _ h
  known := fun _ hk => List.mem_singleton.1 hk ▸ hh

/-- The properties of an opened compound value are those of its payload that are not hidden. -/
theorem Machine.shown_compound {T : Machine} {h : Handle} {p : Payload} (hp : T h = some p)
    (hcompound : p.isCompound = true) : T.shown h = visible p.properties := by
  simp [Machine.shown, hp, Payload.shown, hcompound]

theorem Machine.Mentions.shown {T : Machine} {P : List Handle} (h : T.Mentions P) {k : Handle} :
    ∀ r ∈ T.shown k, r.handle ∈ P := by
  intro r hr
  unfold Machine.shown at hr
  cases hp : T k with
  | none => simp [hp] at hr
  | some p =>
      simp only [hp, Option.map_some, Option.getD_some, Payload.shown] at hr
      split at hr
      · exact h k p hp r (List.mem_filter.1 hr).1
      · cases hr

theorem Node.informed_generation (n : Node) (p? : Option Payload) (awaited : Bool) :
    (n.informed p? awaited).generation = n.generation := by
  unfold informed told
  split
  · cases p? with
    | none => rfl
    | some p => simp only [Option.elim_some]; split <;> [rfl; (split <;> rfl)]
  · rfl

/-- A compound value is viewed by its type and class. -/
theorem Node.compoundView_congr {n m : Node} (htype : n.facts.valueType = m.facts.valueType)
    (hclass : n.facts.className = m.facts.className) (ids : List NodeId) :
    n.compoundView ids = m.compoundView ids := by
  unfold compoundView
  rw [htype, hclass]

namespace Session

variable {T : Machine} {P : List Handle} {on : NodeId → Prop} {s s' s'' : Session} {id : NodeId}
  {r : PropertyRef}

/-! ### What is asked for, and what comes of it -/

/-- As long as the machine answers, the lookup that is asked for, if any, and those that its answers
call for are `count` at most, are for handles of `P`, and bring about `Q`. -/
def Attains (T : Machine) (P : List Handle) (Q : Session → Prop) :
    (count : Nat) → Session × Option Lookup → Prop
  | _, (s, none) => Q s
  | 0, (_, some _) => False
  | count + 1, (s, some l) => Handles P l.handles ∧
      ∀ e, Inquiry.Answer T l (.ok e) e → Attains T P Q count (s.deliver l.waiting (.ok e)).value

section

variable {Q Q' : Session → Prop}

theorem Attains.none {count : Nat} (h : Q s) : Attains T P Q count (s, none) := by
  cases count <;> exact h

/-- More lookups may be allowed, and less be brought about. -/
theorem Attains.mono (hQ : ∀ t, Q t → Q' t) {count count' : Nat} (hcount : count ≤ count')
    {next : Session × Option Lookup} (h : Attains T P Q count next) : Attains T P Q' count' next := by
  induction count generalizing count' next with
  | zero =>
      obtain ⟨t, l?⟩ := next
      cases l? with
      | none => exact .none (hQ t h)
      | some l => exact h.elim
  | succ count ih =>
      obtain ⟨t, l?⟩ := next
      cases l? with
      | none => exact .none (hQ t h)
      | some l =>
          obtain ⟨more, rfl⟩ := Nat.exists_eq_add_of_le' (Nat.le_of_add_left_le hcount)
          exact ⟨h.1, fun e he => ih (Nat.le_of_succ_le_succ hcount) (h.2 e he)⟩

end

/-- Some nodes have been resolved by what the machine reports, and all else is as before. -/
structure Resolves (T : Machine) (on : NodeId → Prop) (s s' : Session) : Prop where
  updates : Updates (.trueTo T) on s s'
  rest : s'.rest = s.rest

namespace Resolves

theorem refl (s : Session) : s.Resolves T on s := ⟨.refl, rfl⟩

theorem trans (h : s.Resolves T on s') (h' : s'.Resolves T on s'') : s.Resolves T on s'' :=
  ⟨h.updates.trans h'.updates, h'.rest.trans h.rest⟩

theorem mono {on' : NodeId → Prop} (hon : ∀ k, on k → on' k) (h : s.Resolves T on s') :
    s.Resolves T on' s' :=
  ⟨Updates.mono hon h.updates, h.rest⟩

theorem faithful (h : s.Resolves T on s') (hs : s.Faithful T) : s'.Faithful T :=
  Updates.faithful h.updates hs

theorem generation (h : s.Resolves T on s') : s'.cache.generation = s.cache.generation :=
  Updates.generation h.updates

theorem heldNodes (h : s.Resolves T on s') : s'.heldNodes = s.heldNodes :=
  (holds_of_rest h.rest).1

end Resolves

def OneOf (s : Session) (ids : List NodeId) (k : NodeId) : Prop := k ∈ ids ∨ s.nodes.size ≤ k

/-- To be answered is to be resolved. -/
theorem resolves_deliver {l : Lookup} {e : Envelope} (hl : l.WellPosed s)
    (hon : ∀ k ∈ l.waiting.nodes, on k) (he : Inquiry.Answer T l (.ok e) e) :
    s.Resolves T on (s.deliver l.waiting (.ok e)).value.1 where
  updates := by
    refine deliver_updates hl hon fun e' he' => ?_
    obtain rfl := Option.some.inj (he.successful.symm.trans he')
    exact he.covers
  rest := rest_deliver s l.waiting (.ok e)

/-! ### Nodes that are ready, and nodes that are opened -/

/-- The node of a property, or of a variable, is ready for its part in the outline. -/
def ReadyAt (T : Machine) (s : Session) (id : NodeId) (r : PropertyRef) : Prop :=
  ∃ n, s.node? id = some n ∧ n.generation = s.cache.generation ∧ n.Ready T r.name r.handle

/-- The node has been looked at: it says what the outline says of it, and the nodes that it lists, which
are numbered from `first` on, are ready. -/
def OpenedAt (T : Machine) (s : Session) (first : NodeId) (id : NodeId) (r : PropertyRef) : Prop :=
  ∃ n, s.node? id = some n ∧ n.name = r.name ∧ Report.summary n = T.summary r.handle ∧
    n.children.Nodup ∧ (∀ c ∈ n.children, first ≤ c) ∧
    List.Forall₂ (s.ReadyAt T) n.children (T.shown r.handle)

/-- A node that lists nothing is opened by what it says. -/
theorem OpenedAt.closed {n : Node} (hn : s.node? id = some n) (hname : n.name = r.name)
    (hsummary : Report.summary n = T.summary r.handle) (hchildren : n.children = [])
    (hshown : T.shown r.handle = []) (first : NodeId) : s.OpenedAt T first id r := by
  refine ⟨n, hn, hname, hsummary, ?_, ?_, ?_⟩
  · rw [hchildren]
    exact List.nodup_nil
  · rw [hchildren]
    exact nofun
  · rw [hchildren, hshown]
    exact .nil

/-- A compound value that lists its properties in a row, each ready, is opened. -/
theorem OpenedAt.compound {n : Node} {p : Payload} {start : NodeId} (hn : s.node? id = some n)
    (hname : n.name = r.name) (hp : T r.handle = some p) (hcompound : p.isCompound = true)
    (hopened : n.Opened p (List.range' start (visible p.properties).length))
    (hready : ∀ (i : Nat) c, (visible p.properties)[i]? = some c → s.ReadyAt T (start + i) c) :
    s.OpenedAt T start id r := by
  have hshown := T.shown_compound hp hcompound
  refine ⟨n, hn, hname, ?_, ?_, ?_, ?_⟩
  · rw [hopened.summary hcompound, Machine.summary, hp]
    rfl
  · rw [hopened.children]
    exact List.nodup_range'
  · rw [hopened.children]
    exact fun c hc => (List.mem_range'_1.1 hc).1
  · rw [hopened.children, hshown]
    exact forall₂_range' hready

/-! ### Nodes that are told -/

theorem Informs.refl (s : Session) : s.Informs T (fun _ => false) s :=
  ⟨rfl, fun _ n hn => ⟨n, hn, rfl, rfl⟩⟩

/-- A node of the present generation with a name and a handle will have been told what the machine reports
when a lookup is answered, if it has not been told before. -/
structure Due (T : Machine) (s : Session) (l? : Option Lookup) (id : NodeId) (r : PropertyRef) :
    Prop where
  alive : s.isAlive id = true
  told : ∃ n path owner shallow, s.node? id = some n ∧ n.generation = s.cache.generation ∧
    n.facts.handle = some r.handle ∧
    n.informed (T r.handle) (l?.any fun l => l.waiting.awaits id) =
      (Node.new r.name path s.cache.generation owner (some r.handle) shallow).informed
        (T r.handle) true

/-- Once it has been told, it is ready. -/
theorem Due.ready {l? : Option Lookup} (h : s.Due T l? id r) {told : NodeId → Bool}
    (hinforms : s.Informs T told s') (htold : told id = l?.any fun l => l.waiting.awaits id)
    (hs : s'.Faithful T) (hgrows : s.Grows s')
    (hgeneration : s'.cache.generation = s.cache.generation) : s'.ReadyAt T id r := by
  obtain ⟨n, path, owner, shallow, hn, hgen, hhandle, hinformed⟩ := h.told
  obtain ⟨n', hn', -, hcore⟩ := hinforms.nodes id n hn
  obtain ⟨m, hm, heir⟩ := hgrows.nodes id n hn
  rw [hn'] at hm
  obtain rfl := Option.some.inj hm
  have hgen' : n'.generation = s'.cache.generation := by rw [heir.generation, hgen, hgeneration]
  rw [hhandle, Option.bind_some, htold, hinformed] at hcore
  exact ⟨n', hn', hgen', .of_informed hs hn' hgen' hcore⟩

/-! ### Properties -/

section

variable {m n : Node} {p : Payload} {refs : List PropertyRef} {l : Lookup}

theorem populate_cache (s : Session) (id : NodeId) (n : Node) (refs : List PropertyRef) :
    (s.populate id n refs).value.1.cache = s.cache := by
  rcases s.populate_cases id n refs with ⟨-, hvalue⟩ | ⟨-, hvalue⟩
  · rw [hvalue]
    exact (recordOn_rest _ id .replied).1
  · rw [hvalue]
    rfl

/-- What a node lists when its properties are made children of. -/
theorem populate_listed (hm : s.node? id = some m) (hn : n.resolution = .pending)
    (refs : List PropertyRef) : ∃ n', (s.populate id n refs).value.1.node? id = some n' ∧
      n'.view = some (n.compoundView (s.childIds refs)) ∧ n'.facts = n.facts ∧ n'.name = n.name ∧
      (n'.resolution = if (s.populate id n refs).value.2.isSome then .pending else .resolved) := by
  rcases populate_node hm hn refs with ⟨hnone, hnode⟩ | ⟨hsome, hnode⟩
  · exact ⟨_, hnode, rfl, rfl, rfl, by rw [hnone]; rfl⟩
  · exact ⟨_, hnode, rfl, rfl, rfl, by rw [hsome]; exact hn⟩

/-- The nodes of the properties have been told from the cache, or are waited for. -/
theorem populate_due (hs : s.Faithful T) (hm : s.node? id = some m) (hn : n.resolution = .pending)
    (hgen : n.generation = s.cache.generation) (hheld : id ∈ s.heldNodes) {i : Nat} {c : PropertyRef}
    (hc : (visible refs)[i]? = some c) :
    (s.populate id n refs).value.1.Due T (s.populate id n refs).value.2 (s.nodes.size + i) c := by
  obtain ⟨parent, hparent, hview, -⟩ := populate_listed hm hn refs
  obtain ⟨child, hchild, -, hhandle, hinformed⟩ := populate_child hs hm n hc
  have howner : child.owner = .node id := by
    rw [← (child.informed_frame (T c.handle) _).1, hinformed]
    exact (Node.informed_frame _ _ _).1
  have hgeneration : child.generation = s.cache.generation := by
    rw [← child.informed_generation (T c.handle), hinformed, Node.informed_generation]
    exact hgen
  have hlisted : s.nodes.size + i ∈ parent.children := by
    obtain ⟨hi, -⟩ := List.getElem?_eq_some_iff.1 hc
    rw [Node.children_of_view hview]
    exact List.mem_range'_1.2 ⟨Nat.le_add_right .., Nat.add_lt_add_left hi _⟩
  have hroot : (s.populate id n refs).value.1.isAlive id = true := by
    refine isAlive_iff.2 (.inl ?_)
    rw [(holds_of_rest (rest_populate s id n refs)).1]
    exact hheld
  refine ⟨isAlive_iff.2 (.inr ⟨child, hchild, .inr ⟨id, parent, howner, ?_, hparent, hlisted, hroot⟩⟩),
    child, n.childPath c.name, .node id, true, hchild, ?_, hhandle, ?_⟩
  · exact Nat.lt_add_right i (lt_size_of_node? hm)
  · rw [populate_cache]
    exact hgeneration
  · rw [hinformed, populate_cache, ← hgen]
    rfl

/-- The batch for the properties of a compound value: for handles that the machine mentions, on behalf
of the nodes that are new and of the one that waits for them. -/
theorem populate_lookup (hmentions : T.Mentions P) {h : Handle} (hp : T h = some p)
    (hm : s.node? id = some m) (n : Node) (hon : on id) (hnew : ∀ k, s.nodes.size ≤ k → on k) (l : Lookup)
    (hl : (s.populate id n p.properties).value.2 = some l) :
    l.WellPosed (s.populate id n p.properties).value.1 ∧ Handles P l.handles ∧
      (∀ k ∈ l.waiting.nodes, on k) ∧ ∃ awaited, l.waiting = .batch n.generation awaited (some id) := by
  refine ⟨(populate_asks hm hl).1, ?_⟩
  rcases s.populate_cases id n p.properties with ⟨-, hvalue⟩ | ⟨-, hvalue⟩
  · rw [hvalue] at hl
    cases hl
  rw [hvalue] at hl
  obtain rfl := Option.some.inj hl
  refine ⟨handles_handleSet fun k hk => ?_, fun k hk => ?_, _, rfl⟩
  · obtain ⟨x, hx, rfl⟩ := List.mem_map.1 hk
    obtain ⟨r, hr, hh, -⟩ := missing_child hm hx
    exact hh ▸ hmentions h p hp r (List.mem_filter.1 hr).1
  · rcases List.mem_append.1 hk with hparent | hawaited
    · obtain rfl : k = id := by simpa [batchOf, Waiting.parent?] using hparent
      exact hon
    · obtain ⟨⟨h, c⟩, hx, rfl⟩ := List.mem_map.1 hawaited
      exact hnew c (List.mem_range'_1.1 (mem_missing.1 hx).1).1

/-- The parent of a batch is answered and lists what it has listed; those that it lists are ready. -/
theorem batch_opens (hs : s.Faithful T) {first : NodeId} {handles : List Handle}
    {awaited : List (Handle × NodeId)} {e : Envelope}
    (hl : (Lookup.mk handles (.batch s.cache.generation awaited (some id))).WellPosed s)
    (he : Inquiry.Answer T ⟨handles, .batch s.cache.generation awaited (some id)⟩ (.ok e) e)
    (hn : s.node? id = some n) (hpending : n.resolution = .pending) (hname : n.name = r.name)
    (hheld : id ∈ s.heldNodes) (hfirst : id < first)
    (hhandle : n.facts.handle = some r.handle) (hp : T r.handle = some p)
    (hcompound : p.isCompound = true) (hreports : n.facts.Reports p)
    (hview : n.view = some (n.compoundView (List.range' first (visible p.properties).length)))
    (hdue : ∀ (i : Nat) c, (visible p.properties)[i]? = some c → s.Due T
      (some ⟨handles, .batch s.cache.generation awaited (some id)⟩) (first + i) c) :
    (s.deliverBatch s.cache.generation awaited (some id) (.ok e)).value.OpenedAt T first id r := by
  have halive : s.isAlive id = true := isAlive_iff.2 (.inl hheld)
  obtain ⟨t, hinforms, hupdates, hvalue⟩ :=
    deliverBatch_answered hs hl rfl he.successful he.reply he.covers
  rw [hvalue, Option.filter_some, if_pos halive, Option.elim_some]
  have ht := Updates.faithful hupdates hs
  obtain ⟨m, hm, -, hcore⟩ := hinforms.nodes id n hn
  -- What is listed already is compound, and its own payload would bring nothing new.
  rw [hhandle, Option.bind_some, hp, Node.informed_of_reports
    fun q hq => Option.some.inj hq ▸ ⟨hcompound, hreports⟩] at hcore
  obtain ⟨htype, hclass, -⟩ := hreports.compound hcompound
  have hmtype : m.facts.valueType = n.facts.valueType :=
    (congrArg (fun a : Node => a.facts.valueType) hcore :)
  have hmclass : m.facts.className = n.facts.className :=
    (congrArg (fun a : Node => a.facts.className) hcore :)
  have hmview : m.view = n.view := (congrArg Node.view hcore :)
  have hmpending : m.resolution = .pending := (congrArg Node.resolution hcore).trans hpending
  have hlast : (m.record .replied).value = { m with resolution := .resolved } := by
    rw [Node.record_value, hmpending]
    rfl
  have hself := node?_recordOn_self hm .replied
  rw [hlast] at hself
  refine .compound hself ((congrArg Node.name hcore).trans hname) hp hcompound ⟨rfl, ?_, ?_, ?_⟩ ?_
  · exact hmtype.trans htype
  · exact hmclass.trans hclass
  · show m.view = _
    rw [hmview, hview]
    exact congrArg some (Node.compoundView_congr hmtype.symm hmclass.symm _)
  · intro i c hc
    have hchild := hdue i c hc
    obtain ⟨k, hk, hgen, hready⟩ := hchild.ready hinforms
      (by rw [hchild.alive, Bool.true_and]; rfl) ht (Updates.grows hupdates)
      (Updates.generation hupdates)
    have hne : first + i ≠ id := Nat.ne_of_gt (Nat.lt_add_right i hfirst)
    refine ⟨k, (node?_recordOn_of_ne t hne .replied).trans hk, ?_, hready⟩
    rw [(t.recordOn_rest id .replied).1]
    exact hgen

/-- What stands for a property or a variable is about to be opened as `n`. No node is touched for that but
itself and those that are new. -/
structure Opening (s : Session) (on : NodeId → Prop) (id : NodeId) (n : Node) (r : PropertyRef) :
    Prop where
  pending : n.resolution = .pending
  name : n.name = r.name
  handle : n.facts.handle = some r.handle
  generation : n.generation = s.cache.generation
  held : id ∈ s.heldNodes
  touched : on id
  fresh : ∀ k, s.nodes.size ≤ k → on k

/-- A pending node that gets children for the properties of its payload is opened, by one lookup at
most. -/
theorem populate_attains (hmentions : T.Mentions P) (hs : s.Faithful T)
    (hnext : (s.populate id n p.properties).value.1.Faithful T) (hm : s.node? id = some m)
    (h : s.Opening on id n r) (hp : T r.handle = some p) (hcompound : p.isCompound = true)
    (hreports : n.facts.Reports p) :
    Attains T P (fun s' => s'.OpenedAt T s.nodes.size id r ∧
      (s.populate id n p.properties).value.1.Resolves T on s') 1
      (s.populate id n p.properties).value := by
  obtain ⟨n', hn', hview, hfacts, hsame, hres⟩ := populate_listed hm h.pending p.properties
  obtain ⟨htype, hclass, -⟩ := hreports.compound hcompound
  have hdue := fun (i : Nat) (c : PropertyRef) (hc : (visible p.properties)[i]? = some c) =>
    populate_due hs hm h.pending h.generation h.held hc
  have hlist : n'.view =
      some (n'.compoundView (List.range' s.nodes.size (visible p.properties).length)) := by
    rw [hview]
    exact congrArg some (Node.compoundView_congr (by rw [hfacts]) (by rw [hfacts]) _)
  have hheld : id ∈ (s.populate id n p.properties).value.1.heldNodes := by
    rw [(holds_of_rest (rest_populate s id n p.properties)).1]
    exact h.held
  have hcache := s.populate_cache id n p.properties
  have hlookup := populate_lookup hmentions hp hm n h.touched h.fresh
  generalize (s.populate id n p.properties).value = next at *
  obtain ⟨t, l?⟩ := next
  cases l? with
  | none =>
      refine .none ⟨.compound hn' (hsame.trans h.name) hp hcompound ⟨hres, ?_, ?_, hlist⟩ ?_, .refl t⟩
      · rw [hfacts]
        exact htype
      · rw [hfacts]
        exact hclass
      · exact fun i c hc => (hdue i c hc).ready (.refl t) rfl hnext (.refl t) rfl
  | some l =>
      obtain ⟨hwell, hhandles, hnodes, awaited, hwaiting⟩ := hlookup l rfl
      refine ⟨hhandles, fun e he => ?_⟩
      have hresolves := resolves_deliver hwell hnodes he
      obtain ⟨handles, w⟩ := l
      obtain rfl : w = .batch t.cache.generation awaited (some id) := by
        rw [hcache, ← h.generation]
        exact hwaiting
      exact .none ⟨batch_opens hnext hwell he hn' hres (hsame.trans h.name) hheld
        (lt_size_of_node? hm) (hfacts ▸ h.handle) hp hcompound (hfacts ▸ hreports) hlist hdue,
        hresolves⟩

/-- A pending node that is told its own payload, a compound one, goes on being opened. -/
theorem Opening.fill (h : s.Opening on id n r) (hs : s.Faithful T) (hn : s.node? id = some n)
    (hp : T r.handle = some p) (hcompound : p.isCompound = true) :
    (s.setNode id (n.fill p).value).Opening on id (n.fill p).value r ∧
      (n.fill p).value.facts.Reports p := by
  have heir := n.heir_fill p
  have hstill : (n.fill p).value.resolution = .pending := by
    rcases n.fill_cases p with ⟨hfinal, -⟩ | ⟨-, -, hvalue⟩ | ⟨-, hscalar, -⟩
    · rw [h.pending] at hfinal
      cases hfinal
    · rw [hvalue]
      exact h.pending
    · rw [Facts.isCompound_fill, hcompound] at hscalar
      cases hscalar
  refine ⟨⟨hstill, heir.name.trans h.name, heir.handle _ h.handle, heir.generation.trans h.generation,
    h.held, h.touched, fun k hk => h.fresh k (s.size_setNode id _ ▸ hk)⟩, ?_⟩
  rw [Node.fill_facts (by rw [h.pending]; rfl)]
  refine Facts.reports_fill (.inl rfl) ?_ _
  rcases (hs.nodes id n hn h.generation _ h.handle).facts with hblank | ⟨q, hq, hreports⟩
  · exact .inl hblank
  · rw [hp] at hq
    exact .inr (Option.some.inj hq ▸ hreports)

/-- A pending node whose own payload is compound is opened, by one lookup at most. -/
theorem settleOwn_attains (hmentions : T.Mentions P) (hs : s.Faithful T) (hn : s.node? id = some n)
    (h : s.Opening on id n r) (hp : T r.handle = some p) (hcompound : p.isCompound = true) :
    Attains T P (fun s' => s'.OpenedAt T s.nodes.size id r ∧
      (s.settleOwn id n p).value.1.Resolves T on s') 1 (s.settleOwn id n p).value := by
  have hnext : (s.settleOwn id n p).value.1.Faithful T :=
    Updates.faithful (settleOwn_updates h.touched hn h.handle (.inl hp)) hs
  have hfill : (s.setNode id (n.fill p).value).Faithful T :=
    Update.faithful (.fill h.touched hn h.handle (.inl hp)) hs
  obtain ⟨hopening, hreports⟩ := h.fill hs hn hp hcompound
  rcases s.settleOwn_cases id n p with ⟨-, hvalue⟩ | ⟨hsettled, -⟩
  · rw [hvalue] at hnext ⊢
    have hpopulate := populate_attains hmentions hfill hnext (node?_setNode_self hn _) hopening hp
      hcompound hreports
    rwa [size_setNode] at hpopulate
  · exact (hsettled hopening.pending).elim

/-- A pending node that waits for its own payload is opened, or fails because there is none. -/
theorem own_attains (hmentions : T.Mentions P) (hs : s.Faithful T) (hn : s.node? id = some n)
    (h : s.Opening on id n r) (hchildren : n.children = [])
    (hknown : ∀ p, T r.handle = some p → p.isCompound = true) (hP : r.handle ∈ P) :
    Attains T P (fun s' => s'.OpenedAt T s.nodes.size id r ∧ s.Resolves T on s') 2
      (s, some ⟨[r.handle], .own s.cache.generation id r.handle⟩) := by
  refine ⟨handles_singleton hP, fun e he => ?_⟩
  have hwell : (Lookup.mk [r.handle] (.own s.cache.generation id r.handle)).WellPosed s := by
    refine ⟨by simp [Waiting.awaited], fun x hx => ?_, nofun⟩
    obtain rfl := List.mem_singleton.1 hx
    exact ⟨n, hn, h.generation, h.handle⟩
  have hnodes : ∀ k ∈ (Waiting.own s.cache.generation id r.handle).nodes, on k := by
    simpa [Waiting.nodes, Waiting.parent?, Waiting.awaited] using h.touched
  have hfirst := resolves_deliver hwell hnodes he
  have hreply := he.reply r.handle List.mem_cons_self
  have halive : s.isAlive id = true := isAlive_iff.2 (.inl h.held)
  have hvalue := deliverOwn_answered rfl halive hn he.successful hreply
  have hdeliver : (s.deliver (.own s.cache.generation id r.handle) (.ok e)).value =
      (s.deliverOwn s.cache.generation id r.handle (.ok e)).value := rfl
  rw [hdeliver, hvalue] at hfirst ⊢
  have hseeded := (seedRefs_node? s e id).trans hn
  cases hp : T r.handle with
  | none =>
      rw [hp, Option.elim_none] at hfirst
      have hself := node?_recordOn_self hseeded .failed
      have hlast : (n.record .failed).value = { n with resolution := .failed } := by
        rw [Node.record_value, h.pending]
        rfl
      rw [hlast] at hself
      refine .none ⟨.closed hself h.name ?_ hchildren (by simp [Machine.shown, hp]) _, hfirst⟩
      simp [Report.summary, Node.shown, Machine.summary, hp]
  | some p =>
      rw [hp, Option.elim_some] at hfirst
      have hseed : s.Resolves T on (s.seedRefs e) := ⟨seedRefs_updates he.refs, rest_seedRefs s e⟩
      have hlearn : Update (.trueTo T) on (s.seedRefs e) ((s.seedRefs e).learned r.handle p) :=
        .learn hp
      have hsize : ((s.seedRefs e).learned r.handle p).nodes.size = s.nodes.size := s.size_seedRefs e
      have hopening : ((s.seedRefs e).learned r.handle p).Opening on id n r :=
        ⟨h.pending, h.name, h.handle, h.generation.trans hseed.generation.symm,
          hseed.heldNodes ▸ h.held, h.touched, fun k hk => h.fresh k (hsize ▸ hk)⟩
      have hsettle := settleOwn_attains hmentions (hlearn.faithful (hseed.faithful hs)) hseeded
        hopening hp (hknown p hp)
      rw [hsize] at hsettle
      exact hsettle.mono (fun t ht => ⟨ht.1, hfirst.trans ht.2⟩) (Nat.le_refl 1)

end

/-- An expansion opens a node that is ready, by two lookups at most, and touches no other node that was
there. -/
theorem expand_attains (hmentions : T.Mentions P) (hs : s.Faithful T) (hready : s.ReadyAt T id r)
    (hP : r.handle ∈ P) (hheld : id ∈ s.heldNodes) :
    Attains T P (fun s' => s'.OpenedAt T s.nodes.size id r ∧
      s.Resolves T (s.OneOf [id]) s') 2 (s.expand id).value := by
  obtain ⟨n, hn, hgen, hnode⟩ := hready
  have hon : s.OneOf [id] id := .inl List.mem_cons_self
  have hfirst : s.Resolves T (s.OneOf [id]) (s.expand id).value.1 :=
    ⟨expand_updates hon, rest_expand s id⟩
  have hbegun : (s.expand id).value.1.Faithful T := hfirst.faithful hs
  suffices h : Attains T P (fun s' => s'.OpenedAt T s.nodes.size id r ∧
      (s.expand id).value.1.Resolves T (s.OneOf [id]) s') 2 (s.expand id).value from
    h.mono (fun t ht => ⟨ht.1, hfirst.trans ht.2⟩) (Nat.le_refl 2)
  rcases s.expand_cases id with ⟨hstop, hvalue⟩ | ⟨m, hm, -, hres, hcase⟩
  · obtain ⟨p, hp, hscalar⟩ := hnode.scalar_of_closed (hstop n hn)
    rw [hvalue]
    refine .none ⟨.closed hn hnode.name ?_ hnode.children ?_ _, .refl s⟩
    · rw [hnode.summary_scalar hp hscalar, Machine.summary, hp]
      rfl
    · simp [Machine.shown, hp, Payload.shown, hscalar]
  obtain rfl : m = n := Option.some.inj (hm.symm.trans hn)
  have hself := node?_setNode_self hn m.begun
  have hsize := s.size_setNode id m.begun
  have hbegin : (s.setNode id m.begun).Faithful T :=
    Update.faithful (.begin hon hn hres) hs
  have hopening : s.Opening (s.OneOf [id]) id m.begun r :=
    ⟨rfl, hnode.name, hnode.handle, hgen, hheld, hon, fun _ => .inr⟩
  have hopening' : (s.setNode id m.begun).Opening (s.OneOf [id]) id m.begun r :=
    { hopening with fresh := fun _ hk => .inr (hsize ▸ hk) }
  rcases hcase with ⟨refs, hrefs, hvalue⟩ | ⟨h, p, -, hh, hcached, hvalue⟩ | ⟨h, -, hh, -, hvalue⟩
  · -- The properties are known, so they are those that the machine reports.
    have hproperties : m.facts.properties = some refs := by
      rcases hrefs with hrefs | ⟨-, hnone, -⟩
      · exact hrefs
      · rw [hnode.handle] at hnone
        cases hnone
    obtain ⟨p, hp, hreports, rfl⟩ := hnode.properties_known hres hproperties
    rw [hvalue] at hbegun ⊢
    exact (populate_attains hmentions hs hbegun hn hopening hp (hnode.isCompound hres hp)
      hreports).mono (fun _ ht => ht) (Nat.le_succ 1)
  · obtain rfl : r.handle = h := Option.some.inj (hnode.handle.symm.trans hh)
    have hp := hs.cache _ p hcached
    have hsettle := settleOwn_attains hmentions hbegin hself hopening' hp (hnode.isCompound hres hp)
    rw [hsize] at hsettle
    rw [hvalue]
    exact hsettle.mono (fun _ ht => ht) (Nat.le_succ 1)
  · obtain rfl : r.handle = h := Option.some.inj (hnode.handle.symm.trans hh)
    have hown := own_attains hmentions hbegin hself hopening' hnode.children
      (fun _ => hnode.isCompound hres) hP
    rw [hsize] at hown
    rw [hvalue, hgen]
    exact hown

end Session

end RemoteInspector
