import RemoteInspector.Proofs.Session.Foreseen

/-!
One expansion as a whole, whatever is cached. A node whose properties are known lists a child for each
of those that are shown, in their order, and asks for the payloads that are not cached by one lookup,
if any. What the node and its children come to when that is answered is `Session.unfolded`, which is
said without the cache: a payload counts the same whether it was there before or has come since.
-/

namespace RemoteInspector

def Cache.Within (c : Cache) (full : Machine) : Prop := ∀ h p, c.get? h = some p → full h = some p

/-- A response says what there is for the handles of shown properties that are not cached. -/
def Outcome.Completes (o : Outcome) (c : Cache) (full : Machine) (refs : List PropertyRef) : Prop :=
  ∃ e, Session.successful? o = some e ∧ ∀ r ∈ visible refs, c.get? r.handle = none →
    (LookupReply.ofEnvelope e).get? r.handle = full r.handle

theorem visible_eq (refs : List PropertyRef) :
    visible refs = refs.filter fun r => r.name ≠ "" && r.name.toList.head? ≠ some '.' := by
  refine List.filter_congr fun r _ => ?_
  rw [Bool.eq_iff_iff]
  simp [isHidden]

namespace Node

variable {n : Node} {c : Cache} {refs : List PropertyRef}

/-! ### Names and paths -/

/-- Properties of different names have different paths. -/
theorem childPath_injective (n : Node) {a b : String} (h : n.childPath a = n.childPath b) :
    a = b := by
  have hlists := congrArg String.toList h
  have hbrackets : ∀ name, (n.path ++ "[" ++ name ++ "]").toList =
      n.path.toList ++ '[' :: (name.toList ++ [']']) := by simp
  have hdot : ∀ name, (n.path ++ "." ++ name).toList = n.path.toList ++ '.' :: name.toList := by
    simp
  -- What follows the path of the parent begins with a bracket or with a dot.
  unfold childPath at hlists
  split at hlists <;> split at hlists <;> simp only [hbrackets, hdot, List.append_cancel_left_eq,
    List.cons.injEq, List.append_cancel_right_eq, true_and] at hlists
  · exact String.toList_injective hlists
  · cases hlists.1
  · cases hlists.1
  · exact String.toList_injective hlists

theorem childPath_visible (n : Node) {r : PropertyRef} (hr : r ∈ visible refs) :
    n.childPath r.name = if r.name.toList.all Char.isDigit then n.path ++ "[" ++ r.name ++ "]"
      else n.path ++ "." ++ r.name := by
  rw [visible_eq, List.mem_filter] at hr
  have hnamed : r.name ≠ "" := by simpa using (Bool.and_eq_true_iff.1 hr.2).1
  have hindex : isIndex r.name = r.name.toList.all Char.isDigit := by simp [isIndex, hnamed]
  rw [childPath, hindex]

/-! ### Known properties -/

/-- The properties that are known of a node: those that it knows, or else those of its own compound
payload in the cache. -/
def listing? (n : Node) (c : Cache) : Option (List PropertyRef) :=
  match n.facts.properties with
  | some refs => some refs
  | none => ((n.facts.handle.bind c.get?).filter (·.isCompound)).map (·.properties)

/-- The node at the moment when its children are made. -/
def begunWith (n : Node) (c : Cache) : Node :=
  match n.facts.properties, n.facts.handle.bind c.get? with
  | none, some p => (n.begun.fill p).value
  | _, _ => n.begun

theorem listing?_cases (h : n.listing? c = some refs) :
    (n.facts.properties = some refs ∧ n.begunWith c = n.begun) ∨
    ∃ k p, n.facts.properties = none ∧ n.facts.handle = some k ∧ c.get? k = some p ∧
      p.isCompound = true ∧ p.properties = refs ∧ n.begunWith c = (n.begun.fill p).value := by
  unfold listing? at h
  unfold begunWith
  cases hknown : n.facts.properties with
  | some own =>
      rw [hknown] at h
      cases h
      exact .inl ⟨rfl, rfl⟩
  | none =>
      rw [hknown] at h
      obtain ⟨p, hp, hrefs⟩ := Option.map_eq_some_iff.1 h
      obtain ⟨hbind, hcompound⟩ := Option.filter_eq_some_iff.1 hp
      obtain ⟨k, hk, hget⟩ := Option.bind_eq_some_iff.1 hbind
      rw [hbind]
      exact .inr ⟨k, p, rfl, hk, hget, hcompound, hrefs, rfl⟩

theorem heir_begunWith (n : Node) (c : Cache) : n.Heir (n.begunWith c) := by
  unfold begunWith
  split
  · exact n.heir_begun.trans (n.begun.heir_fill _)
  · exact n.heir_begun

/-- A node whose properties are known is pending when its children are made. -/
theorem begunWith_pending (h : n.listing? c = some refs) : (n.begunWith c).resolution = .pending := by
  rcases listing?_cases h with ⟨-, hvalue⟩ | ⟨k, p, -, -, -, hcompound, -, hvalue⟩
  · rw [hvalue]
    rfl
  · rw [hvalue]
    rcases n.begun.fill_cases p with ⟨hfinal, -⟩ | ⟨-, -, hvalue⟩ | ⟨-, hscalar, -⟩
    · cases hfinal
    · rw [hvalue]
      rfl
    · rw [Facts.isCompound_fill, hcompound] at hscalar
      cases hscalar

/-- It is the same node with any cache that holds no other payload of it. -/
theorem begunWith_congr {c' : Cache} {full : Machine} (h : n.listing? c = some refs)
    (h' : n.listing? c' = some refs) (hfull : c.Within full) (hfull' : c'.Within full) :
    n.begunWith c' = n.begunWith c := by
  rcases listing?_cases h with ⟨hknown, hvalue⟩ | ⟨k, p, hnone, hk, hp, -, -, hvalue⟩
  · rcases listing?_cases h' with ⟨-, hvalue'⟩ | ⟨_, _, hnone, -⟩
    · rw [hvalue', hvalue]
    · rw [hknown] at hnone
      cases hnone
  · rcases listing?_cases h' with ⟨hknown, -⟩ | ⟨k', p', -, hk', hp', -, -, hvalue'⟩
    · rw [hnone] at hknown
      cases hknown
    · rw [hk] at hk'
      cases hk'
      have hsame := (hfull k p hp).symm.trans (hfull' k p' hp')
      cases hsame
      rw [hvalue', hvalue]

/-! ### Payloads of children -/

def given (n : Node) (p? : Option Payload) : Node := p?.elim n fun p => (n.fill p).value

theorem heir_given (n : Node) (p? : Option Payload) : n.Heir (n.given p?) := by
  cases p? with
  | none => exact .refl n
  | some p => exact n.heir_fill p

theorem children_given (hleaf : n.children = []) (p? : Option Payload) :
    (n.given p?).children = [] := by
  cases p? with
  | none => exact hleaf
  | some p =>
      refine List.eq_nil_iff_forall_not_mem.2 fun c hc => ?_
      have hmem := Session.children_fill n p c hc
      rw [hleaf] at hmem
      exact List.not_mem_nil hmem

end Node

namespace Session

variable {s t : Session} {full : Machine} {id : NodeId} {n m : Node} {refs : List PropertyRef}

/-! ### Expansion of a node whose properties are known -/

theorem expand_listing (hn : s.node? id = some n) (hexp : n.isExpandable = true)
    (hres : n.resolution = .unresolved) (hlist : n.listing? s.cache = some refs) :
    (s.expand id).value = (s.populate id (n.begunWith s.cache) refs).value := by
  have hbegun := node?_setNode_self hn n.begun
  rw [expand_value hn hexp hres]
  rcases Node.listing?_cases hlist with ⟨hknown, hwith⟩ |
      ⟨k, p, hnone, hk, hp, -, rfl, hwith⟩
  · rw [hwith]
    simp only [hknown]
    exact populate_setNode hn _ _ _
  · have hpending := Node.begunWith_pending hlist
    rw [hwith] at hpending ⊢
    simp only [hnone, hk, hp]
    rcases settleOwn_cases (s.setNode id n.begun) id n.begun p with ⟨-, hvalue⟩ | ⟨hnot, -⟩
    · rw [hvalue, populate_setNode hbegun, populate_setNode hn]
    · exact (hnot hpending).elim

/-- A child is told its payload if that is cached. -/
theorem childNode_given (s : Session) (id : NodeId) (n : Node) (r : PropertyRef) :
    (s.childNode id n r).value = (n.child id r).given (s.cache.get? r.handle) := by
  rcases s.childNode_cases id n r with ⟨hnone, hvalue⟩ | ⟨p, hp, hvalue⟩
  · rw [hvalue, hnone]
    rfl
  · rw [hvalue, hp]
    rfl

theorem getElem?_childNodes (s : Session) (id : NodeId) (n : Node) (refs : List PropertyRef)
    (i : Nat) : (s.childNodes id n refs)[i]? =
      (visible refs)[i]?.map fun r => (n.child id r).given (s.cache.get? r.handle) := by
  rw [childNodes, List.getElem?_map]
  simp only [childNode_given]

/-! ### The answer -/

/-- What stands under a number when a node has been expanded and all payloads have come that there
are. -/
def unfolded (s : Session) (full : Machine) (id : NodeId) (m : Node) (refs : List PropertyRef)
    (k : NodeId) : Option Node :=
  if k = id then
    some { m with resolution := .resolved, view := some (m.compoundView (s.childIds refs)) }
  else if k < s.nodes.size then s.node? k
  else (visible refs)[k - s.nodes.size]?.map fun r => (m.child id r).given (full r.handle)

theorem unfolded_of_answered (hn : s.node? id = some n) (hpending : m.resolution = .pending)
    (hself : t.node? id = (s.withChildren id m refs).node? id)
    (hold : ∀ k < s.nodes.size, k ≠ id → t.node? k = (s.withChildren id m refs).node? k)
    (hnew : ∀ i, t.node? (s.nodes.size + i) =
      (visible refs)[i]?.map fun r => (m.child id r).given (full r.handle)) (k : NodeId) :
    (t.recordOn id .replied).value.node? k = s.unfolded full id m refs k := by
  unfold unfolded
  split
  · next hk =>
    rw [hk, node?_recordOn_self (hself.trans (node?_withChildren_self hn m refs)),
      Node.record_value]
    simp [hpending, Resolution.on]
  · next hk =>
    rw [node?_recordOn_of_ne t hk]
    split
    · next hlt =>
      obtain ⟨a, ha⟩ := node?_of_lt hlt
      rw [hold k hlt hk, node?_withChildren_old ha hk, ha]
    · next hge =>
      obtain ⟨i, rfl⟩ := Nat.exists_eq_add_of_le (Nat.not_lt.1 hge)
      rw [hnew, Nat.add_sub_cancel_left]

theorem isAlive_withChildren (hn : s.node? id = some n) (howner : m.owner = n.owner)
    (halive : s.isAlive id = true) : (s.withChildren id m refs).isAlive id = true := by
  have hsame : (s.withChildren id m refs).isAlive id = s.isAlive id := by
    refine isAlive_of_older rfl ?_ fun k hk => ?_
    · rw [node?_withChildren_self hn, hn, Option.map_some, Option.map_some, howner]
    obtain ⟨a, ha⟩ := node?_of_lt (Nat.lt_trans hk (lt_size_of_node? hn))
    rw [node?_withChildren_old ha (Nat.ne_of_lt hk), ha]
  rw [hsame]
  exact halive

/-- The children of a node are alive as long as the node is. -/
theorem isAlive_child (hn : s.node? id = some n) (howner : m.owner = n.owner)
    (halive : s.isAlive id = true) {i : Nat} (hi : i < (visible refs).length) :
    (s.withChildren id m refs).isAlive (s.nodes.size + i) = true := by
  have hlt := Nat.lt_of_lt_of_le (lt_size_of_node? hn) (Nat.le_add_right s.nodes.size i)
  refine isAlive_iff.2 (.inr ⟨_, node?_child hn m hi, .inr ⟨id, _, childNode_owner s id m _, hlt,
    node?_withChildren_self hn m refs, ?_, isAlive_withChildren hn howner halive⟩⟩)
  rw [children_list]
  exact List.mem_range'_1.2 ⟨Nat.le_add_right .., by omega⟩

/-- One who waits is given the payload, and the rest of those who wait are as alive as before. -/
theorem distribute_cons (r : LookupReply) (h : Handle) (rest : List (Handle × NodeId))
    (halive : s.isAlive id = true) (hn : s.node? id = some n) (hleaf : n.children = []) :
    ∃ t, (s.distribute r ((h, id) :: rest)).value = (t.distribute r rest).value ∧
      t.node? id = some (n.given (r.get? h)) ∧ (∀ k, k ≠ id → t.node? k = s.node? k) ∧
      s.Keeps t := by
  have hcons : (s.distribute r ((h, id) :: rest)).value = (r.get? h).elim
      (s.distribute r rest).value fun p =>
        (((s.learned h p).setNode id (n.fill p).value).distribute r rest).value := by
    rw [distribute, halive, hn]
    cases r.get? h <;> rfl
  cases hp : r.get? h with
  | none =>
      rw [hp] at hcons
      exact ⟨s, hcons, hn, fun _ _ => rfl, rfl, fun _ a ha => ⟨a, ha, rfl, fun _ _ => .rfl⟩⟩
  | some p =>
      rw [hp] at hcons
      have hat := node?_setNode (s := s.learned h p) hn (n.fill p).value
      refine ⟨(s.learned h p).setNode id (n.fill p).value, hcons, (hat id).trans (if_pos rfl),
        fun k hk => (hat k).trans (if_neg hk), rfl, fun k a ha => ?_⟩
      by_cases hk : k = id
      · subst hk
        rw [hn] at ha
        cases ha
        refine ⟨_, (hat k).trans (if_pos rfl), (n.heir_fill p).owner, fun c _ => ?_⟩
        rw [show (n.fill p).value.children = [] from n.children_given hleaf (some p), hleaf]
      · exact ⟨a, ((hat k).trans (if_neg hk)).trans ha, rfl, fun _ _ => .rfl⟩

/-- A reply gives each of those who wait the payload for its handle, and touches nobody else. -/
theorem distribute_gives {r : LookupReply} {awaited : List (Handle × NodeId)}
    (hdistinct : (awaited.map (·.2)).Nodup)
    (hwait : ∀ x ∈ awaited, s.isAlive x.2 = true ∧ ∃ n, s.node? x.2 = some n ∧ n.children = [])
    (k : NodeId) :
    (k ∉ awaited.map (·.2) → (s.distribute r awaited).value.node? k = s.node? k) ∧
      ∀ h n, (h, k) ∈ awaited → s.node? k = some n →
        (s.distribute r awaited).value.node? k = some (n.given (r.get? h)) := by
  induction awaited generalizing s with
  | nil => exact ⟨fun _ => rfl, fun h n hmem => (List.not_mem_nil hmem).elim⟩
  | cons x rest ih =>
      obtain ⟨h₀, k₀⟩ := x
      obtain ⟨hfirst, hdistinct⟩ := List.nodup_cons.1 hdistinct
      obtain ⟨halive, n₀, hn₀, hleaf⟩ := hwait (h₀, k₀) List.mem_cons_self
      obtain ⟨t, hvalue, hself, hother, hkeeps⟩ :=
        distribute_cons r h₀ rest halive hn₀ hleaf
      have hne : ∀ x ∈ rest, x.2 ≠ k₀ := fun x hx heq =>
        hfirst (List.mem_map.2 ⟨x, hx, heq⟩)
      have hrest := ih hdistinct fun x hx => by
        obtain ⟨halive', a, ha, hleaf'⟩ := hwait x (List.mem_cons_of_mem _ hx)
        exact ⟨(hkeeps.isAlive (lt_size_of_node? ha)).trans halive', a,
          (hother x.2 (hne x hx)).trans ha, hleaf'⟩
      rw [hvalue]
      refine ⟨fun hnot => ?_, fun h n hmem hn => ?_⟩
      · obtain ⟨hk, hnot⟩ := not_or.1 (mt List.mem_cons.2 hnot)
        exact (hrest.1 hnot).trans (hother k hk)
      · rcases List.mem_cons.1 hmem with heq | hmem
        · cases heq
          rw [hn] at hn₀
          cases hn₀
          exact (hrest.1 hfirst).trans hself
        · exact hrest.2 h n hmem ((hother k (hne _ hmem)).trans hn)

/-- No node waits twice. -/
theorem missing_sublist (s : Session) (ids : List NodeId) :
    ((s.missing ids).map (·.2)).Sublist ids := by
  induction ids with
  | nil => exact .slnil
  | cons id ids ih =>
      unfold missing at ih ⊢
      rw [List.filterMap_cons]
      split
      · exact ih.cons id
      · next x hx =>
        have hmem : x ∈ s.missing [id] :=
          List.mem_filterMap.2 ⟨id, List.mem_singleton_self id, hx⟩
        obtain rfl := List.mem_singleton.1 (mem_missing.1 hmem).1
        exact ih.cons_cons x.2

/-- The children that wait are alive and have no children yet, whatever comes along with a reply. -/
theorem waiting_children (hn : s.node? id = some n) (howner : m.owner = n.owner)
    (halive : s.isAlive id = true) (refs : List PropertyRef) (e : Envelope) :
    ∀ x ∈ (s.withChildren id m refs).missing (s.childIds refs),
      ((s.withChildren id m refs).seedRefs e).isAlive x.2 = true ∧
        ∃ a, ((s.withChildren id m refs).seedRefs e).node? x.2 = some a ∧ a.children = [] := by
  have hseeded := seedRefs_node? (s.withChildren id m refs) e
  have hsame : ∀ k, ((s.withChildren id m refs).seedRefs e).isAlive k =
      (s.withChildren id m refs).isAlive k := fun k =>
    isAlive_of_older (rest_seedRefs _ e) (congrArg _ (hseeded k)) fun j _ => hseeded j
  intro x hx
  obtain ⟨i, r, hr, hx, -, -⟩ := (mem_missing_childIds hn).1 hx
  obtain ⟨hi, -⟩ := List.getElem?_eq_some_iff.1 hr
  rw [hx, hsame, hseeded]
  exact ⟨isAlive_child hn howner halive hi, _, node?_child hn m hi, children_childNode ..⟩

/-- After a reply the children have been told what was cached or else what the reply says. What comes
along with it is for the cache only. -/
theorem distribute_children (hn : s.node? id = some n) (howner : m.owner = n.owner)
    (halive : s.isAlive id = true) (refs : List PropertyRef) (e : Envelope)
    (reply : LookupReply) :
    let t := (((s.withChildren id m refs).seedRefs e).distribute reply
      ((s.withChildren id m refs).missing (s.childIds refs))).value
    (∀ k < s.nodes.size, t.node? k = (s.withChildren id m refs).node? k) ∧
      ∀ i, t.node? (s.nodes.size + i) = (visible refs)[i]?.map fun r =>
        (m.child id r).given ((s.cache.get? r.handle).or (reply.get? r.handle)) := by
  intro t
  let listed := s.withChildren id m refs
  let awaited := listed.missing (s.childIds refs)
  have hmissing : ∀ {h c}, (h, c) ∈ awaited ↔ ∃ i r, (visible refs)[i]? = some r ∧
      c = s.nodes.size + i ∧ r.handle = h ∧ s.cache.get? h = none := mem_missing_childIds hn
  have hseeded : ∀ k, (listed.seedRefs e).node? k = listed.node? k := seedRefs_node? listed e
  have hdistinct : (awaited.map (·.2)).Nodup := (missing_sublist ..).nodup List.nodup_range'
  have hgiven := distribute_gives (r := reply) hdistinct
    (waiting_children hn howner halive refs e)
  -- Only children wait whose payloads are not cached.
  have hnot : ∀ k, (∀ i r, k = s.nodes.size + i → (visible refs)[i]? = some r →
      s.cache.get? r.handle ≠ none) → t.node? k = listed.node? k := by
    intro k hk
    refine ((hgiven k).1 fun hmem => ?_).trans (hseeded k)
    obtain ⟨⟨h, c⟩, hx, rfl⟩ := List.mem_map.1 hmem
    obtain ⟨i, r, hr, hc, rfl, hnone⟩ := hmissing.1 hx
    exact hk i r hc hr hnone
  refine ⟨fun k hk => hnot k fun i r hki _ => ?_, fun i => ?_⟩
  · omega
  · have hchild : listed.node? (s.nodes.size + i) = _ :=
      (node?_withChildren_new hn m refs i).trans (s.getElem?_childNodes id m refs i)
    cases hr : (visible refs)[i]? with
    | none =>
        rw [hr] at hchild
        refine (hnot _ fun j r hij hj => ?_).trans hchild
        obtain rfl : i = j := Nat.add_left_cancel hij
        rw [hr] at hj
        cases hj
    | some r =>
        rw [hr] at hchild
        cases hp : s.cache.get? r.handle with
        | some p =>
            rw [Option.map_some, hp] at hchild
            rw [Option.map_some, hp, Option.some_or]
            refine (hnot _ fun j r' hij hj => ?_).trans hchild
            obtain rfl : i = j := Nat.add_left_cancel hij
            rw [hr] at hj
            cases hj
            rw [hp]
            nofun
        | none =>
            rw [Option.map_some, hp] at hchild
            rw [Option.map_some, hp, Option.none_or]
            exact (hgiven _).2 r.handle _ (hmissing.2 ⟨i, r, hr, rfl, rfl, hp⟩)
              ((hseeded _).trans hchild)

def answered (next : Session × Option Lookup) (o : Outcome) : Session :=
  next.2.elim next.1 fun l => (next.1.deliver l.waiting o).value.1

/-- Children that have been made and answered are told what there is for their handles, whatever of it
was cached. -/
theorem populate_answered (hn : s.node? id = some n) (howner : m.owner = n.owner)
    (hgen : s.isCurrent m.generation = true) (hpending : m.resolution = .pending)
    (halive : s.isAlive id = true) (hfull : s.cache.Within full) {o : Outcome}
    (ho : o.Completes s.cache full refs) (k : NodeId) :
    (answered (s.populate id m refs).value o).node? k = s.unfolded full id m refs k := by
  obtain ⟨e, he, hgives⟩ := ho
  rcases s.populate_cases id m refs with ⟨hnil, hvalue⟩ | ⟨-, hvalue⟩
  · rw [hvalue]
    refine unfolded_of_answered hn hpending rfl (fun _ _ _ => rfl) (fun i => ?_) k
    rw [node?_withChildren_new hn, getElem?_childNodes]
    refine Option.map_congr fun r hr => ?_
    cases hp : s.cache.get? r.handle with
    | some p => rw [hfull r.handle p hp]
    | none =>
        have hmem := (mem_missing_childIds (n := m) hn).2 ⟨i, r, hr, rfl, rfl, hp⟩
        rw [hnil] at hmem
        exact (List.not_mem_nil hmem).elim
  · have hparent : (some id).filter (s.withChildren id m refs).isAlive = some id := by
      rw [Option.filter_some, if_pos (isAlive_withChildren hn howner halive)]
    have hcurrent : (s.withChildren id m refs).isCurrent m.generation = true := hgen
    obtain ⟨hold, hnew⟩ := distribute_children hn howner halive refs e (LookupReply.ofEnvelope e)
    rw [hvalue]
    show ((s.withChildren id m refs).deliverBatch _ _ _ o).value.node? k = _
    rw [deliverBatch, hcurrent]
    simp only [Bool.not_true, Bool.false_eq_true, if_false, he, hparent, Logged.value_bind]
    refine unfolded_of_answered hn hpending (hold id (lt_size_of_node? hn))
      (fun k hk _ => hold k hk) (fun i => ?_) k
    rw [hnew]
    refine Option.map_congr fun r hr => ?_
    cases hp : s.cache.get? r.handle with
    | some p => rw [hfull r.handle p hp]; rfl
    | none => rw [Option.none_or, hgives r (List.mem_of_getElem? hr) hp]

/-- The view is there at once, whether or not anything is asked for. -/
theorem populate_view (hn : s.node? id = some n) (hpending : m.resolution = .pending)
    (refs : List PropertyRef) :
    ∃ m', (s.populate id m refs).value.1.node? id = some m' ∧
      m'.shown = some (m.compoundView (s.childIds refs)) := by
  rcases populate_node hn hpending refs with ⟨-, hself⟩ | ⟨-, hself⟩
  · exact ⟨_, hself, rfl⟩
  · refine ⟨_, hself, ?_⟩
    simp only [Node.shown, hpending]

/-- The handles of a lookup for children are those that are not cached, in ascending order. -/
theorem populate_handles (hn : s.node? id = some n) (m : Node) (refs : List PropertyRef) :
    ∃ handles : List Handle, handles.Pairwise (· < ·) ∧
      (∀ h, h ∈ handles ↔ ∃ r ∈ visible refs, r.handle = h ∧ s.cache.get? h = none) ∧
      (s.populate id m refs).value.2.map Lookup.handles =
        if handles = [] then none else some handles := by
  let awaited := (s.withChildren id m refs).missing (s.childIds refs)
  have hmem : ∀ h, h ∈ handleSet (awaited.map (·.1)) ↔
      ∃ r ∈ visible refs, r.handle = h ∧ s.cache.get? h = none := by
    intro h
    rw [mem_handleSet, List.mem_map]
    constructor
    · rintro ⟨⟨_, c⟩, hx, rfl⟩
      obtain ⟨i, r, hr, -, hh, hnone⟩ := (mem_missing_childIds hn).1 hx
      exact ⟨r, List.mem_of_getElem? hr, hh, hnone⟩
    · rintro ⟨r, hr, hh, hnone⟩
      obtain ⟨i, hi⟩ := List.mem_iff_getElem?.1 hr
      exact ⟨_, (mem_missing_childIds hn).2 ⟨i, r, hi, rfl, hh, hnone⟩, rfl⟩
  refine ⟨_, sorted_handleSet _, hmem, ?_⟩
  rcases s.populate_cases id m refs with ⟨hnil, hvalue⟩ | ⟨hne, hvalue⟩
  · have hempty : awaited = [] := hnil
    rw [hvalue, hempty]
    rfl
  · obtain ⟨x, hx⟩ := List.exists_mem_of_ne_nil awaited hne
    have hasked : handleSet (awaited.map (·.1)) ≠ [] :=
      List.ne_nil_of_mem (mem_handleSet.2 (List.mem_map_of_mem hx))
    rw [hvalue, if_neg hasked]
    rfl

end Session

namespace Inquiry

variable {w : Inquiry} {id : NodeId} {n : Node} {refs : List PropertyRef}

def caching (w : Inquiry) (c : Cache) : Inquiry :=
  { w with session := { w.session with cache := c } }

/-- A node is expanded, and then the lookup for its properties, if any, has an outcome. -/
def expanded (w : Inquiry) (id : NodeId) (o : Outcome) : Inquiry :=
  (w.step (.expand id)).step (.settle w.underWay.length o)

theorem expanded_session (w : Inquiry) (id : NodeId) (o : Outcome) :
    (w.expanded id o).session = Session.answered (w.session.expand id).value o := by
  show ((w.issue (.node id) (w.session.expand id).value).step
    (.settle w.underWay.length o)).session = _
  generalize (w.session.expand id).value = next
  obtain ⟨s, l⟩ := next
  cases l with
  | none =>
      have hnothing : w.underWay[w.underWay.length]? = none :=
        List.getElem?_eq_none (Nat.le_refl _)
      simp only [issue, step, hnothing]
      rfl
  | some l =>
      have hlast : (w.issue (.node id) (s, some l)).underWay[w.underWay.length]? =
          some ⟨.node id, l⟩ := List.getElem?_concat_length
      exact step_settle hlast o

/-- Whatever was cached, the node and its children come to the same. -/
theorem expanded_node? {full : Machine} {o : Outcome} (hn : w.session.node? id = some n)
    (hexp : n.isExpandable = true) (hres : n.resolution = .unresolved)
    (hgen : w.session.isCurrent n.generation = true)
    (hlist : n.listing? w.session.cache = some refs) (halive : w.session.isAlive id = true)
    (hfull : w.session.cache.Within full) (ho : o.Completes w.session.cache full refs) (k : NodeId) :
    (w.expanded id o).session.node? k =
      w.session.unfolded full id (n.begunWith w.session.cache) refs k := by
  have heir := n.heir_begunWith w.session.cache
  rw [expanded_session, Session.expand_listing hn hexp hres hlist]
  refine Session.populate_answered hn heir.owner ?_ (Node.begunWith_pending hlist) halive hfull ho k
  rw [heir.generation]
  exact hgen

/-- So they do if the cache is another one. -/
theorem expanded_caching {full : Machine} {c : Cache} {o : Outcome}
    (hn : w.session.node? id = some n) (hexp : n.isExpandable = true)
    (hres : n.resolution = .unresolved) (hgen : w.session.isCurrent n.generation = true)
    (hlist : n.listing? w.session.cache = some refs) (halive : w.session.isAlive id = true)
    (hfull : w.session.cache.Within full) (hfull' : c.Within full)
    (hgen' : c.generation = w.session.cache.generation) (hlist' : n.listing? c = some refs)
    (ho : o.Completes c full refs) (k : NodeId) :
    ((w.caching c).expanded id o).session.node? k =
      w.session.unfolded full id (n.begunWith w.session.cache) refs k := by
  have hsame : (w.caching c).session.isAlive id = w.session.isAlive id :=
    Session.isAlive_of_older rfl rfl fun _ _ => rfl
  have hcurrent : (w.caching c).session.isCurrent n.generation = true := by
    rw [Session.isCurrent_iff] at hgen ⊢
    exact hgen.trans hgen'.symm
  rw [expanded_node? (w := w.caching c) hn hexp hres hcurrent hlist' (hsame.trans halive) hfull' ho]
  show (w.caching c).session.unfolded full id (n.begunWith c) refs k = _
  rw [Node.begunWith_congr hlist hlist' hfull hfull']
  rfl

/-- One expansion of a node with these properties, whatever is cached. -/
structure ExpandsExactly (w : Inquiry) (id : NodeId) (n : Node) (refs : List PropertyRef) :
    Prop where
  /-- Entries without a name and those of the machine's own are left out. -/
  entries : visible refs = refs.filter fun r => r.name ≠ "" && r.name.toList.head? ≠ some '.'
  /-- The view is there at once, and lists a new node for each property that is shown. -/
  view : ∃ m v, (w.step (.expand id)).session.node? id = some m ∧ m.shown = some v ∧
    v.children = List.range' w.session.nodes.size (visible refs).length
  children : ∀ i r, (visible refs)[i]? = some r →
    ∃ c, (w.step (.expand id)).session.node? (w.session.nodes.size + i) = some c ∧
      c.name = r.name ∧ c.facts.handle = some r.handle ∧
      c.path = if r.name.toList.all Char.isDigit then n.path ++ "[" ++ r.name ++ "]"
        else n.path ++ "." ++ r.name
  /-- Siblings of different names have different paths. -/
  apart : ∀ i j c c', (w.step (.expand id)).session.node? (w.session.nodes.size + i) = some c →
    (w.step (.expand id)).session.node? (w.session.nodes.size + j) = some c' →
    c.name ≠ c'.name → c.path ≠ c'.path
  /-- What is not cached is asked for by one lookup, and nothing else is. -/
  request : ∃ handles : List Handle, handles.Pairwise (· < ·) ∧
    (∀ h, h ∈ handles ↔ ∃ r ∈ visible refs, r.handle = h ∧
      w.session.cache.get? h = none) ∧
    (w.step (.expand id)).sent = w.sent ++
      if handles = [] then [] else [.lookup handles w.session.options.inlineRefs]
  /-- With any other cache the node and its children come to the same, once what is not cached has been
  answered. -/
  same : w.session.isAlive id = true → ∀ (full : Machine) (c : Cache) (o o' : Outcome),
    w.session.cache.Within full → o.Completes w.session.cache full refs →
    c.Within full → c.generation = w.session.cache.generation → n.listing? c = some refs →
    o'.Completes c full refs →
    ∀ k, ((w.caching c).expanded id o').session.node? k = (w.expanded id o).session.node? k

/-- A node of the present suspension whose properties are known expands exactly. -/
theorem expands_exactly (hn : w.session.node? id = some n) (hexp : n.isExpandable = true)
    (hres : n.resolution = .unresolved) (hgen : w.session.isCurrent n.generation = true)
    (hlist : n.listing? w.session.cache = some refs) : ExpandsExactly w id n refs := by
  let m := n.begunWith w.session.cache
  have heir : n.Heir m := n.heir_begunWith _
  have hvalue := Session.expand_listing hn hexp hres hlist
  have hsession : (w.step (.expand id)).session = (w.session.populate id m refs).value.1 := by
    rw [step, issue_session, hvalue]
  have hchild : ∀ i c, (w.step (.expand id)).session.node? (w.session.nodes.size + i) = some c ↔
      ∃ r, (visible refs)[i]? = some r ∧ (n.child id r).given (w.session.cache.get? r.handle) = c := by
    intro i c
    rw [hsession, Session.node?_populate_new hn, Session.getElem?_childNodes,
      Option.map_eq_some_iff]
    simp only [heir.child]
  refine ⟨visible_eq refs, ?_, fun i r hr => ?_, fun i j c c' hc hc' hname hpath => ?_, ?_, ?_⟩
  · obtain ⟨m', hm', hshown⟩ := Session.populate_view hn (Node.begunWith_pending hlist) refs
    rw [hsession]
    exact ⟨m', _, hm', hshown, Node.children_compoundView _ _⟩
  · have hchildren := (n.child id r).heir_given (w.session.cache.get? r.handle)
    refine ⟨_, (hchild i _).2 ⟨r, hr, rfl⟩, hchildren.name, hchildren.handle _ rfl, ?_⟩
    rw [hchildren.path, ← n.childPath_visible (List.mem_of_getElem? hr)]
    rfl
  · obtain ⟨r, -, rfl⟩ := (hchild i c).1 hc
    obtain ⟨r', -, rfl⟩ := (hchild j c').1 hc'
    have hheir := (n.child id r).heir_given (w.session.cache.get? r.handle)
    have hheir' := (n.child id r').heir_given (w.session.cache.get? r'.handle)
    rw [hheir.path, hheir'.path] at hpath
    rw [hheir.name, hheir'.name] at hname
    exact hname (n.childPath_injective hpath)
  · obtain ⟨handles, hsorted, hmem, hasked⟩ := Session.populate_handles hn m refs
    refine ⟨handles, hsorted, hmem, ?_⟩
    rw [(w.step_sends _).1, asks?, hvalue]
    congr 1
    by_cases hnone : handles = []
    · rw [if_pos hnone] at hasked ⊢
      rw [Option.map_eq_none_iff.1 hasked]
      rfl
    · rw [if_neg hnone] at hasked ⊢
      obtain ⟨l, hl, rfl⟩ := Option.map_eq_some_iff.1 hasked
      rw [hl]
      rfl
  · intro halive full c o o' hfull ho hfull' hgen' hlist' ho' k
    rw [expanded_node? hn hexp hres hgen hlist halive hfull ho,
      expanded_caching hn hexp hres hgen hlist halive hfull hfull' hgen' hlist' ho']

/-- An object that lists a property twice, one that is cached and one that is not shown. -/
def listedTwice : List PropertyRef := [⟨"b", 7⟩, ⟨"0", 8⟩, ⟨".c", 9⟩, ⟨"b", 7⟩]

def digits : Machine := fun h =>
  if h = 7 ∨ h = 8 then some { handle := some h, tag := some "number", text := some "1" } else none

def digitsReply : Envelope :=
  let digit := Json.object [("type", .string "number"), ("text", .string "1")]
  .response 1 "lookup" true (some (.object [("7", digit), ("8", digit)]))

def partlyCached : Inquiry :=
  run {} [.createFrame 0 "main"
      [⟨"a", { handle := some 1, tag := some "object", properties := listedTwice }⟩],
    .store 8 { handle := some 8, tag := some "number", text := some "1" }]

/-- The property that is listed twice is asked for once; without the cache both are, and it comes to
the same. -/
theorem expands_exactly_listed_twice :
    (partlyCached.step (.expand 0)).sent = [.lookup [7] true] ∧
      ((partlyCached.caching {}).step (.expand 0)).sent = [.lookup [7, 8] true] ∧
      ∃ n, partlyCached.session.node? 0 = some n ∧ ExpandsExactly partlyCached 0 n listedTwice ∧
        ∀ k, ((partlyCached.caching {}).expanded 0 (.ok digitsReply)).session.node? k =
          (partlyCached.expanded 0 (.ok digitsReply)).session.node? k := by
  have hexact : ExpandsExactly partlyCached 0 _ listedTwice := expands_exactly rfl rfl rfl rfl rfl
  have hwithin : partlyCached.session.cache.Within digits := by
    intro h p hp
    have hcache : partlyCached.session.cache =
        Cache.put {} 8 { handle := some 8, tag := some "number", text := some "1" } := rfl
    rw [hcache, Cache.get?_put] at hp
    split at hp
    · next heq =>
      rw [← hp, heq]
      rfl
    · cases hp
  have hnothing : Cache.Within {} digits := by
    intro h p hp
    cases hp
  have hreply : ∀ r ∈ visible listedTwice,
      (LookupReply.ofEnvelope digitsReply).get? r.handle = digits r.handle := by
    have hvisible : visible listedTwice = [⟨"b", 7⟩, ⟨"0", 8⟩, ⟨"b", 7⟩] := by decide
    rw [hvisible]
    simp only [List.forall_mem_cons]
    refine ⟨by decide +kernel, by decide +kernel, by decide +kernel, fun r hr => ?_⟩
    cases hr
  exact ⟨by decide +kernel, by decide +kernel, _, rfl, hexact,
    hexact.same (by decide +kernel) digits {} _ _ hwithin
    ⟨_, rfl, fun r hr _ => hreply r hr⟩ hnothing rfl rfl ⟨_, rfl, fun r hr _ => hreply r hr⟩⟩

end Inquiry

end RemoteInspector
