import RemoteInspector.Proofs.Remote.Allotment
import RemoteInspector.Proofs.Session.Lifecycle
import RemoteInspector.Proofs.Session.Rest

/-!
The properties of remote objects that a session has absorbed. To absorb the properties of an object
caches the payloads of their values and then that of the object, which lists them; so the object expands
from the cache. But the payloads of the values list no properties, and they take the place of what is
cached under their handles. An object that is the value of a property absorbed later loses its own
properties: it expands without a lookup, and to nothing.
-/

namespace RemoteInspector

def RemoteObject.isCompound (o : RemoteObject) : Bool := (o.payload 0).isCompound

def PropertyListing.mentions (data : PropertyListing) (name : String) : Bool :=
  data.result.any fun d => d.named? == some name

/-- Callers may bring bindings and property lists, but no payload comes in for the cache. -/
def Source.callers : Source := ⟨fun _ _ => False, fun _ => True, fun _ => True⟩

namespace Session

/-! ### What is cached -/

theorem get?_put_all (xs : List (Handle × Payload)) (c : Cache) (k : Handle) :
    (∃ x ∈ xs, x.1 = k ∧ (xs.foldl (fun c x => c.put x.1 x.2) c).get? k = some x.2) ∨
      (∀ x ∈ xs, x.1 ≠ k) ∧ (xs.foldl (fun c x => c.put x.1 x.2) c).get? k = c.get? k := by
  induction xs generalizing c with
  | nil => exact .inr ⟨nofun, rfl⟩
  | cons x xs ih =>
      rw [List.foldl_cons]
      rcases ih (c.put x.1 x.2) with ⟨y, hy, hk, hget⟩ | ⟨hnone, hget⟩
      · exact .inl ⟨y, List.mem_cons_of_mem x hy, hk, hget⟩
      · rw [Cache.get?_put] at hget
        by_cases hx : x.1 = k
        · rw [if_pos hx.symm] at hget
          exact .inl ⟨x, List.mem_cons_self, hx, hget⟩
        · rw [if_neg (Ne.symm hx)] at hget
          exact .inr ⟨List.forall_mem_cons.2 ⟨hx, hnone⟩, hget⟩

/-- Of the payloads with one handle, one is cached; what is cached under other handles stays. -/
theorem get?_seed (c : Cache) (ps : List Payload) (k : Handle) :
    (∃ p ∈ ps, p.handle = some k ∧ (c.seed c.generation ps).1.get? k = some p) ∨
      (∀ p ∈ ps, p.handle ≠ some k) ∧ (c.seed c.generation ps).1.get? k = c.get? k := by
  rw [seed_eq]
  rcases get?_put_all (keyed ps) c k with ⟨x, hx, hk, hget⟩ | ⟨hnone, hget⟩
  · obtain ⟨p, hp, hkey⟩ := List.mem_filterMap.1 hx
    obtain ⟨h, hh, rfl⟩ := Option.map_eq_some_iff.1 hkey
    exact .inl ⟨p, hp, hh.trans (congrArg some hk), hget⟩
  · refine .inr ⟨fun p hp hh => ?_, hget⟩
    exact hnone (k, p) (List.mem_filterMap.2 ⟨p, hp, by rw [hh]; rfl⟩) rfl

theorem Update.cache_eq {src : Source} {on : NodeId → Prop} {s s' : Session}
    (h : Update src on s s') (hsrc : ∀ k p, ¬src.payload k p) : s'.cache = s.cache := by
  cases h with
  | learn hp => exact (hsrc _ _ hp).elim
  | reply _ _ _ => exact (s.recordOn_rest _ _).1
  | fail _ => exact (s.recordOn_rest _ _).1
  | manage hcache _ _ => exact hcache
  | fill _ _ _ _ => rfl
  | begin _ _ _ => rfl
  | list _ _ _ _ => rfl
  | bind _ => rfl
  | enter _ _ => rfl
  | ask _ => rfl

/-- Where no payload comes in, the cache stays as it is. -/
theorem Updates.cache_eq {src : Source} {on : NodeId → Prop} {s s' : Session}
    (h : Updates src on s s') (hsrc : ∀ k p, ¬src.payload k p) : s'.cache = s.cache := by
  induction h with
  | refl => rfl
  | tail _ hlast ih => exact (hlast.cache_eq hsrc).trans ih

/-! ### Absorbing -/

/-- The handle is the one that the value of a property has been assigned: that of its name, or, if it
has no name, one under which nothing but the value is cached. -/
structure StandsFor (s : Session) (h : Handle) (d : PropertyDescriptor) : Prop where
  assigned : s.table.Assigned h d.named?
  cached : s.cache.contains h = true
  own : d.named? = none → s.cache.get? h = some (d.payload h)

/-- The properties `xs` of an object have been absorbed, and its own payload now lists `refs`. -/
structure Absorbed (s : Session) (name : String) (xs : List (PropertyDescriptor × Handle))
    (refs : List PropertyRef) : Prop where
  known : ∀ x ∈ xs, s.StandsFor x.2 x.1
  listed : ∃ h p, s.table.handle? name = some h ∧ s.cache.get? h = some p ∧
    p.isCompound = true ∧ p.properties = refs

/-- The properties of an object, numbered as they are when they are absorbed. -/
def absorbs (s : Session) (parent : RemoteObject) (data : PropertyListing) :
    List (PropertyDescriptor × Handle) × ObjectTable :=
  PropertyListing.numbered data.result (s.table.assign parent.objectId).2

theorem absorb_eq (s : Session) (parent : RemoteObject) (data : PropertyListing) :
    (s.absorb parent data).2 = { s with
      table := (s.absorbs parent data).2
      cache := (s.cache.seed s.cache.generation
          ((s.absorbs parent data).1.map fun x => x.1.payload x.2)).1.put
        (s.table.assign parent.objectId).1
        { parent.payload (s.table.assign parent.objectId).1 with
          properties := PropertyListing.refsOf (s.absorbs parent data).1 } } := by
  unfold absorb absorbs
  simp only [PropertyListing.reduce_eq]
  rw [seed_eq (Cache.seed ..).1]
  rfl

variable {s : Session} {name : String} {count : Nat} {parent : RemoteObject} {data : PropertyListing}

/-- What absorbing properties does to the table: the object and the values get their handles. -/
structure Numbers (s : Session) (parent : RemoteObject) (data : PropertyListing) (count : Nat) :
    Prop where
  within : (s.absorbs parent data).2.Within (count + (data.result.length + 1))
  later : s.table.Extends (s.absorbs parent data).2
  object : (s.absorbs parent data).2.Assigned (s.table.assign parent.objectId).1 parent.objectId
  freshObject : parent.objectId = none → s.table.top < (s.table.assign parent.objectId).1.toNat
  assigned : ∀ x ∈ (s.absorbs parent data).1, (s.absorbs parent data).2.Assigned x.2 x.1.named?
  fresh : ∀ x ∈ (s.absorbs parent data).1, x.1.named? = none → s.table.top < x.2.toNat
  single : ∀ x ∈ (s.absorbs parent data).1, ∀ y ∈ (s.absorbs parent data).1, x.1.named? = none →
    x.2 = y.2 → x = y

theorem absorb_numbers (hs : s.table.Within count)
    (hroom : count + (data.result.length + 1) < 2 ^ 63) : s.Numbers parent data count := by
  have hparent := ObjectTable.assign_next hs (by omega) parent.objectId
  have hvalues := PropertyListing.numbered_all data.result hparent.within (by omega)
  have hcount : count + 1 + data.result.length = count + (data.result.length + 1) := by omega
  rw [hcount] at hvalues
  exact { hvalues with
    later := hparent.later.trans hvalues.later
    object := hparent.assigned.mono hvalues.later
    freshObject := hparent.fresh
    fresh := fun x hx hnone =>
      Nat.lt_of_le_of_lt hparent.later.top (hvalues.fresh x hx hnone) }

theorem Numbers.ne_parent (h : s.Numbers parent data count)
    (hroom : count + (data.result.length + 1) < 2 ^ 63) {k : Handle} {other : Option String}
    (hk : (s.absorbs parent data).2.Assigned k other) (hne : other ≠ parent.objectId) :
    k ≠ (s.table.assign parent.objectId).1 := by
  rintro rfl
  exact hne (h.within.name_unique hroom hk h.object)

/-- An object is mentioned if it is the value of a numbered property. -/
theorem mentions_iff : data.mentions name = true ↔
    ∃ x ∈ (s.absorbs parent data).1, x.1.named? = some name := by
  unfold PropertyListing.mentions
  rw [List.any_eq_true]
  constructor
  · rintro ⟨d, hd, heq⟩
    have hnamed : d.named? = some name := beq_iff_eq.1 heq
    obtain ⟨value, hvalue, -⟩ := PropertyDescriptor.value_of_named hnamed
    obtain ⟨x, hx, rfl⟩ := (PropertyListing.mem_numbered (s.table.assign parent.objectId).2).2
      ⟨hd, by rw [hvalue]; rfl⟩
    exact ⟨x, hx, hnamed⟩
  · rintro ⟨x, hx, hnamed⟩
    exact ⟨x.1, ((PropertyListing.mem_numbered _).1 ⟨x, hx, rfl⟩).1, beq_iff_eq.2 hnamed⟩

theorem get?_absorb (s : Session) (parent : RemoteObject) (data : PropertyListing) {k : Handle}
    (hk : k ≠ (s.table.assign parent.objectId).1) :
    (∃ x ∈ (s.absorbs parent data).1, x.2 = k ∧
        (s.absorb parent data).2.cache.get? k = some (x.1.payload k)) ∨
      (∀ x ∈ (s.absorbs parent data).1, x.2 ≠ k) ∧
        (s.absorb parent data).2.cache.get? k = s.cache.get? k := by
  rw [absorb_eq]
  dsimp only
  rw [Cache.get?_put, if_neg hk]
  rcases get?_seed s.cache ((s.absorbs parent data).1.map fun x => x.1.payload x.2) k with
    ⟨p, hp, hhandle, hget⟩ | ⟨hnone, hget⟩
  · obtain ⟨x, hx, rfl⟩ := List.mem_map.1 hp
    rw [PropertyDescriptor.handle_payload] at hhandle
    obtain rfl := Option.some.inj hhandle
    exact .inl ⟨x, hx, rfl, hget⟩
  · refine .inr ⟨fun x hx heq => ?_, hget⟩
    exact hnone _ (List.mem_map_of_mem hx) (by rw [PropertyDescriptor.handle_payload, heq])

theorem get?_absorb_parent (s : Session) (parent : RemoteObject) (data : PropertyListing) :
    (s.absorb parent data).2.cache.get? (s.table.assign parent.objectId).1 =
      some { parent.payload (s.table.assign parent.objectId).1 with
        properties := PropertyListing.refsOf (s.absorbs parent data).1 } := by
  rw [absorb_eq]
  dsimp only
  rw [Cache.get?_put, if_pos rfl]

theorem table_absorb (s : Session) (parent : RemoteObject) (data : PropertyListing) :
    (s.absorb parent data).2.table = (s.absorbs parent data).2 := by
  rw [absorb_eq]

theorem contains_absorb {k : Handle} (hk : s.cache.contains k = true) :
    (s.absorb parent data).2.cache.contains k = true := by
  unfold Cache.contains
  by_cases heq : k = (s.table.assign parent.objectId).1
  · rw [heq, get?_absorb_parent]
    rfl
  · rcases s.get?_absorb parent data heq with ⟨x, -, -, hget⟩ | ⟨-, hget⟩
    · rw [hget]
      rfl
    · rw [hget]
      exact hk

/-- The handle of a value stands for it once the properties are absorbed. -/
theorem standsFor_absorb (hs : s.table.Within count)
    (hroom : count + (data.result.length + 1) < 2 ^ 63) (hname : parent.objectId = some name)
    {x : PropertyDescriptor × Handle} (hx : x ∈ (s.absorbs parent data).1) :
    (s.absorb parent data).2.StandsFor x.2 x.1 := by
  have hnumbers : s.Numbers parent data count := absorb_numbers hs hroom
  have hx' := hnumbers.assigned x hx
  refine ⟨by rwa [table_absorb], ?_, fun hnone => ?_⟩
  · unfold Cache.contains
    by_cases heq : x.2 = (s.table.assign parent.objectId).1
    · rw [heq, get?_absorb_parent]
      rfl
    · rcases s.get?_absorb parent data heq with ⟨y, -, -, hget⟩ | ⟨hnot, -⟩
      · rw [hget]
        rfl
      · exact (hnot x hx rfl).elim
  · have hne := hnumbers.ne_parent hroom hx' (by rw [hnone, hname]; exact nofun)
    rcases s.get?_absorb parent data hne with ⟨y, hy, heq, hget⟩ | ⟨hnot, -⟩
    · rw [hget, hnumbers.single x hx y hy hnone heq.symm]
    · exact (hnot x hx rfl).elim

/-- The object whose properties have been absorbed lists them, whatever values they have. -/
theorem absorbed_absorb (hs : s.table.Within count)
    (hroom : count + (data.result.length + 1) < 2 ^ 63) (hname : parent.objectId = some name)
    (hcompound : parent.isCompound = true) :
    (s.absorb parent data).2.Absorbed name (s.absorbs parent data).1
      (PropertyListing.refsOf (s.absorbs parent data).1) := by
  have hnumbers : s.Numbers parent data count := absorb_numbers hs hroom
  have hparent := hnumbers.object
  rw [hname] at hparent
  refine ⟨fun x hx => standsFor_absorb hs hroom hname hx, _, _, ?_,
    s.get?_absorb_parent parent data, hcompound, rfl⟩
  rw [table_absorb, hname] at *
  exact hparent

/-- A value without a name has its handle for itself: those that are given out later are greater. -/
theorem StandsFor.absorb {h : Handle} {d : PropertyDescriptor} (hd : s.StandsFor h d)
    (hs : s.table.Within count) (hroom : count + (data.result.length + 1) < 2 ^ 63) :
    (s.absorb parent data).2.StandsFor h d := by
  have hnumbers : s.Numbers parent data count := absorb_numbers hs hroom
  have hkept := hd.assigned.mono hnumbers.later
  refine ⟨by rwa [table_absorb], contains_absorb hd.cached, fun hnone => ?_⟩
  have hle : h.toNat ≤ s.table.top := hs.le_top (by omega) hd.assigned
  have hne : h ≠ (s.table.assign parent.objectId).1 := by
    rintro rfl
    have hsame := hnumbers.within.name_unique hroom hnumbers.object hkept
    have hlt := hnumbers.freshObject (hsame.trans hnone)
    omega
  rcases s.get?_absorb parent data hne with ⟨y, hy, rfl, -⟩ | ⟨-, hget⟩
  · have hsame := hnumbers.within.name_unique hroom (hnumbers.assigned y hy) hkept
    have hlt := hnumbers.fresh y hy (hsame.trans hnone)
    omega
  · rw [hget]
    exact hd.own hnone

/-- Absorbing the properties of another object keeps what properties an object has, unless it is the
value of one of them. -/
theorem Absorbed.absorb {xs : List (PropertyDescriptor × Handle)} {refs : List PropertyRef}
    (h : s.Absorbed name xs refs) (hs : s.table.Within count)
    (hroom : count + (data.result.length + 1) < 2 ^ 63) (hother : parent.objectId ≠ some name)
    (hcompound : ∀ d ∈ data.result, d.named? = some name → d.value.any (·.isCompound) = true) :
    (s.absorb parent data).2.Absorbed name xs (if data.mentions name then [] else refs) := by
  have hnumbers : s.Numbers parent data count := absorb_numbers hs hroom
  refine ⟨fun x hx => (h.known x hx).absorb hs hroom, ?_⟩
  obtain ⟨k, p, hk, hp, hpcompound, hrefs⟩ := h.listed
  have hkept : (s.absorbs parent data).2.Assigned k (some name) := hnumbers.later.named name k hk
  have hne := hnumbers.ne_parent hroom hkept (Ne.symm hother)
  rcases s.get?_absorb parent data hne with ⟨y, hy, rfl, hget⟩ | ⟨hnot, hget⟩
  · have hsame : y.1.named? = some name :=
      hnumbers.within.name_unique hroom (hnumbers.assigned y hy) hkept
    rw [if_pos (mentions_iff.2 ⟨y, hy, hsame⟩)]
    refine ⟨y.2, _, by rwa [table_absorb], hget, ?_, y.1.properties_payload y.2⟩
    obtain ⟨value, hvalue, hpayload⟩ := PropertyDescriptor.value_of_named hsame
    have hany := hcompound y.1 ((PropertyListing.mem_numbered _).1 ⟨y, hy, rfl⟩).1 hsame
    rw [hvalue] at hany
    rw [hpayload]
    exact hany
  · have hmentions : ¬data.mentions name = true := by
      intro hany
      obtain ⟨x, hx, hnamed⟩ := mentions_iff.1 hany
      have hx' := hnumbers.assigned x hx
      rw [hnamed] at hx'
      exact hnot x hx (Option.some.inj (hx'.symm.trans hkept))
    rw [if_neg hmentions]
    exact ⟨k, p, by rwa [table_absorb], hget.trans hp, hpcompound, hrefs⟩

/-- What is absorbed stays so while the cache is left alone and nothing is renamed. -/
theorem Absorbed.of_cache_eq {s' : Session} {xs : List (PropertyDescriptor × Handle)}
    {refs : List PropertyRef} (h : s.Absorbed name xs refs) (hcache : s'.cache = s.cache)
    (htable : s.table.Extends s'.table) : s'.Absorbed name xs refs := by
  refine ⟨fun x hx => ⟨(h.known x hx).assigned.mono htable, ?_, fun hnone => ?_⟩, ?_⟩
  · rw [hcache]
    exact (h.known x hx).cached
  · rw [hcache]
    exact (h.known x hx).own hnone
  · obtain ⟨k, p, hk, hp, hcompound, hrefs⟩ := h.listed
    exact ⟨k, p, htable.named name k hk, by rw [hcache]; exact hp, hcompound, hrefs⟩

/-! ### Expanding -/

/-- Children whose payloads are all cached need no lookup, and their parent is resolved with them. -/
theorem populate_cached {id : NodeId} {m n : Node} (hm : s.node? id = some m)
    (hpending : n.resolution = .pending) {refs : List PropertyRef}
    (hcached : ∀ r ∈ visible refs, s.cache.contains r.handle = true) :
    (s.populate id n refs).value.2 = none ∧ ∃ n', (s.populate id n refs).value.1.node? id = some n' ∧
      n'.name = n.name ∧ n'.resolution = .resolved ∧
      (s.populate id n refs).value.1.Lists n'.children (visible refs) := by
  have hself := node?_withChildren_self hm n refs
  rcases s.populate_cases id n refs with ⟨-, hvalue⟩ | ⟨hne, -⟩
  · rw [hvalue]
    have hresolved := node?_recordOn_self hself .replied
    rw [Node.record_value] at hresolved
    refine ⟨rfl, _, hresolved, rfl, ?_, ?_⟩
    · simp [hpending, Resolution.on]
    · have hlists := (lists_withChildren hm n refs).mono (grows_recordOn _ id .replied)
      rwa [← children_list n (s.childIds refs)] at hlists
  · obtain ⟨⟨k, c⟩, hmissing⟩ := List.exists_mem_of_ne_nil _ hne
    obtain ⟨r, hr, rfl, hnot, -⟩ := missing_child hm hmissing
    rw [hcached r hr] at hnot
    cases hnot

structure Untried (s : Session) (id : NodeId) (n : Node) (name : String) : Prop where
  node : s.node? id = some n
  unresolved : n.resolution = .unresolved
  compound : n.facts.isCompound = true
  properties : n.facts.properties = none
  handle : n.facts.handle = s.table.handle? name

/-- A variable of an object whose properties have been absorbed expands to what the payload of the object
lists, without a lookup. -/
theorem Absorbed.expand {xs : List (PropertyDescriptor × Handle)} {refs : List PropertyRef}
    (h : s.Absorbed name xs refs) (hrefs : refs ⊆ PropertyListing.refsOf xs) {id : NodeId} {n : Node}
    (hn : s.Untried id n name) :
    (s.expand id).value.2 = none ∧ ∃ n', (s.expand id).value.1.node? id = some n' ∧
      n'.name = n.name ∧ n'.resolution = .resolved ∧
      (s.expand id).value.1.Lists n'.children (visible refs) := by
  obtain ⟨k, p, hk, hp, hcompound, rfl⟩ := h.listed
  have hexp : n.isExpandable = true := by
    have hany := hn.compound
    unfold Facts.isCompound at hany
    unfold Node.isExpandable
    cases ht : n.facts.valueType with
    | none => simp [ht] at hany
    | some t => simpa [ht] using hany
  have hvalue := expand_value hn.node hexp hn.unresolved
  simp only [hn.properties, hn.handle.trans hk, hp] at hvalue
  -- The payload of the object makes the node compound, so that it goes on to its children.
  obtain ⟨m, hm, hpending, hsame⟩ : ∃ m, (n.begun.fill p).value = m ∧ m.resolution = .pending ∧
      m.name = n.name := by
    rcases n.begun.fill_cases p with ⟨hfinal, -⟩ | ⟨-, -, hfill⟩ | ⟨-, hnot, -⟩
    · cases hfinal
    · exact ⟨_, hfill, rfl, rfl⟩
    · rw [Facts.isCompound_fill, hcompound] at hnot
      cases hnot
  have hcached : ∀ r ∈ visible p.properties, s.cache.contains r.handle = true := by
    intro r hr
    obtain ⟨x, hx, rfl⟩ := List.mem_map.1 (hrefs (List.mem_filter.1 hr).1)
    exact (h.known x hx).cached
  have hself := node?_setNode_self (node?_setNode_self hn.node n.begun) m
  obtain ⟨hnone, n', hn', hname, hrest⟩ := populate_cached hself hpending hcached
  rcases (s.setNode id n.begun).settleOwn_cases id n.begun p with ⟨-, hown⟩ | ⟨hnot, -⟩
  · rw [hvalue, hown, hm]
    exact ⟨hnone, n', hn', hname.trans hsame, hrest⟩
  · rw [hm] at hnot
    exact (hnot hpending).elim

/-- The node of a variable that is given the payload of an object, without properties. -/
theorem ofBinding_payload {obj : RemoteObject} (hcompound : obj.isCompound = true) (k : Handle)
    (generation : Nat) (owner : Owner) (shown : String) :
    ∃ n, (Node.ofBinding generation owner shown (obj.payload k)).value = n ∧ n.name = shown ∧
      n.resolution = .unresolved ∧ n.facts.isCompound = true ∧ n.facts.properties = none ∧
      n.facts.handle = some k := by
  have hpayload : (obj.payload k).isCompound = true := hcompound
  have hdescribed : Node.isDescribed (obj.payload k) = true := by
    have hany := (Bool.and_eq_true_iff.1 hpayload).2
    unfold Node.isDescribed
    cases ht : (obj.payload k).valueType? with
    | none => simp [ht] at hany
    | some t =>
        rw [ht] at hany
        have htype : t.isCompound = true := hany
        simp [htype]
  have hvalue : (Node.ofBinding generation owner shown (obj.payload k)).value =
      ((Node.new shown shown generation owner (some k) false).fill (obj.payload k)).value := by
    unfold Node.ofBinding
    rw [if_pos hdescribed]
    rfl
  rcases (Node.new shown shown generation owner (some k) false).fill_cases (obj.payload k) with
    ⟨hfinal, -⟩ | ⟨-, htrue, hfill⟩ | ⟨-, hnot, -⟩
  · cases hfinal
  · refine ⟨_, hvalue.trans hfill, rfl, rfl, htrue, ?_, ?_⟩
    · rw [Facts.fill_compound hpayload]
      rfl
    · exact Facts.handle_fill ..
  · rw [Facts.isCompound_fill, hpayload] at hnot
    cases hnot

theorem node?_createFrame (s : Session) (index : UInt32) (function : String) (before : List Binding)
    {b : Binding} (hb : isHidden b.name = false) (after : List Binding) :
    (s.createFrame index function (before ++ b :: after)).value.2.node?
        (s.nodes.size + (shownBindings before).length) =
      some (Node.ofBinding s.cache.generation (.frame s.callFrames.size) b.name b.value).value := by
  have hshown : shownBindings (before ++ b :: after) =
      shownBindings before ++ b :: shownBindings after := by
    simp [shownBindings, hb]
  unfold createFrame addFrame
  simp only [Logged.value_bind, Logged.value_pure, addBindings_value, List.append_nil]
  show (s.nodes ++ (s.bindingNodes s.callFrames.size (before ++ b :: after)).toArray)[_]? = _
  rw [Array.getElem?_append_right (Nat.le_add_right _ _), Nat.add_sub_cancel_left]
  simp [bindingNodes, hshown]

end Session

namespace Inquiry

/-! ### Runs -/

/-- How many handles a move assigns, at most. -/
def Move.handles : Move → Nat
  | name _ => 1
  | absorb _ data => data.result.length + 1
  | _ => 0

theorem step_within {w : Inquiry} {count : Nat} (hw : w.session.table.Within count) (m : Move)
    (hroom : count + m.handles < 2 ^ 63) : (w.step m).session.table.Within (count + m.handles) := by
  cases m with
  | name o =>
      show (o.reduce w.session.table).2.Within (count + 1)
      rw [RemoteObject.reduce_eq]
      exact (ObjectTable.assign_next hw hroom o.objectId).within
  | absorb parent data =>
      show (w.session.absorb parent data).2.table.Within _
      rw [Session.table_absorb]
      exact (Session.absorb_numbers hw hroom).within
  | message e =>
      show (w.session.handleMessage e).value.table.Within count
      unfold Session.handleMessage
      split
      · exact hw.clear
      · exact hw
  | retire => exact hw.clear
  | invalidate => exact hw
  | _ =>
      rw [(w.step_settings _).2 id id]
      exact hw

theorem after_within {w : Inquiry} {count : Nat} (hw : w.session.table.Within count)
    (moves : List Move) (hroom : count + (moves.map Move.handles).sum < 2 ^ 63) :
    (w.after moves).session.table.Within (count + (moves.map Move.handles).sum) := by
  induction moves generalizing w count with
  | nil => exact hw
  | cons m moves ih =>
      rw [List.map_cons, List.sum_cons, ← Nat.add_assoc] at hroom ⊢
      exact ih (step_within hw m (Nat.lt_of_le_of_lt (Nat.le_add_right _ _) hroom)) hroom

theorem within_run (options : LookupOptions) (moves : List Move)
    (hroom : (moves.map Move.handles).sum < 2 ^ 63) :
    (run options moves).session.table.Within (moves.map Move.handles).sum := by
  have hnew : (run options []).session.table.Within 0 := ObjectTable.within_new
  have h := after_within hnew moves (by rwa [Nat.zero_add])
  rwa [Nat.zero_add] at h

/-- The move brings in no payload, and the suspension goes on. -/
def Move.Quiet : Move → Prop
  | createFrame _ _ _ => True
  | expand _ => True
  | ensureProperties _ _ => True
  | ensureVariables _ => True
  | message e => Session.endsSuspension e = false
  | name _ => True
  | hold _ _ => True
  | _ => False

theorem step_quiet {w : Inquiry} (hw : w.Coherent) {m : Move} (hm : m.Quiet) {count : Nat}
    (htable : w.session.table.Within count) (hroom : count + m.handles < 2 ^ 63) :
    (w.step m).session.cache = w.session.cache ∧
      w.session.table.Extends (w.step m).session.table := by
  have hends : ¬m.Ends := by
    cases m with
    | message e => exact fun hends => Bool.noConfusion (hm.symm.trans hends)
    | _ => first | exact id | exact hm.elim
  have hsupplied : w.Supplied .callers m := by
    cases m with
    | createFrame _ _ _ => exact fun _ _ => trivial
    | _ => first | exact trivial | exact hm.elim
  refine ⟨Session.Updates.cache_eq (step_updates hw hends hsupplied) fun _ _ => id, ?_⟩
  cases m with
  | name o =>
      show w.session.table.Extends (o.reduce w.session.table).2
      rw [RemoteObject.reduce_eq]
      exact (ObjectTable.assign_next htable hroom o.objectId).later
  | absorb parent data => exact hm.elim
  | _ =>
      rw [(w.step_settings _).2 hends id]
      exact .refl _

def Move.mentions (name : String) : Move → Bool
  | absorb _ data => data.mentions name
  | _ => false

/-- The move does not absorb the properties of the object with this name, and where it mentions the
object it describes it as compound. -/
def Move.Spares (name : String) : Move → Prop
  | absorb parent data => parent.objectId ≠ some name ∧
      ∀ d ∈ data.result, d.named? = some name → d.value.any (·.isCompound) = true
  | m => m.Quiet

theorem step_absorbed {w : Inquiry} (hw : w.Coherent) {name : String} {m : Move} (hm : m.Spares name)
    {count : Nat} (htable : w.session.table.Within count) (hroom : count + m.handles < 2 ^ 63)
    {xs : List (PropertyDescriptor × Handle)} {refs : List PropertyRef}
    (h : w.session.Absorbed name xs refs) :
    (w.step m).session.Absorbed name xs (if m.mentions name then [] else refs) := by
  have hquiet : m.Quiet → (w.step m).session.Absorbed name xs refs := by
    intro hquiet
    obtain ⟨hcache, hlater⟩ := step_quiet hw hquiet htable hroom
    exact h.of_cache_eq hcache hlater
  cases m with
  | absorb parent data => exact h.absorb htable hroom hm.1 hm.2
  | _ => exact hquiet hm

/-- Until its properties are absorbed anew, an object keeps them as long as no other that is absorbed has
it for a value. -/
theorem after_absorbed {w : Inquiry} (hw : w.Coherent) {name : String} {moves : List Move}
    (hmoves : ∀ m ∈ moves, m.Spares name) {count : Nat} (htable : w.session.table.Within count)
    (hroom : count + (moves.map Move.handles).sum < 2 ^ 63)
    {xs : List (PropertyDescriptor × Handle)} {refs : List PropertyRef}
    (h : w.session.Absorbed name xs refs) :
    (w.after moves).session.Absorbed name xs
      (if moves.any (Move.mentions name) then [] else refs) := by
  induction moves generalizing w count refs with
  | nil => exact h
  | cons m moves ih =>
      obtain ⟨hm, hrest⟩ := List.forall_mem_cons.1 hmoves
      rw [List.map_cons, List.sum_cons, ← Nat.add_assoc] at hroom
      have hroom' := Nat.lt_of_le_of_lt (Nat.le_add_right _ _) hroom
      have hall := ih (step_coherent hw m) hrest (step_within htable m hroom') hroom
        (step_absorbed hw hm htable hroom' h)
      have hrefs : (if moves.any (Move.mentions name) then []
          else if m.mentions name then [] else refs) =
            if (m :: moves).any (Move.mentions name) then [] else refs := by
        cases hfirst : m.mentions name <;> simp [hfirst]
      rwa [hrefs] at hall

/-- To expand a node ends at once: no lookup is sent, and the node is resolved and lists these
properties. -/
structure ExpandsAtOnce (w : Inquiry) (id : NodeId) (shown : String) (refs : List PropertyRef) :
    Prop where
  sent : (w.step (.expand id)).sent = w.sent
  underWay : (w.step (.expand id)).underWay = w.underWay
  node : ∃ n, (w.step (.expand id)).session.node? id = some n ∧ n.name = shown ∧
    n.resolution = .resolved ∧ (w.step (.expand id)).session.Lists n.children refs

theorem step_expand_none {w : Inquiry} {id : NodeId} (h : (w.session.expand id).value.2 = none) :
    w.step (.expand id) = { w with session := (w.session.expand id).value.1 } := by
  rw [step]
  generalize (w.session.expand id).value = next at h
  obtain ⟨s, l⟩ := next
  obtain rfl : l = none := h
  rfl

/-- The variable of an object expands to what the payload of the object lists. -/
theorem expands_absorbed {w : Inquiry} {name : String} {xs : List (PropertyDescriptor × Handle)}
    {refs : List PropertyRef} (h : w.session.Absorbed name xs refs)
    (hrefs : refs ⊆ PropertyListing.refsOf xs) {obj : RemoteObject} (hobj : obj.objectId = some name)
    (hcompound : obj.isCompound = true) (index : UInt32) (function : String)
    (pre post : List Binding) {shown : String} (hshown : isHidden shown = false) :
    let b := (w.session.remoteBinding shown obj).1
    let w' := w.after [.name obj, .createFrame index function (pre ++ b :: post)]
    (∀ x ∈ xs, w'.session.StandsFor x.2 x.1) ∧
      w'.ExpandsAtOnce (w.session.nodes.size + (Session.shownBindings pre).length) shown
        (visible refs) := by
  intro b w'
  obtain ⟨k, p, hk, -⟩ := h.listed
  -- The object has its handle already, so that naming it changes nothing.
  have hreduce : obj.reduce w.session.table = (obj.payload k, w.session.table) := by
    rw [RemoteObject.reduce_eq, hobj]
    show (obj.payload (w.session.table.intern name).1, (w.session.table.intern name).2) = _
    rw [ObjectTable.intern, hk]
  have hb : b = ⟨shown, obj.payload k⟩ := by
    show (⟨shown, (obj.reduce w.session.table).1⟩ : Binding) = _
    rw [hreduce]
  have hnamed : w.step (.name obj) = w := by
    rw [step, hreduce]
  have hw' : w'.session =
      (w.session.createFrame index function (pre ++ ⟨shown, obj.payload k⟩ :: post)).value.2 := by
    show ((w.step (.name obj)).step (.createFrame index function (pre ++ b :: post))).session = _
    rw [hnamed, hb]
    rfl
  obtain ⟨nodes, callFrames, current, hframe⟩ := w.session.createFrame_nodes index function
    (pre ++ ⟨shown, obj.payload k⟩ :: post)
  have habsorbed : w'.session.Absorbed name xs refs := by
    rw [hw', hframe]
    exact h.of_cache_eq rfl (.refl _)
  obtain ⟨n, hvalue, hname, hunresolved, hcomp, hproperties, hhandle⟩ :=
    Session.ofBinding_payload hcompound k w.session.cache.generation
      (.frame w.session.callFrames.size) shown
  have huntried : w'.session.Untried
      (w.session.nodes.size + (Session.shownBindings pre).length) n name := by
    refine ⟨?_, hunresolved, hcomp, hproperties, ?_⟩
    · rw [hw', Session.node?_createFrame w.session index function pre hshown post, hvalue]
    · rw [hhandle, hw', hframe]
      exact hk.symm
  obtain ⟨hnone, n', hn', hname', hresolved, hlists⟩ := habsorbed.expand hrefs huntried
  have hstep := step_expand_none hnone
  refine ⟨habsorbed.known, ?_, ?_, ?_⟩
  · rw [hstep]
  · rw [hstep]
  · rw [hstep]
    exact ⟨n', hn', hname'.trans hname, hresolved, hlists⟩

/-- An object whose properties have been absorbed, and are not absorbed anew before it is given a
variable: the variable expands without a lookup, to the properties that were absorbed, each with the
handle of its value. But if the object has been the value of a property that was absorbed since, the
variable expands to nothing. `later` may hold whatever else callers do in the suspension; a handle is
left for every name and every value without one. -/
theorem absorbed_object_expands (options : LookupOptions) (before later : List Move) {name : String}
    {parent obj : RemoteObject} {data : PropertyListing} (hparent : parent.objectId = some name)
    (hobj : obj.objectId = some name)
    (hcompound : parent.isCompound = true ∧ obj.isCompound = true)
    (hlater : ∀ m ∈ later, m.Spares name)
    (hroom : ((before ++ .absorb parent data :: later).map Move.handles).sum < 2 ^ 63)
    (index : UInt32) (function : String) (pre post : List Binding) {shown : String}
    (hshown : isHidden shown = false) :
    let w := run options (before ++ .absorb parent data :: later)
    let b := (w.session.remoteBinding shown obj).1
    let w' := w.after [.name obj, .createFrame index function (pre ++ b :: post)]
    ∃ xs, xs.map Prod.fst = data.result.filter (·.value.isSome) ∧
      (∀ x ∈ xs, w'.session.StandsFor x.2 x.1) ∧
      w'.ExpandsAtOnce (w.session.nodes.size + (Session.shownBindings pre).length) shown
        (visible (if later.any (Move.mentions name) then [] else PropertyListing.refsOf xs)) := by
  intro w
  rw [List.map_append, List.sum_append, List.map_cons, List.sum_cons, ← Nat.add_assoc] at hroom
  -- Up to the absorption only the table matters; after it, what is absorbed.
  have hroom' := Nat.lt_of_le_of_lt (Nat.le_add_right _ _) hroom
  have hstart := within_run options before (Nat.lt_of_le_of_lt (Nat.le_add_right _ _) hroom')
  have habsorb := Session.absorbed_absorb hstart hroom' hparent hcompound.1
  have hall := after_absorbed (step_coherent (coherent_run options before) (.absorb parent data))
    hlater (step_within hstart (.absorb parent data) hroom') hroom habsorb
  have hw : w = ((run options before).step (.absorb parent data)).after later :=
    run_append options before (.absorb parent data :: later)
  rw [← hw] at hall
  -- Whether or not the properties are lost, all that is listed is cached.
  have hsub : (if later.any (Move.mentions name) then [] else
      PropertyListing.refsOf ((run options before).session.absorbs parent data).1) ⊆
        PropertyListing.refsOf ((run options before).session.absorbs parent data).1 := by
    split
    · exact List.nil_subset _
    · exact List.Subset.refl _
  refine ⟨((run options before).session.absorbs parent data).1, ?_, ?_⟩
  · exact PropertyListing.numbered_fst _ _
  · exact expands_absorbed hall hsub hobj hcompound.2 index function pre post hshown

def point : RemoteObject := { kind := "object", className := some "Point", objectId := some "p" }

/-- A point has a coordinate, and refers to itself. -/
def pointListing : PropertyListing :=
  ⟨[{ name := "x", value := some { kind := "string", value := some (.string "1") } },
    { name := "self", value := some point }]⟩

def segment : RemoteObject := { kind := "object", objectId := some "s" }

/-- What is absorbed next has nothing to do with the point. -/
def paintMoves : List Move :=
  [.absorb segment ⟨[{ name := "color", value := some { kind := "string" } }]⟩]

theorem absorbed_object_expands_self :
    let w := run {} (.absorb point pointListing :: paintMoves)
    let b := (w.session.remoteBinding "p" point).1
    let w' := w.after [.name point, .createFrame 0 "main" [b]]
    ∃ xs, xs.map Prod.fst = pointListing.result ∧ (∀ x ∈ xs, w'.session.StandsFor x.2 x.1) ∧
      w'.ExpandsAtOnce 0 "p" (visible (PropertyListing.refsOf xs)) :=
  have hroom : (([] ++ Move.absorb point pointListing :: paintMoves).map Move.handles).sum < 2 ^ 63 := by
    decide
  absorbed_object_expands {} [] paintMoves (show point.objectId = some "p" from rfl)
    (show point.objectId = some "p" from rfl) ⟨by decide, by decide⟩
    (List.forall_mem_singleton.2 ⟨by decide, List.forall_mem_singleton.2 nofun⟩) hroom 0 "main" [] []
    (show isHidden "p" = false by decide)

/-- The moves of a session where the point is the value of a property that is absorbed after its own. -/
def overwritingMoves : List Move :=
  [.absorb point pointListing, .absorb segment ⟨[{ name := "from", value := some point }]⟩,
    .name point, .createFrame 0 "main" [⟨"p", point.payload 1⟩]]

/-- The properties of the point are lost. -/
theorem absorbed_properties_lost :
    ∃ n, ((run {} overwritingMoves).step (.expand 0)).session.node? 0 = some n ∧
      n.resolution = .resolved ∧ n.children = [] ∧
      (pointListing.result.filter fun d => d.value.isSome && !isHidden d.name).length = 2 :=
  ⟨_, rfl, rfl, rfl, by decide⟩

end Inquiry

end RemoteInspector
