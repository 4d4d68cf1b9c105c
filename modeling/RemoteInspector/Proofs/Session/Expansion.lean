import RemoteInspector.Session.Lookup
import RemoteInspector.Proofs.Session.Store

/-!
What each operation on a node does, read off once. `withChildren` is the session after the children
of a node have been made; every expansion comes down to it or to a lookup. The `_cases` lemmas say all
that an operation can do, with the conditions under which it does it.
-/

namespace RemoteInspector

def visible (refs : List PropertyRef) : List PropertyRef := refs.filter fun r => !isHidden r.name

namespace Resolution

theorem on_expand (r : Resolution) : r.on .expand = if r = .unresolved then some .pending else none := by
  cases r <;> rfl

end Resolution

def Node.begun (n : Node) : Node := { n with resolution := .pending }

theorem Node.heir_begun (n : Node) : n.Heir n.begun :=
  ⟨rfl, rfl, rfl, rfl, fun _ h => h, fun _ => nofun, id⟩

namespace Session

/-! ### Children -/

theorem childNode_cases (s : Session) (parent : NodeId) (n : Node) (r : PropertyRef) :
    (s.cache.get? r.handle = none ∧ (s.childNode parent n r).value =
      .new r.name (n.childPath r.name) n.generation (.node parent) (some r.handle) true) ∨
    ∃ p, s.cache.get? r.handle = some p ∧ (s.childNode parent n r).value =
      ((Node.new r.name (n.childPath r.name) n.generation (.node parent) (some r.handle)
        true).fill p).value := by
  unfold childNode
  cases s.cache.get? r.handle with
  | none => exact .inl ⟨rfl, rfl⟩
  | some p => exact .inr ⟨p, rfl, rfl⟩

/-- However a child comes to be, it is an heir of the node that knows its name and handle only. -/
theorem heir_childNode (s : Session) (parent : NodeId) (n : Node) (r : PropertyRef) :
    (Node.new r.name (n.childPath r.name) n.generation (.node parent) (some r.handle) true).Heir
      (s.childNode parent n r).value := by
  rcases s.childNode_cases parent n r with ⟨-, hvalue⟩ | ⟨p, -, hvalue⟩
  · rw [hvalue]
    exact .refl _
  · rw [hvalue]
    exact Node.heir_fill _ p

def childNodes (s : Session) (parent : NodeId) (n : Node) (refs : List PropertyRef) : List Node :=
  (visible refs).map fun r => (s.childNode parent n r).value

def childIds (s : Session) (refs : List PropertyRef) : List NodeId :=
  List.range' s.nodes.size (visible refs).length

theorem addChildren_value (parent : NodeId) (n : Node) (refs : List PropertyRef) (s : Session) :
    (addChildren parent n refs s).value =
      (s.childIds refs, { s with nodes := s.nodes ++ (s.childNodes parent n refs).toArray }) := by
  induction refs generalizing s with
  | nil => simp [addChildren, childIds, childNodes, visible]
  | cons r refs ih =>
      cases hr : isHidden r.name with
      | true => simp [addChildren, hr, ih, childIds, childNodes, visible]
      | false =>
          have hsame : (s.addNode (s.childNode parent n r).value).2.childNodes parent n refs =
              s.childNodes parent n refs := rfl
          have hids : s.childIds (r :: refs) = s.nodes.size ::
              (s.addNode (s.childNode parent n r).value).2.childIds refs := by
            simp [childIds, visible, hr, addNode, List.range'_succ]
          have hnodes : s.childNodes parent n (r :: refs) =
              (s.childNode parent n r).value :: s.childNodes parent n refs := by
            simp [childNodes, visible, hr]
          simp only [addChildren, hr, Bool.false_eq_true, if_false, Logged.value_bind, ih, hsame,
            Logged.value_pure, hids, hnodes]
          simp [addNode]

def withChildren (s : Session) (id : NodeId) (n : Node) (refs : List PropertyRef) : Session :=
  { s with nodes := s.nodes ++ (s.childNodes id n refs).toArray }.setNode id
    { n with view := some (n.compoundView (s.childIds refs)) }

theorem node?_withChildren_self {s : Session} {id : NodeId} {m : Node} (h : s.node? id = some m)
    (n : Node) (refs : List PropertyRef) : (s.withChildren id n refs).node? id =
      some { n with view := some (n.compoundView (s.childIds refs)) } := by
  have hlt := lt_size_of_node? h
  refine node?_setNode_self (m := m) ?_ _
  simpa [node?, Array.getElem?_append, hlt] using h

theorem node?_withChildren_old {s : Session} {id k : NodeId} {m : Node} (h : s.node? k = some m)
    (hk : k ≠ id) (n : Node) (refs : List PropertyRef) :
    (s.withChildren id n refs).node? k = some m := by
  have hlt := lt_size_of_node? h
  rw [withChildren, node?_setNode_of_ne _ hk]
  simpa [node?, Array.getElem?_append, hlt] using h

theorem node?_withChildren_new {s : Session} {id : NodeId} {m : Node} (h : s.node? id = some m)
    (n : Node) (refs : List PropertyRef) (i : Nat) :
    (s.withChildren id n refs).node? (s.nodes.size + i) = (s.childNodes id n refs)[i]? := by
  have hlt := lt_size_of_node? h
  have hne : s.nodes.size + i ≠ id := Nat.ne_of_gt (Nat.lt_add_right i hlt)
  have hge : ¬s.nodes.size + i < s.nodes.size := Nat.not_lt.2 (Nat.le_add_right ..)
  rw [withChildren, node?_setNode_of_ne _ hne]
  simp [node?, Array.getElem?_append, hge]

theorem node?_child {s : Session} {id : NodeId} {m : Node} (h : s.node? id = some m) (n : Node)
    {refs : List PropertyRef} {i : Nat} (hi : i < (visible refs).length) :
    (s.withChildren id n refs).node? (s.nodes.size + i) =
      some (s.childNode id n (visible refs)[i]).value := by
  rw [node?_withChildren_new h]
  simp [childNodes, hi]

/-- A node of the session with children is the one that lists them, an old one or a child. -/
theorem node?_withChildren_cases {s : Session} {id : NodeId} {m : Node} (h : s.node? id = some m)
    {n : Node} {refs : List PropertyRef} {k : NodeId} {c : Node}
    (hc : (s.withChildren id n refs).node? k = some c) :
    (k = id ∧ c = { n with view := some (n.compoundView (s.childIds refs)) }) ∨
    (k ≠ id ∧ s.node? k = some c) ∨
    (s.node? k = none ∧ ∃ r ∈ visible refs, c = (s.childNode id n r).value) := by
  by_cases hk : k = id
  · subst hk
    rw [node?_withChildren_self h] at hc
    exact .inl ⟨rfl, (Option.some.inj hc).symm⟩
  · right
    cases hold : s.node? k with
    | some a =>
        rw [node?_withChildren_old hold hk] at hc
        exact .inl ⟨hk, hc⟩
    | none =>
        have hle : s.nodes.size ≤ k := by
          simpa [node?] using hold
        obtain ⟨i, rfl⟩ := Nat.exists_eq_add_of_le hle
        rw [node?_withChildren_new h] at hc
        obtain ⟨r, hr, rfl⟩ := List.mem_map.1 (List.mem_of_getElem? hc)
        exact .inr ⟨rfl, r, hr, rfl⟩

theorem withChildren_setNode {s : Session} {id : NodeId} {m : Node} (hm : s.node? id = some m)
    (n n' : Node) (refs : List PropertyRef) :
    (s.setNode id n').withChildren id n refs = s.withChildren id n refs := by
  have hlt := lt_size_of_node? hm
  have hids : (s.setNode id n').childIds refs = s.childIds refs := by
    simp [childIds, setNode]
  have hnodes : (s.setNode id n').childNodes id n refs = s.childNodes id n refs := rfl
  unfold withChildren
  rw [hids, hnodes]
  simp [setNode, Array.setIfInBounds_append_left, hlt]

/-! ### Lookups -/

theorem mem_missing {s : Session} {ids : List NodeId} {h : Handle} {id : NodeId} :
    (h, id) ∈ s.missing ids ↔ id ∈ ids ∧
      ∃ n, s.node? id = some n ∧ n.facts.handle = some h ∧ s.cache.contains h = false := by
  simp only [missing, List.mem_filterMap]
  constructor
  · rintro ⟨k, hk, hsome⟩
    cases hn : s.node? k with
    | none => simp [hn] at hsome
    | some n =>
        cases hh : n.facts.handle with
        | none => simp [hn, hh] at hsome
        | some g =>
            cases hcontains : s.cache.contains g with
            | true => simp [hn, hh, hcontains] at hsome
            | false =>
                simp only [hn, hh, hcontains, Option.bind_eq_bind, Option.bind_some,
                  Bool.false_eq_true, if_false, Option.some.injEq, Prod.mk.injEq] at hsome
                obtain ⟨rfl, rfl⟩ := hsome
                exact ⟨hk, n, hn, hh, hcontains⟩
  · rintro ⟨hid, n, hn, hh, hcontains⟩
    exact ⟨id, hid, by simp [hn, hh, hcontains]⟩

/-- What is missing of the children are the payloads of properties whose handles are not cached. -/
theorem mem_missing_childIds {s : Session} {id : NodeId} {m n : Node} (hm : s.node? id = some m)
    {refs : List PropertyRef} {h : Handle} {c : NodeId} :
    (h, c) ∈ (s.withChildren id n refs).missing (s.childIds refs) ↔
      ∃ i r, (visible refs)[i]? = some r ∧ c = s.nodes.size + i ∧ r.handle = h ∧
        s.cache.get? h = none := by
  have hcache : ∀ k, (s.withChildren id n refs).cache.contains k = false ↔
      s.cache.get? k = none := by
    intro k
    show s.cache.contains k = false ↔ _
    simp [Cache.contains]
  have hnew : ∀ i, (s.withChildren id n refs).node? (s.nodes.size + i) =
      (visible refs)[i]?.map fun r => (s.childNode id n r).value := by
    intro i
    rw [node?_withChildren_new hm, childNodes, List.getElem?_map]
  rw [mem_missing]
  constructor
  · rintro ⟨hid, a, ha, hh, hnot⟩
    obtain ⟨i, rfl⟩ := Nat.exists_eq_add_of_le (List.mem_range'_1.1 hid).1
    rw [hnew] at ha
    obtain ⟨r, hr, rfl⟩ := Option.map_eq_some_iff.1 ha
    have hhandle := (s.heir_childNode id n r).handle r.handle rfl
    exact ⟨i, r, hr, rfl, Option.some.inj (hhandle.symm.trans hh), (hcache h).1 hnot⟩
  · rintro ⟨i, r, hr, rfl, rfl, hnone⟩
    obtain ⟨hi, -⟩ := List.getElem?_eq_some_iff.1 hr
    refine ⟨List.mem_range'_1.2 ⟨Nat.le_add_right .., by omega⟩, (s.childNode id n r).value, ?_,
      (s.heir_childNode id n r).handle r.handle rfl, (hcache r.handle).2 hnone⟩
    rw [hnew, hr]
    rfl

/-- Who waits is the node of such a property. -/
theorem missing_child {s : Session} {id : NodeId} {m n : Node} (hm : s.node? id = some m)
    {refs : List PropertyRef} {h : Handle} {c : NodeId}
    (hmissing : (h, c) ∈ (s.withChildren id n refs).missing (s.childIds refs)) :
    ∃ r ∈ visible refs, r.handle = h ∧ s.cache.contains h = false ∧
      (s.withChildren id n refs).node? c = some (s.childNode id n r).value := by
  obtain ⟨i, r, hr, rfl, rfl, hnone⟩ := (mem_missing_childIds hm).1 hmissing
  obtain ⟨hi, rfl⟩ := List.getElem?_eq_some_iff.1 hr
  refine ⟨_, List.getElem_mem hi, rfl, ?_, node?_child hm n hi⟩
  rw [Cache.contains, hnone]
  rfl

theorem mem_insertHandle {h k : Handle} {hs : List Handle} :
    k ∈ insertHandle h hs ↔ k = h ∨ k ∈ hs := by
  induction hs with
  | nil => simp [insertHandle]
  | cons g hs ih =>
      unfold insertHandle
      split
      · simp
      · split
        · next heq => simp [heq]
        · rw [List.mem_cons, ih, List.mem_cons]
          exact or_left_comm

theorem mem_handleSet {k : Handle} {hs : List Handle} : k ∈ handleSet hs ↔ k ∈ hs := by
  induction hs with
  | nil => simp [handleSet]
  | cons h hs ih =>
      have hcons : handleSet (h :: hs) = insertHandle h (handleSet hs) := rfl
      rw [hcons, mem_insertHandle, ih, List.mem_cons]

/-! ### Operations on a node -/

def batchOf (generation : Nat) (awaited : List (Handle × NodeId)) (parent : Option NodeId) :
    Lookup := ⟨handleSet (awaited.map (·.1)), .batch generation awaited parent⟩

theorem populate_cases (s : Session) (id : NodeId) (n : Node) (refs : List PropertyRef) :
    ((s.withChildren id n refs).missing (s.childIds refs) = [] ∧
      (s.populate id n refs).value =
        (((s.withChildren id n refs).recordOn id .replied).value, none)) ∨
    ((s.withChildren id n refs).missing (s.childIds refs) ≠ [] ∧
      (s.populate id n refs).value = (s.withChildren id n refs,
        some (batchOf n.generation ((s.withChildren id n refs).missing (s.childIds refs))
          (some id)))) := by
  cases hmissing : (s.withChildren id n refs).missing (s.childIds refs) with
  | nil =>
      refine .inl ⟨rfl, ?_⟩
      unfold withChildren at hmissing ⊢
      simp only [populate, Logged.value_bind, addChildren_value, hmissing, Logged.value_pure]
  | cons x rest =>
      refine .inr ⟨by simp, ?_⟩
      unfold withChildren at hmissing ⊢
      simp only [populate, Logged.value_bind, addChildren_value, hmissing, Logged.value_pure]
      rfl

/-- The children are there at once. -/
theorem node?_populate_new {s : Session} {id : NodeId} {m : Node} (hm : s.node? id = some m)
    (n : Node) (refs : List PropertyRef) (i : Nat) :
    (s.populate id n refs).value.1.node? (s.nodes.size + i) = (s.childNodes id n refs)[i]? := by
  have hne : s.nodes.size + i ≠ id := Nat.ne_of_gt (Nat.lt_add_right i (lt_size_of_node? hm))
  rw [← node?_withChildren_new hm]
  rcases s.populate_cases id n refs with ⟨-, hvalue⟩ | ⟨-, hvalue⟩
  · rw [hvalue]
    exact node?_recordOn_of_ne _ hne .replied
  · rw [hvalue]

theorem populate_setNode {s : Session} {id : NodeId} {m : Node} (hm : s.node? id = some m)
    (n n' : Node) (refs : List PropertyRef) :
    ((s.setNode id n').populate id n refs).value = (s.populate id n refs).value := by
  have hids : (s.setNode id n').childIds refs = s.childIds refs := by
    simp [childIds, setNode]
  have hsame := withChildren_setNode hm n n' refs
  rcases (s.setNode id n').populate_cases id n refs with ⟨hnil, hvalue⟩ | ⟨hne, hvalue⟩
  · rw [hsame, hids] at hnil
    rcases s.populate_cases id n refs with ⟨-, hvalue'⟩ | ⟨hne, -⟩
    · rw [hvalue, hvalue', hsame]
    · exact (hne hnil).elim
  · rw [hsame, hids] at hne
    rcases s.populate_cases id n refs with ⟨hnil, -⟩ | ⟨-, hvalue'⟩
    · exact (hne hnil).elim
    · rw [hvalue, hvalue', hsame, hids]

theorem settleOwn_cases (s : Session) (id : NodeId) (n : Node) (p : Payload) :
    ((n.fill p).value.resolution = .pending ∧ (s.settleOwn id n p).value =
      ((s.setNode id (n.fill p).value).populate id (n.fill p).value p.properties).value) ∨
    ((n.fill p).value.resolution ≠ .pending ∧
      (s.settleOwn id n p).value = (s.setNode id (n.fill p).value, none)) := by
  unfold settleOwn
  rw [Logged.value_bind]
  dsimp only
  split
  · next h => exact .inl ⟨h, rfl⟩
  · next h => exact .inr ⟨h, rfl⟩

/-- An expansion that begins makes the children at once if the properties are known, is settled by the
node's own payload if that is cached, and else looks the node up. -/
theorem expand_value {s : Session} {id : NodeId} {n : Node} (hn : s.node? id = some n)
    (hexp : n.isExpandable = true) (hres : n.resolution = .unresolved) :
    (s.expand id).value = (match n.facts.properties, n.facts.handle with
      | some refs, _ => (s.setNode id n.begun).populate id n.begun refs
      | none, none => (s.setNode id n.begun).populate id n.begun []
      | none, some h =>
        match s.cache.get? h with
        | some p => (s.setNode id n.begun).settleOwn id n.begun p
        | none => pure (s.setNode id n.begun, some ⟨[h], .own n.generation id h⟩)).value := by
  simp only [expand, hn, hexp, hres, Resolution.on_expand, Bool.not_true, Bool.false_or,
    if_true, Option.isNone_some, Bool.false_eq_true, if_false, Logged.value_bind,
    Node.record_value]
  rfl

theorem expand_stopped {s : Session} {id : NodeId}
    (hstop : ∀ n, s.node? id = some n → ¬(n.isExpandable = true ∧ n.resolution = .unresolved)) :
    (s.expand id).value = (s, none) := by
  unfold expand
  cases hn : s.node? id with
  | none => rfl
  | some n =>
      have hnot := hstop n hn
      have hguard : (!n.isExpandable || (n.resolution.on .expand).isNone) = true := by
        rw [Resolution.on_expand]
        cases hexp : n.isExpandable <;> simp_all
      simp only [hguard, if_true, Logged.value_pure]

/-- An expansion begins only on a node that can be expanded and that nothing has been done about. -/
theorem expand_cases (s : Session) (id : NodeId) :
    ((∀ n, s.node? id = some n → ¬(n.isExpandable = true ∧ n.resolution = .unresolved)) ∧
      (s.expand id).value = (s, none)) ∨
    ∃ n, s.node? id = some n ∧ n.isExpandable = true ∧ n.resolution = .unresolved ∧
      ((∃ refs, (n.facts.properties = some refs ∨
            (n.facts.properties = none ∧ n.facts.handle = none ∧ refs = [])) ∧
          (s.expand id).value = (s.populate id n.begun refs).value) ∨
        (∃ h p, n.facts.properties = none ∧ n.facts.handle = some h ∧ s.cache.get? h = some p ∧
          (s.expand id).value = ((s.setNode id n.begun).settleOwn id n.begun p).value) ∨
        ∃ h, n.facts.properties = none ∧ n.facts.handle = some h ∧ s.cache.get? h = none ∧
          (s.expand id).value =
            (s.setNode id n.begun, some ⟨[h], .own n.generation id h⟩)) := by
  by_cases hstop : ∀ n, s.node? id = some n → ¬(n.isExpandable = true ∧ n.resolution = .unresolved)
  · exact .inl ⟨hstop, expand_stopped hstop⟩
  · simp only [Classical.not_forall, Classical.not_not] at hstop
    obtain ⟨n, hn, hexp, hres⟩ := hstop
    refine .inr ⟨n, hn, hexp, hres, ?_⟩
    rw [expand_value hn hexp hres]
    cases hrefs : n.facts.properties with
    | some refs => exact .inl ⟨refs, .inl rfl, populate_setNode hn _ _ _⟩
    | none =>
        cases hh : n.facts.handle with
        | none => exact .inl ⟨[], .inr ⟨rfl, rfl, rfl⟩, populate_setNode hn _ _ _⟩
        | some h =>
            cases hp : s.cache.get? h with
            | some p => exact .inr (.inl ⟨h, p, rfl, rfl, hp, by simp [hp]⟩)
            | none => exact .inr (.inr ⟨h, rfl, rfl, hp, by simp [hp]⟩)

theorem ensureProperties_value {s : Session} {id : NodeId} {n : Node} {refs : List PropertyRef}
    (hn : s.node? id = some n) (hscalar : n.facts.isScalar = false)
    (hres : n.resolution = .unresolved) :
    (s.ensureProperties id refs).value = (s.populate id n.begun refs).value := by
  simp only [ensureProperties, hn, hscalar, hres, Resolution.on_expand, Bool.false_or, if_true,
    Option.isNone_some, Bool.false_eq_true, if_false, Logged.value_bind, Node.record_value]
  rfl

theorem ensureProperties_stopped {s : Session} {id : NodeId} {refs : List PropertyRef}
    (hstop : ∀ n, s.node? id = some n → ¬(n.facts.isScalar = false ∧ n.resolution = .unresolved)) :
    (s.ensureProperties id refs).value = (s, none) := by
  unfold ensureProperties
  cases hn : s.node? id with
  | none => rfl
  | some n =>
      have hnot := hstop n hn
      have hguard : (n.facts.isScalar || (n.resolution.on .expand).isNone) = true := by
        rw [Resolution.on_expand]
        cases hscalar : n.facts.isScalar <;> simp_all
      simp only [hguard, if_true, Logged.value_pure]

/-- Properties that the caller knows are taken up only by a node that is no scalar and that nothing
has been done about. -/
theorem ensureProperties_cases (s : Session) (id : NodeId) (refs : List PropertyRef) :
    ((∀ n, s.node? id = some n → ¬(n.facts.isScalar = false ∧ n.resolution = .unresolved)) ∧
      (s.ensureProperties id refs).value = (s, none)) ∨
    ∃ n, s.node? id = some n ∧ n.facts.isScalar = false ∧ n.resolution = .unresolved ∧
      (s.ensureProperties id refs).value = (s.populate id n.begun refs).value := by
  by_cases hstop : ∀ n, s.node? id = some n →
      ¬(n.facts.isScalar = false ∧ n.resolution = .unresolved)
  · exact .inl ⟨hstop, ensureProperties_stopped hstop⟩
  · simp only [Classical.not_forall, Classical.not_not] at hstop
    obtain ⟨n, hn, hscalar, hres⟩ := hstop
    exact .inr ⟨n, hn, hscalar, hres, ensureProperties_value hn hscalar hres⟩

end Session

end RemoteInspector
