import RemoteInspector.Proofs.Session.Update

/-!
Every operation of a session is made of updates, and the lookups it asks for are well posed: who waits
is there, is of the generation of the lookup, and waits for its own handle. An outcome for an earlier
generation is no update at all.
-/

namespace RemoteInspector

namespace Waiting

def generation : Waiting → Nat
  | batch generation _ _ => generation
  | own generation _ _ => generation

def awaited : Waiting → List (Handle × NodeId)
  | batch _ awaited _ => awaited
  | own _ id h => [(h, id)]

def parent? : Waiting → Option NodeId
  | batch _ _ parent => parent
  | own _ _ _ => none

def nodes (w : Waiting) : List NodeId := w.parent?.toList ++ w.awaited.map (·.2)

end Waiting

/-- A lookup asks for the handles that are waited for, on behalf of nodes of one generation. -/
structure Lookup.WellPosed (l : Lookup) (s : Session) : Prop where
  asked : ∀ x ∈ l.waiting.awaited, x.1 ∈ l.handles
  awaited : ∀ x ∈ l.waiting.awaited, s.Carries l.waiting.generation x.2 x.1
  parent : ∀ p, l.waiting.parent? = some p → ∃ n, s.node? p = some n ∧
    n.generation = l.waiting.generation ∧ n.view.isSome

theorem Lookup.WellPosed.mono {l : Lookup} {s s' : Session} (h : l.WellPosed s)
    (hgrows : s.Grows s') : l.WellPosed s' where
  asked := h.asked
  awaited := fun x hx => (h.awaited x hx).mono hgrows
  parent := by
    intro p hp
    obtain ⟨n, hn, hgen, hview⟩ := h.parent p hp
    obtain ⟨n', hn', heir⟩ := hgrows.nodes p n hn
    exact ⟨n', hn', heir.generation.trans hgen, heir.view hview⟩

namespace Session

variable {src : Source} {on : NodeId → Prop} {s : Session}

/-! ### Making children -/

theorem populate_updates {t : Session} {id : NodeId} {m n : Node} {refs : List PropertyRef}
    (hon : on id) (hm : s.node? id = some m)
    (hlist : Updates src on t (s.withChildren id n refs)) :
    Updates src on t (s.populate id n refs).value.1 := by
  rcases s.populate_cases id n refs with ⟨-, hvalue⟩ | ⟨-, hvalue⟩
  · rw [hvalue]
    exact hlist.tail (.reply hon (node?_withChildren_self hm n refs) rfl)
  · rw [hvalue]
    exact hlist

/-- A node that gets children asks for those whose payloads are not cached. -/
theorem populate_asks {id : NodeId} {m n : Node} {refs : List PropertyRef} {l : Lookup}
    (hm : s.node? id = some m) (hl : (s.populate id n refs).value.2 = some l) :
    l.WellPosed (s.populate id n refs).value.1 ∧ l.waiting.generation = n.generation := by
  rcases s.populate_cases id n refs with ⟨-, hvalue⟩ | ⟨-, hvalue⟩
  · rw [hvalue] at hl
    cases hl
  · rw [hvalue] at hl ⊢
    obtain rfl := Option.some.inj hl
    refine ⟨⟨?_, ?_, ?_⟩, rfl⟩
    · intro x hx
      exact mem_handleSet.2 (List.mem_map_of_mem hx)
    · intro x hx
      obtain ⟨r, -, hh, -, hc⟩ := missing_child hm hx
      have heir := s.heir_childNode id n r
      exact ⟨_, hc, heir.generation, heir.handle x.1 (congrArg some hh)⟩
    · intro p hp
      obtain rfl := Option.some.inj hp
      exact ⟨_, node?_withChildren_self hm n refs, rfl, rfl⟩

theorem populate_begun {id : NodeId} {n : Node} {refs : List PropertyRef} (hon : on id)
    (hn : s.node? id = some n) (hlists : src.Lists (s.setNode id n.begun) n.begun refs) :
    Updates src on (s.setNode id n.begun) (s.populate id n.begun refs).value.1 := by
  refine populate_updates hon hn ?_
  rw [← withChildren_setNode hn n.begun n.begun refs]
  exact .single (.list hon (node?_setNode_self hn n.begun) rfl hlists)

/-! ### A node and its own payload -/

theorem fill_pending {n : Node} {p : Payload} (h : (n.fill p).value.resolution = .pending) :
    n.resolution = .pending ∧ (n.fill p).value.facts.isCompound = true := by
  rcases n.fill_cases p with ⟨hfinal, hvalue⟩ | ⟨-, hcompound, hvalue⟩ | ⟨-, -, hvalue⟩
  · rw [hvalue] at h
    simp [h, Resolution.isFinal] at hfinal
  · rw [hvalue] at h ⊢
    exact ⟨h, hcompound⟩
  · rw [hvalue] at h
    cases h

theorem settleOwn_updates {id : NodeId} {n : Node} {h : Handle} {p : Payload} (hon : on id)
    (hn : s.node? id = some n) (hh : n.facts.handle = some h) (hp : src.Tells s h p) :
    Updates src on s (s.settleOwn id n p).value.1 := by
  have hfill : Update src on s (s.setNode id (n.fill p).value) := .fill hon hn hh hp
  have hself := node?_setNode_self hn (n.fill p).value
  rcases s.settleOwn_cases id n p with ⟨hpending, hvalue⟩ | ⟨-, hvalue⟩
  · rw [hvalue]
    -- Still pending after its own payload, the node is compound.
    obtain ⟨-, hcompound⟩ := fill_pending hpending
    have hlists : src.Lists (s.setNode id (n.fill p).value) (n.fill p).value p.properties := by
      refine .inr (.inr fun k hk => ⟨hcompound, p, ?_, rfl⟩)
      have hsame := (n.heir_fill p).handle h hh
      rw [hsame] at hk
      cases hk
      exact hp
    have hlist : Update src on (s.setNode id (n.fill p).value)
        ((s.setNode id (n.fill p).value).withChildren id (n.fill p).value p.properties) :=
      .list hon hself hpending hlists
    exact .head hfill (populate_updates hon hself (.single hlist))
  · rw [hvalue]
    exact .single hfill

theorem settleOwn_asks {id : NodeId} {n : Node} {p : Payload} {l : Lookup}
    (hn : s.node? id = some n) (hl : (s.settleOwn id n p).value.2 = some l) :
    l.WellPosed (s.settleOwn id n p).value.1 ∧ l.waiting.generation = n.generation := by
  rcases s.settleOwn_cases id n p with ⟨-, hvalue⟩ | ⟨-, hvalue⟩
  · rw [hvalue] at hl ⊢
    obtain ⟨hposed, hgen⟩ := populate_asks (node?_setNode_self hn _) hl
    exact ⟨hposed, hgen.trans (n.heir_fill p).generation⟩
  · rw [hvalue] at hl
    cases hl

/-! ### Operations on a node -/

theorem expand_begun {id : NodeId} {n : Node} (hon : on id) (hn : s.node? id = some n)
    (hexp : n.isExpandable = true) (hres : n.resolution = .unresolved) :
    Updates src on (s.setNode id n.begun) (s.expand id).value.1 := by
  have hself := node?_setNode_self hn n.begun
  rcases s.expand_cases id with ⟨hstop, -⟩ | ⟨m, hm, -, -, hcase⟩
  · exact (hstop n hn ⟨hexp, hres⟩).elim
  rw [hn] at hm
  obtain rfl := Option.some.inj hm
  rcases hcase with ⟨refs, hrefs, hvalue⟩ | ⟨h, p, -, hh, hp, hvalue⟩ | ⟨h, -, -, -, hvalue⟩
  · rw [hvalue]
    have hlists : src.Lists (s.setNode id n.begun) n.begun refs := by
      rcases hrefs with hrefs | ⟨-, hnone, -⟩
      · exact .inr (.inl hrefs)
      · refine .inr (.inr fun k hk => ?_)
        rw [show n.begun.facts.handle = none from hnone] at hk
        cases hk
    exact populate_begun hon hn hlists
  · rw [hvalue]
    exact settleOwn_updates hon hself hh (.inr hp)
  · rw [hvalue]

theorem expand_updates {id : NodeId} (hon : on id) :
    Updates src on s (s.expand id).value.1 := by
  rcases s.expand_cases id with ⟨-, hvalue⟩ | ⟨n, hn, hexp, hres, -⟩
  · rw [hvalue]
  · exact .head (.begin hon hn hres) (expand_begun hon hn hexp hres)

theorem expand_asks {id : NodeId} {l : Lookup} (hl : (s.expand id).value.2 = some l) :
    l.WellPosed (s.expand id).value.1 ∧
      ∃ n, s.node? id = some n ∧ l.waiting.generation = n.generation := by
  rcases s.expand_cases id with ⟨-, hvalue⟩ | ⟨n, hn, -, hres, hcase⟩
  · rw [hvalue] at hl
    cases hl
  have hself := node?_setNode_self hn n.begun
  rcases hcase with ⟨refs, -, hvalue⟩ | ⟨h, p, -, -, -, hvalue⟩ | ⟨h, -, hh, -, hvalue⟩
  · rw [hvalue] at hl ⊢
    obtain ⟨hposed, hgen⟩ := populate_asks hn hl
    exact ⟨hposed, n, hn, hgen⟩
  · rw [hvalue] at hl ⊢
    obtain ⟨hposed, hgen⟩ := settleOwn_asks hself hl
    exact ⟨hposed, n, hn, hgen⟩
  · rw [hvalue] at hl ⊢
    obtain rfl := Option.some.inj hl
    have hcarries : (s.setNode id n.begun).Carries n.generation id h := ⟨_, hself, rfl, hh⟩
    refine ⟨⟨by simp [Waiting.awaited], ?_, nofun⟩, n, hn, rfl⟩
    intro x hx
    obtain rfl := List.mem_singleton.1 hx
    exact hcarries

theorem ensureProperties_begun {id : NodeId} {n : Node} {refs : List PropertyRef} (hon : on id)
    (hrefs : src.refs refs) (hn : s.node? id = some n) (hscalar : n.facts.isScalar = false)
    (hres : n.resolution = .unresolved) :
    Updates src on (s.setNode id n.begun) (s.ensureProperties id refs).value.1 := by
  rw [ensureProperties_value hn hscalar hres]
  exact populate_begun hon hn (.inl hrefs)

theorem ensureProperties_updates {id : NodeId} {refs : List PropertyRef} (hon : on id)
    (hrefs : src.refs refs) : Updates src on s (s.ensureProperties id refs).value.1 := by
  rcases s.ensureProperties_cases id refs with ⟨-, hvalue⟩ | ⟨n, hn, hscalar, hres, -⟩
  · rw [hvalue]
  · exact .head (.begin hon hn hres) (ensureProperties_begun hon hrefs hn hscalar hres)

theorem ensureProperties_asks {id : NodeId} {refs : List PropertyRef} {l : Lookup}
    (hl : (s.ensureProperties id refs).value.2 = some l) :
    l.WellPosed (s.ensureProperties id refs).value.1 ∧
      ∃ n, s.node? id = some n ∧ l.waiting.generation = n.generation := by
  rcases s.ensureProperties_cases id refs with ⟨-, hvalue⟩ | ⟨n, hn, -, hres, hvalue⟩
  · rw [hvalue] at hl
    cases hl
  rw [hvalue] at hl ⊢
  obtain ⟨hposed, hgen⟩ := populate_asks hn hl
  exact ⟨hposed, n, hn, hgen⟩

/-! ### The variables of a frame -/

theorem fillBare_updates {ids : List NodeId} (hon : ∀ id ∈ ids, on id) :
    Updates src on s (s.fillBare ids).value := by
  induction ids generalizing s with
  | nil => exact .refl
  | cons id ids ih =>
      have hrest : ∀ k ∈ ids, on k := fun k hk => hon k (List.mem_cons_of_mem id hk)
      unfold fillBare
      cases hn : s.node? id with
      | none => exact ih hrest
      | some n =>
          dsimp only
          split
          · next p _ hp =>
            obtain ⟨h, hh, hcached⟩ := Option.bind_eq_some_iff.1 hp
            rw [Logged.value_bind]
            exact .head (.fill (hon id List.mem_cons_self) hn hh (.inr hcached)) (ih hrest)
          · exact ih hrest

def asked (s : Session) (id : FrameId) (f : CallFrame) : Session :=
  { s with callFrames := s.callFrames.setIfInBounds id { f with requested := true } }

/-- The variables of a frame are asked for once, and only in the suspension that the frame belongs
to. -/
theorem ensureVariables_cases (s : Session) (id : FrameId) :
    (s.ensureVariables id).value = .ok (s, none) ∨ (s.ensureVariables id).value = .error .stale ∨
    ∃ f, s.callFrame? id = some f ∧ f.generation = s.cache.generation ∧
      ((s.ensureVariables id).value = .ok (((s.asked id f).fillBare f.roots).value, none) ∨
        (s.ensureVariables id).value = .ok (((s.asked id f).fillBare f.roots).value,
          some (batchOf f.generation (s.missing (s.bare f.roots)) none))) := by
  unfold ensureVariables
  cases hf : s.callFrame? id with
  | none => exact .inl rfl
  | some f =>
      dsimp only
      split
      · exact .inr (.inl rfl)
      · next hcurrent =>
        split
        · exact .inl rfl
        · have hgen : f.generation = s.cache.generation := by
            rw [Bool.not_eq_true', Bool.not_eq_false] at hcurrent
            exact isCurrent_iff.1 hcurrent
          refine .inr (.inr ⟨f, rfl, hgen, ?_⟩)
          rw [Logged.value_bind]
          split
          · exact .inl rfl
          · exact .inr rfl

theorem ensureVariables_updates {id : FrameId} {next : Session × Option Lookup}
    (hnext : (s.ensureVariables id).value = .ok next)
    (hon : ∀ f, s.callFrame? id = some f → f.generation = s.cache.generation →
      ∀ r ∈ f.roots, on r) : Updates src on s next.1 := by
  have hmain : ∀ f, s.callFrame? id = some f → f.generation = s.cache.generation →
      Updates src on s ((s.asked id f).fillBare f.roots).value := fun f hf hgen =>
    .head (.ask hf) (fillBare_updates (hon f hf hgen))
  rcases s.ensureVariables_cases id with hvalue | hvalue | ⟨f, hf, hgen, hvalue | hvalue⟩
  · rw [hvalue] at hnext
    cases hnext
    exact .refl
  · rw [hvalue] at hnext
    cases hnext
  · rw [hvalue] at hnext
    cases hnext
    exact hmain f hf hgen
  · rw [hvalue] at hnext
    cases hnext
    exact hmain f hf hgen

theorem ensureVariables_asks (hs : s.Dated) {id : FrameId} {next : Session × Option Lookup}
    (hnext : (s.ensureVariables id).value = .ok next) {l : Lookup} (hl : next.2 = some l) :
    l.WellPosed next.1 ∧
      ∃ f, s.callFrame? id = some f ∧ l.waiting.generation = f.generation := by
  have hupdates : Updates .any (fun _ => True) s next.1 :=
    ensureVariables_updates hnext fun _ _ _ _ _ => trivial
  have hgrows := Updates.grows hupdates
  rcases s.ensureVariables_cases id with hvalue | hvalue | ⟨f, hf, hgen, hvalue | hvalue⟩
  · rw [hvalue] at hnext
    cases hnext
    cases hl
  · rw [hvalue] at hnext
    cases hnext
  · rw [hvalue] at hnext
    cases hnext
    cases hl
  · rw [hvalue] at hnext
    cases hnext
    obtain rfl := Option.some.inj hl
    have hposed : (batchOf f.generation (s.missing (s.bare f.roots)) none).WellPosed s := by
      refine ⟨fun x hx => mem_handleSet.2 (List.mem_map_of_mem hx), fun x hx => ?_, nofun⟩
      obtain ⟨hid, n, hn, hh, -⟩ := mem_missing.1 hx
      obtain ⟨m, hm, hroot⟩ := hs.roots id f hf x.2 (List.mem_filter.1 hid).1
      rw [hn] at hm
      cases hm
      exact ⟨n, hn, hroot, hh⟩
    exact ⟨hposed.mono hgrows, f, hf, rfl⟩

end Session

end RemoteInspector
