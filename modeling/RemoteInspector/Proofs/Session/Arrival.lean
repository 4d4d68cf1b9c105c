import RemoteInspector.Proofs.Session.Operations

/-!
What comes in from outside is taken in by updates: payloads that come along with a message, outcomes
of lookups, and the frames of a suspension. An outcome for an earlier generation is no update at all.
-/

namespace RemoteInspector

structure Source.Covers (src : Source) (handles : List Handle) (e : Envelope) : Prop where
  reply : ∀ h ∈ handles, ∀ p, (LookupReply.ofEnvelope e).get? h = some p → src.payload h p
  refs : ∀ p ∈ Payload.ofRefs (e.refs.getD []), ∀ h, p.handle = some h → src.payload h p

namespace Session

variable {src : Source} {on : NodeId → Prop} {s : Session}

/-! ### Payloads -/

theorem put_updates {ps : List (Handle × Payload)} (hps : ∀ x ∈ ps, src.payload x.1 x.2) :
    Updates src on s { s with cache := ps.foldl (fun c x => c.put x.1 x.2) s.cache } := by
  induction ps generalizing s with
  | nil => exact .refl
  | cons x ps ih =>
      have hrest := ih (s := s.learned x.1 x.2)
        fun y hy => hps y (List.mem_cons_of_mem x hy)
      exact .head (.learn (hps x List.mem_cons_self)) hrest

def keyed (ps : List Payload) : List (Handle × Payload) :=
  ps.filterMap fun p => p.handle.map fun h => (h, p)

/-- Payloads are cached under the handles that they have. -/
theorem seed_eq (c : Cache) (ps : List Payload) :
    (c.seed c.generation ps).1 = (keyed ps).foldl (fun c x => c.put x.1 x.2) c := by
  rw [Cache.seed, if_pos rfl]
  generalize 0 = count
  induction ps generalizing c count with
  | nil => rfl
  | cons p ps ih =>
      rw [List.foldl_cons]
      cases hp : p.handle with
      | none => simpa [keyed, hp] using ih c count
      | some h => simpa [keyed, hp] using ih (c.put h p) (count + 1)

theorem seed_updates {ps : List Payload}
    (hps : ∀ p ∈ ps, ∀ h, p.handle = some h → src.payload h p) :
    Updates src on s { s with cache := (s.cache.seed s.cache.generation ps).1 } := by
  rw [seed_eq]
  refine put_updates fun x hx => ?_
  obtain ⟨p, hp, hx⟩ := List.mem_filterMap.1 hx
  obtain ⟨h, hh, rfl⟩ := Option.map_eq_some_iff.1 hx
  exact hps p hp h hh

/-! ### Outcomes -/

theorem seedRefs_updates {e : Envelope}
    (href : ∀ p ∈ Payload.ofRefs (e.refs.getD []), ∀ h, p.handle = some h → src.payload h p) :
    Updates src on s (s.seedRefs e) := by
  unfold seedRefs
  split
  · next refs hrefs =>
    rw [hrefs] at href
    exact seed_updates href
  · exact .refl

theorem seedRefs_node? (s : Session) (e : Envelope) (id : NodeId) :
    (s.seedRefs e).node? id = s.node? id := by
  unfold seedRefs
  split <;> rfl

theorem failAll_updates {ids : List NodeId} (hon : ∀ id ∈ ids, on id) :
    Updates src on s (s.failAll ids).value := by
  induction ids generalizing s with
  | nil => exact .refl
  | cons id ids ih =>
      have hrest : ∀ k ∈ ids, on k := fun k hk => hon k (List.mem_cons_of_mem id hk)
      unfold failAll
      split
      · rw [Logged.value_bind]
        exact .head (.fail (hon id List.mem_cons_self)) (ih hrest)
      · exact ih hrest

theorem distribute_updates {r : LookupReply} {awaited : List (Handle × NodeId)} {g : Nat}
    (hon : ∀ x ∈ awaited, on x.2) (hcarries : ∀ x ∈ awaited, s.Carries g x.2 x.1)
    (hsrc : ∀ x ∈ awaited, ∀ p, r.get? x.1 = some p → src.payload x.1 p) :
    Updates src on s (s.distribute r awaited).value := by
  induction awaited generalizing s with
  | nil => exact .refl
  | cons x rest ih =>
      obtain ⟨h, id⟩ := x
      have hmem : ∀ y ∈ rest, y ∈ (h, id) :: rest := fun y hy => List.mem_cons_of_mem _ hy
      -- Those that wait after it keep their handles while this one is filled.
      have hrest : ∀ {t : Session}, s.Grows t →
          Updates src on t (t.distribute r rest).value := fun hgrows =>
        ih (fun y hy => hon y (hmem y hy)) (fun y hy => (hcarries y (hmem y hy)).mono hgrows)
          fun y hy => hsrc y (hmem y hy)
      unfold distribute
      split
      · exact hrest (.refl s)
      · split
        · next p n hp hn =>
          rw [Logged.value_bind]
          obtain ⟨m, hm, -, hh⟩ := hcarries (h, id) List.mem_cons_self
          rw [hn] at hm
          cases hm
          have htold := hsrc (h, id) List.mem_cons_self p hp
          have hlearn : Update src on s (s.learned h p) := .learn htold
          have hfill : Update src on (s.learned h p) ((s.learned h p).setNode id (n.fill p).value) :=
            .fill (hon (h, id) List.mem_cons_self) hn hh (.inl htold)
          exact .head hlearn (.head hfill (hrest (hlearn.grows.trans hfill.grows)))
        · exact hrest (.refl s)

/-- An outcome for an earlier generation changes nothing and asks for nothing. -/
theorem deliver_stale {w : Waiting} (h : w.generation ≠ s.cache.generation) (o : Outcome) :
    (s.deliver w o).value = (s, none) := by
  have hstale : s.isCurrent w.generation = false := by
    rw [← Bool.not_eq_true, isCurrent_iff]
    exact h
  cases w with
  | batch g awaited parent =>
      simp only [Waiting.generation] at hstale
      simp [deliver, deliverBatch, hstale]
  | own g id k =>
      simp only [Waiting.generation] at hstale
      simp [deliver, deliverOwn, hstale]

theorem deliverBatch_updates {g : Nat} {awaited : List (Handle × NodeId)} {parent : Option NodeId}
    {handles : List Handle} (hl : (Lookup.mk handles (.batch g awaited parent)).WellPosed s)
    (hon : ∀ id ∈ (Waiting.batch g awaited parent).nodes, on id) {o : Outcome}
    (hsrc : ∀ e, successful? o = some e → src.Covers handles e) :
    Updates src on s (s.deliverBatch g awaited parent o).value := by
  have hparent : ∀ p ∈ (parent.filter s.isAlive).toList, parent = some p := by
    intro p hp
    rw [Option.mem_toList] at hp
    exact (Option.filter_eq_some_iff.1 hp).1
  have honParent : ∀ p, parent = some p → on p := fun p hp =>
    hon p (List.mem_append_left _ (by simp [Waiting.parent?, hp]))
  have honAwaited : ∀ x ∈ awaited, on x.2 := fun x hx =>
    hon x.2 (List.mem_append_right _ (List.mem_map_of_mem hx))
  unfold deliverBatch
  split
  · exact .refl
  · dsimp only
    split
    · rw [Logged.value_bind]
      refine failAll_updates fun id hid => ?_
      rcases List.mem_append.1 hid with hid | hid
      · exact honParent id (hparent id hid)
      · obtain ⟨x, hx, rfl⟩ := List.mem_map.1 hid
        exact honAwaited x hx
    · next e he =>
      have hcovers := hsrc e he
      have hseed : Updates src on s (s.seedRefs e) := seedRefs_updates hcovers.refs
      have hgive : Updates src on (s.seedRefs e)
          ((s.seedRefs e).distribute (LookupReply.ofEnvelope e) awaited).value :=
        distribute_updates honAwaited (fun x hx => (hl.awaited x hx).mono (Updates.grows hseed))
          fun x hx => hcovers.reply x.1 (hl.asked x hx)
      have hall := hseed.trans hgive
      rw [Logged.value_bind]
      split
      · next p hp =>
        -- The parent has had its view since before the lookup was sent.
        have hsome := hparent p (by simp [hp])
        obtain ⟨n, hn, -, hview⟩ := (hl.mono (Updates.grows hall)).parent p hsome
        exact hall.tail (.reply (honParent p hsome) hn hview)
      · exact hall

/-- An outcome for a node that waits for its own payload is dropped, fails the node, or settles it by
the payload that has come. -/
theorem deliverOwn_cases (s : Session) (g : Nat) (id : NodeId) (h : Handle) (o : Outcome) :
    (s.deliverOwn g id h o).value = (s, none) ∨
    (s.deliverOwn g id h o).value = ((s.recordOn id .failed).value, none) ∨
    ∃ e, successful? o = some e ∧
      ((s.deliverOwn g id h o).value = (((s.seedRefs e).recordOn id .failed).value, none) ∨
        ∃ p n, (LookupReply.ofEnvelope e).get? h = some p ∧ (s.seedRefs e).node? id = some n ∧
          (s.deliverOwn g id h o).value =
            (((s.seedRefs e).learned h p).settleOwn id n p).value) := by
  unfold deliverOwn
  split
  · exact .inl rfl
  · split
    · exact .inl rfl
    · split
      · exact .inr (.inl rfl)
      · next e he =>
        refine .inr (.inr ⟨e, he, ?_⟩)
        dsimp only
        split
        · next p n hp hn => exact .inr ⟨p, n, hp, hn, rfl⟩
        · exact .inl rfl

theorem deliverOwn_updates {g : Nat} {id : NodeId} {h : Handle} {handles : List Handle}
    (hl : (Lookup.mk handles (.own g id h)).WellPosed s) (hon : on id) {o : Outcome}
    (hsrc : ∀ e, successful? o = some e → src.Covers handles e) :
    Updates src on s (s.deliverOwn g id h o).value.1 := by
  rcases s.deliverOwn_cases g id h o with hvalue | hvalue | ⟨e, he, hcase⟩
  · rw [hvalue]
  · rw [hvalue]
    exact .single (.fail hon)
  have hcovers := hsrc e he
  have hseed : Updates src on s (s.seedRefs e) := seedRefs_updates hcovers.refs
  rcases hcase with hvalue | ⟨p, n, hp, hn, hvalue⟩
  · rw [hvalue]
    exact hseed.tail (.fail hon)
  · rw [hvalue]
    have htold := hcovers.reply h (hl.asked (h, id) List.mem_cons_self) p hp
    have hlearn : Update src on (s.seedRefs e) ((s.seedRefs e).learned h p) := .learn htold
    obtain ⟨m, hm, -, hh⟩ :=
      (hl.mono (Updates.grows hseed)).awaited (h, id) List.mem_cons_self
    rw [hn] at hm
    cases hm
    exact (hseed.tail hlearn).trans (settleOwn_updates hon hn hh (.inl htold))

theorem deliver_updates {l : Lookup} (hl : l.WellPosed s) (hon : ∀ id ∈ l.waiting.nodes, on id)
    {o : Outcome} (hsrc : ∀ e, successful? o = some e → src.Covers l.handles e) :
    Updates src on s (s.deliver l.waiting o).value.1 := by
  obtain ⟨handles, w⟩ := l
  cases w with
  | batch g awaited parent => exact deliverBatch_updates hl hon hsrc
  | own g id h => exact deliverOwn_updates hl (hon id (by simp [Waiting.nodes, Waiting.awaited])) hsrc

/-- Only a node that waits for its own payload may ask again, for the properties that it brings. -/
theorem deliver_asks {l l' : Lookup} (hl : l.WellPosed s) {o : Outcome}
    (hl' : (s.deliver l.waiting o).value.2 = some l') :
    l'.WellPosed (s.deliver l.waiting o).value.1 ∧
      l'.waiting.generation = l.waiting.generation := by
  obtain ⟨handles, w⟩ := l
  cases w with
  | batch g awaited parent => cases hl'
  | own g id h =>
      change (s.deliverOwn g id h o).value.2 = some l' at hl'
      change l'.WellPosed (s.deliverOwn g id h o).value.1 ∧ l'.waiting.generation = g
      rcases s.deliverOwn_cases g id h o with hvalue | hvalue | ⟨e, -, hvalue | hcase⟩
      · rw [hvalue] at hl'
        cases hl'
      · rw [hvalue] at hl'
        cases hl'
      · rw [hvalue] at hl'
        cases hl'
      · obtain ⟨p, n, -, hn, hvalue⟩ := hcase
        rw [hvalue] at hl' ⊢
        have hn' : ((s.seedRefs e).learned h p).node? id = some n := hn
        obtain ⟨hposed, hgen⟩ := settleOwn_asks hn' hl'
        obtain ⟨m, hm, hsame, -⟩ := hl.awaited (h, id) List.mem_cons_self
        rw [seedRefs_node?, hm] at hn
        cases hn
        exact ⟨hposed, hgen.trans hsame⟩

/-! ### Frames -/

/-- The variables of a frame to be are nodes of the present generation. -/
theorem addBindings_updates {frame : FrameId} {bs : List Binding}
    (hsrc : ∀ b ∈ bs, src.binding b.value) :
    Updates src on s (addBindings frame bs s).value.2 ∧
      ∀ r ∈ (addBindings frame bs s).value.1, ∃ n,
        (addBindings frame bs s).value.2.node? r = some n ∧ n.generation = s.cache.generation := by
  induction bs generalizing s with
  | nil => exact ⟨.refl, nofun⟩
  | cons b bs ih =>
      have hrest : ∀ c ∈ bs, src.binding c.value := fun c hc => hsrc c (List.mem_cons_of_mem b hc)
      unfold addBindings
      split
      · exact ih hrest
      · have hbind : Update src on s (s.addNode (Node.ofBinding s.cache.generation (.frame frame)
            b.name b.value).value).2 := .bind (hsrc b List.mem_cons_self)
        obtain ⟨hupdates, hroots⟩ := ih (s := (s.addNode (Node.ofBinding s.cache.generation
          (.frame frame) b.name b.value).value).2) hrest
        simp only [Logged.value_bind, Logged.value_pure]
        refine ⟨.head hbind hupdates, fun r hr => ?_⟩
        rcases List.mem_cons.1 hr with rfl | hr
        · have hnew := node?_addNode s (Node.ofBinding s.cache.generation (.frame frame) b.name
            b.value).value s.nodes.size
          rw [if_pos rfl] at hnew
          obtain ⟨n, hn, heir⟩ := (Updates.grows hupdates).nodes _ _ hnew
          exact ⟨n, hn, heir.generation.trans (ofBinding_heir _ _ b.name b.value).generation⟩
        · exact hroots r hr

theorem addFrame_updates {f : StackFrame}
    (hsrc : ∀ b ∈ f.arguments ++ f.locals, src.binding b.value) :
    Updates src on s (s.addFrame f).value.2 := by
  have hbindings : Updates src on s
        (addBindings s.callFrames.size (f.arguments ++ f.locals) s).value.2 ∧ _ :=
    addBindings_updates hsrc
  obtain ⟨hupdates, hroots⟩ := hbindings
  unfold addFrame
  simp only [Logged.value_bind, Logged.value_pure]
  refine hupdates.tail (.enter rfl fun r hr => ?_)
  obtain ⟨n, hn, hgen⟩ := hroots r hr
  exact ⟨n, hn, hgen.trans (Updates.generation hupdates).symm⟩

theorem addFrames_updates {fs : List StackFrame}
    (hsrc : ∀ f ∈ fs, ∀ b ∈ f.arguments ++ f.locals, src.binding b.value) :
    Updates src on s (addFrames fs s).value.2 := by
  induction fs generalizing s with
  | nil => exact .refl
  | cons f fs ih =>
      have hfirst : Updates src on s (s.addFrame f).value.2 :=
        addFrame_updates (hsrc f List.mem_cons_self)
      have hrest := ih (s := (s.addFrame f).value.2) fun g hg => hsrc g (List.mem_cons_of_mem f hg)
      unfold addFrames
      simp only [Logged.value_bind, Logged.value_pure]
      exact hfirst.trans hrest

theorem createFrame_updates {index : UInt32} {function : String} {bs : List Binding}
    (hsrc : ∀ b ∈ bs, src.binding b.value) :
    Updates src on s (s.createFrame index function bs).value.2 := by
  have hadd : Updates src on s
      (s.addFrame { index := index, function := function, arguments := bs }).value.2 :=
    addFrame_updates (by simpa using hsrc)
  unfold createFrame
  simp only [Logged.value_bind, Logged.value_pure]
  exact hadd.tail (.manage rfl rfl rfl)

theorem materialize_updates {body : Json} {refs : List Json} {next : List FrameId × Session}
    (hnext : (s.materialize body refs).value = .ok next)
    (hrefs : ∀ p ∈ Payload.ofRefs refs, ∀ h, p.handle = some h → src.payload h p)
    (hsrc : ∀ fs, StackFrame.listOfJson body = .ok fs →
      ∀ f ∈ fs, ∀ b ∈ f.arguments ++ f.locals, src.binding b.value) :
    Updates src on s next.2 := by
  unfold materialize at hnext
  split at hnext
  · cases hnext
  · next fs hfs =>
    simp only [Logged.value_bind, Logged.value_pure] at hnext
    cases hnext
    have hseed : Updates src on s
        { s with cache := (s.cache.seed s.cache.generation (Payload.ofRefs refs)).1 } :=
      seed_updates hrefs
    exact (hseed.trans (addFrames_updates (hsrc fs hfs))).tail (.manage rfl rfl rfl)

theorem absorb_updates {parent : RemoteObject} {data : PropertyListing}
    (hchildren : ∀ p ∈ (data.reduce parent s.table).1.2, ∀ h, p.handle = some h → src.payload h p)
    (hparent : ∀ h, (data.reduce parent s.table).1.1.handle = some h →
      src.payload h (data.reduce parent s.table).1.1) :
    Updates src on s (s.absorb parent data).2 := by
  let t : Session :=
    { s with cache := (s.cache.seed s.cache.generation (data.reduce parent s.table).1.2).1 }
  have hfirst : Updates src on s t := seed_updates hchildren
  have hlast : ∀ p ∈ [(data.reduce parent s.table).1.1], ∀ h, p.handle = some h →
      src.payload h p := by
    intro p hp
    obtain rfl := List.mem_singleton.1 hp
    exact hparent
  have hsecond : Updates src on t { t with cache :=
      (t.cache.seed t.cache.generation [(data.reduce parent s.table).1.1]).1 } :=
    seed_updates hlast
  exact (hfirst.trans hsecond).tail (.manage rfl rfl rfl)

end Session

end RemoteInspector
