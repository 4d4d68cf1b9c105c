import RemoteInspector.Proofs.Session.Attained

/-!
The variables of a frame. A binding may say all of its value, leave out the properties, or be its handle
only; what it leaves out does not matter, because the node is told by the cache or by one lookup what the
binding has not told.
-/

namespace RemoteInspector

/-- What a payload tells does not depend on whether it brings its properties. -/
theorem Node.told_abridges {n : Node} {p whole : Payload} (hp : p.Abridges whole) :
    n.told p = n.told whole := by
  rcases hp with rfl | rfl
  · rfl
  · rfl

/-- The node of a binding knows what the machine reports, or it is bare. -/
theorem Node.ofBinding_cases {T : Machine} {p : Payload} {h : Handle} (hh : p.handle = some h)
    (hp : (Source.trueTo T).binding p) (generation : Nat) (owner : Owner) (name : String) :
    ((Node.ofBinding generation owner name p).value.core =
      (Node.new name name generation owner (some h) false).informed (T h) true) ∨
    ((Node.ofBinding generation owner name p).value =
      Node.new name name generation owner (some h) false) := by
  unfold ofBinding
  dsimp only
  rw [hh]
  split
  · next hdescribed =>
    rcases hp h hh with rfl | ⟨whole, hwhole, habridges⟩
    · cases hdescribed
    · refine .inl ((core_fill rfl p).trans ?_)
      rw [hwhole, told_abridges habridges]
      rfl
  · exact .inr rfl

namespace Session

variable {T : Machine} {P : List Handle} {s s' : Session} {id : FrameId} {f : StackFrame}

theorem exists_of_forall₂ {α : Type} {R : Nat → α → Prop} {ids : List Nat} {rs : List α}
    (h : List.Forall₂ R ids rs) {k : Nat} (hk : k ∈ ids) : ∃ r ∈ rs, R k r := by
  induction h with
  | nil => cases hk
  | cons hfirst _ ih =>
      rcases List.mem_cons.1 hk with rfl | hk
      · exact ⟨_, List.mem_cons_self, hfirst⟩
      · obtain ⟨r, hr, hR⟩ := ih hk
        exact ⟨r, List.mem_cons_of_mem _ hr, hR⟩

theorem forall₂_mem {α : Type} {R : Nat → α → Prop} {ids : List Nat} {rs : List α}
    (h : List.Forall₂ R ids rs) : List.Forall₂ (fun k r => k ∈ ids ∧ R k r) ids rs :=
  (List.forall₂_and_left ids rs).2 ⟨fun _ hk => hk, h⟩

/-- The bare variables whose payloads are cached are told what the machine reports. -/
theorem fillBare_informs (hs : s.Faithful T) (ids : List NodeId)
    (hids : ∀ k ∈ ids, ∃ n, s.node? k = some n ∧ n.generation = s.cache.generation) :
    ∃ told, s.Informs T told (s.fillBare ids).value ∧ ∀ k ∈ ids, ∀ n h p, s.node? k = some n →
      isBare n = true → n.facts.handle = some h → s.cache.get? h = some p → told k = true := by
  induction ids generalizing s with
  | nil => exact ⟨_, .refl s, nofun⟩
  | cons k ids ih =>
      obtain ⟨n, hn, hgen⟩ := hids k List.mem_cons_self
      have hrest : ∀ j ∈ ids, ∃ n, s.node? j = some n ∧ n.generation = s.cache.generation :=
        fun j hj => hids j (List.mem_cons_of_mem k hj)
      unfold fillBare
      simp only [hn]
      split
      · next p hbare hcached =>
        obtain ⟨h, hh, hcached⟩ := Option.bind_eq_some_iff.1 hcached
        have htold := hs.cache h p hcached
        have hinforms := fill_informs hs hn hgen hh htold
        have hfill : s.Informs T (fun j => j == k) (s.setNode k (n.fill p).value) :=
          ⟨hinforms.rest, hinforms.nodes⟩
        have hupdate : Update (.trueTo T) (fun _ => True) s (s.setNode k (n.fill p).value) :=
          .fill trivial hn hh (.inl htold)
        obtain ⟨told, hnext, hcomes⟩ := ih (hupdate.faithful hs) fun j hj => by
          obtain ⟨m, hm, hmgen⟩ := hrest j hj
          obtain ⟨m', hm', heir⟩ := hupdate.grows.nodes j m hm
          exact ⟨m', hm', heir.generation.trans hmgen⟩
        refine ⟨_, hfill.trans hnext, fun j hj m g q hm hb hg hq => ?_⟩
        by_cases hjk : j = k
        · simp [hjk]
        · have hin : j ∈ ids := (List.mem_cons.1 hj).resolve_left hjk
          rw [hcomes j hin m g q ((node?_setNode_of_ne s hjk _).trans hm) hb hg hq]
          rfl
      · next hskip =>
        obtain ⟨told, hnext, hcomes⟩ := ih hs hrest
        refine ⟨told, hnext, fun j hj m g q hm hb hg hq => ?_⟩
        rcases List.mem_cons.1 hj with rfl | hin
        · rw [hn] at hm
          obtain rfl := Option.some.inj hm
          exact (hskip q hb (by rw [hg]; exact hq)).elim
        · exact hcomes j hin m g q hm hb hg hq

/-- The variables of a frame, the first time that they are asked for. -/
theorem ensureVariables_first {g : CallFrame} (hg : s.callFrame? id = some g)
    (hgen : g.generation = s.cache.generation) (hrequested : g.requested = false) :
    ((s.asked id g).missing ((s.asked id g).bare g.roots) = [] ∧
      (s.ensureVariables id).value = .ok (((s.asked id g).fillBare g.roots).value, none)) ∨
    ((s.asked id g).missing ((s.asked id g).bare g.roots) ≠ [] ∧
      (s.ensureVariables id).value = .ok (((s.asked id g).fillBare g.roots).value,
        some (batchOf g.generation ((s.asked id g).missing ((s.asked id g).bare g.roots)) none))) := by
  have hcurrent : s.isCurrent g.generation = true := isCurrent_iff.2 hgen
  unfold ensureVariables
  simp only [hg, hcurrent, hrequested, Bool.not_true, Bool.false_eq_true, if_false,
    Logged.value_bind]
  split
  · next hnil => exact .inl ⟨hnil, rfl⟩
  · next hne => exact .inr ⟨hne, rfl⟩

/-! ### Nodes of bindings -/

/-- The node is that of a binding of a frame, as it has been made. -/
def BoundAt (T : Machine) (s : Session) (frame : FrameId) (k : NodeId) (r : PropertyRef) : Prop :=
  ∃ b : Binding, b.name = r.name ∧ b.value.handle = some r.handle ∧
    (Source.trueTo T).binding b.value ∧
    s.node? k = some (Node.ofBinding s.cache.generation (.frame frame) b.name b.value).value

/-- It has been told, if not by the binding, or is waited for. -/
theorem BoundAt.due {told : NodeId → Bool} {k : NodeId} {r : PropertyRef} (h : s.BoundAt T id k r)
    (hinforms : s.Informs T told s') (hgrows : s.Grows s')
    (hgeneration : s'.cache.generation = s.cache.generation) (hholds : s'.holdsFrame id = true)
    (l? : Option Lookup) (hcomes : ∀ n, s.node? k = some n → isBare n = true →
      n.facts.handle = some r.handle → ((l?.any fun l => l.waiting.awaits k) || told k) = true) :
    s'.Due T l? k r := by
  obtain ⟨b, hname, hh, hb, hn⟩ := h
  obtain ⟨n', hn', -, hcore⟩ := hinforms.nodes k _ hn
  obtain ⟨m, hm, heir⟩ := hgrows.nodes k _ hn
  obtain rfl : n' = m := Option.some.inj (hn'.symm.trans hm)
  have hmade := ofBinding_heir s.cache.generation (.frame id) b.name b.value
  have hhandle := (handle_ofBinding s.cache.generation (.frame id) b.name b.value).trans hh
  refine ⟨isAlive_iff.2 (.inr ⟨n', hn', .inl ⟨id, heir.owner.trans hmade.owner, hholds⟩⟩), n', b.name,
    .frame id, false, hn', (heir.generation.trans hmade.generation).trans hgeneration.symm,
    heir.handle _ hhandle, ?_⟩
  rw [hhandle, Option.bind_some] at hcore
  rw [Node.informed_congr (hcore.trans (Node.core_informed _ _ _).symm), Node.informed_informed,
    hgeneration, ← hname]
  rcases Node.ofBinding_cases hh hb s.cache.generation (.frame id) b.name with hknows | hbare
  · rw [Node.informed_congr (hknows.trans (Node.core_informed _ _ _).symm), Node.informed_informed,
      Bool.or_true]
  · rw [hcomes _ hn (by rw [hbare]; rfl) hhandle, hbare]

section

variable {roots : List NodeId} {rs : List PropertyRef} {told : NodeId → Bool}

/-- A bare variable is told from the cache or is missing. -/
theorem missing_of_bare (hcomes : ∀ k ∈ roots, ∀ n h p, s.node? k = some n → isBare n = true →
      n.facts.handle = some h → s.cache.get? h = some p → told k = true)
    {k : NodeId} (hk : k ∈ roots) {n : Node} (hn : s.node? k = some n) (hbare : isBare n = true)
    {h : Handle} (hh : n.facts.handle = some h) :
    told k = true ∨ (h, k) ∈ s.missing (s.bare roots) := by
  cases hcached : s.cache.get? h with
  | some p => exact .inl (hcomes k hk n h p hn hbare hh hcached)
  | none =>
      refine .inr (mem_missing.2 ⟨List.mem_filter.2 ⟨hk, by simp [hn, hbare]⟩, n, hn, hh, ?_⟩)
      rw [Cache.contains, hcached]
      rfl

/-- What is missing among the variables of a frame is asked for properly. -/
theorem batch_of_bare (hbound : List.Forall₂ (s.BoundAt T id) roots rs) (hP : ∀ r ∈ rs, r.handle ∈ P) :
    (batchOf s.cache.generation (s.missing (s.bare roots)) none).WellPosed s ∧
      Handles P (batchOf s.cache.generation (s.missing (s.bare roots)) none).handles := by
  have hwaits : ∀ x ∈ s.missing (s.bare roots),
      s.Carries s.cache.generation x.2 x.1 ∧ x.1 ∈ P := by
    intro x hx
    obtain ⟨hk, n, hn, hh, -⟩ := mem_missing.1 hx
    obtain ⟨r, hr, b, -, hhandle, -, hmade⟩ := exists_of_forall₂ hbound (List.mem_filter.1 hk).1
    obtain rfl := Option.some.inj (hmade.symm.trans hn)
    have hgen := (ofBinding_heir s.cache.generation (.frame id) b.name b.value).generation
    refine ⟨⟨_, hn, hgen, hh⟩, ?_⟩
    rw [handle_ofBinding, hhandle] at hh
    exact Option.some.inj hh ▸ hP r hr
  refine ⟨⟨fun x hx => mem_handleSet.2 (List.mem_map_of_mem hx), fun x hx => (hwaits x hx).1, nofun⟩,
    handles_handleSet fun k hk => ?_⟩
  obtain ⟨x, hx, rfl⟩ := List.mem_map.1 hk
  exact (hwaits x hx).2

/-- When the bare variables have been filled, and what is missing has been answered if anything is, the
variables are ready. -/
theorem fillBare_attains (hs : s.Faithful T) (hholds : s.holdsFrame id = true)
    (hbound : List.Forall₂ (s.BoundAt T id) roots rs) (hP : ∀ r ∈ rs, r.handle ∈ P) {l? : Option Lookup}
    (hl : (s.missing (s.bare roots) = [] ∧ l? = none) ∨
      l? = some (batchOf s.cache.generation (s.missing (s.bare roots)) none)) :
    Attains T P (fun s' => List.Forall₂ (s'.ReadyAt T) roots rs ∧ s.Resolves T (· ∈ roots) s') 1
      ((s.fillBare roots).value, l?) := by
  obtain ⟨told, hinforms, hcomes⟩ := fillBare_informs hs roots fun k hk => by
    obtain ⟨r, -, b, -, -, -, hn⟩ := exists_of_forall₂ hbound hk
    exact ⟨_, hn, (ofBinding_heir _ _ b.name b.value).generation⟩
  have hfill : s.Resolves T (· ∈ roots) (s.fillBare roots).value :=
    ⟨fillBare_updates fun k hk => hk, hinforms.rest⟩
  have hgrows := Updates.grows hfill.updates
  have hfilled := hfill.faithful hs
  have hheld : (s.fillBare roots).value.holdsFrame id = true :=
    ((holds_of_rest hfill.rest).2 id).trans hholds
  have hdue : List.Forall₂ ((s.fillBare roots).value.Due T l?) roots rs := by
    refine (forall₂_mem hbound).imp fun k r hk => hk.2.due hinforms hgrows hfill.generation hheld l?
      fun n hn hbare hh => ?_
    rcases missing_of_bare hcomes hk.1 hn hbare hh with htold | hmissing
    · rw [htold, Bool.or_true]
    · rcases hl with ⟨hnil, -⟩ | rfl
      · rw [hnil] at hmissing
        cases hmissing
      · exact Bool.or_eq_true_iff.2 (.inl (List.contains_iff_mem.2 (List.mem_map_of_mem hmissing)))
  rcases hl with ⟨-, rfl⟩ | rfl
  · exact .none ⟨hdue.imp fun k r hk => hk.ready (.refl _) rfl hfilled (.refl _) rfl, hfill⟩
  · obtain ⟨hposed, hhandles⟩ := batch_of_bare hbound hP
    refine ⟨hhandles, fun e he => .none ?_⟩
    have hwell := hposed.mono hgrows
    have hnodes : ∀ k ∈ (batchOf s.cache.generation (s.missing (s.bare roots)) none).waiting.nodes,
        k ∈ roots := by
      intro k hk
      obtain ⟨x, hx, rfl⟩ := List.mem_map.1 hk
      exact (List.mem_filter.1 (mem_missing.1 hx).1).1
    refine ⟨?_, hfill.trans (resolves_deliver hwell hnodes he)⟩
    obtain ⟨t, hanswers, hupdates, hvalue⟩ := deliverBatch_answered hfilled hwell
      hfill.generation.symm he.successful he.reply he.covers
    show List.Forall₂ (ReadyAt T ((s.fillBare roots).value.deliverBatch _ _ none (.ok e)).value) _ _
    rw [hvalue]
    exact hdue.imp fun k r hk => hk.ready hanswers (by rw [hk.alive, Bool.true_and]; rfl)
      (Updates.faithful hupdates hfilled) (Updates.grows hupdates) (Updates.generation hupdates)

/-- The variables of a frame become ready by one lookup at most, and no other nodes are touched. -/
theorem ensureVariables_attains (hs : s.Faithful T) {g : CallFrame} (hg : s.callFrame? id = some g)
    (hgen : g.generation = s.cache.generation) (hrequested : g.requested = false)
    (hholds : s.holdsFrame id = true) (hbound : List.Forall₂ (s.BoundAt T id) g.roots rs)
    (hP : ∀ r ∈ rs, r.handle ∈ P) :
    ∃ next, (s.ensureVariables id).value = .ok next ∧
      Attains T P (fun s' => List.Forall₂ (s'.ReadyAt T) g.roots rs ∧
        (s.asked id g).Resolves T (· ∈ g.roots) s') 1 next := by
  have hask : Update (.trueTo T) (· ∈ g.roots) s (s.asked id g) := .ask hg
  have hasked : List.Forall₂ ((s.asked id g).BoundAt T id) g.roots rs := hbound
  rcases ensureVariables_first hg hgen hrequested with ⟨hnil, hvalue⟩ | ⟨-, hvalue⟩
  · exact ⟨_, hvalue, fillBare_attains (hask.faithful hs) hholds hasked hP (.inl ⟨hnil, rfl⟩)⟩
  · refine ⟨_, hvalue, fillBare_attains (hask.faithful hs) hholds hasked hP (.inr ?_)⟩
    rw [hgen]
    rfl

end

/-! ### The bindings of a reported frame -/

theorem filterMap_getElem? {α β : Type} (part : α → Option β) (xs : List α)
    (hxs : ∀ x ∈ xs, (part x).isSome) : (xs.filterMap part).length = xs.length ∧
      ∀ (i : Nat) y, (xs.filterMap part)[i]? = some y → ∃ x, xs[i]? = some x ∧ part x = some y := by
  induction xs with
  | nil => exact ⟨rfl, nofun⟩
  | cons x xs ih =>
      obtain ⟨y, hy⟩ := Option.isSome_iff_exists.1 (hxs x List.mem_cons_self)
      obtain ⟨hlength, hget⟩ := ih fun z hz => hxs z (List.mem_cons_of_mem x hz)
      rw [List.filterMap_cons_some hy]
      refine ⟨by simp [hlength], fun i z hz => ?_⟩
      cases i with
      | zero => exact ⟨x, rfl, hy.trans hz⟩
      | succ i => exact hget i z hz

/-- The bindings of a frame are true to the machine and have handles of `P`. -/
def TellsTrue (T : Machine) (P : List Handle) (f : StackFrame) : Prop :=
  ∀ b ∈ f.arguments ++ f.locals, (Source.trueTo T).binding b.value ∧
    ∃ h ∈ P, b.value.handle = some h

/-- The variables of a frame that has been entered are the nodes of its bindings. -/
theorem Enters.bound (h : s.Enters id f) (hf : TellsTrue T P f) :
    ∃ g start, s.callFrame? id = some g ∧ g = f.callFrame s.cache.generation start ∧
      List.Forall₂ (s.BoundAt T id) g.roots f.variables ∧ ∀ r ∈ f.variables, r.handle ∈ P := by
  obtain ⟨start, hg, hnodes⟩ := h
  have hshown : ∀ b ∈ shownBindings (f.arguments ++ f.locals), (Source.trueTo T).binding b.value ∧
      ∃ h ∈ P, b.value.handle = some h := fun b hb => hf b (List.mem_filter.1 hb).1
  obtain ⟨hlength, hget⟩ := filterMap_getElem?
    (fun b : Binding => b.value.handle.map fun h => (⟨b.name, h⟩ : PropertyRef))
    (shownBindings (f.arguments ++ f.locals)) fun b hb => by
      obtain ⟨-, h, -, hh⟩ := hshown b hb
      simp [hh]
  have hroots : (f.callFrame s.cache.generation start).roots =
      List.range' start f.variables.length := by
    rw [StackFrame.callFrame, ← hlength]
    rfl
  refine ⟨_, start, hg, rfl, ?_, fun r hr => ?_⟩
  · rw [hroots]
    refine forall₂_range' fun i r hr => ?_
    obtain ⟨b, hb, hpart⟩ := hget i r hr
    obtain ⟨k, hk, rfl⟩ := Option.map_eq_some_iff.1 hpart
    exact ⟨b, rfl, hk, (hshown b (List.mem_of_getElem? hb)).1, hnodes i b hb⟩
  · obtain ⟨b, hb, hpart⟩ := List.mem_filterMap.1 hr
    obtain ⟨k, hk, rfl⟩ := Option.map_eq_some_iff.1 hpart
    obtain ⟨-, j, hj, hjb⟩ := hshown b hb
    exact Option.some.inj (hjb.symm.trans hk) ▸ hj

end Session

end RemoteInspector
