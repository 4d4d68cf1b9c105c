import Mathlib.Data.List.Induction
import RemoteInspector.Proofs.Session.Faithful
import RemoteInspector.Proofs.Session.Lifecycle
import RemoteInspector.Proofs.Session.Retained

/-!
What a node shows and the type that is declared for it. As long as a suspension lasts, let all payloads
for a handle describe a value of one type and class: a `Typing` of the handles. A view is made from what
is known when the children are made, and it is not made anew when more becomes known. So it agrees with
the declared type, unless a caller has given properties to a node of which nothing but the handle was
known: such a node is shown as a plain object, whatever it turns out to be.
-/

namespace RemoteInspector

abbrev Typing := Handle → ValueType × Option String

/-- The type and the class that a payload gives to its value. A scalar has no class. -/
def Payload.described (p : Payload) : ValueType × Option String :=
  if p.isCompound then (p.valueType?.getD .object, p.className) else (p.scalar.1, none)

/-- What comes in describes values of these types. A binding that does not describe its value may be
anything. -/
def Source.describing (D : Typing) (refs : List PropertyRef → Prop) : Source where
  payload := fun h p => p.described = D h
  binding := fun p => ∀ h, p.handle = some h → Node.isDescribed p = true → p.described = D h
  refs := refs

namespace Payload

theorem described_compound {p : Payload} (hp : p.isCompound = true) :
    p.valueType? = some p.described.1 ∧ p.className = p.described.2 := by
  have htype : p.valueType?.any (·.isCompound) = true := by
    simp only [isCompound, Bool.and_eq_true] at hp
    exact hp.2
  cases ht : p.valueType? with
  | none =>
      rw [ht] at htype
      cases htype
  | some t =>
      rw [described, if_pos hp, ht]
      exact ⟨rfl, rfl⟩

theorem described_scalar {p : Payload} (hp : p.isCompound = false) :
    p.described = (p.scalar.1, none) := by
  rw [described, hp]
  exact if_neg nofun

end Payload

namespace Node

/-- What is known of the value agrees with this type and class. -/
def Told (n : Node) (d : ValueType × Option String) : Prop :=
  n.facts.valueType = none ∨ n.facts.valueType = some d.1 ∧ n.facts.className = d.2

/-- What a node shows follows from what is known of it, unless its type was presumed. -/
structure Apt (presumed : Prop) (n : Node) : Prop where
  untyped : n.facts.valueType = none → n.facts.className = none ∧ n.facts.properties = none
  view : ∀ v, n.view = some v → (∃ t text, v = .scalar t text) ∨
    (∃ children, v = n.compoundView children ∧
      (n.facts.valueType = none → n.facts.handle = none)) ∨
    presumed ∧ ∃ children, v = .object .object none children

theorem Apt.mono {presumed presumed' : Prop} {n : Node} (himp : presumed → presumed')
    (hn : n.Apt presumed) : n.Apt presumed' where
  untyped := hn.untyped
  view := fun v hv => (hn.view v hv).imp_right (Or.imp_right (And.imp_left himp))

theorem Apt.new (presumed : Prop) (name path : String) (generation : Nat) (owner : Owner)
    (handle : Option Handle) (shallow : Bool) :
    (Node.new name path generation owner handle shallow).Apt presumed :=
  ⟨fun _ => ⟨rfl, rfl⟩, nofun⟩

/-- What matters for a view is what is known of the value. -/
theorem Apt.of_facts {presumed : Prop} {n n' : Node} (hn : n.Apt presumed)
    (hfacts : n'.facts = n.facts) (hview : n'.view = n.view) : n'.Apt presumed := by
  obtain ⟨hun, hv⟩ := hn
  refine ⟨by rwa [hfacts], fun v hv' => ?_⟩
  rw [hview] at hv'
  simpa only [compoundView, hfacts] using hv v hv'

/-- A node that is told what its handle stands for knows it then. -/
theorem Told.fill {presumed : Prop} {n : Node} {d : ValueType × Option String} (hn : n.Told d)
    (hapt : n.Apt presumed) {p : Payload} (hp : p.described = d) : (n.fill p).value.Told d := by
  have hfacts : (n.facts.fill p (!n.shallow)).valueType = some d.1 ∧
      (n.facts.fill p (!n.shallow)).className = d.2 := by
    cases hcompound : p.isCompound with
    | true =>
        obtain ⟨htype, hclass⟩ := Payload.described_compound hcompound
        rw [Facts.fill_compound hcompound, ← hp]
        exact ⟨htype, hclass⟩
    | false =>
        have hscalar := Payload.described_scalar hcompound
        have hclass : n.facts.className = d.2 := by
          rw [← hp, hscalar]
          rcases hn with hnone | ⟨-, hclass⟩
          · exact (hapt.untyped hnone).1
          · rw [hclass, ← hp, hscalar]
        have hadopt : (n.facts.adoptHandle p.handle).className = n.facts.className := by
          unfold Facts.adoptHandle
          split <;> rfl
        rw [Facts.fill_scalar hcompound]
        exact ⟨by rw [← hp, hscalar], hadopt.trans hclass⟩
  rcases n.fill_cases p with ⟨-, hvalue⟩ | ⟨-, -, hvalue⟩ | ⟨-, -, hvalue⟩
  · rw [hvalue]
    exact hn
  · rw [hvalue]
    exact .inr hfacts
  · rw [hvalue]
    exact .inr hfacts

/-- The payload of its own handle leaves a node apt, if it has no view yet or has been told before what
the handle stands for. -/
theorem Apt.fill {presumed : Prop} {n : Node} {d : ValueType × Option String} {p : Payload}
    (hn : n.Apt presumed) (hp : p.described = d)
    (hfits : n.view = none ∨ n.facts.handle ≠ none ∧ n.Told d) : (n.fill p).value.Apt presumed := by
  have htyped : (n.facts.fill p (!n.shallow)).valueType ≠ none := Facts.declared_fill _ _ _
  rcases n.fill_cases p with ⟨-, hvalue⟩ | ⟨-, hcompound, hvalue⟩ | ⟨-, -, hvalue⟩
  · rw [hvalue]
    exact hn
  · rw [hvalue]
    refine ⟨fun hnone => (htyped hnone).elim, fun v hv => ?_⟩
    rcases hfits with hview | ⟨hhandle, htold⟩
    · rw [hview] at hv
      cases hv
    · rcases hn.view v hv with hscalar | ⟨children, rfl, huntyped⟩ | hpresumed
      · exact .inl hscalar
      · -- The type was known already, so the payload tells nothing new.
        have hknown : n.facts.valueType = some d.1 ∧ n.facts.className = d.2 :=
          htold.resolve_left fun hnone => hhandle (huntyped hnone)
        rw [Facts.isCompound_fill] at hcompound
        obtain ⟨htype, hclass⟩ := Payload.described_compound hcompound
        refine .inr (.inl ⟨children, ?_, fun hnone => (htyped hnone).elim⟩)
        rw [compoundView, compoundView, Facts.fill_compound hcompound, hknown.1, hknown.2, htype,
          hclass, hp]
      · exact .inr (.inr hpresumed)
  · rw [hvalue]
    refine ⟨fun hnone => (htyped hnone).elim, fun v hv => .inl ?_⟩
    cases hv
    exact ⟨_, _, rfl⟩

/-- The view of a node with children is made from what is known. Where nothing is, but for a handle, the
type is presumed. -/
theorem Apt.list {presumed : Prop} {n : Node} (hn : n.Apt presumed) (children : List NodeId)
    (hlist : n.facts.valueType = none → n.facts.handle = none ∨ presumed) :
    Apt presumed { n with view := some (n.compoundView children) } := by
  refine ⟨hn.untyped, fun v hv => .inr ?_⟩
  cases hv
  cases htype : n.facts.valueType with
  | some t => exact .inl ⟨children, rfl, by simp⟩
  | none =>
      rcases hlist htype with hhandle | hpresumed
      · exact .inl ⟨children, rfl, fun _ => hhandle⟩
      · refine .inr ⟨hpresumed, children, ?_⟩
        rw [compoundView, htype, (hn.untyped htype).1]
        rfl

theorem Apt.ofBinding {presumed : Prop} (generation : Nat) (owner : Owner) (name : String)
    (p : Payload) : (ofBinding generation owner name p).value.Apt presumed := by
  unfold Node.ofBinding
  dsimp only
  split
  · exact (Apt.new ..).fill rfl (.inl rfl)
  · exact .new ..

theorem told_ofBinding {D : Typing} {refs : List PropertyRef → Prop} {p : Payload}
    (hp : (Source.describing D refs).binding p) {generation : Nat} {owner : Owner} {name : String}
    {h : Handle} (hh : (ofBinding generation owner name p).value.facts.handle = some h) :
    (ofBinding generation owner name p).value.Told (D h) := by
  rw [Session.handle_ofBinding] at hh
  unfold ofBinding
  dsimp only
  split
  · next hdescribed =>
    exact Told.fill (.inl rfl) (Apt.new False ..) (hp h hh hdescribed)
  · exact .inl rfl

end Node

namespace Session

/-- The session agrees with what its handles stand for. Nodes of earlier suspensions have handles of
their own. -/
structure Typed (D : Typing) (presumed : NodeId → Prop) (s : Session) : Prop where
  cache : ∀ h p, s.cache.get? h = some p → p.described = D h
  apt : ∀ id n, s.node? id = some n → n.Apt (presumed id)
  told : ∀ id n, s.node? id = some n → n.generation = s.cache.generation →
    ∀ h, n.facts.handle = some h → n.Told (D h)

variable {D : Typing} {presumed : NodeId → Prop} {refs : List PropertyRef → Prop}
  {on : NodeId → Prop} {s s' : Session}

namespace Typed

/-- It is enough to look at the nodes that have changed or are new. -/
theorem of_nodes (hs : s.Typed D presumed) (hcache : s'.cache = s.cache)
    (hnodes : ∀ id n, s'.node? id = some n → s.node? id = some n ∨ n.Apt (presumed id) ∧
      (n.generation = s.cache.generation → ∀ h, n.facts.handle = some h → n.Told (D h))) :
    s'.Typed D presumed where
  cache := by
    rw [hcache]
    exact hs.cache
  apt := fun id n hn => (hnodes id n hn).elim (hs.apt id n) And.left
  told := by
    intro id n hn hgen
    rw [hcache] at hgen
    rcases hnodes id n hn with hold | ⟨-, hnew⟩
    · exact hs.told id n hold hgen
    · exact hnew hgen

theorem setNode (hs : s.Typed D presumed) {id : NodeId} {n n' : Node} (hn : s.node? id = some n)
    (hapt : n'.Apt (presumed id)) (htold : n'.generation = s.cache.generation →
      ∀ h, n'.facts.handle = some h → n'.Told (D h)) : (s.setNode id n').Typed D presumed := by
  refine hs.of_nodes rfl fun k m hm => ?_
  rw [node?_setNode hn] at hm
  split at hm
  · next heq =>
    subst heq
    obtain rfl := Option.some.inj hm
    exact .inr ⟨hapt, htold⟩
  · exact .inl hm

/-- What is known and shown of a node stays. -/
theorem restate (hs : s.Typed D presumed) {id : NodeId} {n n' : Node} (hn : s.node? id = some n)
    (hfacts : n'.facts = n.facts) (hview : n'.view = n.view) (hgen : n'.generation = n.generation) :
    (s.setNode id n').Typed D presumed := by
  refine hs.setNode hn ((hs.apt id n hn).of_facts hfacts hview) fun hcurrent h hh => ?_
  rw [hgen] at hcurrent
  rw [hfacts] at hh
  rw [Node.Told, hfacts]
  exact hs.told id n hn hcurrent h hh

theorem recordOn (hs : s.Typed D presumed) (id : NodeId) (e : Resolution.Event) :
    (s.recordOn id e).value.Typed D presumed := by
  rcases s.recordOn_cases id e with ⟨-, hvalue⟩ | ⟨n, hn, hvalue⟩
  · rw [hvalue]
    exact hs
  · rw [hvalue, Node.record_value]
    exact hs.restate hn rfl rfl rfl

/-- A node without a view, or of the present suspension, takes the payload of its handle. -/
theorem fill (hs : s.Typed D presumed) {id : NodeId} {n : Node} {h : Handle} {p : Payload}
    (hn : s.node? id = some n) (hh : n.facts.handle = some h) (hp : p.described = D h)
    (hfits : n.view = none ∨ n.generation = s.cache.generation) :
    (s.setNode id (n.fill p).value).Typed D presumed := by
  have hapt := hs.apt id n hn
  refine hs.setNode hn (hapt.fill hp ?_) fun hgen k hk => ?_
  · exact hfits.imp_right fun hgen => ⟨by simp [hh], hs.told id n hn hgen h hh⟩
  · rw [(n.heir_fill p).generation] at hgen
    rw [(n.heir_fill p).handle h hh] at hk
    obtain rfl := Option.some.inj hk
    exact (hs.told id n hn hgen h hh).fill hapt hp

theorem childNode (hs : s.Typed D presumed) (id k : NodeId) (n : Node) (r : PropertyRef) :
    (s.childNode id n r).value.Apt (presumed k) ∧
      ∀ h, (s.childNode id n r).value.facts.handle = some h →
        (s.childNode id n r).value.Told (D h) := by
  rcases s.childNode_cases id n r with ⟨-, hvalue⟩ | ⟨p, hp, hvalue⟩
  · rw [hvalue]
    exact ⟨.new .., fun _ _ => .inl rfl⟩
  · rw [hvalue]
    refine ⟨(Node.Apt.new ..).fill rfl (.inl rfl), fun h hh => ?_⟩
    rw [(Node.heir_fill _ p).handle r.handle rfl] at hh
    obtain rfl := Option.some.inj hh
    exact Node.Told.fill (.inl rfl) (Node.Apt.new False ..) (hs.cache r.handle p hp)

/-- Children are made for a node that has been there, or that has just begun to be resolved. -/
theorem withChildren (hs : s.Typed D presumed) {id : NodeId} {m n : Node} (hm : s.node? id = some m)
    (hfacts : n.facts = m.facts) (hview : n.view = m.view) (hgen : n.generation = m.generation)
    (rs : List PropertyRef)
    (hlist : m.facts.valueType = none → m.facts.handle = none ∨ presumed id) :
    (s.withChildren id n rs).Typed D presumed := by
  refine hs.of_nodes rfl fun k c hc => ?_
  rcases node?_withChildren_cases hm hc with ⟨rfl, rfl⟩ | ⟨-, hold⟩ | ⟨-, r, -, rfl⟩
  · refine .inr ⟨((hs.apt k m hm).of_facts hfacts hview).list _ (by rwa [hfacts]), ?_⟩
    intro hcurrent h hh
    change n.generation = _ at hcurrent
    change n.facts.handle = _ at hh
    change n.Told _
    rw [hgen] at hcurrent
    rw [hfacts] at hh
    rw [Node.Told, hfacts]
    exact hs.told k m hm hcurrent h hh
  · exact .inl hold
  · obtain ⟨hapt, htold⟩ := hs.childNode id k n r
    exact .inr ⟨hapt, fun _ => htold⟩

theorem populate (hs : s.Typed D presumed) {id : NodeId} {m n : Node} (hm : s.node? id = some m)
    (hfacts : n.facts = m.facts) (hview : n.view = m.view) (hgen : n.generation = m.generation)
    (rs : List PropertyRef)
    (hlist : m.facts.valueType = none → m.facts.handle = none ∨ presumed id) :
    (s.populate id n rs).value.1.Typed D presumed := by
  have hmade := hs.withChildren hm hfacts hview hgen rs hlist
  rcases s.populate_cases id n rs with ⟨-, hvalue⟩ | ⟨-, hvalue⟩
  · rw [hvalue]
    exact hmade.recordOn id .replied
  · rw [hvalue]
    exact hmade

theorem settleOwn (hs : s.Typed D presumed) {id : NodeId} {n : Node} {h : Handle} {p : Payload}
    (hn : s.node? id = some n) (hh : n.facts.handle = some h) (hp : p.described = D h)
    (hfits : n.view = none ∨ n.generation = s.cache.generation) :
    (s.settleOwn id n p).value.1.Typed D presumed := by
  have hfilled := hs.fill hn hh hp hfits
  rcases s.settleOwn_cases id n p with ⟨hpending, hvalue⟩ | ⟨-, hvalue⟩
  · rw [hvalue]
    refine hfilled.populate (node?_setNode_self hn _) rfl rfl rfl _ fun hnone => ?_
    have hcompound := (fill_pending hpending).2
    rw [Facts.isCompound, hnone] at hcompound
    cases hcompound
  · rw [hvalue]
    exact hfilled

/-- An expansion begins where nothing is shown, so it may take a payload of a later suspension. -/
theorem expand (hs : s.Typed D presumed) (hconsistent : s.AllConsistent) (id : NodeId) :
    (s.expand id).value.1.Typed D presumed := by
  rcases s.expand_cases id with ⟨-, hvalue⟩ | ⟨n, hn, -, hres, hcase⟩
  · rw [hvalue]
    exact hs
  have hbegun : (s.setNode id n.begun).Typed D presumed := hs.restate hn rfl rfl rfl
  have hself := node?_setNode_self hn n.begun
  rcases hcase with ⟨rs, hrs, hvalue⟩ | ⟨h, p, -, hh, hp, hvalue⟩ | ⟨h, -, -, -, hvalue⟩
  · rw [hvalue]
    refine hs.populate (n := n.begun) hn rfl rfl rfl rs fun hnone => .inl ?_
    rcases hrs with hsome | ⟨-, hhandle, -⟩
    · rw [((hs.apt id n hn).untyped hnone).2] at hsome
      cases hsome
    · exact hhandle
  · rw [hvalue]
    exact hbegun.settleOwn hself hh (hs.cache h p hp)
      (.inl ((hconsistent id n hn).unresolved hres))
  · rw [hvalue]
    exact hbegun

/-- Properties that the caller gives to a node of which only the handle is known make it presumed. -/
theorem ensureProperties (hs : s.Typed D presumed) (id : NodeId) (rs : List PropertyRef)
    (hpresumed : ∀ n, s.node? id = some n → n.resolution = .unresolved →
      n.facts.valueType = none → n.facts.handle ≠ none → presumed id) :
    (s.ensureProperties id rs).value.1.Typed D presumed := by
  rcases s.ensureProperties_cases id rs with ⟨-, hvalue⟩ | ⟨n, hn, -, hres, hvalue⟩
  · rw [hvalue]
    exact hs
  · rw [hvalue]
    refine hs.populate (n := n.begun) hn rfl rfl rfl rs fun hnone => ?_
    exact or_iff_not_imp_left.2 (hpresumed n hn hres hnone)

end Typed

/-- Within a suspension, what comes in for nodes of that suspension keeps the session typed. -/
theorem Update.typed (h : Update (.describing D fun _ => False) on s s')
    (hon : ∀ id, on id → ∃ n, s.node? id = some n ∧ n.generation = s.cache.generation)
    (hs : s.Typed D presumed) : s'.Typed D presumed := by
  have htells : ∀ {k p}, (Source.describing D fun _ => False).Tells s k p → p.described = D k :=
    fun ht => ht.elim id (hs.cache _ _)
  cases h with
  | @learn k p hp =>
      refine ⟨fun j q hq => ?_, hs.apt, hs.told⟩
      rw [learned, Cache.get?_put] at hq
      split at hq
      · next heq =>
        obtain rfl := Option.some.inj hq
        rw [heq]
        exact hp
      · exact hs.cache j q hq
  | @fill id n k p hid hn hk hp =>
      obtain ⟨m, hm, hgen⟩ := hon id hid
      obtain rfl := Option.some.inj (hn.symm.trans hm)
      exact hs.fill hn hk (htells hp) (.inr hgen)
  | begin _ hn _ => exact hs.restate hn rfl rfl rfl
  | @list id n rs _ hn _ hlists =>
      refine hs.withChildren hn rfl rfl rfl rs fun hnone => .inl ?_
      rcases hlists with hfalse | hsome | hcompound
      · exact hfalse.elim
      · rw [((hs.apt id n hn).untyped hnone).2] at hsome
        cases hsome
      · -- What has a handle has been made compound by a payload, so its type is known.
        refine Option.eq_none_iff_forall_ne_some.2 fun k hk => ?_
        have hknown := (hcompound k hk).1
        rw [Facts.isCompound, hnone] at hknown
        cases hknown
  | reply _ _ _ => exact hs.recordOn _ _
  | fail _ => exact hs.recordOn _ _
  | @bind frame name p hp =>
      refine hs.of_nodes rfl fun k n hn => ?_
      rw [node?_addNode] at hn
      split at hn
      · obtain rfl := Option.some.inj hn
        exact .inr ⟨.ofBinding .., fun _ h hh => Node.told_ofBinding hp hh⟩
      · exact .inl hn
  | enter _ _ => exact hs.of_nodes rfl fun _ _ hn => .inl hn
  | ask _ => exact hs.of_nodes rfl fun _ _ hn => .inl hn
  | manage hcache hnodes _ =>
      refine hs.of_nodes hcache fun k n hn => .inl ?_
      rwa [node?, ← hnodes]

theorem Updates.typed (h : Updates (.describing D fun _ => False) on s s')
    (hon : ∀ id, on id → ∃ n, s.node? id = some n ∧ n.generation = s.cache.generation)
    (hs : s.Typed D presumed) : s'.Typed D presumed := by
  induction h with
  | refl => exact hs
  | @tail t u hfirst hlast ih =>
      refine hlast.typed (fun id hid => ?_) ih
      obtain ⟨n, hn, hgen⟩ := hon id hid
      obtain ⟨n', hn', heir⟩ := (Updates.grows hfirst).nodes id n hn
      exact ⟨n', hn', by rw [heir.generation, hgen, Updates.generation hfirst]⟩

end Session

/-! ### Runs -/

namespace Inquiry

/-- All payloads for a handle during a suspension describe a value of one type and class. -/
def Agreed (T : Nat → Typing) : Inquiry → List Move → Prop
  | _, [] => True
  | w, m :: moves =>
    w.Supplied (.describing (T w.session.cache.generation) fun _ => True) m ∧
      Agreed T (w.step m) moves

/-- A caller has given properties to the node when nothing but the handle was known of its value. -/
def Presumed (options : LookupOptions) (moves : List Move) (id : NodeId) : Prop :=
  ∃ before refs, before ++ [.ensureProperties id refs] <+: moves ∧
    ∃ n, (run options before).session.node? id = some n ∧ n.resolution = .unresolved ∧
      n.facts.valueType = none ∧ n.facts.handle ≠ none

theorem Presumed.mono {options : LookupOptions} {moves moves' : List Move} {id : NodeId}
    (h : Presumed options moves id) (hlonger : moves <+: moves') : Presumed options moves' id := by
  obtain ⟨before, refs, hbefore, hn⟩ := h
  exact ⟨before, refs, hbefore.trans hlonger, hn⟩

theorem agreed_concat {T : Nat → Typing} {w : Inquiry} {moves : List Move} {m : Move} :
    Agreed T w (moves ++ [m]) ↔ Agreed T w moves ∧ (w.after moves).Supplied
      (.describing (T (w.after moves).session.cache.generation) fun _ => True) m := by
  induction moves generalizing w with
  | nil => exact ⟨fun h => ⟨trivial, h.1⟩, fun h => ⟨h.2, trivial⟩⟩
  | cons m' moves ih =>
      rw [List.cons_append, Agreed, Agreed, ih, and_assoc]
      rfl

/-- Only where a caller gives properties does it matter that it may. -/
theorem supplied_unlisted {D : Typing} {w : Inquiry} {m : Move}
    (hproperties : ∀ id refs, m ≠ .ensureProperties id refs)
    (h : w.Supplied (.describing D fun _ => True) m) :
    w.Supplied (.describing D fun _ => False) m := by
  cases m with
  | ensureProperties id refs => exact (hproperties id refs rfl).elim
  | settle place o =>
      intro q hq hgen e he
      obtain ⟨hreply, hrefs⟩ := h q hq hgen e he
      exact ⟨hreply, hrefs⟩
  | _ => exact h

theorem step_typed {T : Nat → Typing} {presumed : NodeId → Prop} {w : Inquiry} (hw : w.Coherent)
    (hconsistent : w.session.AllConsistent) {m : Move}
    (hsupplied : w.Supplied (.describing (T w.session.cache.generation) fun _ => True) m)
    (hpresumed : ∀ id refs, m = .ensureProperties id refs → ∀ n, w.session.node? id = some n →
      n.resolution = .unresolved → n.facts.valueType = none → n.facts.handle ≠ none → presumed id)
    (hs : w.session.Typed (T w.session.cache.generation) presumed) :
    (w.step m).session.Typed (T (w.step m).session.cache.generation) presumed := by
  by_cases hm : m.Ends
  · -- Nothing is cached in the suspension to come, and no node is of its generation.
    obtain ⟨current, table, hstep⟩ := step_ends hm
    rw [hstep]
    refine ⟨fun h p hp => ?_, hs.apt, fun id n hn hgen => ?_⟩
    · cases hp
    · have hle := hw.dated.nodes id n hn
      change n.generation = w.session.cache.generation + 1 at hgen
      omega
  rw [step_generation hw hm]
  by_cases hproperties : ∃ id refs, m = .ensureProperties id refs
  · obtain ⟨id, refs, rfl⟩ := hproperties
    rw [step, issue_session]
    exact hs.ensureProperties id refs (hpresumed id refs rfl)
  by_cases hexpand : ∃ id, m = .expand id
  · obtain ⟨id, rfl⟩ := hexpand
    rw [step, issue_session]
    exact hs.expand hconsistent id
  · have hnot : ∀ id refs, m ≠ .ensureProperties id refs :=
      fun id refs heq => hproperties ⟨id, refs, heq⟩
    refine Session.Updates.typed (step_updates hw hm (supplied_unlisted hnot hsupplied))
      (fun id hid => ?_) hs
    exact touches_present hw (fun k heq => hexpand ⟨k, heq⟩) hnot hid

theorem typed_run {T : Nat → Typing} {options : LookupOptions} {moves : List Move}
    (h : Agreed T { session := { options := options } } moves) :
    (run options moves).session.Typed (T (run options moves).session.cache.generation)
      (Presumed options moves) := by
  induction moves using List.reverseRecOn with
  | nil =>
      refine ⟨fun k p hp => ?_, fun id n hn => ?_, fun id n hn => ?_⟩
      · simp [run, after, Cache.get?] at hp
      · simp [run, after, Session.node?] at hn
      · simp [run, after, Session.node?] at hn
  | append_singleton moves m ih =>
      obtain ⟨hmoves, hsupplied⟩ := agreed_concat.1 h
      have hlonger : moves <+: moves ++ [m] := List.prefix_append _ _
      have hbefore := ih hmoves
      rw [run_append, after_singleton]
      refine step_typed (coherent_run options moves) (consistent_run options moves) hsupplied ?_
        ⟨hbefore.cache, fun id n hn => (hbefore.apt id n hn).mono (Presumed.mono · hlonger),
          hbefore.told⟩
      rintro id refs rfl n hn hres htype hhandle
      exact ⟨moves, refs, List.prefix_refl _, n, hn, hres, htype, hhandle⟩

/-! ### Views and declared types -/

end Inquiry

/-- A view has this type, is an array's exactly if the type is, and has this class if the type is
compound. -/
structure View.Agrees (v : View) (t : ValueType) (className : Option String) : Prop where
  valueType : v.valueType = t
  array : (∃ c children, v = .array c children) ↔ t = .array
  className : t.isCompound = true → v.className? = className

theorem Node.agrees_compoundView {n : Node} {t : ValueType} (ht : n.facts.valueType = some t)
    (children : List NodeId) : (n.compoundView children).Agrees t n.facts.className := by
  rw [compoundView, ht]
  cases t with
  | array => exact ⟨rfl, iff_of_true ⟨_, _, rfl⟩ rfl, fun _ => rfl⟩
  | _ =>
      refine ⟨rfl, iff_of_false ?_ ?_, fun _ => rfl⟩
      · rintro ⟨_, _, hview⟩
        cases hview
      · rintro ⟨⟩

theorem Node.Consistent.agrees_scalar {n : Node} (hn : n.Consistent) {t u : ValueType} {text : String}
    (ht : n.facts.valueType = some t) (hview : n.view = some (.scalar u text)) :
    (View.scalar u text).Agrees t n.facts.className := by
  obtain ⟨-, htype, -⟩ := hn.shows u text hview
  obtain rfl := Option.some.inj (ht.symm.trans htype)
  obtain ⟨t', ht', hscalar⟩ := hn.scalar.1 ⟨t, text, hview⟩
  obtain rfl := Option.some.inj (ht.symm.trans ht')
  refine ⟨rfl, iff_of_false nofun ?_, fun hcompound => ?_⟩
  · rintro rfl
    cases hscalar
  · rw [hscalar] at hcompound
    cases hcompound

namespace Inquiry

/-- If all payloads for a handle agree, what a node shows agrees with its declared type and class, save
that a node whose type was presumed may be shown as a plain object. -/
theorem view_agrees_or_presumed (T : Nat → Typing) (options : LookupOptions) (moves : List Move)
    (hagreed : Agreed T { session := { options := options } } moves) (id : NodeId) (n : Node)
    (hn : (run options moves).session.node? id = some n) (v : View) (hshown : n.shown = some v)
    (t : ValueType) (ht : n.facts.valueType = some t) :
    v.Agrees t n.facts.className ∨
      Presumed options moves id ∧ ∃ children, v = .object .object none children := by
  have hview : n.view = some v := by
    unfold Node.shown at hshown
    split at hshown
    · cases hshown
    · cases hshown
    · exact hshown
    · exact hshown
  rcases ((typed_run hagreed).apt id n hn).view v hview with
    ⟨u, text, rfl⟩ | ⟨children, rfl, -⟩ | hpresumed
  · exact .inl ((consistent_run options moves id n hn).agrees_scalar ht hview)
  · exact .inl (Node.agrees_compoundView ht children)
  · exact .inr hpresumed

/-- The handle 7 stands for an array, all others for numbers. -/
def oneArray : Nat → Typing := fun _ h => if h = 7 then (.array, some "Array") else (.number, none)

def arrayReply : Envelope :=
  let element := Json.object [("name", .string "0"), ("ref", .ofUInt64 8)]
  .response 1 "lookup" true (some (.object [("7", .object [("type", .string "object"),
    ("className", .string "Array"), ("properties", .array [element])])]))

/-- Whatever is asked for, the reply describes the array. -/
theorem supplied_arrayReply (w : Inquiry) (generation place : Nat) :
    w.Supplied (.describing (oneArray generation) fun _ => True) (.settle place (.ok arrayReply)) := by
  intro q _ _ e he
  have hsuccess : Session.successful? (.ok arrayReply) = some arrayReply := by rfl
  obtain rfl : arrayReply = e := Option.some.inj (hsuccess.symm.trans he)
  refine ⟨fun h _ p hp => ?_, nofun⟩
  have hpayloads : (LookupReply.ofEnvelope arrayReply).payloads = [(7,
      { handle := some 7, tag := some "object", className := some "Array",
        properties := [⟨"0", 8⟩] })] := by decide +kernel
  rw [LookupReply.get?, hpayloads, List.lookup_cons] at hp
  split at hp
  · next heq =>
    obtain rfl := Option.some.inj hp
    obtain rfl := eq_of_beq heq
    rfl
  · cases hp

/-- A variable is asked for with its frame and by its expansion, and both are answered. -/
def askedForTwice : List Move :=
  [.createFrame 0 "main" [⟨"x", { handle := some 7 }⟩], .ensureVariables 0, .expand 0,
    .settle 0 (.ok arrayReply), .settle 0 (.ok arrayReply)]

theorem view_agrees_or_presumed_array :
    Agreed oneArray {} askedForTwice ∧ ∃ n children, (run {} askedForTwice).session.node? 0 = some n ∧
      n.shown = some (.array (some "Array") children) ∧ n.facts.valueType = some .array ∧
      (View.array (some "Array") children).Agrees .array n.facts.className := by
  have hagreed : Agreed oneArray {} askedForTwice := by
    refine ⟨?_, trivial, trivial, supplied_arrayReply _ _ _, supplied_arrayReply _ _ _, trivial⟩
    exact List.forall_mem_singleton.2 fun _ _ => by rintro ⟨⟩
  have hnode : ((run {} askedForTwice).session.node? 0).map
      (fun n => (n.shown, n.facts.valueType)) =
        some (some (.array (some "Array") [1]), some .array) := by decide +kernel
  obtain ⟨n, hn, hsays⟩ := Option.map_eq_some_iff.1 hnode
  obtain ⟨hview, htype⟩ := Prod.mk.inj hsays
  refine ⟨hagreed, n, [1], hn, hview, htype, ?_⟩
  refine (view_agrees_or_presumed oneArray {} askedForTwice hagreed 0 n hn _ hview .array
    htype).resolve_right ?_
  rintro ⟨-, children, hview⟩
  cases hview

def givenEarly : List Move :=
  [.createFrame 0 "main" [⟨"x", { handle := some 7 }⟩], .ensureVariables 0,
    .ensureProperties 0 [⟨"0", 8⟩], .settle 0 (.ok arrayReply)]

/-- All payloads agree, and yet the array is shown as a plain object without a class. -/
theorem presumed_array_shown_as_object :
    Agreed oneArray {} givenEarly ∧ ∃ n children, (run {} givenEarly).session.node? 0 = some n ∧
      n.shown = some (.object .object none children) ∧ n.facts.valueType = some .array ∧
      n.facts.className = some "Array" ∧
      ¬(View.object .object none children).Agrees .array (some "Array") := by
  have hnode : ((run {} givenEarly).session.node? 0).map
      (fun n => (n.shown, n.facts.valueType, n.facts.className)) =
        some (some (.object .object none [1]), some .array, some "Array") := by decide +kernel
  obtain ⟨n, hn, hsays⟩ := Option.map_eq_some_iff.1 hnode
  obtain ⟨hview, hfacts⟩ := Prod.mk.inj hsays
  obtain ⟨htype, hclass⟩ := Prod.mk.inj hfacts
  refine ⟨⟨?_, trivial, trivial, supplied_arrayReply _ _ _, trivial⟩, n, [1], hn, hview, htype,
    hclass, ?_⟩
  · exact List.forall_mem_singleton.2 fun _ _ => by rintro ⟨⟩
  · intro hagrees
    cases hagrees.valueType

end Inquiry

end RemoteInspector
