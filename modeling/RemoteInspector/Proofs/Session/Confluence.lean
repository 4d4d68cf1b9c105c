import RemoteInspector.Proofs.Session.Foreseen

/-!
The order of the replies does not matter. No answer of the machine changes what is foreseen of a node,
neither of one that waits for it nor of any other, and when nothing is under way what is foreseen is what
is seen. So all runs that answer the same lookups end alike.
-/

namespace RemoteInspector

namespace Inquiry

variable {T : Machine} {w : Inquiry} {id : NodeId}

section

variable {place : Nat} {q : Query} {o : Outcome} {e : Envelope}

/-- A node that leads a batch has begun to be resolved and shows whom it waits for. -/
theorem parent_of_leads (h : w.Poised T) (hq : q ∈ w.underWay) {id : NodeId}
    (hleads : q.lookup.waiting.leads id = true) {n : Node} (hn : w.session.node? id = some n) :
    n.generation = q.lookup.waiting.generation ∧ n.view.isSome ∧ n.resolution ≠ .unresolved := by
  obtain ⟨past, hspent⟩ := h.spent
  obtain ⟨m, hm, hgen, hview⟩ :=
    (h.coherent.posed q hq).parent id (by simpa [Waiting.leads] using hleads)
  obtain ⟨m', hm', hbegun⟩ : w.session.Marked (.properties id) :=
    purpose_of_leads hleads ▸ hspent.marked _ (hspent.underWay q hq)
  rw [hn] at hm hm'
  obtain rfl := Option.some.inj hm
  obtain rfl := Option.some.inj hm'
  exact ⟨hgen, hview, hbegun⟩

/-- The same is foreseen of a node after a move, and of those that it lists. -/
structure Foretells (T : Machine) (w w' : Inquiry) (id : NodeId) (n n' : Node) : Prop where
  heir : n.Heir n'
  children : n'.children = n.children
  ending : (w'.ending T id n').sight = (w.ending T id n).sight
  coming : w'.coming T id n' = w.coming T id n

theorem batch_foretells (h : w.Poised T) (hanswers : w.Answers T (.settle place o))
    (hq : w.underWay[place]? = some q)
    (hcurrent : q.lookup.waiting.generation = w.session.cache.generation) {g : Nat}
    {awaited : List (Handle × NodeId)} {parent : Option NodeId}
    (hwait : q.lookup.waiting = .batch g awaited parent) {id : NodeId} {n : Node}
    (hn : w.session.node? id = some n) :
    ∃ n', (w.step (.settle place o)).session.node? id = some n' ∧
      Foretells T w (w.step (.settle place o)) id n n' := by
  obtain ⟨e, hanswer⟩ := hanswers q hq hcurrent
  obtain ⟨t, m, hupdates, hm, hchildren, hcore, hn'⟩ :=
    batch_node h hq hcurrent hanswer hwait hn
  obtain ⟨n₁, hn₁, heir⟩ := (step_grows h.coherent (.settle place o)).nodes id n hn
  rw [hn'] at hn₁
  obtain ⟨hawaits, howns, hleads⟩ := expects_answer h hanswers hq hcurrent
    (Session.lt_size_of_node? hn)
  have hbefore : ∀ means, w.expects means id = (w.session.isAlive id &&
      (means q.lookup.waiting id || w.others place means id)) := by
    intro means
    rw [expects_before hq, Session.isCurrent_iff.2 hcurrent, Bool.true_and]
  have hnone : q.lookup.waiting.owns id = false := by rw [hwait]; rfl
  have hhandle : m.facts.handle = n.facts.handle := by
    have hframe := (n.informed_frame (n.facts.handle.bind T)
      (w.session.isAlive id && q.lookup.waiting.awaits id)).2.2
    rw [← hcore] at hframe
    exact hframe
  have hsame : m.core = (n.informed (n.facts.handle.bind T)
      (w.session.isAlive id && q.lookup.waiting.awaits id)).core := by rw [hcore, Node.core_informed]
  have hlate : ((w.step (.settle place o)).expects Waiting.awaits id ||
      (w.session.isAlive id && q.lookup.waiting.awaits id)) = w.expects Waiting.awaits id := by
    rw [hawaits, hbefore, ← Bool.and_or_distrib_left, Bool.or_comm]
  have howns' : (w.step (.settle place o)).expects Waiting.owns id = w.expects Waiting.owns id := by
    rw [howns, hbefore, hnone, Bool.false_or]
  by_cases hlead : (w.session.isAlive id && q.lookup.waiting.leads id) = true
  · -- The node is answered: it does not wait for its own payload, and what it lists is known.
    obtain ⟨past, hspent⟩ := h.spent
    obtain ⟨halive, hleads'⟩ := Bool.and_eq_true_iff.1 hlead
    obtain ⟨hgen, hview, hbegun⟩ := parent_of_leads h (List.mem_of_getElem? hq) hleads' hn
    obtain ⟨m', hm', hheir⟩ := (Session.Updates.grows hupdates).nodes id n hn
    rw [hm] at hm'
    obtain rfl := Option.some.inj hm'
    have hbegun := hheir.begun hbegun
    have hcurrent' : m.generation = t.cache.generation := by
      rw [hheir.generation, hgen, hcurrent, Session.Updates.generation hupdates]
    have hreports := fun hfinal => Session.reports_of_shown
      (Session.Updates.known hupdates h.faithful h.known) hm
      (Session.Updates.consistent hupdates h.consistent id m hm) hcurrent' hfinal (hheir.view hview)
    have hnot := not_owns_of_leads hspent (List.mem_of_getElem? hq) (purpose_of_leads hleads')
    have hcoming : ∀ (v : Inquiry) (k : Node), v.expects Waiting.owns id = false →
        v.coming T id k = none := fun v k hv => by rw [coming, hv]; rfl
    have hleads : w.expects Waiting.leads id = true := by rw [hbefore, hleads', halive]; rfl
    rw [if_pos hlead] at hn' hn₁
    obtain rfl := Option.some.inj hn₁
    refine ⟨_, hn', heir, ?_, ?_, ?_⟩
    · rw [Node.record_value]
      exact hchildren
    · have hreplied : ∀ awaited leads, (m.record .replied).value.settled
          (n.facts.handle.bind T) awaited false leads = _ :=
        Node.settled_replied hbegun fun hfinal p hp => hreports hfinal p (by rwa [hhandle])
      have hbind : (m.record .replied).value.facts.handle.bind T = n.facts.handle.bind T := by
        rw [Node.record_value]
        exact congrArg (Option.bind · T) hhandle
      rw [ending, ending, howns', hnot, hleads, hbind, hreplied, Node.settled_informed hcore, hlate]
    · rw [hcoming _ _ hnot, hcoming _ _ (howns'.trans hnot)]
  · rw [if_neg hlead] at hn' hn₁
    obtain rfl := Option.some.inj hn₁
    have hleads'' : (w.step (.settle place o)).expects Waiting.leads id =
        w.expects Waiting.leads id := by
      rw [hleads, hbefore, hnone, Bool.and_false, Bool.or_false, Bool.and_or_distrib_left,
        Bool.eq_false_iff.2 hlead, Bool.false_or]
    refine ⟨m, hn', heir, hchildren, ?_, ?_⟩
    · rw [ending, ending, howns', hleads'', hhandle, Node.settled_informed hcore, hlate]
    · rw [coming, coming, howns', hhandle]
      cases hp : n.facts.handle.bind T with
      | none => rfl
      | some p =>
          have htold : m.told p = n.told p := by
            have hpast := Node.informed_congr hsame (some p) true
            rw [hp, Node.informed_informed] at hpast
            exact hpast
          rw [Option.bind_some, Option.bind_some, htold]

/-- A node that stays as it is, and expects what it has expected, comes to the same end. -/
theorem foretells_same {w' : Inquiry} {id : NodeId} (n : Node)
    (hawaits : w'.expects Waiting.awaits id = w.expects Waiting.awaits id)
    (howns : w'.expects Waiting.owns id = w.expects Waiting.owns id)
    (hleads : w'.expects Waiting.leads id = w.expects Waiting.leads id) :
    Foretells T w w' id n n where
  heir := .refl n
  children := rfl
  ending := by rw [ending, ending, hawaits, howns, hleads]
  coming := by rw [coming, coming, howns]

/-- An outcome for an earlier suspension changes nothing. -/
theorem stale_foretells (hq : w.underWay[place]? = some q)
    (hstale : q.lookup.waiting.generation ≠ w.session.cache.generation) {id : NodeId} (n : Node) :
    (w.step (.settle place o)).session = w.session ∧
      Foretells T w (w.step (.settle place o)) id n n := by
  have hsession : w.step (.settle place o) =
      { w with underWay := w.underWay.eraseIdx place } := by
    simp only [step, hq, Session.deliver_stale hstale o]
    rfl
  have hnot : w.session.isCurrent q.lookup.waiting.generation = false := by
    rw [← Bool.not_eq_true, Session.isCurrent_iff]
    exact hstale
  have hsame : ∀ means, (w.step (.settle place o)).expects means id = w.expects means id := by
    intro means
    rw [expects_before hq, hnot, Bool.false_and, Bool.false_or, hsession]
    rfl
  exact ⟨by rw [hsession], foretells_same n (hsame _) (hsame _) (hsame _)⟩

/-- An answer for one node does not concern the others. -/
theorem own_foretells (h : w.Poised T) (hanswers : w.Answers T (.settle place o))
    (hq : w.underWay[place]? = some q)
    (hcurrent : q.lookup.waiting.generation = w.session.cache.generation) {g : Nat} {k : NodeId}
    {handle : Handle} (hwait : q.lookup.waiting = .own g k handle) {id : NodeId}
    (hid : id ≠ k ∨ w.session.isAlive id = false) {n : Node} (hn : w.session.node? id = some n) :
    (w.step (.settle place o)).session.node? id = some n ∧
      Foretells T w (w.step (.settle place o)) id n n := by
  obtain ⟨hawaits, howns, hleads⟩ := expects_answer h hanswers hq hcurrent
    (Session.lt_size_of_node? hn)
  have hkept : (w.step (.settle place o)).session.node? id = some n := by
    by_cases hsame : id = k
    · subst hsame
      have hgone : w.session.isAlive id = false := hid.resolve_left fun hne => hne rfl
      simp only [step, hq, issue_session, hwait, Session.deliver, Session.deliverOwn_gone hgone]
      exact hn
    · exact own_kept h hanswers hq hwait hsame hn
  have hbefore : ∀ means, (id ≠ k → means q.lookup.waiting id = false) →
      w.expects means id = (w.session.isAlive id && w.others place means id) := by
    intro means hmeans
    rw [expects_before hq]
    rcases hid with hne | hgone
    · rw [hmeans hne, Bool.and_false, Bool.false_or]
    · rw [hgone, Bool.false_and, Bool.false_and]
  have hnotOwn : id ≠ k → q.lookup.waiting.owns id = false := by
    intro hne
    rw [hwait]
    exact beq_false_of_ne (Ne.symm hne)
  have hnews : (w.session.isAlive id && ((w.session.deliver q.lookup.waiting o).value.2.isSome &&
      q.lookup.waiting.owns id)) = false := by
    rcases hid with hne | hgone
    · rw [hnotOwn hne, Bool.and_false, Bool.and_false]
    · rw [hgone, Bool.false_and]
  refine ⟨hkept, foretells_same n ?_ ?_ ?_⟩
  · rw [hawaits, hbefore]
    intro hne
    simpa [hwait, Waiting.awaits, Waiting.awaited] using hne
  · rw [howns, hbefore _ hnotOwn]
  · rw [hleads, hbefore, Bool.and_or_distrib_left, hnews, Bool.or_false]
    intro _
    rw [hwait]
    rfl

/-- What holds of a node that waits for its own payload. -/
theorem own_waits (h : w.Poised T) (hq : w.underWay[place]? = some q) {g : Nat} {id : NodeId}
    {handle : Handle} (hwait : q.lookup.waiting = .own g id handle) {n : Node}
    (hn : w.session.node? id = some n) :
    n.facts.handle = some handle ∧ n.generation = q.lookup.waiting.generation ∧
      n.resolution ≠ .unresolved ∧ n.children = [] := by
  obtain ⟨past, hspent⟩ := h.spent
  have hmem := List.mem_of_getElem? hq
  have hpurpose : q.purpose = .payload id := by simp [Query.purpose, hwait]
  obtain ⟨m, hm, hgen, hh⟩ :=
    (h.coherent.posed q hmem).awaited (handle, id) (by simp [hwait, Waiting.awaited])
  obtain ⟨m', hm', hbegun⟩ : w.session.Marked (.payload id) :=
    hpurpose ▸ hspent.marked _ (hspent.underWay q hmem)
  rw [hn] at hm hm'
  obtain rfl := Option.some.inj hm
  obtain rfl := Option.some.inj hm'
  exact ⟨hh, hgen, hbegun, h.childless q hmem id hpurpose n hn⟩

/-- The payload of the node has come: what is foreseen of the new nodes that it lists now was foreseen
of those that were to come. -/
structure Brings (T : Machine) (w w' : Inquiry) (id : NodeId) (n n' : Node) (refs : List PropertyRef) :
    Prop where
  ending : (w'.ending T id n').sight = (w.ending T id n).sight
  before : w.coming T id n = some refs
  after : w'.coming T id n' = none
  children : n'.children = List.range' w.session.nodes.size (visible refs).length
  foreseen : ∀ i r, (visible refs)[i]? = some r → ∀ places,
    w'.foreseen T (w.session.nodes.size + i) places =
      if places.isEmpty then some ((n.child id r).informed (T r.handle) true).sight else none

/-- Nobody waits for a node that is not there yet. -/
theorem others_new (hw : w.Coherent) (place : Nat) {id : NodeId}
    (hid : w.session.nodes.size ≤ id) :
    w.others place Waiting.awaits id = false ∧ w.others place Waiting.owns id = false ∧
      w.others place Waiting.leads id = false := by
  have hthere : ∀ n, w.session.node? id ≠ some n := fun n hn =>
    Nat.not_lt.2 hid (Session.lt_size_of_node? hn)
  have hnone : ∀ means : Waiting → NodeId → Bool,
      (∀ q ∈ w.underWay, means q.lookup.waiting id = true → ∃ n, w.session.node? id = some n) →
      w.others place means id = false := by
    intro means hmeans
    rw [others, List.any_eq_false]
    intro q hq hmeant
    obtain ⟨n, hn⟩ :=
      hmeans q (List.mem_of_mem_eraseIdx hq) (Bool.and_eq_true_iff.1 hmeant).2
    exact hthere n hn
  have hawaited : ∀ q ∈ w.underWay, q.lookup.waiting.awaits id = true →
      ∃ n, w.session.node? id = some n := by
    intro q hq hawaits
    obtain ⟨x, hx, rfl⟩ := List.mem_map.1 (List.contains_iff_mem.1 hawaits)
    obtain ⟨n, hn, -⟩ := (hw.posed q hq).awaited x hx
    exact ⟨n, hn⟩
  refine ⟨hnone _ hawaited, hnone _ fun q hq howns => ?_, hnone _ fun q hq hleads => ?_⟩
  · refine hawaited q hq ?_
    cases hwait : q.lookup.waiting with
    | batch g awaited parent =>
        rw [hwait] at howns
        cases howns
    | own g k handle =>
        rw [hwait] at howns
        obtain rfl : k = id := by simpa [Waiting.owns] using howns
        simp [Waiting.awaits, Waiting.awaited]
  · obtain ⟨n, hn, -⟩ := (hw.posed q hq).parent id (by simpa [Waiting.leads] using hleads)
    exact ⟨n, hn⟩

/-- The end of a new node is what the machine reports for it, and it lists nothing. -/
theorem new_foreseen (h : w.Poised T) (hanswers : w.Answers T (.settle place o))
    (hq : w.underWay[place]? = some q)
    (hcurrent : q.lookup.waiting.generation = w.session.cache.generation) {id : NodeId}
    (halive : w.session.isAlive id = true) (hid : id < w.session.nodes.size) {n' c m : Node}
    {k : NodeId} {p? : Option Payload} (hk : w.session.nodes.size ≤ k)
    (hn' : (w.step (.settle place o)).session.node? id = some n') (hlists : k ∈ n'.children)
    (hc : (w.step (.settle place o)).session.node? k = some c) (howner : c.owner = .node id)
    (hchildless : c.children = []) (hp : c.facts.handle.bind T = p?)
    (hinformed : c.informed p? ((w.session.deliver q.lookup.waiting o).value.2.any fun l =>
      l.waiting.awaits k) = m) (places : List Nat) :
    (w.step (.settle place o)).foreseen T k places =
      if places.isEmpty then some m.sight else none := by
  have hlt : id < k := Nat.lt_of_lt_of_le hid hk
  have hparent := ((answer_keeps h hanswers hq hcurrent).isAlive hid).trans halive
  have hlives : (w.step (.settle place o)).session.isAlive k = true :=
    Session.isAlive_iff.2 (.inr ⟨c, hc, .inr ⟨id, n', howner, hlt, hn', hlists, hparent⟩⟩)
  obtain ⟨hawaits, howns, hleads⟩ := others_new h.coherent place hk
  have hafter := fun means => expects_after h.coherent hq hcurrent o means k
  -- What it expects, it expects of the new batch.
  have hnews : ∀ l, (w.session.deliver q.lookup.waiting o).value.2 = some l →
      l.waiting.owns k = false ∧ l.waiting.leads k = false := by
    intro l hl
    obtain ⟨g, k', handle, g', awaited, hown, hbatch, -⟩ := news_of_answer h hq hl
    obtain ⟨n₀, hn₀, -⟩ := (h.coherent.posed q (List.mem_of_getElem? hq)).awaited (handle, k')
      (by simp [hown, Waiting.awaited])
    have hne : k' ≠ k := Nat.ne_of_lt (Nat.lt_of_lt_of_le (Session.lt_size_of_node? hn₀) hk)
    rw [hbatch]
    exact ⟨rfl, by simpa [Waiting.leads, Waiting.parent?] using hne⟩
  have howns' : (w.step (.settle place o)).expects Waiting.owns k = false := by
    rw [hafter, hlives, howns]
    cases hl : (w.session.deliver q.lookup.waiting o).value.2 with
    | none => rfl
    | some l => simp [(hnews l hl).1]
  have hleads' : (w.step (.settle place o)).expects Waiting.leads k = false := by
    rw [hafter, hlives, hleads]
    cases hl : (w.session.deliver q.lookup.waiting o).value.2 with
    | none => rfl
    | some l => simp [(hnews l hl).2]
  have hend : (w.step (.settle place o)).ending T k c = m := by
    rw [ending, howns', hleads', hafter, hlives, hawaits, Bool.true_and, Bool.false_or, hp,
      Node.settled, hinformed, Node.finish_idle]
  cases places with
  | nil => simp [foreseen, hc, hend]
  | cons i places => simp [foreseen, hc, coming, howns', hchildless]

/-! ### The payload of a node comes -/

section

variable {g : Nat} {id : NodeId} {handle : Handle} {n : Node}
variable (h : w.Poised T) (hanswers : w.Answers T (.settle place o))
variable (hq : w.underWay[place]? = some q)
variable (hcurrent : q.lookup.waiting.generation = w.session.cache.generation)
variable (hwait : q.lookup.waiting = .own g id handle) (halive : w.session.isAlive id = true)
variable (hn : w.session.node? id = some n)

include h hanswers hq hcurrent hwait halive hn

/-- What such a node expects before its payload comes, and that it does not expect it any more. -/
theorem own_expects :
    w.expects Waiting.awaits id = true ∧ w.expects Waiting.owns id = true ∧
      (w.step (.settle place o)).expects Waiting.owns id = false := by
  obtain ⟨past, hspent⟩ := h.spent
  have hgen := Session.isCurrent_iff.2 hcurrent
  have hpurpose : q.purpose = .payload id := by simp [Query.purpose, hwait]
  refine ⟨?_, ?_, ?_⟩
  · rw [expects_before hq, halive, hgen, hwait]
    simp [Waiting.awaits, Waiting.awaited]
  · rw [expects_before hq, halive, hgen, hwait]
    simp [Waiting.owns]
  · rw [(expects_answer h hanswers hq hcurrent (Session.lt_size_of_node? hn)).2.1,
      others_owns hspent hq hpurpose, Bool.and_false]

/-- What becomes of the session when the payload comes, or is missing. -/
theorem own_delivered : ∃ s, Session.Updates (.trueTo T) (fun _ => True) w.session s ∧
    s.node? id = some n ∧ s.nodes.size = w.session.nodes.size ∧
    (w.session.deliver q.lookup.waiting o).value =
      (T handle).elim ((s.recordOn id .failed).value, none)
        fun p => ((s.learned handle p).settleOwn id n p).value := by
  obtain ⟨e, hanswer⟩ := hanswers q hq hcurrent
  have hreply : (LookupReply.ofEnvelope e).get? handle = T handle :=
    hanswer.reply handle ((h.coherent.posed q (List.mem_of_getElem? hq)).asked (handle, id)
      (by simp [hwait, Waiting.awaited]))
  have hgen : g = w.session.cache.generation := by simpa [hwait, Waiting.generation] using hcurrent
  refine ⟨w.session.seedRefs e, Session.seedRefs_updates hanswer.refs,
    (Session.seedRefs_node? _ e id).trans hn, Session.size_seedRefs _ e, ?_⟩
  rw [hwait]
  exact Session.deliverOwn_answered hgen halive hn hanswer.successful hreply

/-- Nothing is reported for the node, and it fails. -/
theorem own_fails (hnone : T handle = none) :
    ∃ n', (w.step (.settle place o)).session.node? id = some n' ∧
      Foretells T w (w.step (.settle place o)) id n n' := by
  obtain ⟨hh, -⟩ := own_waits h hq hwait hn
  obtain ⟨hawaits, howns, howns'⟩ := own_expects h hanswers hq hcurrent hwait halive hn
  obtain ⟨s, -, hs, -, hdelivered⟩ := own_delivered h hanswers hq hcurrent hwait halive hn
  rw [hnone, Option.elim_none] at hdelivered
  have hbind : n.facts.handle.bind T = none := by rw [hh, Option.bind_some, hnone]
  have hbind' : (n.record .failed).value.facts.handle.bind T = none := by
    rw [Node.record_value]
    exact hbind
  refine ⟨(n.record .failed).value, ?_, n.heir_record .failed, ?_, ?_, ?_⟩
  · rw [step_settle hq, hdelivered]
    exact Session.node?_recordOn_self hs .failed
  · rw [Node.record_value]
    rfl
  · rw [ending, ending, hbind, hbind', hawaits, howns, Node.settled_failed]
  · rw [coming, coming, howns', howns, hbind]
    rfl

variable {p : Payload} (hp : T handle = some p)

include hp

/-- The payload settles the node. -/
theorem own_settles (hsettled : (n.fill p).value.resolution ≠ .pending) :
    ∃ n', (w.step (.settle place o)).session.node? id = some n' ∧
      Foretells T w (w.step (.settle place o)) id n n' := by
  obtain ⟨hh, -, hbegun, hchildless⟩ := own_waits h hq hwait hn
  obtain ⟨hawaits, howns, howns'⟩ := own_expects h hanswers hq hcurrent hwait halive hn
  obtain ⟨s, -, hs, -, hdelivered⟩ := own_delivered h hanswers hq hcurrent hwait halive hn
  rw [hp, Option.elim_some] at hdelivered
  rcases (s.learned handle p).settleOwn_cases id n p with ⟨hpending, -⟩ | ⟨-, hvalue⟩
  · exact (hsettled hpending).elim
  rw [hvalue] at hdelivered
  have hbind : n.facts.handle.bind T = some p := by rw [hh, Option.bind_some, hp]
  have hcore : (n.fill p).value.core = n.told p := Node.core_fill (by simp [hh]) p
  have hfinal : (n.fill p).value.resolution.isFinal = true := by
    have hstill := (n.heir_fill p).begun hbegun
    cases hr : (n.fill p).value.resolution <;> simp_all [Resolution.isFinal]
  have htold : (n.told p).resolution.isFinal = true := hcore ▸ hfinal
  refine ⟨(n.fill p).value, ?_, n.heir_fill p, ?_, ?_, ?_⟩
  · rw [step_settle hq, hdelivered]
    exact Session.node?_setNode_self (s := s.learned handle p) hs _
  · rw [hchildless]
    refine List.eq_nil_iff_forall_not_mem.2 fun c hc => ?_
    have hmem := Session.children_fill n p c hc
    rw [hchildless] at hmem
    exact List.not_mem_nil hmem
  · rw [ending, ending, hbind, hawaits, howns, Node.settled_final hfinal,
      Node.settled_told hcore hfinal]
  · rw [coming, coming, howns', howns, hbind, Option.bind_some, if_pos htold]
    rfl

/-- The node is still pending with its payload, and lists the properties. -/
theorem own_populates (hpending : (n.fill p).value.resolution = .pending) :
    ∃ t : Session, t.Faithful T ∧ t.node? id = some (n.fill p).value ∧
      t.nodes.size = w.session.nodes.size ∧ (w.session.deliver q.lookup.waiting o).value =
        (t.populate id (n.fill p).value p.properties).value := by
  obtain ⟨hh, -⟩ := own_waits h hq hwait hn
  obtain ⟨s, hupdates, hs, hsize, hdelivered⟩ :=
    own_delivered h hanswers hq hcurrent hwait halive hn
  rw [hp, Option.elim_some] at hdelivered
  rcases (s.learned handle p).settleOwn_cases id n p with ⟨-, hvalue⟩ | ⟨hsettled, -⟩
  · have hlearned : (s.learned handle p).node? id = some n := hs
    have hall := (hupdates.tail (.learn hp)).tail (.fill trivial hlearned hh (.inl hp))
    refine ⟨_, Session.Updates.faithful hall h.faithful,
      Session.node?_setNode_self hlearned (n.fill p).value, ?_, hdelivered.trans hvalue⟩
    exact (Session.size_setNode _ id _).trans hsize
  · exact (hsettled hpending).elim

/-- Of the nodes that it lists the same is foreseen as before they were there. -/
theorem brought_foreseen (hpending : (n.fill p).value.resolution = .pending) {n' : Node}
    (hn' : (w.step (.settle place o)).session.node? id = some n')
    (hlist : n'.children = List.range' w.session.nodes.size (visible p.properties).length) {i : Nat}
    {r : PropertyRef} (hr : (visible p.properties)[i]? = some r) (places : List Nat) :
    (w.step (.settle place o)).foreseen T (w.session.nodes.size + i) places =
      if places.isEmpty then some ((n.child id r).informed (T r.handle) true).sight else none := by
  obtain ⟨t, hfaithful, ht, hsize, hdelivered⟩ :=
    own_populates h hanswers hq hcurrent hwait halive hn hp hpending
  obtain ⟨c, hc, hnone, hhandle, hinformed⟩ :=
    Session.populate_child hfaithful ht (n.fill p).value hr
  rw [← hdelivered, hsize] at hinformed
  rw [← hdelivered, hsize, ← step_settle hq] at hc
  rw [(n.heir_fill p).child id r] at hinformed
  have howner : c.owner = .node id := by
    have hframe := congrArg Node.owner hinformed
    rwa [(c.informed_frame _ _).1, ((n.child id r).informed_frame _ _).1] at hframe
  obtain ⟨hi, -⟩ := List.getElem?_eq_some_iff.1 hr
  refine new_foreseen h hanswers hq hcurrent halive (Session.lt_size_of_node? hn)
    (Nat.le_add_right _ i) hn' ?_ hc howner hnone ?_ hinformed places
  · rw [hlist]
    exact List.mem_range'_1.2 ⟨Nat.le_add_right _ i, Nat.add_lt_add_left hi _⟩
  · rw [hhandle, Option.bind_some]

/-- The same is foreseen of the node itself. -/
theorem own_lists (hpending : (n.fill p).value.resolution = .pending) :
    ∃ n', (w.step (.settle place o)).session.node? id = some n' ∧
      Brings T w (w.step (.settle place o)) id n n' p.properties := by
  obtain ⟨hh, hgen, -, -⟩ := own_waits h hq hwait hn
  obtain ⟨hawaits, howns, howns'⟩ := own_expects h hanswers hq hcurrent hwait halive hn
  obtain ⟨t, -, ht, hsize, hdelivered⟩ :=
    own_populates h hanswers hq hcurrent hwait halive hn hp hpending
  have hforeseen : ∀ n', (w.step (.settle place o)).session.node? id = some n' →
      n'.children = List.range' w.session.nodes.size (visible p.properties).length →
      ∀ i r, (visible p.properties)[i]? = some r → ∀ places, _ = _ :=
    fun _ hn' hlist _ _ hr =>
      brought_foreseen h hanswers hq hcurrent hwait halive hn hp hpending hn' hlist hr
  have hheir := n.heir_fill p
  have hcore : (n.fill p).value.core = n.told p := Node.core_fill (by simp [hh]) p
  generalize (n.fill p).value = f at *
  have hfinal : f.resolution.isFinal = false := by rw [hpending]; rfl
  have hbind : n.facts.handle.bind T = some p := by rw [hh, Option.bind_some, hp]
  have hbind' : f.facts.handle.bind T = some p := by
    rw [hheir.handle handle hh, Option.bind_some, hp]
  have hlength : (t.childIds p.properties).length = (visible p.properties).length :=
    List.length_range'
  have hchildren : ∀ r : Resolution, Node.children
      { f with resolution := r, view := some (f.compoundView (t.childIds p.properties)) } =
        List.range' w.session.nodes.size (visible p.properties).length := by
    intro r
    rw [← hsize]
    exact Session.children_list { f with resolution := r } (t.childIds p.properties)
  have hbefore : w.coming T id n = some p.properties := by
    have htold : (n.told p).resolution.isFinal = false := hcore ▸ hfinal
    rw [coming, howns, hbind, Option.bind_some, htold]
    rfl
  have hafter : ∀ k, (w.step (.settle place o)).coming T id k = none := fun k => by
    rw [coming, howns']
    rfl
  have hexpected : w.ending T id n =
      n.settled (some p) true true (w.expects Waiting.leads id) := by
    rw [ending, hbind, hawaits, howns]
  rcases Session.populate_node ht hpending p.properties with ⟨-, hn'⟩ | ⟨hsome, hn'⟩
  · -- Nothing is missing, and the node is resolved at once.
    rw [← hdelivered, ← step_settle hq] at hn'
    refine ⟨_, hn', ?_, hbefore, hafter _, hchildren .resolved, hforeseen _ hn' (hchildren .resolved)⟩
    rw [hexpected, ← Node.sight_listed hcore hfinal hlength, ending, Node.settled_final rfl,
      Node.sight_core]
  · -- It leads a batch for what is missing.
    rw [← hdelivered, ← step_settle hq] at hn'
    refine ⟨_, hn', ?_, hbefore, hafter _, hchildren f.resolution,
      hforeseen _ hn' (hchildren f.resolution)⟩
    obtain ⟨hm, hsupplied⟩ := supplied_of_answers hanswers
    have hpoised := step_poised h hm hsupplied
    have hleads : (w.step (.settle place o)).expects Waiting.leads id = true := by
      rw [(expects_answer h hanswers hq hcurrent (Session.lt_size_of_node? hn)).2.2, halive,
        hdelivered, hsome, hwait]
      simp [Waiting.owns]
    have hsame : f.generation = (w.step (.settle place o)).session.cache.generation := by
      rw [hheir.generation, hgen, hcurrent, step_generation h.coherent hm]
    have hreports := Session.reports_of_shown hpoised.known hn' (hpoised.consistent id _ hn') hsame
      hfinal rfl p hbind'
    rw [hexpected, ending, howns', hleads, hbind']
    exact Node.sight_waiting hcore hpending hreports hlength _ _

end

/-- What has become of each node after an answer. -/
theorem answer_foretells (h : w.Poised T) (hanswers : w.Answers T (.settle place o))
    (hq : w.underWay[place]? = some q) {id : NodeId} {n : Node} (hn : w.session.node? id = some n) :
    ∃ n', (w.step (.settle place o)).session.node? id = some n' ∧
      (Foretells T w (w.step (.settle place o)) id n n' ∨
        ∃ refs, Brings T w (w.step (.settle place o)) id n n' refs) := by
  by_cases hcurrent : q.lookup.waiting.generation = w.session.cache.generation
  case neg =>
    obtain ⟨hsession, hforetells⟩ := stale_foretells (T := T) (o := o) hq hcurrent n
    exact ⟨n, hsession ▸ hn, .inl hforetells⟩
  cases hwait : q.lookup.waiting with
  | batch g awaited parent =>
      obtain ⟨n', hn', hforetells⟩ := batch_foretells h hanswers hq hcurrent hwait hn
      exact ⟨n', hn', .inl hforetells⟩
  | own g k handle =>
      by_cases hid : id = k ∧ w.session.isAlive id = true
      · obtain ⟨rfl, halive⟩ := hid
        cases hp : T handle with
        | none =>
            obtain ⟨n', hn', hforetells⟩ :=
              own_fails h hanswers hq hcurrent hwait halive hn hp
            exact ⟨n', hn', .inl hforetells⟩
        | some p =>
            by_cases hpending : (n.fill p).value.resolution = .pending
            · obtain ⟨n', hn', hbrings⟩ :=
                own_lists h hanswers hq hcurrent hwait halive hn hp hpending
              exact ⟨n', hn', .inr ⟨_, hbrings⟩⟩
            · obtain ⟨n', hn', hforetells⟩ :=
                own_settles h hanswers hq hcurrent hwait halive hn hp hpending
              exact ⟨n', hn', .inl hforetells⟩
      · have hnot : id ≠ k ∨ w.session.isAlive id = false := by
          rw [← Bool.not_eq_true]
          exact Decidable.not_and_iff_or_not.1 hid
        obtain ⟨hkept, hforetells⟩ := own_foretells h hanswers hq hcurrent hwait hnot hn
        exact ⟨n, hkept, .inl hforetells⟩

end

/-- No answer changes what is foreseen. -/
theorem foreseen_answer (h : w.Poised T) {m : Move} (hanswers : w.Answers T m) {id : NodeId}
    (hid : id < w.session.nodes.size) (places : List Nat) :
    (w.step m).foreseen T id places = w.foreseen T id places := by
  cases m with
  | settle place o =>
      cases hq : w.underWay[place]? with
      | none => rw [settle_none (List.getElem?_eq_none_iff.1 hq)]
      | some q =>
          induction places generalizing id with
          | nil =>
              obtain ⟨n, hn⟩ := Session.node?_of_lt hid
              obtain ⟨n', hn', hforetells | ⟨refs, hbrings⟩⟩ := answer_foretells h hanswers hq hn
              · simp [foreseen, hn, hn', hforetells.ending]
              · simp [foreseen, hn, hn', hbrings.ending]
          | cons i places ih =>
              obtain ⟨n, hn⟩ := Session.node?_of_lt hid
              obtain ⟨n', hn', hforetells | ⟨refs, hbrings⟩⟩ := answer_foretells h hanswers hq hn
              · simp only [foreseen, hn, hn', Option.bind_some, hforetells.coming,
                  hforetells.children, hforetells.heir.child]
                cases w.coming T id n with
                | some refs => rfl
                | none =>
                    cases hc : n.children[i]? with
                    | none => rfl
                    | some c => exact ih (h.listed id n hn c (List.mem_of_getElem? hc))
              · simp only [foreseen, hn, hn', Option.bind_some, hbrings.before, hbrings.after,
                  hbrings.children]
                cases hr : (visible refs)[i]? with
                | none =>
                    have hle := List.getElem?_eq_none_iff.1 hr
                    have hnone : (List.range' w.session.nodes.size (visible refs).length)[i]? =
                        none := by simpa using hle
                    simp [hnone]
                | some r =>
                    obtain ⟨hlt, -⟩ := List.getElem?_eq_some_iff.1 hr
                    have hsome : (List.range' w.session.nodes.size (visible refs).length)[i]? =
                        some (w.session.nodes.size + i) := by simp [hlt]
                    simp [hsome, hbrings.foreseen i r hr]
  | _ => exact hanswers.elim

/-! ### The order of the replies -/

/-- Lookups are settled one after the other, those of the present suspension with the machine's
answers, until none of the present suspension is under way any more. -/
def Exhausts (T : Machine) : Inquiry → List Move → Prop
  | w, [] => ∀ q ∈ w.underWay, q.lookup.waiting.generation ≠ w.session.cache.generation
  | w, m :: moves => w.Answers T m ∧ Exhausts T (w.step m) moves

theorem answers_rest {m : Move} (hanswers : w.Answers T m) :
    (w.step m).session.rest = w.session.rest := by
  cases m with
  | settle place o =>
      cases hq : w.underWay[place]? with
      | none => rw [settle_none (List.getElem?_eq_none_iff.1 hq)]
      | some q =>
          rw [step_settle hq]
          exact Session.rest_deliver w.session q.lookup.waiting o
  | _ => exact hanswers.elim

/-- When the lookups are exhausted, there is to be seen what was foreseen. -/
theorem exhausts_foreseen (h : w.Poised T) {moves : List Move} (hmoves : Exhausts T w moves) :
    (w.after moves).session.rest = w.session.rest ∧ ∀ id < w.session.nodes.size, ∀ places,
      (w.after moves).session.look id places = w.foreseen T id places := by
  induction moves generalizing w with
  | nil => exact ⟨rfl, fun id _ places => (foreseen_idle hmoves id places).symm⟩
  | cons m moves ih =>
      obtain ⟨hanswers, hrest⟩ := hmoves
      obtain ⟨hm, hsupplied⟩ := supplied_of_answers hanswers
      obtain ⟨hsame, hlook⟩ := ih (step_poised h hm hsupplied) hrest
      refine ⟨hsame.trans (answers_rest hanswers), fun id hid places => ?_⟩
      obtain ⟨n, hn⟩ := Session.node?_of_lt hid
      obtain ⟨n', hn', -⟩ := (step_grows h.coherent m).nodes id n hn
      exact (hlook id (Session.lt_size_of_node? hn') places).trans
        (foreseen_answer h hanswers hid places)

/-- Two sessions show the same: they have the same frames with the same variables, and from each of the
first `count` nodes, the variables among them, the same is seen along every way. -/
structure SameTrees (count : Nat) (s s' : Session) : Prop where
  rest : s.rest = s'.rest
  roots : ∀ k f, s.callFrame? k = some f → ∀ root ∈ f.roots, root < count
  look : ∀ id < count, ∀ places, s.look id places = s'.look id places

/-- From a state within a suspension in which all that came in was true to the machine, let the lookups
under way, and those that their outcomes call for, be answered by the machine until none is left. The
trees at the end are the same in whatever order the answers come. -/
theorem replies_in_any_order (options : LookupOptions) (T : Machine)
    (before moves first second : List Move) (hbegins : BeginsSuspension before)
    (htrue : TrueTo T (run options before) moves)
    (hfirst : Exhausts T (run options (before ++ moves)) first)
    (hsecond : Exhausts T (run options (before ++ moves)) second) :
    SameTrees (run options (before ++ moves)).session.nodes.size
      (run options (before ++ moves ++ first)).session
      (run options (before ++ moves ++ second)).session := by
  have hpoised : (run options (before ++ moves)).Poised T := by
    rw [run_append]
    exact after_poised (poised_begin T options hbegins) htrue
  obtain ⟨hrest, hlook⟩ := exhausts_foreseen hpoised hfirst
  obtain ⟨hrest', hlook'⟩ := exhausts_foreseen hpoised hsecond
  rw [run_append options (before ++ moves) first, run_append options (before ++ moves) second]
  refine ⟨hrest.trans hrest'.symm, fun k f hf root hroot => ?_, fun id hid places => ?_⟩
  · have hframes : ((run options (before ++ moves)).after first).session.rest.callFrames =
        (run options (before ++ moves)).session.rest.callFrames := by rw [hrest]
    have hf' : (run options (before ++ moves)).session.callFrame? k = some f :=
      (congrArg (·[k]?) hframes).symm.trans hf
    obtain ⟨n, hn, -⟩ := hpoised.coherent.dated.roots k f hf' root hroot
    exact Session.lt_size_of_node? hn
  · exact (hlook id hid places).trans (hlook' id hid places).symm

def sharedMachine : Machine := fun h => List.lookup h
  [(1, { handle := some 1, tag := some "object", properties := [⟨"x", 3⟩] }),
    (2, { handle := some 2, tag := some "object", properties := [⟨"y", 3⟩] }),
    (3, { handle := some 3, tag := some "number", text := some "5" })]

def sharingReply (seq : UInt64) (handle name : String) : Envelope :=
  .response seq "lookup" true (some (.object [(handle, .object [("type", .string "object"),
    ("properties", .array [.object [("name", .string name), ("ref", .ofUInt64 3)]])])]))

def sharedReply (seq : UInt64) : Envelope :=
  .response seq "lookup" true (some (.object [("3", .object
    [("type", .string "number"), ("text", .string "5")])]))

def sharedMoves : List Move :=
  [.createFrame 0 "main" [⟨"a", { handle := some 1 }⟩, ⟨"b", { handle := some 2 }⟩], .expand 0,
    .expand 1]

def inTurn : List Move :=
  [.settle 0 (.ok (sharingReply 1 "1" "x")), .settle 0 (.ok (sharingReply 2 "2" "y")),
    .settle 0 (.ok (sharedReply 3)), .settle 0 (.ok (sharedReply 4))]

/-- The last object is answered first, and the other one finds the value cached. -/
def lastFirst : List Move :=
  [.settle 1 (.ok (sharingReply 2 "2" "y")), .settle 1 (.ok (sharedReply 3)),
    .settle 0 (.ok (sharingReply 1 "1" "x"))]

theorem answers_of_reply {place : Nat} {q : Query} {e : Envelope}
    (hq : w.underWay[place]? = some q)
    (hreply : ∀ h ∈ q.lookup.handles, (LookupReply.ofEnvelope e).get? h = T h)
    (hsuccess : Session.successful? (.ok e) = some e) (hrefs : e.refs = none) :
    w.Answers T (.settle place (.ok e)) := by
  intro q' hq' _
  rw [hq] at hq'
  obtain rfl := Option.some.inj hq'
  refine ⟨e, hsuccess, hreply, fun p hp => ?_⟩
  rw [hrefs] at hp
  exact (List.not_mem_nil hp).elim

theorem replies_in_any_order_shared :
    SameTrees 2 (run {} (sharedMoves ++ inTurn)).session
        (run {} (sharedMoves ++ lastFirst)).session ∧
      (run {} (sharedMoves ++ inTurn)).sent.length = 4 ∧
      (run {} (sharedMoves ++ lastFirst)).sent.length = 3 := by
  have hbinding : ∀ h : Handle, (Source.trueTo sharedMachine).binding { handle := some h } := by
    intro h k hk
    cases hk
    exact .inl rfl
  have htrue : TrueTo sharedMachine (run {} []) sharedMoves := by
    refine ⟨id, fun b hb => ?_, id, trivial, id, trivial, trivial⟩
    simp only [List.mem_cons, List.not_mem_nil, or_false] at hb
    rcases hb with rfl | rfl
    · exact hbinding 1
    · exact hbinding 2
  have ha : (LookupReply.ofEnvelope (sharingReply 1 "1" "x")).get? 1 = sharedMachine 1 := by
    decide +kernel
  have hb : (LookupReply.ofEnvelope (sharingReply 2 "2" "y")).get? 2 = sharedMachine 2 := by
    decide +kernel
  have hshared : (LookupReply.ofEnvelope (sharedReply 0)).get? 3 = sharedMachine 3 := by
    decide +kernel
  have hvalue : ∀ seq, (LookupReply.ofEnvelope (sharedReply seq)).get? 3 = sharedMachine 3 :=
    fun _ => hshared
  let owna : Query := ⟨.node 0, ⟨[1], .own 0 0 1⟩⟩
  let ownb : Query := ⟨.node 1, ⟨[2], .own 0 1 2⟩⟩
  have hfirst : Exhausts sharedMachine (run {} ([] ++ sharedMoves)) inTurn := by
    refine ⟨answers_of_reply (q := owna) (by decide +kernel) ?_ rfl rfl,
      answers_of_reply (q := ownb) (by decide +kernel) ?_ rfl rfl,
      answers_of_reply (q := ⟨.node 0, ⟨[3], .batch 0 [(3, 2)] (some 0)⟩⟩) (by decide +kernel) ?_
        rfl rfl,
      answers_of_reply (q := ⟨.node 1, ⟨[3], .batch 0 [(3, 3)] (some 1)⟩⟩) (by decide +kernel) ?_
        rfl rfl, ?_⟩
    · exact List.forall_mem_singleton.2 ha
    · exact List.forall_mem_singleton.2 hb
    · exact List.forall_mem_singleton.2 (hvalue 3)
    · exact List.forall_mem_singleton.2 (hvalue 4)
    · have hidle : (run {} (sharedMoves ++ inTurn)).underWay = [] := by decide +kernel
      intro q hq
      exact (List.not_mem_nil (hidle ▸ hq)).elim
  have hsecond : Exhausts sharedMachine (run {} ([] ++ sharedMoves)) lastFirst := by
    refine ⟨answers_of_reply (q := ownb) (by decide +kernel) ?_ rfl rfl,
      answers_of_reply (q := ⟨.node 1, ⟨[3], .batch 0 [(3, 2)] (some 1)⟩⟩) (by decide +kernel) ?_
        rfl rfl,
      answers_of_reply (q := owna) (by decide +kernel) ?_ rfl rfl, ?_⟩
    · exact List.forall_mem_singleton.2 hb
    · exact List.forall_mem_singleton.2 (hvalue 3)
    · exact List.forall_mem_singleton.2 ha
    · have hidle : (run {} (sharedMoves ++ lastFirst)).underWay = [] := by decide +kernel
      intro q hq
      exact (List.not_mem_nil (hidle ▸ hq)).elim
  exact ⟨replies_in_any_order {} sharedMachine [] sharedMoves inTurn lastFirst (.inl rfl) htrue
    hfirst hsecond, by decide +kernel, by decide +kernel⟩

end Inquiry

end RemoteInspector
