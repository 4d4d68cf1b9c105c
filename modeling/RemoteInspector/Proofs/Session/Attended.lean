import RemoteInspector.Proofs.Session.Holding

/-!
No node is left hanging. Each lookup has at most one subject, the parent that waits for a batch or the
node that waits for its own payload, and a node that is being resolved is the subject of a lookup under
way. An outcome settles the subject, or makes it the subject of one more lookup; whoever is gone or
belongs to an earlier suspension is passed over.
-/

namespace RemoteInspector

def Waiting.subject? : Waiting → Option NodeId
  | batch _ _ parent => parent
  | own _ id _ => some id

namespace Session

variable {s : Session} {id : NodeId}

/-- An operation on a node leaves it pending exactly if it asks for a lookup on its behalf. -/
structure Tends (id : NodeId) (next : Session × Option Lookup) : Prop where
  asks : ∀ n, next.1.node? id = some n → n.resolution = .pending → ∃ l, next.2 = some l
  subject : ∀ l, next.2 = some l → l.waiting.subject? = some id ∧
    ∃ n, next.1.node? id = some n ∧ n.resolution = .pending

theorem Tends.settled (h : ∀ n, s.node? id = some n → n.resolution ≠ .pending) :
    Tends id (s, none) :=
  ⟨fun n hn hpending => (h n hn hpending).elim, nofun⟩

/-- A reply or a failure ends what is pending. -/
theorem not_pending_recordOn {e : Resolution.Event} (he : e = .replied ∨ e = .failed) :
    ∀ n, (s.recordOn id e).value.node? id = some n → n.resolution ≠ .pending := by
  intro n hn hpending
  rcases s.recordOn_cases id e with ⟨hnone, hvalue⟩ | ⟨m, hm, -⟩
  · rw [hvalue, hnone] at hn
    cases hn
  · rw [node?_recordOn_self hm] at hn
    cases hn
    rw [Node.record_value] at hpending
    rcases he with rfl | rfl <;> cases hr : m.resolution <;> simp [hr, Resolution.on] at hpending

theorem populate_tends {m n : Node} (hm : s.node? id = some m) (hn : n.resolution = .pending)
    (refs : List PropertyRef) : Tends id (s.populate id n refs).value := by
  rcases s.populate_cases id n refs with ⟨-, hvalue⟩ | ⟨-, hvalue⟩
  · rw [hvalue]
    exact .settled (not_pending_recordOn (.inl rfl))
  · rw [hvalue]
    refine ⟨fun _ _ _ => ⟨_, rfl⟩, fun l hl => ?_⟩
    cases hl
    exact ⟨rfl, _, node?_withChildren_self hm n refs, hn⟩

theorem settleOwn_tends {n : Node} (hn : s.node? id = some n) (p : Payload) :
    Tends id (s.settleOwn id n p).value := by
  have hself := node?_setNode_self hn (n.fill p).value
  rcases s.settleOwn_cases id n p with ⟨hpending, hvalue⟩ | ⟨hsettled, hvalue⟩
  · rw [hvalue]
    exact populate_tends hself hpending _
  · rw [hvalue]
    refine .settled fun m hm => ?_
    rw [hself] at hm
    cases hm
    exact hsettled

theorem expand_tends (hstart : ∀ n, s.node? id = some n → n.resolution ≠ .pending) :
    Tends id (s.expand id).value := by
  rcases s.expand_cases id with ⟨-, hvalue⟩ | ⟨n, hn, -, -, hcase⟩
  · rw [hvalue]
    exact .settled hstart
  have hself := node?_setNode_self hn n.begun
  rcases hcase with ⟨refs, -, hvalue⟩ | ⟨h, p, -, -, -, hvalue⟩ | ⟨h, -, -, -, hvalue⟩
  · rw [hvalue]
    exact populate_tends hn rfl refs
  · rw [hvalue]
    exact settleOwn_tends hself p
  · rw [hvalue]
    refine ⟨fun _ _ _ => ⟨_, rfl⟩, fun l hl => ?_⟩
    cases hl
    exact ⟨rfl, _, hself, rfl⟩

theorem ensureProperties_tends (hstart : ∀ n, s.node? id = some n → n.resolution ≠ .pending)
    (refs : List PropertyRef) : Tends id (s.ensureProperties id refs).value := by
  rcases s.ensureProperties_cases id refs with ⟨-, hvalue⟩ | ⟨n, hn, -, -, hvalue⟩
  · rw [hvalue]
    exact .settled hstart
  · rw [hvalue]
    exact populate_tends hn rfl refs

/-! ### Outcomes -/

theorem deliverOwn_tends {g : Nat} {h : Handle} (hgen : g = s.cache.generation)
    (halive : s.isAlive id = true) (o : Outcome) : Tends id (s.deliverOwn g id h o).value := by
  have hcurrent : s.isCurrent g = true := isCurrent_iff.2 hgen
  unfold deliverOwn
  rw [hcurrent, halive]
  simp only [Bool.not_true, Bool.false_eq_true, if_false]
  split
  · exact .settled (not_pending_recordOn (.inr rfl))
  · split
    · next p n _ hn => exact settleOwn_tends (s := (s.seedRefs _).learned h p) hn p
    · exact .settled (not_pending_recordOn (.inr rfl))

/-- An outcome for a parent that is still there settles it, whatever comes of those it waits for. -/
theorem deliverBatch_settles {g : Nat} {awaited : List (Handle × NodeId)}
    (hgen : g = s.cache.generation) (halive : s.isAlive id = true) (o : Outcome) :
    ∀ n, (s.deliverBatch g awaited (some id) o).value.node? id = some n →
      n.resolution ≠ .pending := by
  have hcurrent : s.isCurrent g = true := isCurrent_iff.2 hgen
  have hparent : (some id).filter s.isAlive = some id := by simp [halive]
  unfold deliverBatch
  rw [hcurrent, hparent]
  simp only [Bool.not_true, Bool.false_eq_true, if_false]
  split
  · rw [Logged.value_bind]
    simp only [Option.toList_some, List.singleton_append, failAll, halive, if_true]
    intro n hn hpending
    -- The parent is failed first, and none of the others makes it pending again.
    have hrest : Calm (fun _ => False) (s.recordOn id .failed).value
        ((s.recordOn id .failed).value.failAll (awaited.map (·.2))).value := calm_failAll _
    rcases hrest.pending id n hn hpending with hfalse | ⟨m, hm, hm'⟩
    · exact hfalse
    · exact not_pending_recordOn (.inr rfl) m hm hm'
  · rw [Logged.value_bind]
    exact not_pending_recordOn (.inl rfl)

theorem deliver_tends {w : Waiting} (hsubject : w.subject? = some id)
    (hgen : w.generation = s.cache.generation) (halive : s.isAlive id = true) (o : Outcome) :
    Tends id (s.deliver w o).value := by
  cases w with
  | batch g awaited parent =>
      obtain rfl : parent = some id := hsubject
      exact .settled (deliverBatch_settles hgen halive o)
  | own g k h =>
      obtain rfl : k = id := Option.some.inj hsubject
      exact deliverOwn_tends hgen halive o

/-! ### The subjects of what is asked for -/

def Opens (next : Session × Option Lookup) : Prop :=
  ∀ l, next.2 = some l → ∀ k, l.waiting.subject? = some k →
    ∃ n, next.1.node? k = some n ∧ n.resolution = .pending

theorem Opens.none (s : Session) : Opens (s, none) := nofun

theorem Tends.opens {next : Session × Option Lookup} (h : Tends id next) : Opens next := by
  intro l hl k hk
  obtain ⟨hsubject, n, hn, hpending⟩ := h.subject l hl
  rw [hsubject] at hk
  cases hk
  exact ⟨n, hn, hpending⟩

theorem expand_opens (s : Session) (id : NodeId) : Opens (s.expand id).value := by
  rcases s.expand_cases id with ⟨-, hvalue⟩ | ⟨n, hn, -, hres, -⟩
  · rw [hvalue]
    exact .none s
  · refine Tends.opens (expand_tends fun m hm hpending => ?_)
    rw [hn] at hm
    cases hm
    rw [hres] at hpending
    cases hpending

theorem ensureProperties_opens (s : Session) (id : NodeId) (refs : List PropertyRef) :
    Opens (s.ensureProperties id refs).value := by
  rcases s.ensureProperties_cases id refs with ⟨-, hvalue⟩ | ⟨n, hn, -, hres, -⟩
  · rw [hvalue]
    exact .none s
  · refine Tends.opens (ensureProperties_tends (fun m hm hpending => ?_) refs)
    rw [hn] at hm
    cases hm
    rw [hres] at hpending
    cases hpending

theorem ensureVariables_opens {id : FrameId} {next : Session × Option Lookup}
    (hnext : (s.ensureVariables id).value = .ok next) : Opens next := by
  rcases s.ensureVariables_cases id with hvalue | hvalue | ⟨f, -, -, hvalue | hvalue⟩
  · rw [hvalue] at hnext
    cases hnext
    exact .none s
  · rw [hvalue] at hnext
    cases hnext
  · rw [hvalue] at hnext
    cases hnext
    exact .none _
  · rw [hvalue] at hnext
    cases hnext
    -- The variables of a frame wait for their payloads, and no node waits for them.
    intro l hl k hk
    cases hl
    cases hk

theorem deliver_opens (s : Session) (w : Waiting) (o : Outcome) : Opens (s.deliver w o).value := by
  cases w with
  | batch g awaited parent => exact .none _
  | own g k h =>
      change Opens (s.deliverOwn g k h o).value
      rcases s.deliverOwn_cases g k h o with hvalue | hvalue | ⟨e, -, hvalue | hcase⟩
      · rw [hvalue]
        exact .none s
      · rw [hvalue]
        exact .none _
      · rw [hvalue]
        exact .none _
      · obtain ⟨p, n, -, hn, hvalue⟩ := hcase
        rw [hvalue]
        exact (settleOwn_tends (s := (s.seedRefs e).learned h p) hn p).opens

end Session

namespace Inquiry

/-- Each node of the present suspension that is being resolved, and is still there, is the subject of
a lookup under way; and what is a subject has begun to be resolved. -/
structure Attended (w : Inquiry) : Prop where
  framed : w.session.Framed
  pending : ∀ id n, w.session.node? id = some n → n.generation = w.session.cache.generation →
    w.session.isAlive id = true → n.resolution = .pending →
    ∃ q ∈ w.underWay, q.lookup.waiting.subject? = some id
  begun : ∀ q ∈ w.underWay, ∀ id, q.lookup.waiting.subject? = some id →
    ∃ n, w.session.node? id = some n ∧ n.resolution ≠ .unresolved

theorem mem_issue_old {w : Inquiry} {q : Query} (hq : q ∈ w.underWay) (asker : Owner)
    (next : Session × Option Lookup) : q ∈ (w.issue asker next).underWay := by
  obtain ⟨s, l⟩ := next
  cases l with
  | none => exact hq
  | some l => exact List.mem_append_left _ hq

theorem mem_issue_new {w : Inquiry} {next : Session × Option Lookup} {l : Lookup}
    (hl : next.2 = some l) (asker : Owner) : ⟨asker, l⟩ ∈ (w.issue asker next).underWay := by
  obtain ⟨s, _⟩ := next
  cases hl
  exact List.mem_append_right _ List.mem_cons_self

/-- An operation that asks on behalf of a node that is pending after it leaves it attended. -/
theorem attended_issue {w : Inquiry} {asker : Owner} {next : Session × Option Lookup} {id : NodeId}
    (htends : Session.Tends id next) {n : Node} (hn : next.1.node? id = some n)
    (hpending : n.resolution = .pending) :
    ∃ q ∈ (w.issue asker next).underWay, q.lookup.waiting.subject? = some id := by
  obtain ⟨l, hl⟩ := htends.asks n hn hpending
  exact ⟨_, mem_issue_new hl asker, (htends.subject l hl).1⟩

theorem issue_subject {w : Inquiry} {asker : Owner} {next : Session × Option Lookup}
    (hopens : Session.Opens next) {q : Query} (hq : q ∈ (w.issue asker next).underWay) {id : NodeId}
    (hid : q.lookup.waiting.subject? = some id) : q ∈ w.underWay ∨
      ∃ n, next.1.node? id = some n ∧ n.resolution = .pending := by
  rcases mem_issue hq with hold | ⟨l, hl, rfl⟩
  · exact .inl hold
  · exact .inr (hopens l hl id hid)

/-- The subject of a lookup that a move has sent is pending. -/
theorem step_subject {w : Inquiry} {m : Move} {q : Query} (hq : q ∈ (w.step m).underWay)
    {id : NodeId} (hid : q.lookup.waiting.subject? = some id) : q ∈ w.underWay ∨
      ∃ n, (w.step m).session.node? id = some n ∧ n.resolution = .pending := by
  cases m with
  | createFrame _ _ _ => exact .inl hq
  | materialize body refs =>
      simp only [step] at hq
      split at hq <;> exact .inl hq
  | expand k =>
      simp only [step, issue_session]
      exact issue_subject (w.session.expand_opens k) hq hid
  | ensureProperties k refs =>
      simp only [step, issue_session]
      exact issue_subject (w.session.ensureProperties_opens k refs) hq hid
  | ensureVariables k =>
      simp only [step] at hq ⊢
      split at hq
      · next next hnext =>
        simp only [issue_session]
        exact issue_subject (Session.ensureVariables_opens hnext) hq hid
      · exact .inl hq
  | settle place o =>
      simp only [step] at hq ⊢
      split at hq
      · next q' hq' =>
        simp only [issue_session]
        exact (issue_subject (w.session.deliver_opens _ o) hq hid).imp_left List.mem_of_mem_eraseIdx
      · exact .inl hq
  | message _ => exact .inl hq
  | retire => exact .inl hq
  | name _ => exact .inl hq
  | absorb _ _ => exact .inl hq
  | store _ _ => exact .inl hq
  | invalidate => exact .inl hq
  | hold _ _ => exact .inl hq

/-- A lookup stays under way until it is settled. -/
theorem step_underWay {w : Inquiry} {m : Move} {q : Query} (hq : q ∈ w.underWay) :
    q ∈ (w.step m).underWay ∨ ∃ place o, m = .settle place o ∧ w.underWay[place]? = some q := by
  cases m with
  | materialize body refs =>
      simp only [step]
      split <;> exact .inl hq
  | expand k => exact .inl (mem_issue_old hq _ _)
  | ensureProperties k refs => exact .inl (mem_issue_old hq _ _)
  | ensureVariables k =>
      simp only [step]
      split
      · exact .inl (mem_issue_old hq _ _)
      · exact .inl hq
  | settle place o =>
      simp only [step]
      split
      · next q' hq' =>
        by_cases hsame : q = q'
        · subst hsame
          exact .inr ⟨place, o, rfl, hq'⟩
        · refine .inl (mem_issue_old ?_ _ _)
          obtain ⟨i, hi⟩ := List.mem_iff_getElem?.1 hq
          refine List.mem_eraseIdx_iff_getElem?.2 ⟨i, ?_, hi⟩
          rintro rfl
          rw [hi] at hq'
          exact hsame (Option.some.inj hq')
      · exact .inl hq
  | _ => exact .inl hq

/-- What is asked for on behalf of a node is of the generation of the node. -/
theorem subject_generation {w : Inquiry} (hw : w.Coherent) {q : Query} (hq : q ∈ w.underWay)
    {id : NodeId} (hid : q.lookup.waiting.subject? = some id) {n : Node}
    (hn : w.session.node? id = some n) : q.lookup.waiting.generation = n.generation := by
  have hposed := hw.posed q hq
  obtain ⟨asker, handles, waiting⟩ := q
  cases waiting with
  | batch g awaited parent =>
      obtain ⟨m, hm, hgen, -⟩ := hposed.parent id hid
      rw [hn] at hm
      cases hm
      exact hgen.symm
  | own g k h =>
      obtain rfl : k = id := Option.some.inj hid
      obtain ⟨m, hm, hgen, -⟩ := hposed.awaited (h, k) List.mem_cons_self
      rw [hn] at hm
      cases hm
      exact hgen.symm

theorem step_attended {w : Inquiry} (hw : w.Coherent) {m : Move} (hhonest : w.Honest m)
    (h : w.Attended) : (w.step m).Attended where
  framed := step_framed m h.framed
  pending := by
    intro id n' hn' hgen halive hpending
    have hgrows := step_grows hw m
    by_cases hm : m.Ends
    · -- No node is of the generation that begins.
      obtain ⟨current, table, hstep⟩ := step_ends hm
      rw [hstep] at hn'
      have hle := hw.dated.nodes id n' hn'
      rw [step_generation_ends hm] at hgen
      omega
    rw [step_generation hw hm] at hgen
    by_cases hbefore : ∃ n, w.session.node? id = some n ∧ n.resolution = .pending
    · obtain ⟨n, hn, hwas⟩ := hbefore
      obtain ⟨m', hm', heir⟩ := hgrows.nodes id n hn
      rw [hn'] at hm'
      cases hm'
      have hgen' : n.generation = w.session.cache.generation := heir.generation.symm.trans hgen
      have halive' := step_alive hm hhonest h.framed (Session.lt_size_of_node? hn) halive
      obtain ⟨q, hq, hsubject⟩ := h.pending id n hn hgen' halive' hwas
      rcases step_underWay (m := m) hq with hstays | ⟨place, o, rfl, hplace⟩
      · exact ⟨q, hstays, hsubject⟩
      · -- The lookup that it waited for is settled just now.
        have hcurrent := (subject_generation hw hq hsubject hn).trans hgen'
        have htends := Session.deliver_tends hsubject hcurrent halive' o
        simp only [step, hplace, issue_session] at hn' ⊢
        exact attended_issue htends hn' hpending
    · -- It has become pending by this move.
      rcases step_pending hm hn' hpending with hbegins | hwas
      · have hstart : ∀ n, w.session.node? id = some n → n.resolution ≠ .pending :=
          fun n hn hwas => hbefore ⟨n, hn, hwas⟩
        cases m with
        | expand k =>
            obtain rfl : id = k := hbegins
            simp only [step, issue_session] at hn' ⊢
            exact attended_issue (Session.expand_tends hstart) hn' hpending
        | ensureProperties k refs =>
            obtain rfl : id = k := hbegins
            simp only [step, issue_session] at hn' ⊢
            exact attended_issue (Session.ensureProperties_tends hstart refs) hn' hpending
        | _ => exact hbegins.elim
      · exact (hbefore hwas).elim
  begun := by
    intro q hq id hid
    rcases step_subject hq hid with hold | ⟨n, hn, hpending⟩
    · obtain ⟨n, hn, hbegun⟩ := h.begun q hold id hid
      obtain ⟨n', hn', heir⟩ := (step_grows hw m).nodes id n hn
      exact ⟨n', hn', heir.begun hbegun⟩
    · refine ⟨n, hn, ?_⟩
      rw [hpending]
      decide

theorem after_attended {w : Inquiry} (hw : w.Coherent) {moves : List Move}
    (hhonest : w.AllHonest moves) (h : w.Attended) : (w.after moves).Attended := by
  induction moves generalizing w with
  | nil => exact h
  | cons m moves ih =>
      exact ih (step_coherent hw m) hhonest.2 (step_attended hw hhonest.1 h)

theorem attended_run (options : LookupOptions) {moves : List Move}
    (hhonest : AllHonest { session := { options := options } } moves) :
    (run options moves).Attended := by
  refine after_attended (coherent_run options []) hhonest ⟨?_, ?_, ?_⟩
  · intro id n f hn
    simp [run, after, Session.node?] at hn
  · intro id n hn
    simp [run, after, Session.node?] at hn
  · intro q hq
    exact (List.not_mem_nil hq).elim

/-! ### Expansions -/

/-- An expansion that begins has begun when the first lookup is sent. -/
theorem step_expand_begun {w : Inquiry} {id : NodeId} {n : Node} (hn : w.session.node? id = some n)
    (hexp : n.isExpandable = true) (hres : n.resolution = .unresolved) :
    ∃ n', (w.step (.expand id)).session.node? id = some n' ∧ n'.resolution ≠ .unresolved := by
  have hupdates : Session.Updates .any (fun _ => True) (w.session.setNode id n.begun)
      (w.session.expand id).value.1 := Session.expand_begun trivial hn hexp hres
  obtain ⟨n', hn', heir⟩ :=
    (Session.Updates.grows hupdates).nodes id n.begun (Session.node?_setNode_self hn n.begun)
  refine ⟨n', ?_, heir.begun nofun⟩
  simpa only [step, issue_session] using hn'

/-- Whatever happens while a node is expanded: when none of the lookups is under way that have been
sent since, the node is settled, unless it is gone or the suspension is over. -/
theorem expand_settles {w : Inquiry} (hw : w.Coherent) (h : w.Attended) {id : NodeId} {n : Node}
    (hn : w.session.node? id = some n) (hexp : n.isExpandable = true)
    (hres : n.resolution = .unresolved) {during : List Move}
    (hhonest : (w.step (.expand id)).AllHonest during)
    (hfired : ∀ q ∈ (w.after (.expand id :: during)).underWay, q ∈ w.underWay)
    (hcurrent : (w.after (.expand id :: during)).session.isCurrent n.generation = true)
    (halive : (w.after (.expand id :: during)).session.isAlive id = true) :
    ∃ n', (w.after (.expand id :: during)).session.node? id = some n' ∧
      (n'.resolution = .resolved ∨ n'.resolution = .failed) := by
  have hall : w.AllHonest (.expand id :: during) := ⟨trivial, hhonest⟩
  have hafter := after_attended hw hall h
  obtain ⟨m, hm, hbegun⟩ := step_expand_begun hn hexp hres
  obtain ⟨n', hn', heir⟩ := (after_grows (step_coherent hw (.expand id)) during).nodes id m hm
  obtain ⟨m', hm', hsame⟩ := (step_grows hw (.expand id)).nodes id n hn
  rw [hm] at hm'
  cases hm'
  refine ⟨n', hn', ?_⟩
  cases hstate : n'.resolution with
  | unresolved => exact (heir.begun hbegun hstate).elim
  | pending =>
      have hgen := (heir.generation.trans hsame.generation).trans (Session.isCurrent_iff.1 hcurrent)
      obtain ⟨q, hq, hsubject⟩ := hafter.pending id n' hn' hgen halive hstate
      -- Nobody has asked on behalf of a node that is not being resolved.
      obtain ⟨k, hk, hnot⟩ := h.begun q (hfired q hq) id hsubject
      rw [hn] at hk
      cases hk
      exact (hnot hres).elim
  | resolved => exact .inl rfl
  | failed => exact .inr rfl

/-! ### Channels that answer before a send returns -/

theorem issue_underWay (w : Inquiry) (asker : Owner) (next : Session × Option Lookup) :
    (w.issue asker next).underWay = w.underWay ++ next.2.toList.map (Query.mk asker) := by
  obtain ⟨s, l⟩ := next
  cases l with
  | none => exact (List.append_nil _).symm
  | some l => rfl

/-- There is nothing to settle beyond the lookups under way. -/
theorem settle_none {w : Inquiry} {place : Nat} (h : w.underWay.length ≤ place) (o : Outcome) :
    w.step (.settle place o) = w := by
  simp only [step, List.getElem?_eq_none h]

theorem settle_newest {w : Inquiry} {u : List Query} {q : Query} (h : w.underWay = u ++ [q])
    (o : Outcome) : (w.step (.settle u.length o)).underWay = u ++
      (w.session.deliver q.lookup.waiting o).value.2.toList.map (Query.mk q.asker) := by
  have hplace : w.underWay[u.length]? = some q := by simp [h]
  simp only [step, hplace, issue_underWay]
  simp [h, List.eraseIdx_append_of_length_le]

/-- What an outcome calls for is a batch, and after that nothing. -/
theorem deliver_asks_batch {s : Session} {w : Waiting} {o : Outcome} {l : Lookup}
    (hl : (s.deliver w o).value.2 = some l) :
    ∃ g awaited parent, l.waiting = .batch g awaited parent := by
  cases w with
  | batch g awaited parent => cases hl
  | own g id h =>
      change (s.deliverOwn g id h o).value.2 = some l at hl
      rcases s.deliverOwn_cases g id h o with hvalue | hvalue | ⟨e, -, hvalue | hcase⟩
      · rw [hvalue] at hl
        cases hl
      · rw [hvalue] at hl
        cases hl
      · rw [hvalue] at hl
        cases hl
      · obtain ⟨p, n, -, -, hvalue⟩ := hcase
        rw [hvalue] at hl
        rcases Session.settleOwn_cases _ id n p with ⟨-, hvalue⟩ | ⟨-, hvalue⟩
        · rw [hvalue] at hl
          rcases Session.populate_cases _ id _ p.properties with ⟨-, hvalue⟩ | ⟨-, hvalue⟩
          · rw [hvalue] at hl
            cases hl
          · rw [hvalue] at hl
            cases hl
            exact ⟨_, _, _, rfl⟩
        · rw [hvalue] at hl
          cases hl

/-- Moves of a channel: within a suspension, and callers go on to hold what they hold. -/
def Steady (moves : List Move) : Prop :=
  ∀ m ∈ moves, ¬m.Ends ∧ ∀ frames nodes, m ≠ .hold frames nodes

theorem after_steady {w : Inquiry} (hw : w.Coherent) {moves : List Move} (hm : Steady moves) :
    w.AllHonest moves ∧ (w.after moves).session.heldNodes = w.session.heldNodes ∧
      (w.after moves).session.cache.generation = w.session.cache.generation := by
  induction moves generalizing w with
  | nil => exact ⟨trivial, rfl, rfl⟩
  | cons m moves ih =>
      obtain ⟨hends, hhold⟩ := hm m List.mem_cons_self
      obtain ⟨hhonest, hheld, hgen⟩ :=
        ih (step_coherent hw m) fun k hk => hm k (List.mem_cons_of_mem m hk)
      refine ⟨⟨?_, hhonest⟩, hheld.trans (step_calm hends hhold).held,
        hgen.trans (step_generation hw hends)⟩
      cases m with
      | hold frames nodes => exact (hhold frames nodes rfl).elim
      | _ => trivial

/-- A node is expanded, and the newest lookup is settled while there is one. -/
def answered (w : Inquiry) (id : NodeId) (o o' : Outcome) : List Move :=
  [.expand id, .settle w.underWay.length o, .settle w.underWay.length o']

/-- After two outcomes nothing is under way that was not before. -/
theorem answered_underWay (w : Inquiry) (id : NodeId) (o o' : Outcome) :
    (w.after (w.answered id o o')).underWay = w.underWay := by
  let a := w.step (.expand id)
  let b := a.step (.settle w.underWay.length o)
  change (b.step (.settle w.underWay.length o')).underWay = w.underWay
  have ha : a.underWay =
      w.underWay ++ (w.session.expand id).value.2.toList.map (Query.mk (.node id)) :=
    issue_underWay ..
  cases hfirst : (w.session.expand id).value.2 with
  | none =>
      rw [hfirst] at ha
      have hlast : a.underWay = w.underWay := by simpa using ha
      have hb : b = a := settle_none (Nat.le_of_eq (by rw [hlast])) o
      rw [hb, settle_none (Nat.le_of_eq (by rw [hlast])), hlast]
  | some l =>
      rw [hfirst] at ha
      have hb := settle_newest (q := ⟨.node id, l⟩) ha o
      cases hsecond : (a.session.deliver l.waiting o).value.2 with
      | none =>
          rw [hsecond] at hb
          have hlast : b.underWay = w.underWay := by simpa using hb
          rw [settle_none (Nat.le_of_eq (by rw [hlast])), hlast]
      | some l' =>
          rw [hsecond] at hb
          obtain ⟨g, awaited, parent, hbatch⟩ := deliver_asks_batch hsecond
          rw [settle_newest (q := ⟨.node id, l'⟩) hb, hbatch]
          exact List.append_nil _

theorem steady_answered (w : Inquiry) (id : NodeId) (o o' : Outcome) :
    Steady (w.answered id o o') := by
  intro m hm
  simp only [answered, List.mem_cons, List.not_mem_nil, or_false] at hm
  rcases hm with rfl | rfl | rfl <;> exact ⟨fun hends => hends, nofun⟩

/-- Over a channel that answers before a send returns, a node that a caller expands is settled. -/
theorem answered_settles {w : Inquiry} (hw : w.Coherent) (h : w.Attended) {id : NodeId} {n : Node}
    (hn : w.session.node? id = some n) (hcurrent : w.session.isCurrent n.generation = true)
    (hheld : id ∈ w.session.heldNodes) (hexp : n.isExpandable = true)
    (hres : n.resolution = .unresolved) (o o' : Outcome) :
    ∃ n', (w.after (w.answered id o o')).session.node? id = some n' ∧
      (n'.resolution = .resolved ∨ n'.resolution = .failed) := by
  obtain ⟨hhonest, hsame, hgen⟩ := after_steady hw (steady_answered w id o o')
  refine expand_settles hw h hn hexp hres hhonest.2 (fun q hq => ?_) ?_ ?_
  · rwa [← w.answered_underWay id o o']
  · exact Session.isCurrent_iff.2 ((Session.isCurrent_iff.1 hcurrent).trans hgen.symm)
  · refine Session.isAlive_iff.2 (.inl ?_)
    exact hsame ▸ hheld

/-- Nobody waits in vain. -/
structure NoneHanging (w : Inquiry) : Prop where
  attended : ∀ id n, w.session.node? id = some n → w.session.isCurrent n.generation = true →
    w.session.isAlive id = true → n.resolution = .pending →
    ∃ q ∈ w.underWay, q.lookup.waiting.subject? = some id
  idle : w.underWay = [] → ∀ id n, w.session.node? id = some n →
    w.session.isCurrent n.generation = true → w.session.isAlive id = true →
    n.resolution ≠ .pending
  /-- Whatever happens before an expansion returns, with every lookup answered that has been sent. -/
  expanded : ∀ id n, w.session.node? id = some n → n.isExpandable = true →
    n.resolution = .unresolved → ∀ during, (w.step (.expand id)).AllHonest during →
    (∀ q ∈ (w.after (.expand id :: during)).underWay, q ∈ w.underWay) →
    (w.after (.expand id :: during)).session.isCurrent n.generation = true →
    (w.after (.expand id :: during)).session.isAlive id = true →
    ∃ n', (w.after (.expand id :: during)).session.node? id = some n' ∧
      (n'.resolution = .resolved ∨ n'.resolution = .failed)
  /-- A channel that does nothing but answer at once is done with two answers at most. -/
  answered : ∀ id n, w.session.node? id = some n → w.session.isCurrent n.generation = true →
    id ∈ w.session.heldNodes → n.isExpandable = true → n.resolution = .unresolved →
    ∀ o o', (w.after (w.answered id o o')).underWay = w.underWay ∧
      ∃ n', (w.after (w.answered id o o')).session.node? id = some n' ∧
        (n'.resolution = .resolved ∨ n'.resolution = .failed)

/-- After any run, whatever the outcomes were: a node of the present suspension that is being resolved
is the subject of a lookup under way, so none is left when nothing is under way any more; and an
expansion is over when its lookups have been answered. -/
theorem no_node_left_hanging (options : LookupOptions) (moves : List Move)
    (hhonest : AllHonest { session := { options := options } } moves) :
    (run options moves).NoneHanging := by
  have hw := coherent_run options moves
  have hattended := attended_run options hhonest
  have hpending : ∀ id n, (run options moves).session.node? id = some n →
      (run options moves).session.isCurrent n.generation = true →
      (run options moves).session.isAlive id = true → n.resolution = .pending →
      ∃ q ∈ (run options moves).underWay, q.lookup.waiting.subject? = some id :=
    fun id n hn hcurrent => hattended.pending id n hn (Session.isCurrent_iff.1 hcurrent)
  exact {
    attended := hpending
    idle := by
      intro hidle id n hn hcurrent halive hstate
      obtain ⟨q, hq, -⟩ := hpending id n hn hcurrent halive hstate
      rw [hidle] at hq
      exact List.not_mem_nil hq
    expanded := fun id n hn hexp hres during => expand_settles hw hattended hn hexp hres
    answered := fun id n hn hcurrent hheld hexp hres o o' =>
      ⟨answered_underWay _ id o o', answered_settles hw hattended hn hcurrent hheld hexp hres o o'⟩ }

def heldMoves : List Move :=
  [.createFrame 0 "main" [⟨"x", { handle := some 1 }⟩, ⟨"y", { handle := some 2 }⟩],
    .hold [0] [0, 1], .expand 0]

def heldAnswers : List Move :=
  [.settle 0 (.error .dropped),
    .settle 0 (.ok (.response 2 "lookup" true (some (.object
      [("2", .object [("type", .string "object")])]))))]

theorem no_node_left_hanging_pair :
    (∃ q ∈ (run {} heldMoves).underWay, q.lookup.waiting.subject? = some 0) ∧
      (∃ n, ((run {} heldMoves).after (.expand 1 :: heldAnswers)).session.node? 1 = some n ∧
        (n.resolution = .resolved ∨ n.resolution = .failed)) ∧
      ∃ n, ((run {} heldMoves).after ((run {} heldMoves).answered 1 (.error .dropped)
          (.error .dropped))).session.node? 1 = some n ∧
        (n.resolution = .resolved ∨ n.resolution = .failed) := by
  let x : Node := { Node.new "x" "x" 0 (.frame 0) (some 1) false with resolution := .pending }
  let y : Node := Node.new "y" "y" 0 (.frame 0) (some 2) false
  have hx : (run {} heldMoves).session.node? 0 = some x := by decide +kernel
  have hy : (run {} heldMoves).session.node? 1 = some y := by decide +kernel
  have hhonest : AllHonest {} heldMoves := by
    refine ⟨trivial, ⟨fun f hf => ?_, fun id hid => ?_⟩, trivial, trivial⟩
    · rw [List.mem_singleton.1 hf]
      decide +kernel
    · simp only [List.mem_cons, List.not_mem_nil, or_false] at hid
      rcases hid with rfl | rfl <;> decide +kernel
  have hheld : 1 ∈ (run {} heldMoves).session.heldNodes := by
    decide +kernel
  have hanging := no_node_left_hanging {} heldMoves hhonest
  refine ⟨hanging.attended 0 x hx (by decide +kernel) (by decide +kernel) rfl, ?_, ?_⟩
  · refine hanging.expanded 1 y hy rfl rfl heldAnswers ⟨trivial, trivial, trivial⟩ ?_
      (by decide +kernel) (by decide +kernel)
    have hnone : ((run {} heldMoves).after (.expand 1 :: heldAnswers)).underWay = [] := by
      decide +kernel
    intro q hq
    rw [hnone] at hq
    exact (List.not_mem_nil hq).elim
  · exact (hanging.answered 1 y hy (by decide +kernel) hheld rfl rfl _ _).2

end Inquiry

end RemoteInspector
