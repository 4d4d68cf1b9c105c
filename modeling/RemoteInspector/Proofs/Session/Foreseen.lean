import RemoteInspector.Proofs.Session.Informed

/-!
What will be seen of each node when nothing is under way any more, while the machine answers every lookup
with what it reports for the handles. A node is informed by the lookups that mean something to it: one for
its own payload, one that it leads for its properties, and those that it waits for among others. After an
answer it expects what it has expected before, less the answer and with what that calls for.
-/

namespace RemoteInspector

/-! ### What is foreseen -/

/-- What is seen along a way from a node, by the places of the children. -/
def Session.look (s : Session) : NodeId → List Nat → Option Sight
  | id, [] => (s.node? id).map Node.sight
  | id, i :: places => (s.node? id).bind fun n => n.children[i]?.bind fun c => s.look c places

namespace Inquiry

variable {T : Machine} {w : Inquiry} {id : NodeId}

/-- To a node that is still there, a lookup of the present suspension means something. -/
def expects (w : Inquiry) (means : Waiting → NodeId → Bool) (id : NodeId) : Bool :=
  w.session.isAlive id && w.underWay.any fun q =>
    w.session.isCurrent q.lookup.waiting.generation && means q.lookup.waiting id

def ending (T : Machine) (w : Inquiry) (id : NodeId) (n : Node) : Node :=
  n.settled (n.facts.handle.bind T) (w.expects Waiting.awaits id)
    (w.expects Waiting.owns id) (w.expects Waiting.leads id)

def coming (T : Machine) (w : Inquiry) (id : NodeId) (n : Node) : Option (List PropertyRef) :=
  if w.expects Waiting.owns id then
    (n.facts.handle.bind T).bind fun p =>
      if (n.told p).resolution.isFinal then none else some p.properties
  else none

/-- What will be seen along a way from a node when nothing is under way any more. Children that are
still to be made are told what the machine reports for them. -/
def foreseen (T : Machine) (w : Inquiry) : NodeId → List Nat → Option Sight
  | id, [] => (w.session.node? id).map fun n => (w.ending T id n).sight
  | id, i :: places =>
    (w.session.node? id).bind fun n =>
      match w.coming T id n with
      | some refs =>
        if places.isEmpty then
          (visible refs)[i]?.map fun r => ((n.child id r).informed (T r.handle) true).sight
        else none
      | none => n.children[i]?.bind fun c => foreseen T w c places

/-- When nothing is under way, what is foreseen is what is seen. -/
theorem foreseen_idle (hidle : ∀ q ∈ w.underWay,
    q.lookup.waiting.generation ≠ w.session.cache.generation) (id : NodeId) (places : List Nat) :
    w.foreseen T id places = w.session.look id places := by
  have hnone : ∀ means id, w.expects means id = false := by
    intro means id
    have hany : (w.underWay.any fun q => w.session.isCurrent q.lookup.waiting.generation &&
        means q.lookup.waiting id) = false := by
      rw [List.any_eq_false]
      intro q hq hcurrent
      exact hidle q hq (Session.isCurrent_iff.1 (Bool.and_eq_true_iff.1 hcurrent).1)
    rw [expects, hany, Bool.and_false]
  induction places generalizing id with
  | nil =>
      have hsight : ∀ n : Node, (w.ending T id n).sight = n.sight := by
        intro n
        have hend : w.ending T id n = n.core := by
          unfold ending
          simp [hnone, Node.settled, Node.informed, Node.finish]
        rw [hend, Node.sight_core]
      simp only [foreseen, Session.look, hsight]
  | cons i places ih =>
      have hcoming : ∀ n, w.coming T id n = none := fun n => by simp [coming, hnone]
      simp only [foreseen, Session.look, hcoming, ih]

/-! ### What an answer leaves to be expected -/

def others (w : Inquiry) (place : Nat) (means : Waiting → NodeId → Bool) (id : NodeId) : Bool :=
  (w.underWay.eraseIdx place).any fun q =>
    w.session.isCurrent q.lookup.waiting.generation && means q.lookup.waiting id

/-- What is expected comes with the lookup that is being settled, or with the others. -/
theorem expects_before {place : Nat} {q : Query} (hq : w.underWay[place]? = some q)
    (means : Waiting → NodeId → Bool) (id : NodeId) : w.expects means id = (w.session.isAlive id &&
      ((w.session.isCurrent q.lookup.waiting.generation && means q.lookup.waiting id) ||
        w.others place means id)) := by
  obtain ⟨hplace, rfl⟩ := List.getElem?_eq_some_iff.1 hq
  rw [expects, ← (List.getElem_cons_eraseIdx_perm hplace).any_eq, List.any_cons]
  rfl

/-- After that it comes with the others, or with a new lookup. -/
theorem expects_after (hw : w.Coherent) {place : Nat} {q : Query} (hq : w.underWay[place]? = some q)
    (hcurrent : q.lookup.waiting.generation = w.session.cache.generation) (o : Outcome)
    (means : Waiting → NodeId → Bool) (id : NodeId) :
    (w.step (.settle place o)).expects means id =
      ((w.step (.settle place o)).session.isAlive id && (w.others place means id ||
        (w.session.deliver q.lookup.waiting o).value.2.any fun l => means l.waiting id)) := by
  have hgen : ∀ g, (w.step (.settle place o)).session.isCurrent g = w.session.isCurrent g := by
    intro g
    rw [Session.isCurrent, step_generation hw (m := .settle place o) fun hm => hm]
    rfl
  have hasks : w.asks? (.settle place o) =
      (w.session.deliver q.lookup.waiting o).value.2.map (Query.mk q.asker) := by
    simp only [asks?, hq]
  simp only [expects, hgen, (w.step_sends (.settle place o)).2, List.any_append, hasks]
  congr 2
  cases hl : (w.session.deliver q.lookup.waiting o).value.2 with
  | none => rfl
  | some l =>
      obtain ⟨-, hsame⟩ := Session.deliver_asks (hw.posed q (List.mem_of_getElem? hq)) hl
      have hlast : w.session.isCurrent l.waiting.generation = true :=
        Session.isCurrent_iff.2 (hsame.trans hcurrent)
      simp [hlast]

theorem owns_iff {q : Query} {id : NodeId} :
    q.lookup.waiting.owns id = true ↔ q.purpose = .payload id := by
  obtain ⟨asker, handles, waiting⟩ := q
  cases waiting with
  | own g k h => simp [Waiting.owns, Query.purpose]
  | batch g awaited parent =>
      cases parent <;> cases asker <;> simp [Waiting.owns, Query.purpose]

theorem purpose_of_leads {q : Query} {id : NodeId} (h : q.lookup.waiting.leads id = true) :
    q.purpose = .properties id := by
  obtain ⟨asker, handles, waiting⟩ := q
  cases waiting with
  | own g k h' => cases h
  | batch g awaited parent =>
      obtain rfl : parent = some id := by simpa [Waiting.leads, Waiting.parent?] using h
      rfl

/-- Nobody else asks for the own payload of a node. -/
theorem others_owns {past : List Purpose} (hp : Spent past w) {place : Nat} {q : Query}
    (hq : w.underWay[place]? = some q) {id : NodeId} (hid : q.purpose = .payload id) :
    w.others place Waiting.owns id = false := by
  rw [others, List.any_eq_false]
  intro q' hq' howns
  exact hp.others hq q' hq' ((owns_iff.1 (Bool.and_eq_true_iff.1 howns).2).trans hid.symm)

/-- A node whose properties are being looked up does not wait for its own payload. -/
theorem not_owns_of_leads {past : List Purpose} (hp : Spent past w) {q : Query}
    (hq : q ∈ w.underWay) {id : NodeId} (hid : q.purpose = .properties id) :
    w.expects Waiting.owns id = false := by
  have hnone : (w.underWay.any fun q => w.session.isCurrent q.lookup.waiting.generation &&
      q.lookup.waiting.owns id) = false := by
    rw [List.any_eq_false]
    intro q' hq' howns
    have hown := hp.own q' hq' id (owns_iff.1 (Bool.and_eq_true_iff.1 howns).2)
    exact hown.2 (hid ▸ hp.underWay q hq)
  rw [expects, hnone, Bool.and_false]

/-! ### Answers -/

/-- An outcome brings exactly what the machine reports for the handles of a lookup, and what comes
along with it is true to the machine. -/
structure Answer (T : Machine) (l : Lookup) (o : Outcome) (e : Envelope) : Prop where
  successful : Session.successful? o = some e
  reply : ∀ h ∈ l.handles, (LookupReply.ofEnvelope e).get? h = T h
  refs : ∀ p ∈ Payload.ofRefs (e.refs.getD []), ∀ h, p.handle = some h → T h = some p

/-- The move settles a lookup; one of the present suspension is answered by the machine. -/
def Answers (T : Machine) (w : Inquiry) : Move → Prop
  | .settle place o => ∀ q, w.underWay[place]? = some q →
      q.lookup.waiting.generation = w.session.cache.generation → ∃ e, Answer T q.lookup o e
  | _ => False

theorem Answer.covers {l : Lookup} {o : Outcome} {e : Envelope} (h : Answer T l o e) :
    (Source.trueTo T).Covers l.handles e where
  reply := fun k hk _ hp => (h.reply k hk).symm.trans hp
  refs := h.refs

theorem supplied_of_answers {m : Move} (h : w.Answers T m) :
    ¬m.Ends ∧ w.Supplied (.trueTo T) m := by
  cases m with
  | settle place o =>
      refine ⟨fun hm => hm, fun q hq hcurrent e' he' => ?_⟩
      obtain ⟨e, hanswer⟩ := h q hq hcurrent
      rw [hanswer.successful] at he'
      cases he'
      exact hanswer.covers
  | _ => exact h.elim

section

variable {place : Nat} {q : Query} {o : Outcome} {e : Envelope}

theorem step_settle (hq : w.underWay[place]? = some q) (o : Outcome) :
    (w.step (.settle place o)).session = (w.session.deliver q.lookup.waiting o).value.1 := by
  simp only [step, hq, issue_session]

/-- What an answer calls for is for the properties of the node that has waited for its own payload, and
the nodes that wait for it are new. -/
theorem news_of_answer (h : w.Poised T) (hq : w.underWay[place]? = some q) {l : Lookup}
    (hl : (w.session.deliver q.lookup.waiting o).value.2 = some l) :
    ∃ g id k g' awaited, q.lookup.waiting = .own g id k ∧ l.waiting = .batch g' awaited (some id) ∧
      ∀ x ∈ awaited, w.session.nodes.size ≤ x.2 := by
  obtain ⟨g, id, k, hown, -, n', awaited, hn', hawaited, hbatch⟩ := Session.deliver_query hl
  cases hbatch
  refine ⟨g, id, k, _, awaited, hown, rfl, fun x hx => ?_⟩
  have hmem := List.mem_of_getElem? hq
  obtain ⟨n, hn, -⟩ := (h.coherent.posed q hmem).awaited (k, id) (by simp [hown, Waiting.awaited])
  have hnone : n.children = [] := h.childless q hmem id (by simp [Query.purpose, hown]) n hn
  have hcalm : Session.Calm (fun _ => False) w.session
      (w.session.deliver q.lookup.waiting o).value.1 := Session.calm_deliver _ o
  rcases hcalm.children id n n' hn hn' x.2 (hawaited x hx).1 with hold | hnew
  · rw [hnone] at hold
    exact (List.not_mem_nil hold).elim
  · exact hnew

/-- A batch that is answered tells those who wait what the machine reports, and then answers their
parent. -/
theorem batch_answered (h : w.Poised T) (hq : w.underWay[place]? = some q)
    (hcurrent : q.lookup.waiting.generation = w.session.cache.generation)
    (hanswer : Answer T q.lookup o e) {g : Nat} {awaited : List (Handle × NodeId)}
    {parent : Option NodeId} (hwait : q.lookup.waiting = .batch g awaited parent) :
    ∃ t, w.session.Informs T (fun id => w.session.isAlive id && q.lookup.waiting.awaits id) t ∧
      Session.Updates (.trueTo T) (fun _ => True) w.session t ∧
      (w.step (.settle place o)).session =
        (parent.filter w.session.isAlive).elim t fun p => (t.recordOn p .replied).value := by
  obtain ⟨asker, handles, waiting⟩ := q
  subst hwait
  obtain ⟨t, hinforms, hupdates, hvalue⟩ := Session.deliverBatch_answered h.faithful
    (h.coherent.posed _ (List.mem_of_getElem? hq)) hcurrent hanswer.successful hanswer.reply
    hanswer.covers
  refine ⟨t, hinforms, hupdates, ?_⟩
  rw [← hvalue, step_settle hq]
  rfl

/-- What a node has become after an answer to a batch. -/
theorem batch_node (h : w.Poised T) (hq : w.underWay[place]? = some q)
    (hcurrent : q.lookup.waiting.generation = w.session.cache.generation)
    (hanswer : Answer T q.lookup o e) {g : Nat} {awaited : List (Handle × NodeId)}
    {parent : Option NodeId} (hwait : q.lookup.waiting = .batch g awaited parent) {id : NodeId}
    {n : Node} (hn : w.session.node? id = some n) :
    ∃ t m, Session.Updates (.trueTo T) (fun _ => True) w.session t ∧ t.node? id = some m ∧
      m.children = n.children ∧ m.core = n.informed (n.facts.handle.bind T)
        (w.session.isAlive id && q.lookup.waiting.awaits id) ∧
      (w.step (.settle place o)).session.node? id =
        some (if w.session.isAlive id && q.lookup.waiting.leads id then (m.record .replied).value
          else m) := by
  obtain ⟨t, hinforms, hupdates, hsession⟩ := batch_answered h hq hcurrent hanswer hwait
  obtain ⟨m, hm, hchildren, hcore⟩ := hinforms.nodes id n hn
  refine ⟨t, m, hupdates, hm, hchildren, hcore, ?_⟩
  have hleads : q.lookup.waiting.leads id = (parent == some id) := by rw [hwait]; rfl
  rw [hsession, hleads]
  cases hparent : parent.filter w.session.isAlive with
  | none =>
      have hnot : ¬(w.session.isAlive id && parent == some id) = true := by
        rw [Bool.and_eq_true, beq_iff_eq]
        rintro ⟨halive, rfl⟩
        simp [halive] at hparent
      rw [if_neg hnot]
      exact hm
  | some p =>
      obtain ⟨rfl, halive⟩ := Option.filter_eq_some_iff.1 hparent
      rw [Option.elim_some]
      by_cases hid : id = p
      · subst hid
        rw [Session.node?_recordOn_self hm, halive]
        simp
      · have hnot : ¬(w.session.isAlive id && some p == some id) = true := by
          simp [Ne.symm hid]
        rw [if_neg hnot, Session.node?_recordOn_of_ne t hid, hm]

/-- A node that is not the one that waits for its own payload stays exactly as it is. -/
theorem own_kept (h : w.Poised T) (hanswers : w.Answers T (.settle place o))
    (hq : w.underWay[place]? = some q) {g : Nat} {k : NodeId} {handle : Handle}
    (hwait : q.lookup.waiting = .own g k handle) {id : NodeId} (hid : id ≠ k) {n : Node}
    (hn : w.session.node? id = some n) :
    (w.step (.settle place o)).session.node? id = some n := by
  obtain ⟨hm, hsupplied⟩ := supplied_of_answers hanswers
  refine Session.Updates.kept (step_updates h.coherent hm hsupplied) hn ?_
  rintro ⟨q', hq', -, hmem⟩
  rw [hq] at hq'
  obtain rfl := Option.some.inj hq'
  rw [hwait] at hmem
  exact hid (by simpa [Waiting.nodes, Waiting.parent?, Waiting.awaited] using hmem)

/-- No answer takes a node away from who lists it. -/
theorem answer_keeps (h : w.Poised T) (hanswers : w.Answers T (.settle place o))
    (hq : w.underWay[place]? = some q)
    (hcurrent : q.lookup.waiting.generation = w.session.cache.generation) :
    w.session.Keeps (w.step (.settle place o)).session := by
  obtain ⟨e, hanswer⟩ := hanswers q hq hcurrent
  have hm : ¬Move.Ends (.settle place o) := fun hm => hm
  have hhold : ∀ frames nodes, Move.settle place o ≠ .hold frames nodes := by
    intro frames nodes hmove
    cases hmove
  have hrest : (w.step (.settle place o)).session.rest = w.session.rest := by
    simp only [step, hq, issue_session]
    exact Session.rest_deliver w.session q.lookup.waiting o
  refine ⟨hrest, fun id n hn => ?_⟩
  obtain ⟨n', hn', heir⟩ := (step_grows h.coherent (.settle place o)).nodes id n hn
  refine ⟨n', hn', heir.owner, fun c hc => ⟨fun hmem => ?_, fun hmem => ?_⟩⟩
  · rcases (step_calm hm hhold).children id n n' hn hn' c hmem with hold | hnew
    · exact hold
    · exact (Nat.not_lt.2 hnew hc).elim
  · cases hwait : q.lookup.waiting with
    | batch g awaited parent =>
        obtain ⟨t, m, -, -, hchildren, -, hstep⟩ := batch_node h hq hcurrent hanswer hwait hn
        rw [hn'] at hstep
        obtain rfl := Option.some.inj hstep
        rw [← hchildren] at hmem
        split
        · rw [Node.record_value]
          exact hmem
        · exact hmem
    | own g k handle =>
        by_cases hid : id = k
        · have hnone := h.childless q (List.mem_of_getElem? hq) id
            (by simp [Query.purpose, hwait, hid]) n hn
          rw [hnone] at hmem
          exact (List.not_mem_nil hmem).elim
        · rw [own_kept h hanswers hq hwait hid hn] at hn'
          obtain rfl := Option.some.inj hn'
          exact hmem

/-- What is expected after an answer comes with the other lookups, but for the batch that the answer has
called for. -/
theorem expects_answer (h : w.Poised T) (hanswers : w.Answers T (.settle place o))
    (hq : w.underWay[place]? = some q)
    (hcurrent : q.lookup.waiting.generation = w.session.cache.generation) {id : NodeId}
    (hid : id < w.session.nodes.size) :
    (w.step (.settle place o)).expects Waiting.awaits id =
        (w.session.isAlive id && w.others place Waiting.awaits id) ∧
      (w.step (.settle place o)).expects Waiting.owns id =
        (w.session.isAlive id && w.others place Waiting.owns id) ∧
      (w.step (.settle place o)).expects Waiting.leads id =
        (w.session.isAlive id && (w.others place Waiting.leads id ||
          ((w.session.deliver q.lookup.waiting o).value.2.isSome &&
            q.lookup.waiting.owns id))) := by
  have halive := (answer_keeps h hanswers hq hcurrent).isAlive hid
  have hafter := fun means => expects_after h.coherent hq hcurrent o means id
  rw [hafter, hafter, hafter, halive]
  cases hl : (w.session.deliver q.lookup.waiting o).value.2 with
  | none => simp
  | some l =>
      obtain ⟨g, k, handle, g', awaited, hown, hbatch, hnew⟩ := news_of_answer h hq hl
      have hawaits : l.waiting.awaits id = false := by
        rw [hbatch, Waiting.awaits, ← Bool.not_eq_true, List.contains_iff_mem]
        intro hmem
        obtain ⟨x, hx, rfl⟩ := List.mem_map.1 hmem
        exact Nat.not_lt.2 (hnew x hx) hid
      have howns : l.waiting.owns id = false := by rw [hbatch]; rfl
      have hleads : l.waiting.leads id = q.lookup.waiting.owns id := by
        rw [hbatch, hown, Waiting.leads, Waiting.owns, Waiting.parent?]
        rfl
      simp [hawaits, howns, hleads]

end

end Inquiry

end RemoteInspector
