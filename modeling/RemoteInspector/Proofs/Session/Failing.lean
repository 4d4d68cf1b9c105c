import RemoteInspector.Proofs.Channel.Routing
import RemoteInspector.Proofs.Session.Poised
import RemoteInspector.Proofs.Session.Schedule

/-!
Lookups that fail. A failing outcome fails the nodes that wait for it and that somebody still holds on
to, less those that are settled, and changes nothing else: `Session.failing`. To fail nodes twice is to
fail them once, and failing keeps who is held, so it does not matter in which order lookups fail.
-/

namespace RemoteInspector

open Correlator

def Outcome.Fails : Outcome → Prop
  | .error _ => True
  | .ok e => e.success ≠ some true

theorem Session.successful?_eq_none {o : Outcome} (ho : o.Fails) : successful? o = none := by
  cases o with
  | error _ => rfl
  | ok e =>
      have hnot : e.isSuccessful = false := by
        rw [Envelope.isSuccessful]
        cases hs : e.success with
        | none => rfl
        | some b =>
            cases b with
            | false => rfl
            | true => exact (ho hs).elim
      simp [successful?, hnot]

def Node.failed (n : Node) : Node :=
  if n.resolution = .resolved ∨ n.resolution = .failed then n else { n with resolution := .failed }

namespace Node

theorem record_failed (n : Node) : (n.record .failed).value = n.failed := by
  rw [record_value]
  cases hn : n.resolution <;> simp [failed, hn, Resolution.on]
  case resolved => rw [← hn]
  case failed => rw [← hn]

theorem failed_failed (n : Node) : n.failed.failed = n.failed := by
  have hfinal : n.failed.resolution = .resolved ∨ n.failed.resolution = .failed := by
    unfold failed
    split
    · assumption
    · exact .inr rfl
  exact if_pos hfinal

theorem owner_failed (n : Node) : n.failed.owner = n.owner := by
  unfold failed
  split <;> rfl

theorem children_failed (n : Node) : n.failed.children = n.children := by
  unfold failed
  split <;> rfl

end Node

namespace Session

variable {s : Session}

def failing (s : Session) (ids : List NodeId) : Session :=
  { s with nodes := s.nodes.mapIdx fun k n => if k ∈ ids ∧ s.isAlive k = true then n.failed else n }

theorem node?_failing (s : Session) (ids : List NodeId) (k : NodeId) :
    (s.failing ids).node? k =
      (s.node? k).map fun n => if k ∈ ids ∧ s.isAlive k = true then n.failed else n :=
  Array.getElem?_mapIdx

/-- Who is held does not depend on what is resolved. -/
theorem isAlive_failing (s : Session) (ids : List NodeId) (k : NodeId) :
    (s.failing ids).isAlive k = s.isAlive k := by
  have hsame : ∀ j (n : Node), (if j ∈ ids ∧ s.isAlive j = true then n.failed else n).owner = n.owner ∧
      (if j ∈ ids ∧ s.isAlive j = true then n.failed else n).children = n.children := by
    intro j n
    split
    · exact ⟨n.owner_failed, n.children_failed⟩
    · exact ⟨rfl, rfl⟩
  refine isAlive_congr rfl (fun j _ => ?_) fun p _ c _ => ?_
  · rw [node?_failing, Option.map_map]
    exact congrArg (Option.map · (s.node? j)) (funext fun n => (hsame j n).1)
  · simp only [node?_failing, Option.map_eq_some_iff]
    constructor
    · rintro ⟨_, ⟨n, hn, rfl⟩, hc⟩
      exact ⟨n, hn, (hsame p n).2 ▸ hc⟩
    · rintro ⟨n, hn, hc⟩
      exact ⟨_, ⟨n, hn, rfl⟩, (hsame p n).2.symm ▸ hc⟩

/-- It matters only which of the nodes that are held are listed. -/
theorem failing_congr {a b : List NodeId}
    (hsame : ∀ k, s.isAlive k = true → (k ∈ a ↔ k ∈ b)) : s.failing a = s.failing b := by
  have hlisted : ∀ k, (k ∈ a ∧ s.isAlive k = true) ↔ (k ∈ b ∧ s.isAlive k = true) := fun k =>
    and_congr_left (hsame k)
  simp only [failing, hlisted]

theorem eq_failing {t : Session} {ids : List NodeId} (hrest : t = { s with nodes := t.nodes })
    (hnode : ∀ k, t.node? k =
      (s.node? k).map fun n => if k ∈ ids ∧ s.isAlive k = true then n.failed else n) :
    t = s.failing ids := by
  have hnodes : t.nodes = (s.failing ids).nodes :=
    Array.ext_getElem? fun k => (hnode k).trans (s.node?_failing ids k).symm
  exact hrest.trans (congrArg (fun nodes => { s with nodes := nodes }) hnodes)

theorem failing_nil (s : Session) : s.failing [] = s := by
  refine (eq_failing rfl fun k => ?_).symm
  cases s.node? k with
  | none => rfl
  | some n => simp

theorem failing_append (s : Session) (a b : List NodeId) :
    (s.failing a).failing b = s.failing (a ++ b) := by
  refine eq_failing rfl fun k => ?_
  rw [node?_failing, node?_failing, isAlive_failing, Option.map_map]
  refine congrArg (Option.map · (s.node? k)) (funext fun n => ?_)
  simp only [Function.comp_apply, List.mem_append]
  by_cases ha : k ∈ a <;> by_cases hb : k ∈ b <;> by_cases hk : s.isAlive k = true <;>
    simp [ha, hb, hk, n.failed_failed]

theorem recordOn_failed {id : NodeId} (halive : s.isAlive id = true) :
    (s.recordOn id .failed).value = s.failing [id] := by
  rcases s.recordOn_cases id .failed with ⟨hnone, hvalue⟩ | ⟨n, hn, hvalue⟩
  · refine eq_failing (by rw [hvalue]) fun k => ?_
    rw [hvalue]
    cases hk : s.node? k with
    | none => rfl
    | some m =>
        have hne : k ≠ id := by
          rintro rfl
          rw [hnone] at hk
          cases hk
        simp [hne]
  · refine eq_failing (by rw [hvalue]; rfl) fun k => ?_
    rw [hvalue, node?_setNode hn, Node.record_failed]
    by_cases hk : k = id
    · simp [hk, hn, halive]
    · simp [hk]

theorem failAll_value (s : Session) (ids : List NodeId) :
    (s.failAll ids).value = s.failing ids := by
  induction ids generalizing s with
  | nil => exact s.failing_nil.symm
  | cons id ids ih =>
      unfold failAll
      cases halive : s.isAlive id with
      | true =>
          rw [if_pos rfl, Logged.value_bind, ih, recordOn_failed halive, failing_append]
          rfl
      | false =>
          rw [if_neg Bool.false_ne_true, ih]
          refine failing_congr fun k hk => ?_
          have hne : k ≠ id := by
            rintro rfl
            rw [halive] at hk
            cases hk
          simp [hne]

/-- The nodes that an outcome reaches: those that wait for it, unless it comes too late. -/
def reach (s : Session) (w : Waiting) : List NodeId :=
  if w.generation = s.cache.generation then w.nodes else []

/-- A failing outcome fails the nodes that wait for it, whatever came along with it. -/
theorem deliver_fails (s : Session) (w : Waiting) {o : Outcome} (ho : o.Fails) :
    (s.deliver w o).value = (s.failing (s.reach w), none) := by
  by_cases hgen : w.generation = s.cache.generation
  case neg =>
    rw [deliver_stale hgen, reach, if_neg hgen, failing_nil]
  have hcurrent : s.isCurrent w.generation = true := isCurrent_iff.2 hgen
  have hnone := successful?_eq_none ho
  rw [reach, if_pos hgen]
  cases w with
  | batch g awaited parent =>
      have hall : s.failing ((parent.filter s.isAlive).toList ++ awaited.map (·.2)) =
          s.failing (parent.toList ++ awaited.map (·.2)) := by
        refine failing_congr fun k hk => ?_
        simp only [List.mem_append, Option.mem_toList, Option.filter_eq_some_iff]
        exact or_congr_left (and_iff_left hk)
      change s.isCurrent g = true at hcurrent
      simp only [deliver, deliverBatch, hcurrent, hnone, Bool.not_true, Bool.false_eq_true, if_false,
        Logged.value_bind, Logged.value_pure, failAll_value, hall]
      rfl
  | own g id h =>
      change s.isCurrent g = true at hcurrent
      cases halive : s.isAlive id with
      | true =>
          simp only [deliver, deliverOwn, hcurrent, hnone, halive, Bool.not_true, Bool.false_eq_true,
            if_false, Logged.value_bind, Logged.value_pure, recordOn_failed halive]
          rfl
      | false =>
          have hdead : s.failing [id] = s := by
            refine (failing_congr fun k hk => ?_).trans s.failing_nil
            rw [List.mem_singleton]
            refine iff_of_false ?_ List.not_mem_nil
            rintro rfl
            rw [halive] at hk
            cases hk
          simp only [deliver, deliverOwn, hcurrent, halive, Bool.not_true, Bool.false_eq_true,
            if_false, Bool.not_false, if_true, Logged.value_pure]
          exact congrArg (·, none) hdead.symm

end Session

/-- The node has asked for the lookup, or waits for a payload that it asks for. -/
def Query.Waits (q : Query) (id : NodeId) : Prop :=
  q.asker = .node id ∨ ∃ h, (h, id) ∈ q.lookup.waiting.awaited

theorem Session.waits_of_serves {s : Session} {q : Query} {p : Purpose} (h : s.Serves q p)
    (id : NodeId) : q.Waits id ↔ id ∈ q.lookup.waiting.nodes := by
  cases p with
  | payload k =>
      obtain ⟨n, g, -, -, rfl⟩ := h
      simp [Query.Waits, Waiting.nodes, Waiting.parent?, Waiting.awaited, eq_comm]
  | properties k =>
      obtain ⟨n, awaited, -, -, rfl⟩ := h
      simp [Query.Waits, Waiting.nodes, Waiting.parent?, Waiting.awaited, batchOf, eq_comm]
  | roots k =>
      obtain ⟨f, awaited, -, -, rfl⟩ := h
      simp [Query.Waits, Waiting.nodes, Waiting.parent?, Waiting.awaited, batchOf]

namespace Inquiry

/-- Who waits for a lookup under way are the nodes that its outcome may touch. -/
theorem waits_iff (options : LookupOptions) (moves : List Move) :
    ∀ q ∈ (run options moves).underWay, ∀ id, q.Waits id ↔ id ∈ q.lookup.waiting.nodes := by
  induction moves using List.reverseRecOn with
  | nil => exact nofun
  | append_singleton moves m ih =>
      intro q hq
      rw [run_append, after_singleton, (step_sends _ m).2] at hq
      rcases List.mem_append.1 hq with hq | hq
      · exact ih q ((remaining_sublist _ m).subset hq)
      · have hnovel := novel_of_asks (coherent_run options moves) (spent_run options moves)
          (Option.mem_toList.1 hq)
        exact Session.waits_of_serves hnovel.serves

/-- A lookup belongs to the suspension of the node or frame that has asked for it: one that a node of an
earlier suspension has sent since counts to that suspension and not to the present one. -/
def Present (w : Inquiry) (q : Query) : Prop :=
  w.session.generationOf q.asker = some w.session.cache.generation

/-- Each of these lookups has failed the nodes that wait for it, and nothing else has changed. -/
structure FailsOnly (w : Inquiry) (qs : List Query) (w' : Inquiry) : Prop where
  /-- Those who wait have failed, unless they were settled. -/
  waiting : ∀ q ∈ qs, w.Present q → ∀ id n, q.Waits id → w.session.isAlive id = true →
    w.session.node? id = some n → w'.session.node? id = some n.failed
  /-- All other nodes are as before, and so are those that nobody holds on to. -/
  others : ∀ id n, w.session.node? id = some n →
    (∀ q ∈ qs, w.Present q → q.Waits id → w.session.isAlive id = false) →
    w'.session.node? id = some n
  size : w'.session.nodes.size = w.session.nodes.size
  rest : w'.session = { w.session with nodes := w'.session.nodes }
  sent : w'.sent = w.sent
  underWay : w'.underWay = w.underWay.diff qs

def reached (w : Inquiry) (qs : List Query) : List NodeId :=
  qs.flatMap fun q => w.session.reach q.lookup.waiting

theorem mem_reached {options : LookupOptions} {moves : List Move} {qs : List Query}
    (hqs : ∀ q ∈ qs, q ∈ (run options moves).underWay) {id : NodeId} :
    id ∈ (run options moves).reached qs ↔
      ∃ q ∈ qs, (run options moves).Present q ∧ q.Waits id := by
  rw [reached, List.mem_flatMap]
  refine exists_congr fun q => and_congr_right fun hq => ?_
  have hunderWay := hqs q hq
  rw [Session.reach, Present, (coherent_run options moves).asked q hunderWay, Option.some.injEq,
    waits_iff options moves q hunderWay id]
  split
  · next hgen => exact (and_iff_right hgen).symm
  · next hgen => simp [hgen]

theorem failsOnly_failing {options : LookupOptions} {moves : List Move} {qs : List Query}
    (hqs : ∀ q ∈ qs, q ∈ (run options moves).underWay) :
    FailsOnly (run options moves) qs
      { run options moves with
        session := (run options moves).session.failing ((run options moves).reached qs)
        underWay := (run options moves).underWay.diff qs } := by
  constructor
  case waiting =>
    intro q hq hpresent id n hwaits halive hn
    have hmem := (mem_reached hqs).2 ⟨q, hq, hpresent, hwaits⟩
    rw [Session.node?_failing, hn, Option.map_some, if_pos ⟨hmem, halive⟩]
  case others =>
    intro id n hn hnot
    rw [Session.node?_failing, hn, Option.map_some, if_neg]
    rintro ⟨hmem, halive⟩
    obtain ⟨q, hq, hpresent, hwaits⟩ := (mem_reached hqs).1 hmem
    rw [hnot q hq hpresent hwaits] at halive
    cases halive
  case size => exact Array.size_mapIdx
  case rest => rfl
  case sent => rfl
  case underWay => rfl

/-! ### Lookups that fail one after another -/

def settle (w : Inquiry) (x : Query × Outcome) : Inquiry :=
  w.step (.settle (w.underWay.idxOf x.1) x.2)

theorem settle_fails {w : Inquiry} {x : Query × Outcome} (hx : x.1 ∈ w.underWay)
    (ho : x.2.Fails) : w.settle x =
      { w with
        session := w.session.failing (w.reached [x.1])
        underWay := w.underWay.erase x.1 } := by
  have hplace : w.underWay[w.underWay.idxOf x.1]? = some x.1 := List.getElem?_idxOf hx
  simp only [settle, step, hplace, Session.deliver_fails _ _ ho, issue]
  rw [List.eraseIdx_idxOf_eq_erase, reached, List.flatMap_singleton]

theorem settleEach_fails {w : Inquiry} {xs : List (Query × Outcome)}
    (hxs : ∀ x ∈ xs, x.1 ∈ w.underWay) (hdistinct : (xs.map (·.1)).Nodup)
    (ho : ∀ x ∈ xs, x.2.Fails) : xs.foldl settle w =
      { w with
        session := w.session.failing (w.reached (xs.map (·.1)))
        underWay := w.underWay.diff (xs.map (·.1)) } := by
  induction xs generalizing w with
  | nil => simp [reached, Session.failing_nil]
  | cons x xs ih =>
      obtain ⟨hnot, hdistinct⟩ := List.nodup_cons.1 hdistinct
      have hfirst := settle_fails (hxs x List.mem_cons_self) (ho x List.mem_cons_self)
      rw [List.foldl_cons, hfirst, ih ?_ hdistinct fun y hy => ho y (List.mem_cons_of_mem x hy)]
      · simp only [reached, List.map_cons, List.flatMap_cons, List.diff_cons,
          Session.failing_append, List.flatMap_nil, List.append_nil]
        rfl
      · intro y hy
        have hne : y.1 ≠ x.1 := fun heq => hnot (List.mem_map.2 ⟨y, hy, heq⟩)
        exact (List.mem_erase_of_ne hne).2 (hxs y (List.mem_cons_of_mem x hy))

theorem settle_place {options : LookupOptions} {moves : List Move} {place : Nat} {q : Query}
    (hq : (run options moves).underWay[place]? = some q) (o : Outcome) :
    (run options moves).step (.settle place o) = (run options moves).settle (q, o) := by
  obtain ⟨hlt, rfl⟩ := List.getElem?_eq_some_iff.1 hq
  have hdistinct : (run options moves).underWay.Nodup := (spent_run options moves).distinct.of_map
  rw [settle, hdistinct.idxOf_getElem]

end Inquiry

/-! ### A channel that is closed -/

namespace Debugger

/-- Failing outcomes fail the nodes that wait for lookups, and send nothing. -/
theorem fireAll_fails (issue : Issue) {fs : List (Firing Errand)}
    (hfs : ∀ f ∈ fs, f.outcome.Fails) (d : Debugger) :
    (fireAll issue fs d).value.session =
        d.session.failing ((fs.filterMap (·.completion.waiting?)).flatMap d.session.reach) ∧
      (fireAll issue fs d).value.written = d.written := by
  induction fs generalizing d with
  | nil => exact ⟨d.session.failing_nil.symm, rfl⟩
  | cons f fs ih =>
      have hrest : ∀ g ∈ fs, g.outcome.Fails := fun g hg => hfs g (List.mem_cons_of_mem f hg)
      obtain ⟨completion, outcome, locked⟩ := f
      have ho : outcome.Fails := hfs _ List.mem_cons_self
      rw [fireAll, Logged.value_bind]
      cases completion with
      | lookup w =>
          obtain ⟨hsession, hwritten⟩ :=
            ih hrest (d.withSession (d.session.failing (d.session.reach w)))
          have hfire : (d.fire issue (.lookup w) outcome).value =
              d.withSession (d.session.failing (d.session.reach w)) := by
            rw [fire, Logged.value_bind, Session.deliver_fails _ _ ho]
            rfl
          rw [hfire]
          refine ⟨hsession.trans ?_, hwritten⟩
          exact Session.failing_append _ _ _
      | backtrace =>
          obtain ⟨hsession, hwritten⟩ := ih hrest { d with backtrace := some outcome }
          exact ⟨hsession, hwritten⟩
      | resume =>
          have hfire : (d.fire issue .resume outcome).value = d := by
            cases outcome <;> rfl
          rw [hfire]
          exact ih hrest d

theorem shut_fails (issue : Issue) {d : Debugger} {c : Correlator Errand} {sink : Sink}
    (hd : d.channel = .wire c sink) :
    (d.shut issue).value.session = d.session.failing
        (((completions c.pending).filterMap Errand.waiting?).flatMap d.session.reach) ∧
      (d.shut issue).value.written = d.written := by
  let fired : List (Firing Errand) := (completions c.pending).map fun t => ⟨t, .error .closed, false⟩
  have hfails : ∀ f ∈ fired, f.outcome.Fails := by
    intro f hf
    obtain ⟨t, -, rfl⟩ := List.mem_map.1 hf
    trivial
  have hwaiting : fired.filterMap (·.completion.waiting?) =
      (completions c.pending).filterMap Errand.waiting? := List.filterMap_map
  have hvalue : (d.shut issue).value =
      (fireAll issue fired { d with channel := .wire c.close.value.1 sink }).value := by
    rw [shut, hd]
    simp only [Logged.value_bind, close_eq]
    rfl
  rw [hvalue, ← hwaiting]
  exact fireAll_fails issue hfails _

end Debugger

namespace Inquiry

/-- Lookups under way, each once, and failing outcomes for them. -/
structure Failures (w : Inquiry) (xs : List (Query × Outcome)) : Prop where
  underWay : ∀ x ∈ xs, x.1 ∈ w.underWay
  distinct : (xs.map (·.1)).Nodup
  fails : ∀ x ∈ xs, x.2.Fails

/-- Lookups fail nothing but the nodes that wait for them. -/
structure FailsAlone (w : Inquiry) : Prop where
  one : ∀ place q o, w.underWay[place]? = some q → o.Fails →
    FailsOnly w [q] (w.step (.settle place o))
  each : ∀ xs, w.Failures xs → FailsOnly w (xs.map (·.1)) (xs.foldl settle w)
  /-- The order in which they fail does not matter, nor does the kind of failure. -/
  order : ∀ xs ys, w.Failures xs → w.Failures ys → (xs.map (·.1)).Perm (ys.map (·.1)) →
    xs.foldl settle w = ys.foldl settle w
  /-- To close a channel that they are pending on, in whatever order, is to fail them. -/
  close : ∀ xs, w.Failures xs → ∀ (d : Debugger) c sink, d.session = w.session →
    d.channel = .wire c sink →
    ((completions c.pending).filterMap Errand.waiting?).Perm (xs.map (·.1.lookup.waiting)) →
    d.close.value.session = (xs.foldl settle w).session ∧ d.close.value.written = d.written

/-- In every state, lookups that fail take down the nodes that have asked for them or wait for them,
and leave the session, its cache, its frames and all requests as they are; every order of failing comes
to the same. -/
theorem failed_lookups_fail_their_own (options : LookupOptions) (moves : List Move) :
    FailsAlone (run options moves) := by
  have hsettle : ∀ xs, (run options moves).Failures xs → xs.foldl settle (run options moves) = _ :=
    fun xs h => settleEach_fails h.underWay h.distinct h.fails
  have heach : ∀ xs, (run options moves).Failures xs →
      FailsOnly (run options moves) (xs.map (·.1)) (xs.foldl settle (run options moves)) := by
    intro xs h
    rw [hsettle xs h]
    refine failsOnly_failing fun q hq => ?_
    obtain ⟨x, hx, rfl⟩ := List.mem_map.1 hq
    exact h.underWay x hx
  constructor
  case one =>
    intro place q o hq ho
    rw [settle_place hq]
    refine heach [(q, o)] ⟨?_, List.nodup_singleton _, ?_⟩
    · exact List.forall_mem_singleton.2 (List.mem_of_getElem? hq)
    · exact List.forall_mem_singleton.2 ho
  case each => exact heach
  case order =>
    intro xs ys hxs hys hperm
    rw [hsettle xs hxs, hsettle ys hys, hperm.diff_left]
    have hreached : (run options moves).session.failing ((run options moves).reached (xs.map (·.1))) =
        (run options moves).session.failing ((run options moves).reached (ys.map (·.1))) :=
      Session.failing_congr fun k _ => (hperm.flatMap_right _).mem_iff
    rw [hreached]
  case close =>
    intro xs hxs d c sink hsession hchannel hperm
    obtain ⟨hclosed, hwritten⟩ := Debugger.shut_fails Debugger.issue hchannel
    refine ⟨hclosed.trans ?_, hwritten⟩
    rw [hsettle xs hxs, hsession]
    refine Session.failing_congr fun k _ => ?_
    rw [(hperm.flatMap_right _).mem_iff]
    simp [reached]

/-- The variable `x` is waited for by its frame and on its own behalf; of the properties of `y` one is
cached. -/
def waitedForTwice : List Move :=
  [.createFrame 0 "main" [⟨"x", { handle := some 7 }⟩,
      ⟨"y", { handle := some 1, tag := some "object", properties := [⟨"b", 8⟩, ⟨"c", 9⟩] }⟩],
    .store 8 { handle := some 8, tag := some "number", text := some "1" },
    .ensureVariables 0, .expand 0, .expand 1]

def unsuccessfulReply : Envelope :=
  let text := Json.object [("handle", .string "7"), ("type", .string "string"), ("value", .string "t")]
  { Envelope.response 1 "lookup" false (some (.object [("7", text), ("9", text)])) with
    refs := some [text] }

theorem failed_lookups_fail_their_own_overlapping :
    ∃ q₀ q₁ q₂, (run {} waitedForTwice).underWay = [q₀, q₁, q₂] ∧
      FailsOnly (run {} waitedForTwice) [q₂]
        ((run {} waitedForTwice).step (.settle 2 (.ok unsuccessfulReply))) ∧
      ((run {} waitedForTwice).step (.settle 2 (.ok unsuccessfulReply))).session.nodes.map
        Node.resolution = #[.pending, .failed, .resolved, .failed] ∧
      [(q₀, .error .closed), (q₁, .ok unsuccessfulReply), (q₂, .error .timeout)].foldl settle
          (run {} waitedForTwice) =
        [(q₂, .error .closed), (q₀, .error .dropped), (q₁, .error .closed)].foldl settle
          (run {} waitedForTwice) := by
  have halone := failed_lookups_fail_their_own {} waitedForTwice
  have hfails : unsuccessfulReply.success ≠ some true := by decide
  refine ⟨_, _, _, rfl, halone.one 2 _ _ rfl hfails, by decide +kernel,
    halone.order _ _ ?_ ?_ (by decide)⟩
  · exact ⟨by decide, by decide, by simpa [Outcome.Fails] using hfails⟩
  · exact ⟨by decide, by decide, by simp [Outcome.Fails]⟩

end Inquiry

end RemoteInspector
