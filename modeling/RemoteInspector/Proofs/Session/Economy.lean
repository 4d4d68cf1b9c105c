import Mathlib.Data.List.Nodup
import RemoteInspector.Proofs.Session.Attended
import RemoteInspector.Proofs.Session.Rest

/-!
No lookup is sent twice. Each lookup is for something: the payload of a node, the properties of a node
or the variables of a frame. What has been asked for has left its mark on the session, a node that has
begun to be resolved or a frame whose variables have been requested, and the mark keeps it from being
asked for again. The handles of a lookup are those that are not cached when it is sent.
-/

namespace RemoteInspector

namespace Session

/-! ### Handles in ascending order -/

theorem sorted_insertHandle {hs : List Handle} (hsorted : hs.Pairwise (· < ·)) (h : Handle) :
    (insertHandle h hs).Pairwise (· < ·) := by
  induction hs with
  | nil => exact List.pairwise_singleton _ _
  | cons k hs ih =>
      obtain ⟨hfirst, hrest⟩ := List.pairwise_cons.1 hsorted
      unfold insertHandle
      split
      · next hlt =>
        refine List.pairwise_cons.2 ⟨fun g hg => ?_, hsorted⟩
        rcases List.mem_cons.1 hg with rfl | hg
        · exact hlt
        · exact UInt64.lt_trans hlt (hfirst g hg)
      · next hge =>
        split
        · exact hsorted
        · next hne =>
          refine List.pairwise_cons.2 ⟨fun g hg => ?_, ih hrest⟩
          rcases mem_insertHandle.1 hg with rfl | hg
          · exact UInt64.lt_of_le_of_ne (UInt64.not_lt.1 hge) (Ne.symm hne)
          · exact hfirst g hg

theorem sorted_handleSet (hs : List Handle) : (handleSet hs).Pairwise (· < ·) := by
  induction hs with
  | nil => exact .nil
  | cons h hs ih => exact sorted_insertHandle ih h

end Session

/-- A lookup that is worth sending: it asks for something, for nothing twice, and for nothing that is
cached. -/
structure Lookup.Needed (l : Lookup) (c : Cache) : Prop where
  nonempty : l.handles ≠ []
  ascending : l.handles.Pairwise (· < ·)
  uncached : ∀ h ∈ l.handles, c.get? h = none

theorem Session.needed_batchOf {c : Cache} {awaited : List (Handle × NodeId)} (hne : awaited ≠ [])
    (hmissing : ∀ x ∈ awaited, c.contains x.1 = false) (generation : Nat) (parent : Option NodeId) :
    (batchOf generation awaited parent).Needed c := by
  refine ⟨fun hnil => ?_, sorted_handleSet _, fun h hh => ?_⟩
  · obtain ⟨x, rest, rfl⟩ := List.exists_cons_of_ne_nil hne
    have hmem : x.1 ∈ handleSet ((x :: rest).map (·.1)) := mem_handleSet.2 List.mem_cons_self
    rw [show handleSet ((x :: rest).map (·.1)) = [] from hnil] at hmem
    exact List.not_mem_nil hmem
  · obtain ⟨x, hx, rfl⟩ := List.mem_map.1 (mem_handleSet.1 hh)
    simpa [Cache.contains] using hmissing x hx

/-! ### What a lookup is for -/

/-- What may be looked up, each at most once. -/
inductive Purpose where
  /-- The payload of a node, on its own behalf. -/
  | payload (id : NodeId)
  | properties (id : NodeId)
  /-- The payloads of the variables of a frame. -/
  | roots (id : FrameId)
  deriving DecidableEq, Repr

def Query.purpose (q : Query) : Purpose :=
  match q.lookup.waiting, q.asker with
  | .own _ id _, _ => .payload id
  | .batch _ _ (some id), _ => .properties id
  | .batch _ _ none, .node id => .properties id
  | .batch _ _ none, .frame id => .roots id

namespace Session

/-- A lookup asks for what it is for: for the handle of the node, for handles of children that the node
lists, or for handles of variables of the frame. -/
def Serves (s : Session) (q : Query) : Purpose → Prop
  | .payload id => ∃ n h, s.node? id = some n ∧ n.facts.handle = some h ∧
      q = ⟨.node id, [h], .own n.generation id h⟩
  | .properties id => ∃ n awaited, s.node? id = some n ∧
      (∀ x ∈ awaited, x.2 ∈ n.children ∧ s.Carries n.generation x.2 x.1) ∧
      q = ⟨.node id, batchOf n.generation awaited (some id)⟩
  | .roots id => ∃ f awaited, s.callFrame? id = some f ∧
      (∀ x ∈ awaited, x.2 ∈ f.roots ∧ s.Carries f.generation x.2 x.1) ∧
      q = ⟨.frame id, batchOf f.generation awaited none⟩

variable {s : Session} {id : NodeId}

theorem populate_query {m n : Node} {refs : List PropertyRef} {l : Lookup}
    (hm : s.node? id = some m) (hl : (s.populate id n refs).value.2 = some l) :
    l.Needed (s.populate id n refs).value.1.cache ∧
      (s.populate id n refs).value.1.Serves ⟨.node id, l⟩ (.properties id) := by
  obtain ⟨hposed, -⟩ := populate_asks hm hl
  rcases s.populate_cases id n refs with ⟨-, hvalue⟩ | ⟨hne, hvalue⟩
  · rw [hvalue] at hl
    cases hl
  · rw [hvalue] at hl hposed ⊢
    obtain rfl := Option.some.inj hl
    refine ⟨needed_batchOf hne (fun x hx => ?_) _ _, _, _, node?_withChildren_self hm n refs, ?_, rfl⟩
    · obtain ⟨-, -, -, -, hcontains⟩ := mem_missing.1 hx
      exact hcontains
    · intro x hx
      rw [children_list]
      exact ⟨(mem_missing.1 hx).1, hposed.awaited x hx⟩

theorem settleOwn_query {n : Node} {p : Payload} {l : Lookup} (hn : s.node? id = some n)
    (hl : (s.settleOwn id n p).value.2 = some l) :
    l.Needed (s.settleOwn id n p).value.1.cache ∧
      (s.settleOwn id n p).value.1.Serves ⟨.node id, l⟩ (.properties id) := by
  rcases s.settleOwn_cases id n p with ⟨-, hvalue⟩ | ⟨-, hvalue⟩
  · rw [hvalue] at hl ⊢
    exact populate_query (node?_setNode_self hn _) hl
  · rw [hvalue] at hl
    cases hl

/-- A node that begins to be resolved asks for its own payload or for its properties. -/
theorem expand_query {l : Lookup} (hl : (s.expand id).value.2 = some l) :
    l.Needed (s.expand id).value.1.cache ∧
      ((s.expand id).value.1.Serves ⟨.node id, l⟩ (.payload id) ∨
        (s.expand id).value.1.Serves ⟨.node id, l⟩ (.properties id)) := by
  rcases s.expand_cases id with ⟨-, hvalue⟩ | ⟨n, hn, -, -, hcase⟩
  · rw [hvalue] at hl
    cases hl
  have hself := node?_setNode_self hn n.begun
  rcases hcase with ⟨refs, -, hvalue⟩ | ⟨h, p, -, -, -, hvalue⟩ | ⟨h, -, hh, hnone, hvalue⟩
  · rw [hvalue] at hl ⊢
    exact (populate_query hn hl).imp_right .inr
  · rw [hvalue] at hl ⊢
    exact (settleOwn_query hself hl).imp_right .inr
  · rw [hvalue] at hl ⊢
    obtain rfl := Option.some.inj hl
    refine ⟨⟨by simp, List.pairwise_singleton _ _, ?_⟩, .inl ⟨n.begun, h, hself, hh, rfl⟩⟩
    exact List.forall_mem_singleton.2 hnone

theorem ensureProperties_query {refs : List PropertyRef} {l : Lookup}
    (hl : (s.ensureProperties id refs).value.2 = some l) :
    l.Needed (s.ensureProperties id refs).value.1.cache ∧
      (s.ensureProperties id refs).value.1.Serves ⟨.node id, l⟩ (.properties id) := by
  rcases s.ensureProperties_cases id refs with ⟨-, hvalue⟩ | ⟨n, hn, -, -, hvalue⟩
  · rw [hvalue] at hl
    cases hl
  · rw [hvalue] at hl ⊢
    exact populate_query hn hl

/-- The variables of a frame are asked for only if they have not been requested before, and after that
they have. -/
theorem ensureVariables_requests {next : Session × Option Lookup}
    (hnext : (s.ensureVariables id).value = .ok next) {l : Lookup} (hl : next.2 = some l) :
    ∃ f, s.callFrame? id = some f ∧ f.requested = false ∧
      next.1.callFrame? id = some { f with requested := true } ∧ next.1.cache = s.cache ∧
      s.missing (s.bare f.roots) ≠ [] ∧
      l = batchOf f.generation (s.missing (s.bare f.roots)) none := by
  unfold ensureVariables at hnext
  cases hf : s.callFrame? id with
  | none =>
      rw [hf] at hnext
      cases hnext
      cases hl
  | some f =>
      rw [hf] at hnext
      dsimp only at hnext
      split at hnext
      · cases hnext
      · split at hnext
        · cases hnext
          cases hl
        · next hrequested =>
          rw [Logged.value_bind] at hnext
          split at hnext
          · cases hnext
            cases hl
          · next hne =>
            cases hnext
            obtain ⟨nodes, hvalue⟩ := (s.asked id f).fillBare_nodes f.roots
            have hframe : (s.asked id f).callFrame? id = some { f with requested := true } := by
              rw [asked, callFrame?_ask hf, if_pos rfl]
            refine ⟨f, rfl, by simpa using hrequested, ?_, ?_, hne, (Option.some.inj hl).symm⟩
            · show ((s.asked id f).fillBare f.roots).value.callFrame? id = _
              rw [hvalue]
              exact hframe
            · show ((s.asked id f).fillBare f.roots).value.cache = _
              rw [hvalue]
              rfl

theorem ensureVariables_query (hs : s.Dated) {next : Session × Option Lookup}
    (hnext : (s.ensureVariables id).value = .ok next) {l : Lookup} (hl : next.2 = some l) :
    l.Needed next.1.cache ∧ next.1.Serves ⟨.frame id, l⟩ (.roots id) := by
  obtain ⟨hposed, -⟩ := ensureVariables_asks hs hnext hl
  obtain ⟨f, -, -, hframe, hcache, hne, rfl⟩ := ensureVariables_requests hnext hl
  refine ⟨?_, _, _, hframe, fun x hx => ⟨?_, hposed.awaited x hx⟩, rfl⟩
  · rw [hcache]
    refine needed_batchOf hne (fun x hx => ?_) _ _
    obtain ⟨-, -, -, -, hcontains⟩ := mem_missing.1 hx
    exact hcontains
  · exact (List.mem_filter.1 (mem_missing.1 hx).1).1

/-- Only a node that has waited for its own payload asks once more, for its properties. -/
theorem deliver_query {w : Waiting} {o : Outcome} {l : Lookup}
    (hl : (s.deliver w o).value.2 = some l) : ∃ g id h, w = .own g id h ∧
      l.Needed (s.deliver w o).value.1.cache ∧
        (s.deliver w o).value.1.Serves ⟨.node id, l⟩ (.properties id) := by
  cases w with
  | batch g awaited parent => cases hl
  | own g id h =>
      refine ⟨g, id, h, rfl, ?_⟩
      change (s.deliverOwn g id h o).value.2 = some l at hl
      change l.Needed (s.deliverOwn g id h o).value.1.cache ∧
        (s.deliverOwn g id h o).value.1.Serves _ _
      rcases s.deliverOwn_cases g id h o with hvalue | hvalue | ⟨e, -, hvalue | hcase⟩
      · rw [hvalue] at hl
        cases hl
      · rw [hvalue] at hl
        cases hl
      · rw [hvalue] at hl
        cases hl
      · obtain ⟨p, n, -, hn, hvalue⟩ := hcase
        rw [hvalue] at hl ⊢
        exact settleOwn_query (s := (s.seedRefs e).learned h p) hn hl

theorem purpose_of_serves {q : Query} {p : Purpose} (h : s.Serves q p) : q.purpose = p := by
  cases p with
  | payload id =>
      obtain ⟨n, k, -, -, rfl⟩ := h
      rfl
  | properties id =>
      obtain ⟨n, awaited, -, -, rfl⟩ := h
      rfl
  | roots id =>
      obtain ⟨f, awaited, -, -, rfl⟩ := h
      rfl

/-- That the variables of a frame have been requested is not forgotten. -/
theorem Update.requested {src : Source} {on : NodeId → Prop} {s' : Session}
    (h : Update src on s s') {f : CallFrame} (hf : s.callFrame? id = some f)
    (hrequested : f.requested = true) :
    ∃ f', s'.callFrame? id = some f' ∧ f'.requested = true := by
  have hsame : ∀ t : Session, t.callFrames = s.callFrames →
      ∃ f', t.callFrame? id = some f' ∧ f'.requested = true := by
    intro t ht
    exact ⟨f, by rw [callFrame?, ht]; exact hf, hrequested⟩
  cases h with
  | enter _ _ =>
      obtain ⟨hlt, -⟩ := Array.getElem?_eq_some_iff.1 hf
      exact ⟨f, by rw [callFrame?_enter, if_neg (Nat.ne_of_lt hlt), hf], hrequested⟩
  | ask hg =>
      rw [callFrame?_ask hg]
      split
      · exact ⟨_, rfl, rfl⟩
      · exact ⟨f, hf, hrequested⟩
  | reply _ _ _ => exact hsame _ (s.recordOn_rest _ _).2
  | fail _ => exact hsame _ (s.recordOn_rest _ _).2
  | manage _ _ hframes => exact hsame _ hframes
  | learn _ => exact hsame _ rfl
  | fill _ _ _ _ => exact hsame _ rfl
  | begin _ _ _ => exact hsame _ rfl
  | list _ _ _ _ => exact hsame _ rfl
  | bind _ => exact hsame _ rfl

theorem Updates.requested {src : Source} {on : NodeId → Prop} {s' : Session}
    (h : Updates src on s s') {f : CallFrame} (hf : s.callFrame? id = some f)
    (hrequested : f.requested = true) :
    ∃ f', s'.callFrame? id = some f' ∧ f'.requested = true := by
  induction h with
  | refl => exact ⟨f, hf, hrequested⟩
  | tail _ hlast ih =>
      obtain ⟨g, hg, hr⟩ := ih
      exact hlast.requested hg hr

end Session

namespace Inquiry

/-! ### The lookups of a run -/

def asks? (w : Inquiry) : Move → Option Query
  | .expand id => (w.session.expand id).value.2.map (Query.mk (.node id))
  | .ensureProperties id refs =>
    (w.session.ensureProperties id refs).value.2.map (Query.mk (.node id))
  | .ensureVariables id =>
    match (w.session.ensureVariables id).value with
    | .ok next => next.2.map (Query.mk (.frame id))
    | .error _ => none
  | .settle place o =>
    match w.underWay[place]? with
    | some q => (w.session.deliver q.lookup.waiting o).value.2.map (Query.mk q.asker)
    | none => none
  | _ => none

def queries (w : Inquiry) : List Move → List Query
  | [] => []
  | m :: moves => (w.asks? m).toList ++ (w.step m).queries moves

theorem issue_sent (w : Inquiry) (asker : Owner) (next : Session × Option Lookup) :
    (w.issue asker next).sent =
      w.sent ++ next.2.toList.map fun l => l.request next.1.options := by
  obtain ⟨s, l⟩ := next
  cases l with
  | none => exact (List.append_nil _).symm
  | some l => rfl

def remaining (w : Inquiry) : Move → List Query
  | .settle place _ => w.underWay.eraseIdx place
  | _ => w.underWay

theorem remaining_sublist (w : Inquiry) (m : Move) : (w.remaining m).Sublist w.underWay := by
  cases m with
  | settle place o => exact List.eraseIdx_sublist ..
  | _ => exact List.Sublist.refl _

/-- A move sends its lookup and nothing else, and the lookup is under way then. -/
theorem step_sends (w : Inquiry) (m : Move) :
    (w.step m).sent =
        w.sent ++ (w.asks? m).toList.map (fun q => q.lookup.request w.session.options) ∧
      (w.step m).underWay = w.remaining m ++ (w.asks? m).toList := by
  have hoptions := (w.step_settings m).1
  have hissue : ∀ (v : Inquiry) (asker : Owner) (next : Session × Option Lookup),
      next.1.options = w.session.options →
      (v.issue asker next).sent = v.sent ++ (next.2.map (Query.mk asker)).toList.map
          (fun q => q.lookup.request w.session.options) ∧
        (v.issue asker next).underWay = v.underWay ++ (next.2.map (Query.mk asker)).toList := by
    intro v asker next hnext
    rw [issue_sent, issue_underWay, hnext]
    cases next.2 <;> exact ⟨rfl, rfl⟩
  have hsilent : ∀ v : Inquiry, v.sent = w.sent ∧ v.underWay = w.underWay →
      v.sent = w.sent ++ (none : Option Query).toList.map
          (fun q => q.lookup.request w.session.options) ∧
        v.underWay = w.underWay ++ (none : Option Query).toList := by
    rintro v ⟨hsent, hunderWay⟩
    rw [hsent, hunderWay]
    exact ⟨(List.append_nil _).symm, (List.append_nil _).symm⟩
  cases m with
  | expand id =>
      rw [step, issue_session] at hoptions
      exact hissue w _ _ hoptions
  | ensureProperties id refs =>
      rw [step, issue_session] at hoptions
      exact hissue w _ _ hoptions
  | ensureVariables id =>
      cases hnext : (w.session.ensureVariables id).value with
      | error e =>
          simp only [step, asks?, remaining, hnext]
          exact hsilent w ⟨rfl, rfl⟩
      | ok next =>
          simp only [step, asks?, remaining, hnext, issue_session] at hoptions ⊢
          exact hissue w _ _ hoptions
  | settle place o =>
      cases hq : w.underWay[place]? with
      | none =>
          simp only [step, asks?, remaining, hq]
          rw [List.eraseIdx_of_length_le (List.getElem?_eq_none_iff.1 hq)]
          exact hsilent w ⟨rfl, rfl⟩
      | some q =>
          simp only [step, asks?, remaining, hq, issue_session] at hoptions ⊢
          exact hissue { w with underWay := w.underWay.eraseIdx place } _ _ hoptions
  | materialize body refs =>
      simp only [step]
      split <;> exact hsilent _ ⟨rfl, rfl⟩
  | _ => exact hsilent _ ⟨rfl, rfl⟩

theorem after_sent (w : Inquiry) (moves : List Move) :
    (w.after moves).sent =
      w.sent ++ (w.queries moves).map fun q => q.lookup.request w.session.options := by
  induction moves generalizing w with
  | nil => exact (List.append_nil _).symm
  | cons m moves ih =>
      have hrest : (w.after (m :: moves)).sent = ((w.step m).after moves).sent := rfl
      rw [hrest, ih, (w.step_sends m).1, (w.step_settings m).1, queries, List.map_append,
        List.append_assoc]

/-! ### What has been asked for -/

end Inquiry

/-- What has been asked for has begun to be resolved, or has been requested. -/
def Session.Marked (s : Session) : Purpose → Prop
  | .payload id | .properties id => ∃ n, s.node? id = some n ∧ n.resolution ≠ .unresolved
  | .roots id => ∃ f, s.callFrame? id = some f ∧ f.requested = true

namespace Inquiry

/-- No mark is lost. -/
theorem step_marked {w : Inquiry} (hw : w.Coherent) (m : Move) {p : Purpose}
    (h : w.session.Marked p) : (w.step m).session.Marked p := by
  have hbegun : ∀ {id n}, w.session.node? id = some n → n.resolution ≠ .unresolved →
      ∃ n', (w.step m).session.node? id = some n' ∧ n'.resolution ≠ .unresolved := by
    intro id n hn hres
    obtain ⟨n', hn', heir⟩ := (step_grows hw m).nodes id n hn
    exact ⟨n', hn', heir.begun hres⟩
  cases p with
  | payload id =>
      obtain ⟨n, hn, hres⟩ := h
      exact hbegun hn hres
  | properties id =>
      obtain ⟨n, hn, hres⟩ := h
      exact hbegun hn hres
  | roots id =>
      obtain ⟨f, hf, hrequested⟩ := h
      by_cases hm : m.Ends
      · obtain ⟨current, table, hstep⟩ := step_ends hm
        rw [hstep]
        exact ⟨f, hf, hrequested⟩
      · exact Session.Updates.requested (step_updates hw hm (w.supplied_any m)) hf hrequested

/-- All that has been looked up so far. -/
structure Spent (past : List Purpose) (w : Inquiry) : Prop where
  once : past.Nodup
  marked : ∀ p ∈ past, w.session.Marked p
  underWay : ∀ q ∈ w.underWay, q.purpose ∈ past
  distinct : (w.underWay.map Query.purpose).Nodup
  /-- A node that waits for its own payload has not asked for its properties. -/
  own : ∀ q ∈ w.underWay, ∀ id, q.purpose = .payload id →
    q.asker = .node id ∧ .properties id ∉ past

/-- A lookup that a move sends is needed, and is for something that has not been looked up. -/
structure Novel (past : List Purpose) (w : Inquiry) (m : Move) (q : Query) : Prop where
  needed : q.lookup.Needed (w.step m).session.cache
  serves : (w.step m).session.Serves q q.purpose
  fresh : q.purpose ∉ past
  marked : (w.step m).session.Marked q.purpose
  own : ∀ id, q.purpose = .payload id → .properties id ∉ past
  others : ∀ q' ∈ w.remaining m, ∀ id, q'.purpose = .payload id → q.purpose ≠ .properties id

/-- A node that nothing has been done about has not asked for anything. -/
theorem Spent.unasked {past : List Purpose} {w : Inquiry} (h : Spent past w) {id : NodeId} {n : Node}
    (hn : w.session.node? id = some n) (hres : n.resolution = .unresolved) :
    .payload id ∉ past ∧ .properties id ∉ past := by
  have hunmarked : ¬∃ m, w.session.node? id = some m ∧ m.resolution ≠ .unresolved := by
    rintro ⟨m, hm, hnot⟩
    rw [hn] at hm
    cases hm
    exact hnot hres
  exact ⟨fun hmem => hunmarked (h.marked _ hmem), fun hmem => hunmarked (h.marked _ hmem)⟩

/-- What a node asks for when it begins to be resolved is novel. -/
theorem novel_begun {past : List Purpose} {w : Inquiry} (h : Spent past w) {m : Move}
    (hm : w.remaining m = w.underWay) {id : NodeId} {n : Node}
    (hn : w.session.node? id = some n) (hres : n.resolution = .unresolved) {l : Lookup}
    (hneeded : l.Needed (w.step m).session.cache)
    (hserves : (w.step m).session.Serves ⟨.node id, l⟩ (.payload id) ∨
      (w.step m).session.Serves ⟨.node id, l⟩ (.properties id))
    (hpending : ∃ n', (w.step m).session.node? id = some n' ∧ n'.resolution = .pending) :
    Novel past w m ⟨.node id, l⟩ := by
  obtain ⟨hpayload, hproperties⟩ := h.unasked hn hres
  have hmarked : ∃ n', (w.step m).session.node? id = some n' ∧ n'.resolution ≠ .unresolved := by
    obtain ⟨n', hn', hstate⟩ := hpending
    exact ⟨n', hn', by simp [hstate]⟩
  have hothers : ∀ q' ∈ w.remaining m, q'.purpose ≠ .payload id := by
    rintro q' hq' heq
    rw [hm] at hq'
    exact hpayload (heq ▸ h.underWay q' hq')
  rcases hserves with hserves | hserves
  · have hpurpose := Session.purpose_of_serves hserves
    refine ⟨hneeded, by rwa [hpurpose], by rwa [hpurpose], by rwa [hpurpose], ?_, ?_⟩
    · rintro k hk
      rw [hpurpose] at hk
      cases hk
      exact hproperties
    · rintro q' hq' k - hk
      rw [hpurpose] at hk
      cases hk
  · have hpurpose := Session.purpose_of_serves hserves
    refine ⟨hneeded, by rwa [hpurpose], by rwa [hpurpose], by rwa [hpurpose], ?_, ?_⟩
    · rintro k hk
      rw [hpurpose] at hk
      cases hk
    · rintro q' hq' k hk hsame
      rw [hpurpose] at hsame
      cases hsame
      exact hothers q' hq' hk

theorem novel_of_asks {past : List Purpose} {w : Inquiry} (hw : w.Coherent) (h : Spent past w)
    {m : Move} {q : Query} (hq : w.asks? m = some q) : Novel past w m q := by
  cases m with
  | expand id =>
      obtain ⟨l, hl, rfl⟩ := Option.map_eq_some_iff.1 hq
      obtain ⟨hneeded, hserves⟩ := Session.expand_query hl
      rcases w.session.expand_cases id with ⟨-, hvalue⟩ | ⟨n, hn, -, hres, -⟩
      · rw [hvalue] at hl
        cases hl
      have htends : Session.Tends id (w.session.expand id).value := by
        refine Session.expand_tends fun k hk hpending => ?_
        rw [hn] at hk
        cases hk
        rw [hres] at hpending
        cases hpending
      refine novel_begun h rfl hn hres ?_ ?_ ?_
      · rwa [step, issue_session]
      · rwa [step, issue_session]
      · rw [step, issue_session]
        exact (htends.subject l hl).2
  | ensureProperties id refs =>
      obtain ⟨l, hl, rfl⟩ := Option.map_eq_some_iff.1 hq
      obtain ⟨hneeded, hserves⟩ := Session.ensureProperties_query hl
      rcases w.session.ensureProperties_cases id refs with ⟨-, hvalue⟩ | ⟨n, hn, -, hres, -⟩
      · rw [hvalue] at hl
        cases hl
      have htends : Session.Tends id (w.session.ensureProperties id refs).value := by
        refine Session.ensureProperties_tends (fun k hk hpending => ?_) refs
        rw [hn] at hk
        cases hk
        rw [hres] at hpending
        cases hpending
      refine novel_begun h rfl hn hres ?_ (.inr ?_) ?_
      · rwa [step, issue_session]
      · rwa [step, issue_session]
      · rw [step, issue_session]
        exact (htends.subject l hl).2
  | ensureVariables id =>
      cases hnext : (w.session.ensureVariables id).value with
      | error e =>
          simp only [asks?, hnext] at hq
          cases hq
      | ok next =>
          simp only [asks?, hnext] at hq
          obtain ⟨l, hl, rfl⟩ := Option.map_eq_some_iff.1 hq
          obtain ⟨hneeded, hserves⟩ := Session.ensureVariables_query hw.dated hnext hl
          obtain ⟨f, hf, hunrequested, hf', -⟩ := Session.ensureVariables_requests hnext hl
          have hsession : (w.step (.ensureVariables id)).session = next.1 := by
            rw [step, hnext]
            exact issue_session w _ next
          have hpurpose := Session.purpose_of_serves hserves
          refine ⟨by rwa [hsession], by rwa [hpurpose, hsession], ?_, ?_, ?_, ?_⟩
          · rw [hpurpose]
            intro hmem
            obtain ⟨g, hg, hrequested⟩ := h.marked _ hmem
            rw [hf] at hg
            cases hg
            rw [hunrequested] at hrequested
            cases hrequested
          · rw [hpurpose, hsession]
            exact ⟨_, hf', rfl⟩
          · intro k hk
            rw [hpurpose] at hk
            cases hk
          · intro q' _ k _ hk
            rw [hpurpose] at hk
            cases hk
  | settle place o =>
      cases hplace : w.underWay[place]? with
      | none =>
          simp only [asks?, hplace] at hq
          cases hq
      | some q₀ =>
          simp only [asks?, hplace] at hq
          obtain ⟨l, hl, rfl⟩ := Option.map_eq_some_iff.1 hq
          obtain ⟨g, id, k, hwaiting, hneeded, hserves⟩ := Session.deliver_query hl
          have hmem := List.mem_of_getElem? hplace
          have hq₀ : q₀.purpose = .payload id := by simp only [Query.purpose, hwaiting]
          obtain ⟨hasker, hfresh⟩ := h.own q₀ hmem id hq₀
          have hsession : (w.step (.settle place o)).session =
              (w.session.deliver q₀.lookup.waiting o).value.1 := by
            simp only [step, hplace, issue_session]
          have hpurpose := Session.purpose_of_serves hserves
          rw [hasker]
          refine ⟨by rwa [hsession], by rwa [hpurpose, hsession], by rwa [hpurpose], ?_, ?_, ?_⟩
          · obtain ⟨n, awaited, hn, -, heq⟩ := hserves
            have hsubject : l.waiting.subject? = some id := by
              rw [(Query.mk.inj heq).2]
              rfl
            obtain ⟨n', hn', hpending⟩ := Session.deliver_opens _ _ o l hl id hsubject
            rw [hpurpose, hsession]
            exact ⟨n', hn', by simp [hpending]⟩
          · intro j hj
            rw [hpurpose] at hj
            cases hj
          · -- No other lookup under way is for the payload of the node.
            intro q' hq' j hj hsame
            rw [hpurpose] at hsame
            cases hsame
            obtain ⟨i, hne, hi⟩ := List.mem_eraseIdx_iff_getElem?.1 hq'
            have hlt : i < (w.underWay.map Query.purpose).length := by
              simpa using (List.getElem?_eq_some_iff.1 hi).1
            refine hne ((List.getElem?_inj hlt h.distinct).1 ?_)
            simp [hi, hplace, hj, hq₀]
  | _ => cases hq

theorem step_spent {past : List Purpose} {w : Inquiry} (hw : w.Coherent) (h : Spent past w)
    (m : Move) : Spent (past ++ (w.asks? m).toList.map Query.purpose) (w.step m) := by
  have hremaining : ∀ q ∈ w.remaining m, q ∈ w.underWay := fun q hq =>
    (w.remaining_sublist m).subset hq
  have hdistinct : ((w.remaining m).map Query.purpose).Nodup :=
    h.distinct.sublist ((w.remaining_sublist m).map _)
  have hunderWay := (w.step_sends m).2
  cases hq : w.asks? m with
  | none =>
      rw [hq, Option.toList_none, List.append_nil] at hunderWay
      rw [Option.toList_none, List.map_nil, List.append_nil]
      refine ⟨h.once, fun p hp => step_marked hw m (h.marked p hp), ?_, by rwa [hunderWay], ?_⟩
      · intro q hmem
        rw [hunderWay] at hmem
        exact h.underWay q (hremaining q hmem)
      · intro q hmem
        rw [hunderWay] at hmem
        exact h.own q (hremaining q hmem)
  | some q =>
      have hnovel := novel_of_asks hw h hq
      rw [hq, Option.toList_some] at hunderWay
      rw [Option.toList_some, List.map_singleton]
      constructor
      case once =>
        exact List.nodup_append.2 ⟨h.once, List.nodup_singleton _, by
          rintro p hp p' hp' rfl
          exact hnovel.fresh (List.mem_singleton.1 hp' ▸ hp)⟩
      case marked =>
        refine List.forall_mem_append.2 ⟨fun p hp => step_marked hw m (h.marked p hp), ?_⟩
        exact List.forall_mem_singleton.2 hnovel.marked
      case underWay =>
        rw [hunderWay]
        refine List.forall_mem_append.2 ⟨fun q' hq' => ?_, ?_⟩
        · exact List.mem_append_left _ (h.underWay q' (hremaining q' hq'))
        · exact List.forall_mem_singleton.2 (List.mem_append_right _ (List.mem_singleton.2 rfl))
      case distinct =>
        rw [hunderWay, List.map_append, List.map_singleton]
        refine List.nodup_append.2 ⟨hdistinct, List.nodup_singleton _, ?_⟩
        rintro p hp p' hp' rfl
        obtain ⟨q', hq', rfl⟩ := List.mem_map.1 hp
        exact hnovel.fresh (List.mem_singleton.1 hp' ▸ h.underWay q' (hremaining q' hq'))
      case own =>
        rw [hunderWay]
        refine List.forall_mem_append.2 ⟨fun q' hq' id hid => ?_, ?_⟩
        · obtain ⟨hasker, hnot⟩ := h.own q' (hremaining q' hq') id hid
          refine ⟨hasker, fun hmem => ?_⟩
          rcases List.mem_append.1 hmem with hold | hnew
          · exact hnot hold
          · exact hnovel.others q' hq' id hid (List.mem_singleton.1 hnew).symm
        · refine List.forall_mem_singleton.2 fun id hid => ?_
          have hserves := hnovel.serves
          rw [hid] at hserves
          obtain ⟨n, k, -, -, rfl⟩ := hserves
          refine ⟨rfl, fun hmem => ?_⟩
          rcases List.mem_append.1 hmem with hold | hnew
          · exact hnovel.own id hid hold
          · cases List.mem_singleton.1 hnew

theorem after_spent {past : List Purpose} {w : Inquiry} (hw : w.Coherent) (h : Spent past w)
    (moves : List Move) :
    Spent (past ++ (w.queries moves).map Query.purpose) (w.after moves) := by
  induction moves generalizing past w with
  | nil => simpa [queries, after] using h
  | cons m moves ih =>
      have hrest := ih (step_coherent hw m) (step_spent hw h m)
      rw [List.append_assoc, ← List.map_append] at hrest
      exact hrest

theorem spent_run (options : LookupOptions) (moves : List Move) :
    Spent ((queries { session := { options := options } } moves).map Query.purpose)
      (run options moves) := by
  have hstart : Spent [] { session := { options := options } } :=
    ⟨.nil, nofun, nofun, .nil, nofun⟩
  exact after_spent (coherent_run options []) hstart moves

/-! ### No lookup is redundant -/

/-- What holds of the lookups of a run. -/
structure Sparing (options : LookupOptions) (moves : List Move) : Prop where
  /-- The run has sent these lookups and no other requests. -/
  sent : (run options moves).sent =
    (queries { session := { options := options } } moves).map fun q => q.lookup.request options
  /-- A lookup asks for handles that are not cached when it is sent, each once and in ascending
  order. -/
  needed : ∀ before m later q, moves = before ++ m :: later → (run options before).asks? m = some q →
    q.lookup.Needed ((run options before).step m).session.cache ∧
      ((run options before).step m).session.Serves q q.purpose
  /-- A node causes at most one lookup of its own handle and one for its properties, and a frame one
  for its variables. -/
  once : ((queries { session := { options := options } } moves).map Query.purpose).Nodup

/-- In every run, each lookup is needed when it is sent, and none is for what has been looked up
before. -/
theorem lookups_are_sparing (options : LookupOptions) (moves : List Move) : Sparing options moves where
  sent := after_sent { session := { options := options } } moves
  needed := by
    intro before m later q _ hq
    have hnovel := novel_of_asks (coherent_run options before) (spent_run options before) hq
    exact ⟨hnovel.needed, hnovel.serves⟩
  once := (spent_run options moves).once

end Inquiry

end RemoteInspector
