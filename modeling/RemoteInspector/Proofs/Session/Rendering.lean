import RemoteInspector.Proofs.Session.Serving
import RemoteInspector.Proofs.Session.Variables

/-!
The report of a call stack is the outline of what the machine reports. Reports are made node by node, and
each may use what those before it have left in the cache; but a node is not touched before its own turn, and
then it is opened as the outline has it, however that comes about.
-/

namespace RemoteInspector

namespace Session

variable {T : Machine} {on : NodeId → Prop} {s s' : Session} {k : NodeId} {r : PropertyRef}

/-! ### What is left alone -/

theorem Resolves.size_le (h : s.Resolves T on s') : s.nodes.size ≤ s'.nodes.size := by
  by_contra hlt
  obtain ⟨n, hn⟩ := node?_of_lt (Nat.lt_of_not_le hlt)
  obtain ⟨n', hn', -⟩ := (Updates.grows h.updates).nodes _ n hn
  exact Nat.lt_irrefl _ (lt_size_of_node? hn')

theorem ReadyAt.kept (hready : s.ReadyAt T k r) (h : s.Resolves T on s') (hon : ¬on k) :
    s'.ReadyAt T k r := by
  obtain ⟨n, hn, hgen, hnode⟩ := hready
  exact ⟨n, Updates.kept h.updates hn hon, hgen.trans h.generation.symm, hnode⟩

theorem ReadyAt.lt_size (hready : s.ReadyAt T k r) : k < s.nodes.size := by
  obtain ⟨n, hn, -⟩ := hready
  exact lt_size_of_node? hn

theorem Faithful.held (hs : s.Faithful T) (ids : List NodeId) :
    Faithful T { s with heldNodes := ids } := by
  have hheld : Update (.trueTo T) (fun _ => True) s { s with heldNodes := ids } := .manage rfl rfl rfl
  exact hheld.faithful hs

/-- Whoever holds on to nodes meanwhile, what is done to them stays done. -/
theorem Resolves.released {ids : List NodeId}
    (h : Resolves T on { s with heldNodes := ids } s') :
    s.Resolves T on { s' with heldNodes := s.heldNodes } where
  updates := by
    have hheld : Update (.trueTo T) on s { s with heldNodes := ids } := .manage rfl rfl rfl
    exact (Relation.ReflTransGen.head hheld h.updates).tail (.manage rfl rfl rfl)
  rest := by
    have hrest := congrArg (fun t : Session => { t with heldNodes := s.heldNodes }) h.rest
    exact hrest

end Session

namespace Debugger

variable {T : Machine} {P : List Handle} {on : NodeId → Prop} {d d' d'' : Debugger} {id : NodeId}
  {r : PropertyRef}

/-- All that the session knows is true to the machine, and the channel answers. -/
structure Attuned (T : Machine) (P : List Handle) (d : Debugger) : Prop where
  faithful : d.session.Faithful T
  serves : d.channel.Serves T P

/-- The session goes on being attuned, and some of its nodes are resolved. -/
structure Advances (T : Machine) (P : List Handle) (on : NodeId → Prop) (d d' : Debugger) : Prop where
  attuned : d'.Attuned T P
  resolves : d.session.Resolves T on d'.session

theorem Advances.refl (hd : d.Attuned T P) : Advances T P on d d := ⟨hd, .refl _⟩

theorem Advances.trans (h : Advances T P on d d') (h' : Advances T P on d' d'') :
    Advances T P on d d'' :=
  ⟨h'.attuned, h.resolves.trans h'.resolves⟩

theorem Advances.mono {on' : NodeId → Prop} (hon : ∀ k, on k → on' k) (h : Advances T P on d d') :
    Advances T P on' d d' :=
  ⟨h.attuned, h.resolves.mono hon⟩

/-- What a debugger does of itself sends lookups deep enough. -/
theorem follow_issue (d : Debugger) (next : Session × Option Lookup) :
    d.follow Debugger.issue next = d.follow (issueAt d.depth) next := by
  obtain ⟨s, l?⟩ := next
  cases l? <;> rfl

theorem two_le_depth (d : Debugger) : 2 ≤ d.depth := by
  unfold depth
  split <;> omega

/-! ### Single operations -/

theorem expand_opens (hmentions : T.Mentions P) (hd : d.Attuned T P)
    (hready : d.session.ReadyAt T id r) (hP : r.handle ∈ P) :
    (d.expand id).value.session.OpenedAt T d.session.nodes.size id r ∧
      Advances T P (d.session.OneOf [id]) d (d.expand id).value := by
  let held := d.withSession { d.session with heldNodes := [id] ++ d.session.heldNodes }
  have hfaithful : held.session.Faithful T := hd.faithful.held _
  have hattains := Session.expand_attains (s := held.session) hmentions hfaithful hready hP
    List.mem_cons_self
  have hdone := follow_attains (d := held) hattains held.two_le_depth hd.serves
  rw [← follow_issue] at hdone
  obtain ⟨⟨hopened, hresolves⟩, hserves⟩ := hdone
  have hall : d.session.Resolves T (d.session.OneOf [id])
      (d.expand id).value.session := hresolves.released
  exact ⟨hopened, ⟨hall.faithful hd.faithful, hserves⟩, hall⟩

/-! ### Nodes -/

/-- Reports on nodes one after another, none of which touches the others. -/
theorem each_outline (one : NodeId → Debugger → Logged (String × Debugger)) (text : PropertyRef → String)
    (hone : ∀ {id r d}, d.Attuned T P → d.session.ReadyAt T id r → r.handle ∈ P → ∃ d',
      (one id d).value = (text r, d') ∧
        Advances T P (d.session.OneOf [id]) d d')
    {ids : List NodeId} {rs : List PropertyRef} (hd : d.Attuned T P)
    (hready : List.Forall₂ (d.session.ReadyAt T) ids rs) (hnodup : ids.Nodup)
    (hP : ∀ r ∈ rs, r.handle ∈ P) (out : String) :
    ∃ d', (Report.each one ids out d).value = (out ++ String.join (rs.map text), d') ∧
      Advances T P (d.session.OneOf ids) d d' := by
  induction ids generalizing rs out d with
  | nil =>
      cases hready
      exact ⟨d, by simp [Report.each], .refl hd⟩
  | cons id ids ih =>
      obtain ⟨r, rs, hfirst, hrest, rfl⟩ := List.forall₂_cons_left_iff.1 hready
      obtain ⟨hnot, hnodup⟩ := List.nodup_cons.1 hnodup
      obtain ⟨d₁, hvalue, hadvances⟩ := hone hd hfirst (hP r List.mem_cons_self)
      have hkept : List.Forall₂ (d₁.session.ReadyAt T) ids rs := by
        refine (Session.forall₂_mem hrest).imp fun k r hk => hk.2.kept hadvances.resolves ?_
        rintro (hfirst | hnew)
        · exact hnot (List.mem_singleton.1 hfirst ▸ hk.1)
        · exact Nat.not_lt.2 hnew hk.2.lt_size
      obtain ⟨d₂, hvalue', hadvances'⟩ := ih hadvances.attuned hkept hnodup
        (fun r hr => hP r (List.mem_cons_of_mem _ hr)) (out ++ text r)
      refine ⟨d₂, ?_, (hadvances.mono ?_).trans (hadvances'.mono ?_)⟩
      · simp only [Report.each, Logged.value_bind, hvalue, hvalue', List.map_cons, String.join_cons,
          String.append_assoc]
      · rintro k (hk | hnew)
        · exact .inl (List.mem_singleton.1 hk ▸ List.mem_cons_self)
        · exact .inr hnew
      · rintro k (hk | hnew)
        · exact .inl (List.mem_cons_of_mem _ hk)
        · exact .inr (Nat.le_trans hadvances.resolves.size_le hnew)

/-- The report on a node that is ready is its outline. -/
theorem node_outline (hmentions : T.Mentions P) (depth : Nat) {indent : Nat} (hd : d.Attuned T P)
    (hready : d.session.ReadyAt T id r) (hP : r.handle ∈ P) :
    ∃ d', (Report.node depth indent id d).value = (T.outline depth indent r.name r.handle, d') ∧
      Advances T P (d.session.OneOf [id]) d d' := by
  induction depth generalizing indent id r d with
  | zero =>
      obtain ⟨n, hn, -, hnode⟩ := hready
      refine ⟨d, ?_, .refl hd⟩
      simp only [Report.node, hn, Option.map_some, Option.getD_some, Logged.value_pure,
        hnode.line indent]
  | succ depth ih =>
      obtain ⟨⟨n, hn, hname, hsummary, hnodup, hfirst, hchildren⟩, hexpand⟩ :=
        expand_opens hmentions hd hready hP
      generalize hd₁ : (d.expand id).value = d₁ at *
      let held := d₁.withSession { d₁.session with heldNodes := n.children ++ d₁.session.heldNodes }
      have hheld : held.Attuned T P := ⟨hexpand.attuned.faithful.held _, hexpand.attuned.serves⟩
      obtain ⟨d₂, hvalue, heach⟩ := each_outline (d := held) (Report.node depth (indent + 1))
        (fun r => T.outline depth (indent + 1) r.name r.handle)
        (fun hd hready hP => ih hd hready hP) hheld hchildren hnodup hmentions.shown
        (Report.line indent n)
      refine ⟨d₂.withSession { d₂.session with heldNodes := d₁.session.heldNodes }, ?_, ?_⟩
      · simp only [Report.node, Logged.value_bind, hd₁, hn, holding, Logged.value_pure, Machine.outline,
          ← Node.line_eq hname hsummary indent]
        exact congrArg (fun a : String × Debugger =>
          (a.1, a.2.withSession { a.2.session with heldNodes := d₁.session.heldNodes })) hvalue
      · have hsecond : d₁.session.Resolves T (d₁.session.OneOf n.children)
            { d₂.session with heldNodes := d₁.session.heldNodes } := heach.resolves.released
        have hall : d.session.Resolves T (d.session.OneOf [id])
            { d₂.session with heldNodes := d₁.session.heldNodes } := by
          refine hexpand.resolves.trans (hsecond.mono ?_)
          rintro k (hk | hnew)
          · exact .inr (hfirst k hk)
          · exact .inr (Nat.le_trans hexpand.resolves.size_le hnew)
        exact ⟨⟨hall.faithful hd.faithful, heach.attuned.serves⟩, hall⟩

/-! ### Frames -/

theorem ensureVariables_ready (hd : d.Attuned T P) {g : CallFrame}
    (hg : d.session.callFrame? id = some g) (hgen : g.generation = d.session.cache.generation)
    (hrequested : g.requested = false) (hholds : d.session.holdsFrame id = true)
    {rs : List PropertyRef} (hbound : List.Forall₂ (d.session.BoundAt T id) g.roots rs)
    (hP : ∀ r ∈ rs, r.handle ∈ P) :
    ∃ d', (d.ensureVariables id).value = .ok d' ∧ d'.Attuned T P ∧
      List.Forall₂ (d'.session.ReadyAt T) g.roots rs ∧
      (d.session.asked id g).Resolves T (· ∈ g.roots) d'.session := by
  obtain ⟨next, hnext, hattains⟩ :=
    Session.ensureVariables_attains hd.faithful hg hgen hrequested hholds hbound hP
  obtain ⟨⟨hready, hresolves⟩, hserves⟩ := follow_attains (d := d) hattains
    (Nat.le_of_succ_le d.two_le_depth) hd.serves
  rw [← follow_issue] at hready hresolves hserves
  have hask : Session.Update (.trueTo T) (· ∈ g.roots) d.session (d.session.asked id g) := .ask hg
  refine ⟨(d.follow Debugger.issue next).value, ?_,
    ⟨hresolves.faithful (hask.faithful hd.faithful), hserves⟩, hready, hresolves⟩
  simp only [ensureVariables, Logged.value_bind, hnext, Logged.value_pure]

/-- A frame that is still to be reported on: it has been entered, and the session holds it. -/
structure Awaits (s : Session) (id : FrameId) (f : StackFrame) : Prop where
  enters : s.Enters id f
  holds : s.holdsFrame id = true

/-- A report on one frame leaves the others as they are. -/
theorem Awaits.kept {s s' : Session} {k id : FrameId} {f : StackFrame} {g : CallFrame}
    (h : Awaits s k f) (hne : k ≠ id) (hg : s.callFrame? id = some g) {rs : List PropertyRef}
    (hbound : List.Forall₂ (s.BoundAt T id) g.roots rs)
    (hresolves : (s.asked id g).Resolves T (s.OneOf g.roots) s') : Awaits s' k f := by
  obtain ⟨⟨start, hframe, hnodes⟩, hholds⟩ := h
  have hframes : s'.callFrames = (s.asked id g).callFrames := by
    have hrest := congrArg Session.callFrames hresolves.rest
    exact hrest
  have hgen : s'.cache.generation = s.cache.generation := hresolves.generation
  refine ⟨⟨start, ?_, fun i b hb => ?_⟩, ((Session.holds_of_rest hresolves.rest).2 k).trans hholds⟩
  · rw [hgen, Session.callFrame?, hframes]
    exact (Session.callFrame?_ask hg _ k).trans ((if_neg hne).trans hframe)
  · rw [hgen]
    have hnode := hnodes i b hb
    refine Session.Updates.kept hresolves.updates hnode ?_
    rintro (hroot | hnew)
    · -- The variables of different frames have different owners.
      obtain ⟨r, -, c, -, -, -, hother⟩ := Session.exists_of_forall₂ hbound hroot
      rw [hnode] at hother
      have howner := congrArg Node.owner (Option.some.inj hother)
      rw [(Session.ofBinding_heir _ _ b.name b.value).owner,
        (Session.ofBinding_heir _ _ c.name c.value).owner] at howner
      exact hne (Owner.frame.inj howner)
    · exact Nat.not_lt.2 hnew (Session.lt_size_of_node? hnode)

/-- The report on a frame is its outline. -/
theorem frame_outline (hmentions : T.Mentions P) (depth : Nat) (hd : d.Attuned T P) {f : StackFrame}
    (hawaits : Awaits d.session id f) (hf : Session.TellsTrue T P f) (ids : List FrameId)
    (out : String) :
    ∃ d', (Report.frames depth (id :: ids) out d).value =
        (Report.frames depth ids (out ++ T.frameOutline depth f) d').value ∧ d'.Attuned T P ∧
      ∀ k h, k ≠ id → Awaits d.session k h → Awaits d'.session k h := by
  obtain ⟨g, start, hg, hframe, hbound, hP⟩ := hawaits.enters.bound hf
  have hgen : g.generation = d.session.cache.generation := by rw [hframe]; rfl
  obtain ⟨d₁, hvalue, hd₁, hready, hresolves⟩ := ensureVariables_ready hd hg hgen
    (by rw [hframe]; rfl) hawaits.holds hbound hP
  have hnodup : g.roots.Nodup := by
    rw [hframe]
    exact List.nodup_range'
  obtain ⟨d₂, heach, hadvances⟩ := each_outline (Report.node depth 1)
    (fun r => T.outline depth 1 r.name r.handle)
    (fun hd hready hP => node_outline hmentions depth hd hready hP) hd₁ hready hnodup hP
    (out ++ Report.heading f)
  have hlast : d₁.session.callFrame? id = some { g with requested := true } := by
    have hframes := congrArg Session.callFrames hresolves.rest
    have hsame : d₁.session.callFrames = (d.session.asked id g).callFrames := hframes
    rw [Session.callFrame?, hsame]
    exact (Session.callFrame?_ask hg _ id).trans (if_pos rfl)
  have hheading : Report.frameLine { g with requested := true } = Report.heading f := by
    rw [hframe]
    rfl
  refine ⟨d₂, ?_, hadvances.attuned, fun k h hne hk => hk.kept hne hg hbound ?_⟩
  · simp only [Report.frames, Logged.value_bind, hvalue, hlast, hheading, heach, Machine.frameOutline,
      String.append_assoc]
  · refine (hresolves.mono fun k hk => .inl hk).trans (hadvances.resolves.mono ?_)
    rintro k (hk | hnew)
    · exact .inl hk
    · exact .inr (Nat.le_trans hresolves.size_le hnew)

/-- The report on frames is their outline. -/
theorem frames_outline (hmentions : T.Mentions P) (depth : Nat) {ids : List FrameId}
    {frames : List StackFrame} (hd : d.Attuned T P)
    (hawaits : List.Forall₂ (Awaits d.session) ids frames) (hnodup : ids.Nodup)
    (hf : ∀ f ∈ frames, Session.TellsTrue T P f) (out : String) :
    (Report.frames depth ids out d).value.1 = .ok (out ++ T.stackOutline depth frames) := by
  induction ids generalizing frames out d with
  | nil =>
      cases hawaits
      simp [Report.frames, Machine.stackOutline]
  | cons id ids ih =>
      obtain ⟨f, frames, hfirst, hrest, rfl⟩ := List.forall₂_cons_left_iff.1 hawaits
      obtain ⟨hnot, hnodup⟩ := List.nodup_cons.1 hnodup
      obtain ⟨d', hvalue, hd', hkept⟩ := frame_outline hmentions depth hd hfirst
        (hf f List.mem_cons_self) ids out
      have hothers : List.Forall₂ (Awaits d'.session) ids frames :=
        (Session.forall₂_mem hrest).imp fun k h hk =>
          hkept k h (fun heq => hnot (heq ▸ hk.1)) hk.2
      rw [hvalue, ih hd' hothers hnodup (fun f hf' => hf f (List.mem_cons_of_mem _ hf'))]
      simp only [Machine.stackOutline, List.map_cons, String.join_cons, String.append_assoc]

end Debugger

namespace Inquiry

/-- Let a backtrace be taken up at any point of a suspension in which all that has come in is true to a
machine, with any of its payloads sent along, and let the bindings be handles of the machine with as much
of their payloads as there may be. Then the report of the frames, over a channel that answers lookups at
once, is the outline of what the machine reports, however deep it goes; neither what was sent along nor
what has been cached makes a difference. -/
theorem report_is_outline (options : LookupOptions) (T : Machine) (P : List Handle)
    (hmentions : T.Mentions P) (before moves : List Move) (hbegins : BeginsSuspension before)
    (htrue : TrueTo T (run options before) moves) (body : Json) (refs : List Json)
    (frames : List StackFrame) (hframes : StackFrame.listOfJson body = .ok frames)
    (hrefs : ∀ p ∈ Payload.ofRefs refs, ∀ h, p.handle = some h → T h = some p)
    (htell : ∀ f ∈ frames, Session.TellsTrue T P f) (d : Debugger)
    (hd : d.session = (run options (before ++ moves)).session) (hserves : d.channel.Serves T P) :
    ∃ ids s, (d.session.materialize body refs).value = .ok (ids, s) ∧
      ∀ depth, (Report.frames depth ids "" (d.withSession s)).value.1 =
        .ok (T.stackOutline depth frames) := by
  have hbefore : d.session.Faithful T := by
    rw [hd, run_append]
    exact after_faithful (coherent_run options before) htrue (faithful_begin T options hbegins)
  obtain ⟨ids, s, hvalue, htakes⟩ := d.session.materialize_takes refs hframes
  have hupdates : Session.Updates (.trueTo T) (fun _ => True) d.session s := by
    refine Session.materialize_updates hvalue hrefs fun fs hfs f hf b hb => ?_
    obtain rfl := Except.ok.inj (hframes.symm.trans hfs)
    exact (htell f hf b hb).1
  have hholds : ∀ id ∈ ids, s.holdsFrame id = true := by
    intro id hid
    simp [Session.holdsFrame, htakes.current, hid]
  have hawaits : List.Forall₂ (Debugger.Awaits s) ids frames :=
    (Session.forall₂_mem htakes.entered).imp fun id f hid => ⟨hid.2, hholds id hid.1⟩
  refine ⟨ids, s, hvalue, fun depth => ?_⟩
  have hattuned : (d.withSession s).Attuned T P := ⟨hupdates.faithful hbefore, hserves⟩
  rw [Debugger.frames_outline hmentions depth hattuned hawaits htakes.nodup htell "",
    String.empty_append]

/-- A ring of one element, which lists itself, its size, and one that is lost. -/
def ringVm : TableVm Errand :=
  let property (name : String) (h : Int) : Json :=
    .object [("name", .string name), ("ref", .number (.integer h))]
  { handles := [
      (1, .object [("className", .string "Ring"), ("handle", .number (.integer 1)),
        ("properties", .array [property "next" 1, property "lost" 9, property "size" 2]),
        ("type", .string "object")]),
      (2, .object [("handle", .number (.integer 2)), ("text", .string "1"), ("type", .string "number")])] }

/-- A frame with a bare handle, and a variable of which the properties are not reported. -/
def ringBody : Json :=
  let binding (name : String) (value : List (String × Json)) : Json :=
    .object [("name", .string name), ("value", .object value)]
  .object [("frames", .array [.object [
    ("arguments", .array [binding "ring" [("ref", .number (.integer 1))]]),
    ("func", .object [("name", .string "turn")]), ("index", .number (.integer 0)),
    ("line", .number (.integer 4)),
    ("locals", .array [binding "start" [("className", .string "Ring"),
      ("handle", .number (.integer 1)), ("type", .string "object")],
      binding "end" [("ref", .number (.integer 9))]])]])]

def ringRefs : List Json :=
  [.object [("handle", .number (.integer 2)), ("text", .string "1"), ("type", .string "number")]]

def ringPayload : Payload :=
  { handle := some 1, tag := some "object", className := some "Ring",
    properties := [⟨"next", 1⟩, ⟨"lost", 9⟩, ⟨"size", 2⟩] }

def ringFrame : StackFrame :=
  { index := 0, function := "turn", line := some 4,
    arguments := [⟨"ring", { handle := some 1 }⟩],
    locals := [⟨"start", { handle := some 1, tag := some "object", className := some "Ring" }⟩,
      ⟨"end", { handle := some 9 }⟩] }

def ringDebugger : Debugger :=
  { session := (run {} [.retire]).session, channel := .memory ringVm }

theorem report_is_outline_ring :
    ∃ ids s, (ringDebugger.session.materialize ringBody ringRefs).value = .ok (ids, s) ∧
      (Report.frames 1 ids "" (ringDebugger.withSession s)).value.1 = .ok
        ("#0 turn:5\n" ++
          "  ring: Ring\n    next: Ring\n    lost: ?\n    size: number 1\n" ++
          "  start: Ring\n    next: Ring\n    lost: ?\n    size: number 1\n" ++
          "  end: <unavailable>\n") := by
  have hmentions : ringVm.machine.Mentions [1, 2, 9] := TableVm.mentions_machine (by decide)
  have hrefs : ∀ p ∈ Payload.ofRefs ringRefs, ∀ h, p.handle = some h →
      ringVm.machine h = some p := by
    intro p hp h hh
    have hone : Payload.ofRefs ringRefs =
        [{ handle := some 2, tag := some "number", text := some "1" }] := by decide
    rw [hone] at hp
    obtain rfl := List.mem_singleton.1 hp
    obtain rfl := Option.some.inj hh
    decide +kernel
  have htell : ∀ f ∈ [ringFrame], Session.TellsTrue ringVm.machine [1, 2, 9] f := by
    intro f hf b hb
    obtain rfl := List.mem_singleton.1 hf
    have hring : ringVm.machine 1 = some ringPayload := by decide +kernel
    have hbinding : b = ⟨"ring", { handle := some 1 }⟩ ∨
        b = ⟨"start", { handle := some 1, tag := some "object", className := some "Ring" }⟩ ∨
        b = ⟨"end", { handle := some 9 }⟩ := by simpa [ringFrame] using hb
    rcases hbinding with rfl | rfl | rfl
    · exact ⟨fun h hh => .inl (Option.some.inj hh ▸ rfl), 1, by decide, rfl⟩
    · refine ⟨fun h hh => ?_, 1, by decide, rfl⟩
      obtain rfl := Option.some.inj hh
      exact .inr ⟨ringPayload, hring, .inr rfl⟩
    · exact ⟨fun h hh => .inl (Option.some.inj hh ▸ rfl), 9, by decide, rfl⟩
  obtain ⟨ids, s, hvalue, hreport⟩ := report_is_outline {} ringVm.machine [1, 2, 9] hmentions
    [.retire] [] (.inr ⟨[], .retire, rfl, trivial⟩) trivial ringBody ringRefs [ringFrame] (by decide)
    hrefs htell ringDebugger rfl (ringVm.serves_machine rfl rfl _)
  have htext : ringVm.machine.stackOutline 1 [ringFrame] = "#0 turn:5\n" ++
      "  ring: Ring\n    next: Ring\n    lost: ?\n    size: number 1\n" ++
      "  start: Ring\n    next: Ring\n    lost: ?\n    size: number 1\n" ++
      "  end: <unavailable>\n" := rfl
  exact ⟨ids, s, hvalue, by rw [hreport 1, htext]⟩

end Inquiry

end RemoteInspector
