import RemoteInspector.Proofs.Session.Captured
import RemoteInspector.Proofs.Session.Economy
import RemoteInspector.Proofs.Session.Variables

/-!
The variables of a frame are asked for once. A frame remembers that it has asked, and it does so exactly
if it has been told to while its suspension lasted: `requested_iff_asked`. The first time, the bare
variables take what is cached or are asked for by one lookup, and nothing else in the session changes.
-/

namespace RemoteInspector

/-- Nothing has been done about a variable, and nothing but its handle is known of its value. -/
structure Node.BareAt (n : Node) (h : Handle) : Prop where
  unresolved : n.resolution = .unresolved
  undeclared : n.facts.valueType = none
  handle : n.facts.handle = some h

namespace Session

theorem isBare_iff {n : Node} : isBare n = true ↔ ∃ h, n.BareAt h := by
  simp only [isBare, Bool.and_eq_true, Option.isNone_iff_eq_none, beq_iff_eq,
    Option.isSome_iff_exists]
  constructor
  · rintro ⟨⟨htype, hres⟩, h, hh⟩
    exact ⟨h, hres, htype, hh⟩
  · rintro ⟨h, hres, htype, hh⟩
    exact ⟨⟨htype, hres⟩, h, hh⟩

/-- A variable that has taken a payload is bare no more. -/
theorem not_bareAt_fill {n : Node} {h : Handle} (hn : n.BareAt h) (p : Payload) (k : Handle) :
    ¬(n.fill p).value.BareAt k := by
  intro hbare
  have hopen : n.resolution.isFinal = false := by
    rw [hn.unresolved]
    rfl
  have htype := hbare.undeclared
  rw [Node.fill_facts hopen] at htype
  exact Facts.declared_fill _ _ _ htype

/-! ### What the bare variables are given -/

variable {s : Session}

/-- One variable at a time takes its payload or is passed over. -/
theorem fillBare_cons (s : Session) (id : NodeId) (ids : List NodeId) :
    (∃ n h p, s.node? id = some n ∧ n.BareAt h ∧ s.cache.get? h = some p ∧
      (s.fillBare (id :: ids)).value = ((s.setNode id (n.fill p).value).fillBare ids).value) ∨
    ((∀ n h p, s.node? id = some n → n.BareAt h → s.cache.get? h ≠ some p) ∧
      (s.fillBare (id :: ids)).value = (s.fillBare ids).value) := by
  rw [fillBare]
  cases hn : s.node? id with
  | none =>
      refine .inr ⟨fun m _ _ hm => ?_, rfl⟩
      cases hm
  | some n =>
      dsimp only
      split
      · next p hbare hcached =>
        obtain ⟨h, hh⟩ := isBare_iff.1 hbare
        rw [hh.handle] at hcached
        exact .inl ⟨n, h, p, rfl, hh, hcached, rfl⟩
      · next hnot =>
        refine .inr ⟨fun m h p hm hh hp => ?_, rfl⟩
        obtain rfl := Option.some.inj hm
        refine hnot p (isBare_iff.2 ⟨h, hh⟩) ?_
        rw [hh.handle]
        exact hp

/-- What is not bare, not cached or not among the variables is left alone. -/
theorem node?_fillBare_other {k : NodeId} {n : Node} {ids : List NodeId} (hn : s.node? k = some n)
    (hother : k ∈ ids → ∀ h, n.BareAt h → s.cache.get? h = none) :
    (s.fillBare ids).value.node? k = some n := by
  induction ids generalizing s with
  | nil => exact hn
  | cons id ids ih =>
      have hrest : k ∈ ids → ∀ h, n.BareAt h → s.cache.get? h = none :=
        fun hk => hother (List.mem_cons_of_mem id hk)
      rcases s.fillBare_cons id ids with ⟨m, h, p, hm, hbare, hp, hvalue⟩ | ⟨-, hvalue⟩
      · have hne : k ≠ id := by
          rintro rfl
          obtain rfl := Option.some.inj (hn.symm.trans hm)
          rw [hother List.mem_cons_self h hbare] at hp
          cases hp
        rw [hvalue]
        exact ih ((node?_setNode_of_ne s hne _).trans hn) hrest
      · rw [hvalue]
        exact ih hn hrest

/-- A bare variable takes the payload that is cached for its handle. -/
theorem node?_fillBare_bare {k : NodeId} {n : Node} {h : Handle} {p : Payload} {ids : List NodeId}
    (hk : k ∈ ids) (hn : s.node? k = some n) (hbare : n.BareAt h) (hp : s.cache.get? h = some p) :
    (s.fillBare ids).value.node? k = some (n.fill p).value := by
  induction ids generalizing s with
  | nil => cases hk
  | cons id ids ih =>
      rcases s.fillBare_cons id ids with ⟨m, g, q, hm, hg, hq, hvalue⟩ | ⟨hskip, hvalue⟩
      · rw [hvalue]
        by_cases heq : k = id
        · subst heq
          obtain rfl := Option.some.inj (hn.symm.trans hm)
          obtain rfl := Option.some.inj (hbare.handle.symm.trans hg.handle)
          obtain rfl := Option.some.inj (hp.symm.trans hq)
          -- It may be listed again, but it is not bare then.
          exact node?_fillBare_other (node?_setNode_self hn _)
            fun _ j hj => (not_bareAt_fill hbare p j hj).elim
        · have hin : k ∈ ids := (List.mem_cons.1 hk).resolve_left heq
          exact ih hin ((node?_setNode_of_ne s heq _).trans hn) hp
      · rw [hvalue]
        have hne : k ≠ id := by
          rintro rfl
          exact hskip n h p hn hbare hp
        exact ih ((List.mem_cons.1 hk).resolve_left hne) hn hp

/-- Who waits for the payloads of a frame are the bare variables whose handles are not cached. -/
theorem mem_missing_bare {ids : List NodeId} {h : Handle} {k : NodeId} :
    (h, k) ∈ s.missing (s.bare ids) ↔
      k ∈ ids ∧ ∃ n, s.node? k = some n ∧ n.BareAt h ∧ s.cache.get? h = none := by
  have huncached : s.cache.contains h = false ↔ s.cache.get? h = none := by
    simp [Cache.contains]
  rw [mem_missing, huncached]
  constructor
  · rintro ⟨hk, n, hn, hh, hnone⟩
    obtain ⟨hmem, hbare⟩ := List.mem_filter.1 hk
    rw [hn, Option.any_some] at hbare
    obtain ⟨g, hg⟩ := isBare_iff.1 hbare
    obtain rfl := Option.some.inj (hh.symm.trans hg.handle)
    exact ⟨hmem, n, hn, hg, hnone⟩
  · rintro ⟨hmem, n, hn, hbare, hnone⟩
    refine ⟨List.mem_filter.2 ⟨hmem, ?_⟩, n, hn, hbare.handle, hnone⟩
    rw [hn, Option.any_some]
    exact isBare_iff.2 ⟨h, hbare⟩

/-! ### The calls on a frame -/

theorem ensureVariables_stale {id : FrameId} {f : CallFrame} (hf : s.callFrame? id = some f)
    (hgen : f.generation ≠ s.cache.generation) :
    (s.ensureVariables id).value = .error .stale := by
  have hstale : s.isCurrent f.generation = false := by
    rw [← Bool.not_eq_true, isCurrent_iff]
    exact hgen
  simp [ensureVariables, hf, hstale]

theorem ensureVariables_again {id : FrameId} {f : CallFrame} (hf : s.callFrame? id = some f)
    (hgen : f.generation = s.cache.generation) (hrequested : f.requested = true) :
    (s.ensureVariables id).value = .ok (s, none) := by
  have hcurrent : s.isCurrent f.generation = true := isCurrent_iff.2 hgen
  simp [ensureVariables, hf, hcurrent, hrequested]

theorem ensureVariables_refused {id : FrameId} {e : SessionError}
    (herror : (s.ensureVariables id).value = .error e) {f : CallFrame}
    (hf : s.callFrame? id = some f) : f.generation ≠ s.cache.generation := by
  intro hgen
  cases hrequested : f.requested with
  | true =>
      rw [ensureVariables_again hf hgen hrequested] at herror
      cases herror
  | false =>
      rcases ensureVariables_first hf hgen hrequested with ⟨-, hvalue⟩ | ⟨-, hvalue⟩
      · rw [hvalue] at herror
        cases herror
      · rw [hvalue] at herror
        cases herror

/-- A call changes no frame but its own, and that only in that it has been requested if it was
valid. -/
theorem ensureVariables_callFrame? {id k : FrameId} {next : Session × Option Lookup}
    (hnext : (s.ensureVariables id).value = .ok next) {g : CallFrame}
    (hg : next.1.callFrame? k = some g) :
    ∃ f, s.callFrame? k = some f ∧ (g.requested = true ↔
      f.requested = true ∨ (id = k ∧ f.generation = s.cache.generation)) := by
  cases hf : s.callFrame? id with
  | none =>
      have hvalue : (s.ensureVariables id).value = .ok (s, none) := by
        simp [ensureVariables, hf]
      rw [hvalue] at hnext
      obtain rfl := Except.ok.inj hnext
      refine ⟨g, hg, (or_iff_left ?_).symm⟩
      rintro ⟨rfl, -⟩
      rw [hf] at hg
      cases hg
  | some f =>
      by_cases hgen : f.generation = s.cache.generation
      case neg =>
        rw [ensureVariables_stale hf hgen] at hnext
        cases hnext
      cases hrequested : f.requested with
      | true =>
          rw [ensureVariables_again hf hgen hrequested] at hnext
          obtain rfl := Except.ok.inj hnext
          refine ⟨g, hg, (or_iff_left_of_imp ?_).symm⟩
          rintro ⟨rfl, -⟩
          obtain rfl := Option.some.inj (hf.symm.trans hg)
          exact hrequested
      | false =>
          have hframes : next.1.callFrame? k = (s.asked id f).callFrame? k := by
            obtain ⟨nodes, hfilled⟩ := (s.asked id f).fillBare_nodes f.roots
            rcases ensureVariables_first hf hgen hrequested with ⟨-, hvalue⟩ | ⟨-, hvalue⟩
            · rw [hvalue] at hnext
              rw [← Except.ok.inj hnext, hfilled]
              rfl
            · rw [hvalue] at hnext
              rw [← Except.ok.inj hnext, hfilled]
              rfl
          rw [hframes, asked, callFrame?_ask hf] at hg
          split at hg
          · next heq =>
            subst heq
            obtain rfl := Option.some.inj hg
            exact ⟨f, hf, iff_of_true rfl (.inr ⟨rfl, hgen⟩)⟩
          · next hne => exact ⟨g, hg, (or_iff_left fun h => hne h.1.symm).symm⟩

/-- A frame that has just been made has not asked yet. -/
theorem Captures.requested {frames : List StackFrame} {s' : Session} (h : s.Captures frames s')
    {k : FrameId} {g : CallFrame} (hg : s'.callFrame? k = some g) :
    s.callFrame? k = some g ∨ s.callFrame? k = none ∧ g.requested = false := by
  obtain ⟨news, hlength, hnews⟩ := h.callFrames
  cases hold : s.callFrame? k with
  | some f => exact .inl ((h.callFrame? hold).symm.trans hg)
  | none =>
      have hle : s.callFrames.size ≤ k := by
        simpa [Session.callFrame?] using hold
      obtain ⟨i, rfl⟩ := Nat.exists_eq_add_of_le hle
      obtain ⟨hlt, -⟩ := Array.getElem?_eq_some_iff.1 hg
      have hi : i < frames.length := by
        simp only [hnews, Array.size_append, List.size_toArray, hlength] at hlt
        exact Nat.lt_of_add_lt_add_left hlt
      obtain ⟨start, hentered, -⟩ := h.enters i _ (List.getElem?_eq_getElem hi)
      obtain rfl := Option.some.inj (hentered.symm.trans hg)
      exact .inr ⟨rfl, rfl⟩

/-! ### The first call -/

def Valid (s : Session) (id : FrameId) : Prop :=
  ∃ f, s.callFrame? id = some f ∧ f.generation = s.cache.generation

/-- A bare node among `ids` has the handle `h`, for which nothing is cached. -/
def Lacks (s : Session) (ids : List NodeId) (h : Handle) (k : NodeId) : Prop :=
  k ∈ ids ∧ ∃ n, s.node? k = some n ∧ n.BareAt h ∧ s.cache.get? h = none

/-- What the first call for the variables of a frame does to a session. -/
structure Materialises (s : Session) (id : FrameId) (f : CallFrame) (s' : Session) : Prop where
  /-- The bare variables whose payloads are cached take them. -/
  cached : ∀ k ∈ f.roots, ∀ n h p, s.node? k = some n → n.BareAt h → s.cache.get? h = some p →
    s'.node? k = some (n.fill p).value
  /-- All other nodes stay as they are, the other variables of the frame among them. -/
  others : ∀ k n, s.node? k = some n → (k ∈ f.roots → ∀ h, n.BareAt h → s.cache.get? h = none) →
    s'.node? k = some n
  size : s'.nodes.size = s.nodes.size
  frame : s'.callFrame? id = some { f with requested := true }
  frames : ∀ k, k ≠ id → s'.callFrame? k = s.callFrame? k
  rest : s' = { s with nodes := s'.nodes, callFrames := s'.callFrames }

theorem size_fillBare (s : Session) (ids : List NodeId) :
    (s.fillBare ids).value.nodes.size = s.nodes.size := by
  induction ids generalizing s with
  | nil => rfl
  | cons id ids ih =>
      rcases s.fillBare_cons id ids with ⟨n, h, p, -, -, -, hvalue⟩ | ⟨-, hvalue⟩
      · rw [hvalue, ih, size_setNode]
      · rw [hvalue, ih]

theorem fillBare_materialises {id : FrameId} {f : CallFrame} (hf : s.callFrame? id = some f) :
    s.Materialises id f ((s.asked id f).fillBare f.roots).value := by
  obtain ⟨nodes, hvalue⟩ := (s.asked id f).fillBare_nodes f.roots
  have hframes : ∀ k, ((s.asked id f).fillBare f.roots).value.callFrame? k =
      if k = id then some { f with requested := true } else s.callFrame? k := by
    intro k
    rw [← callFrame?_ask hf, hvalue]
    rfl
  constructor
  case cached => exact fun k hk n h p hn hbare hp => node?_fillBare_bare hk hn hbare hp
  case others => exact fun k n hn hother => node?_fillBare_other hn hother
  case size => exact size_fillBare (s.asked id f) f.roots
  case frame => rw [hframes, if_pos rfl]
  case frames => exact fun k hk => by rw [hframes, if_neg hk]
  case rest =>
    rw [hvalue]
    rfl

end Session

namespace Inquiry

/-! ### Whether a frame has asked -/

/-- Some earlier move has called for the variables of a frame while the frame was valid. -/
def Asked (options : LookupOptions) (moves : List Move) (id : FrameId) : Prop :=
  ∃ before, before ++ [.ensureVariables id] <+: moves ∧ (run options before).session.Valid id

theorem asked_concat {options : LookupOptions} {moves : List Move} {m : Move} {id : FrameId} :
    Asked options (moves ++ [m]) id ↔
      Asked options moves id ∨ m = .ensureVariables id ∧ (run options moves).session.Valid id := by
  constructor
  · rintro ⟨before, hbefore, hvalid⟩
    rcases List.prefix_concat_iff.1 hbefore with heq | hbefore
    · obtain ⟨rfl, hm⟩ := List.append_inj' heq rfl
      exact .inr ⟨(List.singleton_inj.1 hm).symm, hvalid⟩
    · exact .inl ⟨before, hbefore, hvalid⟩
  · rintro (⟨before, hbefore, hvalid⟩ | ⟨rfl, hvalid⟩)
    · exact ⟨before, hbefore.trans (List.prefix_append _ _), hvalid⟩
    · exact ⟨moves, List.prefix_refl _, hvalid⟩

/-- A move makes a frame that has not asked, or leaves it as it was but for a call on it while it is
valid. -/
theorem step_requested {w : Inquiry} {m : Move} {id : FrameId} {g : CallFrame}
    (hg : (w.step m).session.callFrame? id = some g) :
    (∃ f, w.session.callFrame? id = some f ∧ (g.requested = true ↔
      f.requested = true ∨ (m = .ensureVariables id ∧ f.generation = w.session.cache.generation))) ∨
    w.session.callFrame? id = none ∧ g.requested = false := by
  by_cases hcalls : ∃ k, m = .ensureVariables k
  · obtain ⟨k, rfl⟩ := hcalls
    simp only [step] at hg
    split at hg
    · next next hnext =>
      rw [issue_session] at hg
      obtain ⟨f, hf, hiff⟩ := Session.ensureVariables_callFrame? hnext hg
      exact .inl ⟨f, hf, by rw [hiff, Move.ensureVariables.injEq]⟩
    · next herror =>
      refine .inl ⟨g, hg, (or_iff_left ?_).symm⟩
      rintro ⟨hk, hgen⟩
      obtain rfl := Move.ensureVariables.inj hk
      exact Session.ensureVariables_refused herror hg hgen
  -- Most of the other moves make no frames either.
  have hsame : w.session.callFrame? id = some g →
      ∃ f, w.session.callFrame? id = some f ∧ (g.requested = true ↔ f.requested = true ∨
        (m = .ensureVariables id ∧ f.generation = w.session.cache.generation)) :=
    fun hold => ⟨g, hold, (or_iff_left fun h => hcalls ⟨id, h.1⟩).symm⟩
  have hrest : ∀ {t : Session}, t.rest = w.session.rest →
      t.callFrame? id = w.session.callFrame? id := by
    intro t ht
    have hframes : t.rest.callFrames = w.session.rest.callFrames := by rw [ht]
    show t.rest.callFrames[id]? = _
    rw [hframes]
    rfl
  cases m with
  | createFrame index function bindings =>
      obtain ⟨-, hcaptures⟩ := w.session.addFrame_captures
        { index := index, function := function, arguments := bindings }
      exact (hcaptures.requested hg).imp_left hsame
  | materialize body refs =>
      cases hframes : StackFrame.listOfJson body with
      | error e =>
          rw [step, Session.materialize_refuses _ _ hframes] at hg
          exact .inl (hsame hg)
      | ok frames =>
          let t : Session := { w.session with
            cache := (w.session.cache.seed w.session.cache.generation (Payload.ofRefs refs)).1 }
          have hstep : (w.step (.materialize body refs)).session.callFrame? id =
              (Session.addFrames frames t).value.2.callFrame? id := by
            simp only [step, Session.materialize, hframes, Logged.value_bind, Logged.value_pure]
            rfl
          rw [hstep] at hg
          exact ((Session.addFrames_captures frames t).2.requested hg).imp_left hsame
  | expand k =>
      rw [step, issue_session, hrest (w.session.rest_expand k)] at hg
      exact .inl (hsame hg)
  | ensureProperties k refs =>
      rw [step, issue_session, hrest (w.session.rest_ensureProperties k refs)] at hg
      exact .inl (hsame hg)
  | ensureVariables k => exact (hcalls ⟨k, rfl⟩).elim
  | settle place o =>
      simp only [step] at hg
      split at hg
      · rw [issue_session, hrest (w.session.rest_deliver _ o)] at hg
        exact .inl (hsame hg)
      · exact .inl (hsame hg)
  | message e =>
      simp only [step, Session.handleMessage] at hg
      split at hg
      · exact .inl (hsame hg)
      · exact .inl (hsame hg)
  | retire => exact .inl (hsame hg)
  | name o => exact .inl (hsame hg)
  | absorb parent data => exact .inl (hsame hg)
  | store h p => exact .inl (hsame hg)
  | invalidate => exact .inl (hsame hg)
  | hold frames nodes => exact .inl (hsame hg)

/-- A frame remembers that it has asked, and nothing else makes it think so. -/
theorem requested_iff_asked (options : LookupOptions) (moves : List Move) {id : FrameId}
    {f : CallFrame} (hf : (run options moves).session.callFrame? id = some f) :
    f.requested = true ↔ Asked options moves id := by
  induction moves using List.reverseRecOn generalizing f with
  | nil => simp [run, after, Session.callFrame?] at hf
  | append_singleton moves m ih =>
      rw [run_append, after_singleton] at hf
      rw [asked_concat]
      rcases step_requested hf with ⟨g, hg, hiff⟩ | ⟨hnone, hfalse⟩
      · have hvalid : (run options moves).session.Valid id ↔
            g.generation = (run options moves).session.cache.generation := by
          simp [Session.Valid, hg]
        rw [hiff, ih hg, hvalid]
      · refine iff_of_false (by simp [hfalse]) ?_
        rintro (⟨before, ⟨later, rfl⟩, hvalid⟩ | ⟨-, hvalid⟩)
        · obtain ⟨g, hg, -⟩ := hvalid
          have hgrows := after_grows (coherent_run options before) (.ensureVariables id :: later)
          rw [← run_append, List.append_cons] at hgrows
          obtain ⟨_, hthere⟩ := hgrows.callFrames id g hg
          rw [hnone] at hthere
          cases hthere
        · obtain ⟨g, hg, -⟩ := hvalid
          rw [hnone] at hg
          cases hg

/-! ### Every call on a frame -/

structure FirstCall (w : Inquiry) (id : FrameId) (f : CallFrame) (w' : Inquiry) : Prop where
  succeeds : ∃ l?, (w.session.ensureVariables id).value = .ok (w'.session, l?)
  session : w.session.Materialises id f w'.session
  /-- The bare variables whose payloads are not cached are asked for by one lookup, each handle once
  and in ascending order; if there are none, nothing is sent. -/
  lookup : ∃ (handles : List Handle) (awaited : List (Handle × NodeId)),
    handles.Pairwise (· < ·) ∧ (∀ h, h ∈ handles ↔ ∃ k, w.session.Lacks f.roots h k) ∧
    (∀ h k, (h, k) ∈ awaited ↔ w.session.Lacks f.roots h k) ∧
    if handles = [] then w'.sent = w.sent ∧ w'.underWay = w.underWay
    else
      w'.sent = w.sent ++ [.lookup handles w.session.options.inlineRefs] ∧
        w'.underWay = w.underWay ++ [⟨.frame id, handles, .batch f.generation awaited none⟩]

/-- What a call for the variables of a frame does after these moves. -/
structure AsksOnce (options : LookupOptions) (moves : List Move) (id : FrameId) (f : CallFrame) :
    Prop where
  first : f.generation = (run options moves).session.cache.generation → ¬Asked options moves id →
    FirstCall (run options moves) id f ((run options moves).step (.ensureVariables id))
  later : f.generation = (run options moves).session.cache.generation → Asked options moves id →
    ((run options moves).session.ensureVariables id).value =
        .ok ((run options moves).session, none) ∧
      (run options moves).step (.ensureVariables id) = run options moves
  stale : f.generation ≠ (run options moves).session.cache.generation →
    ((run options moves).session.ensureVariables id).value = .error .stale ∧
      (run options moves).step (.ensureVariables id) = run options moves

theorem firstCall_of_unrequested {w : Inquiry} {id : FrameId} {f : CallFrame}
    (hf : w.session.callFrame? id = some f) (hgen : f.generation = w.session.cache.generation)
    (hrequested : f.requested = false) : FirstCall w id f (w.step (.ensureVariables id)) := by
  have hmaterialises := Session.fillBare_materialises hf
  have hmem : ∀ h k, (h, k) ∈ w.session.missing (w.session.bare f.roots) ↔
      w.session.Lacks f.roots h k := fun h k => Session.mem_missing_bare
  have hhandles : ∀ h, h ∈ handleSet ((w.session.missing (w.session.bare f.roots)).map (·.1)) ↔
      ∃ k, w.session.Lacks f.roots h k := by
    intro h
    rw [Session.mem_handleSet, List.mem_map]
    constructor
    · rintro ⟨⟨g, k⟩, hx, rfl⟩
      exact ⟨k, (hmem g k).1 hx⟩
    · rintro ⟨k, hk⟩
      exact ⟨(h, k), (hmem h k).2 hk, rfl⟩
  have hsorted := Session.sorted_handleSet ((w.session.missing (w.session.bare f.roots)).map (·.1))
  rcases Session.ensureVariables_first hf hgen hrequested with ⟨hnil, hvalue⟩ | ⟨hne, hvalue⟩
  · have hstep : w.step (.ensureVariables id) =
        { w with session := ((w.session.asked id f).fillBare f.roots).value } := by
      rw [step, hvalue]
      rfl
    have hnone : handleSet ((w.session.missing (w.session.bare f.roots)).map (·.1)) = [] := by
      change w.session.missing (w.session.bare f.roots) = [] at hnil
      rw [hnil]
      rfl
    rw [hstep]
    refine ⟨⟨_, hvalue⟩, hmaterialises, _, _, hsorted, hhandles, hmem, ?_⟩
    rw [if_pos hnone]
    exact ⟨rfl, rfl⟩
  · have hasked : handleSet ((w.session.missing (w.session.bare f.roots)).map (·.1)) ≠ [] := by
      obtain ⟨x, hx⟩ := List.exists_mem_of_ne_nil _ hne
      exact List.ne_nil_of_mem (Session.mem_handleSet.2 (List.mem_map_of_mem hx))
    have hoptions : ((w.session.asked id f).fillBare f.roots).value.options = w.session.options := by
      rw [hmaterialises.rest]
    rw [step, hvalue]
    refine ⟨⟨_, hvalue⟩, hmaterialises, _, _, hsorted, hhandles, hmem, ?_⟩
    rw [if_neg hasked, ← hoptions]
    exact ⟨rfl, rfl⟩

/-- A valid frame asks for its bare variables the first time that it is called for them; after that,
and when it is stale, a call changes nothing. -/
theorem variables_asked_once (options : LookupOptions) (moves : List Move) (id : FrameId)
    (f : CallFrame) (hf : (run options moves).session.callFrame? id = some f) :
    AsksOnce options moves id f := by
  have hrequested := requested_iff_asked options moves hf
  constructor
  case first =>
    intro hgen hasked
    rw [← hrequested, Bool.not_eq_true] at hasked
    exact firstCall_of_unrequested hf hgen hasked
  case later =>
    intro hgen hasked
    have hvalue := Session.ensureVariables_again hf hgen (hrequested.2 hasked)
    refine ⟨hvalue, ?_⟩
    rw [step, hvalue]
    rfl
  case stale =>
    intro hgen
    have hvalue := Session.ensureVariables_stale hf hgen
    refine ⟨hvalue, ?_⟩
    rw [step, hvalue]

/-- A frame whose variables are in all states: three that share two handles, one that is described, one
that expands, one without a handle and one whose payload is cached. -/
def mixedFrame : List Move :=
  [.createFrame 0 "main" [⟨"a", { handle := some 9 }⟩, ⟨"b", { handle := some 7 }⟩,
      ⟨"c", { handle := some 9 }⟩, ⟨"d", { handle := some 8, tag := some "number", text := some "1" }⟩,
      ⟨"e", { handle := some 5 }⟩, ⟨"f", {}⟩, ⟨"g", { handle := some 3 }⟩],
    .store 3 { handle := some 3, tag := some "number", text := some "2" }, .expand 4]

/-- The first call asks for the two handles, the second for nothing. -/
theorem variables_asked_once_mixed :
    ((run {} mixedFrame).step (.ensureVariables 0)).sent = [.lookup [5] true, .lookup [7, 9] true] ∧
      ∃ f f', AsksOnce {} mixedFrame 0 f ∧
        AsksOnce {} (mixedFrame ++ [.ensureVariables 0]) 0 f' ∧ f.requested = false ∧
          f'.requested = true :=
  ⟨rfl, _, _, variables_asked_once {} mixedFrame 0 _ rfl,
    variables_asked_once {} (mixedFrame ++ [.ensureVariables 0]) 0 _ rfl, rfl, rfl⟩

end Inquiry

end RemoteInspector
