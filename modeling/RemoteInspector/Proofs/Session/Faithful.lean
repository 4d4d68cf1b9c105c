import RemoteInspector.Proofs.Session.Display
import RemoteInspector.Proofs.Session.Inquiry

/-!
The tree of variables is faithful to the machine. While a suspension lasts, let `T` be what the machine
reports for each handle, and let all that comes in be true to `T`. Then a node that is resolved shows
what `T` has for its handle, by whichever way its data came: with the binding, with a reference that
was sent along, from the cache, with the reply to its parent's lookup or to its own. The invariant is
`Faithful`: the cache is a part of `T`, and what is known and shown of a node agrees with `T`.
-/

namespace RemoteInspector

/-- What the machine reports for each handle during one suspension. -/
abbrev Machine := Handle → Option Payload

/-- What comes in is true to the machine. A binding may be its handle only, or leave out properties;
a binding without a handle may be anything, and nobody brings properties from elsewhere. -/
def Source.trueTo (T : Machine) : Source where
  payload := fun h p => T h = some p
  binding := fun p => ∀ h, p.handle = some h →
    p = { handle := some h } ∨ ∃ whole, T h = some whole ∧ p.Abridges whole
  refs := fun _ => False

structure Node.Faithful (T : Machine) (s : Session) (n : Node) (h : Handle) : Prop where
  facts : n.facts.Blank ∨ ∃ p, T h = some p ∧ n.facts.Reports p
  view : ∀ v, n.view = some v → ∃ p, T h = some p ∧ s.Shows p v
  resolved : n.resolution = .resolved → n.view.isSome

namespace Node.Faithful

variable {T : Machine} {s s' : Session} {n : Node} {h : Handle}

theorem mono (hgrows : s.Grows s') (hn : n.Faithful T s h) : n.Faithful T s' h where
  facts := hn.facts
  view := by
    intro v hv
    obtain ⟨p, hp, hshows⟩ := hn.view v hv
    exact ⟨p, hp, hshows.mono hgrows⟩
  resolved := hn.resolved

theorem new (name path : String) (generation : Nat) (owner : Owner) (handle : Option Handle)
    (shallow : Bool) : (Node.new name path generation owner handle shallow).Faithful T s h where
  facts := .inl ⟨rfl, rfl, rfl⟩
  view := nofun
  resolved := nofun

/-- A payload that is true to the machine, whole or without its properties, keeps a node faithful. -/
theorem fill {p whole : Payload} (hwhole : T h = some whole) (hp : p.Abridges whole)
    (hn : n.Faithful T s h) : (n.fill p).value.Faithful T s h := by
  have hreports : (n.facts.fill p (!n.shallow)).Reports whole := by
    refine Facts.reports_fill hp ?_ _
    rcases hn.facts with hblank | ⟨q, hq, hreports⟩
    · exact .inl hblank
    · rw [hwhole] at hq
      cases hq
      exact .inr hreports
  rcases n.fill_cases p with ⟨-, hvalue⟩ | ⟨hfinal, -, hvalue⟩ | ⟨-, hcompound, hvalue⟩
  · rw [hvalue]
    exact hn
  · rw [hvalue]
    refine ⟨.inr ⟨whole, hwhole, hreports⟩, hn.view, fun hres => ?_⟩
    rw [show n.resolution = .resolved from hres] at hfinal
    cases hfinal
  · rw [hvalue]
    refine ⟨.inr ⟨whole, hwhole, hreports⟩, fun v hv => ?_, fun _ => rfl⟩
    cases hv
    rw [hreports.isCompound] at hcompound
    exact ⟨whole, hwhole, Session.shows_scalarView hreports hcompound⟩

theorem record (hn : n.Faithful T s h) {e : Resolution.Event}
    (he : n.resolution.on e = some .resolved → n.view.isSome) :
    (n.record e).value.Faithful T s h := by
  rw [Node.record_value]
  refine ⟨hn.facts, hn.view, fun hres => ?_⟩
  cases hon : n.resolution.on e with
  | none =>
      rw [hon] at hres
      exact hn.resolved hres
  | some r =>
      rw [hon] at hres
      exact he (hon.trans (congrArg some hres))

end Node.Faithful

namespace Session

/-- The cache and the nodes of the present generation agree with the machine. -/
structure Faithful (T : Machine) (s : Session) : Prop where
  cache : ∀ h p, s.cache.get? h = some p → T h = some p
  nodes : ∀ id n, s.node? id = some n → n.generation = s.cache.generation →
    ∀ h, n.facts.handle = some h → n.Faithful T s h

variable {T : Machine} {on : NodeId → Prop} {s s' : Session}

theorem Faithful.tells (hs : s.Faithful T) {h : Handle} {p : Payload}
    (hp : (Source.trueTo T).Tells s h p) : T h = some p := by
  rcases hp with hp | hp
  · exact hp
  · exact hs.cache h p hp

/-- It is enough to look at the nodes that an update has changed or added. -/
theorem Faithful.of_grows (hs : s.Faithful T) (hgrows : s.Grows s')
    (hgeneration : s'.cache.generation = s.cache.generation)
    (hcache : ∀ h p, s'.cache.get? h = some p → T h = some p)
    (hnodes : ∀ id n, s'.node? id = some n → s.node? id = some n ∨
      (n.generation = s.cache.generation → ∀ h, n.facts.handle = some h → n.Faithful T s' h)) :
    s'.Faithful T where
  cache := hcache
  nodes := by
    intro id n hn hgen h hh
    rw [hgeneration] at hgen
    rcases hnodes id n hn with hold | hnew
    · exact (hs.nodes id n hold hgen h hh).mono hgrows
    · exact hnew hgen h hh

theorem Faithful.setNode (hs : s.Faithful T) {id : NodeId} {n n' : Node}
    (hn : s.node? id = some n) (heir : n.Heir n')
    (hn' : n.generation = s.cache.generation → ∀ h, n'.facts.handle = some h →
      n'.Faithful T s h) : (s.setNode id n').Faithful T := by
  have hgrows : s.Grows (s.setNode id n') := .setNode hn heir
  refine hs.of_grows hgrows rfl hs.cache fun k m hm => ?_
  rw [node?_setNode hn] at hm
  split at hm
  · cases hm
    refine .inr fun hgen h hh => (hn' ?_ h hh).mono hgrows
    rw [← heir.generation]
    exact hgen
  · exact .inl hm

theorem Faithful.recordOn (hs : s.Faithful T) {id : NodeId} {e : Resolution.Event}
    (he : ∀ n, s.node? id = some n → n.resolution.on e = some .resolved → n.view.isSome) :
    (s.recordOn id e).value.Faithful T := by
  rcases s.recordOn_cases id e with ⟨-, hvalue⟩ | ⟨n, hn, hvalue⟩
  · rw [hvalue]
    exact hs
  · rw [hvalue]
    refine hs.setNode hn (n.heir_record e) fun hgen h hh => ?_
    rw [Node.record_value] at hh
    exact (hs.nodes id n hn hgen h hh).record (he n hn)

/-- A child is a new node, filled at most from the cache. -/
theorem Faithful.childNode (hs : s.Faithful T) (id : NodeId) (n : Node) (r : PropertyRef) :
    (s.childNode id n r).value.Faithful T s' r.handle := by
  rcases s.childNode_cases id n r with ⟨-, hvalue⟩ | ⟨p, hp, hvalue⟩
  · rw [hvalue]
    exact .new ..
  · rw [hvalue]
    exact (Node.Faithful.new ..).fill (hs.cache r.handle p hp) (.inl rfl)

/-- The properties that a faithful node gets children for are those that the machine reports. -/
theorem Faithful.lists (hs : s.Faithful T) {id : NodeId} {n : Node} {refs : List PropertyRef}
    (hlists : (Source.trueTo T).Lists s n refs) (hn : s.node? id = some n)
    (hgen : n.generation = s.cache.generation) {h : Handle} (hh : n.facts.handle = some h) :
    ∃ p, T h = some p ∧ p.isCompound = true ∧ n.facts.Reports p ∧ p.properties = refs := by
  have hfacts := (hs.nodes id n hn hgen h hh).facts
  rcases hlists with hfalse | hknown | htold
  · exact hfalse.elim
  · -- Known properties have come with a payload, and only compound ones bring any.
    rcases hfacts with hblank | ⟨p, hp, hreports⟩
    · rw [hblank.properties] at hknown
      cases hknown
    · cases hcompound : p.isCompound with
      | false =>
          rw [(hreports.scalar hcompound).2.2] at hknown
          cases hknown
      | true =>
          rcases (hreports.compound hcompound).2.2 with hnone | hsome
          · rw [hnone] at hknown
            cases hknown
          · rw [hsome] at hknown
            exact ⟨p, hp, hcompound, hreports, Option.some.inj hknown⟩
  · obtain ⟨hcompound, p, htells, hrefs⟩ := htold h hh
    have hp := hs.tells htells
    rcases hfacts with hblank | ⟨q, hq, hreports⟩
    · rw [hblank.isCompound] at hcompound
      cases hcompound
    · rw [hp] at hq
      cases hq
      exact ⟨p, hp, hreports.isCompound ▸ hcompound, hreports, hrefs⟩

theorem Faithful.withChildren (hs : s.Faithful T) {id : NodeId} {n : Node}
    {refs : List PropertyRef} (hn : s.node? id = some n)
    (hlists : (Source.trueTo T).Lists s n refs) : (s.withChildren id n refs).Faithful T := by
  refine hs.of_grows (grows_withChildren hn refs) rfl hs.cache fun k c hc => ?_
  rcases node?_withChildren_cases hn hc with ⟨-, rfl⟩ | ⟨-, hold⟩ | ⟨-, r, -, rfl⟩
  · refine .inr fun hgen h hh => ?_
    obtain ⟨p, hp, hcompound, hreports, rfl⟩ := hs.lists hlists hn hgen hh
    refine ⟨(hs.nodes id n hn hgen h hh).facts, fun v hv => ?_, fun _ => rfl⟩
    cases hv
    exact ⟨p, hp, shows_withChildren hn hreports hcompound⟩
  · exact .inl hold
  · refine .inr fun _ h hh => ?_
    have heir := (s.heir_childNode id n r).handle r.handle rfl
    rw [hh] at heir
    cases heir
    exact hs.childNode id n r

theorem handle_ofBinding (generation : Nat) (owner : Owner) (name : String) (p : Payload) :
    (Node.ofBinding generation owner name p).value.facts.handle = p.handle := by
  unfold Node.ofBinding
  dsimp only
  split
  · rw [Node.fill_facts rfl, Facts.handle_fill]
    simp [Node.new]
  · rfl

/-- The node of a binding that is true to the machine is faithful. -/
theorem faithful_ofBinding {p : Payload} (hp : (Source.trueTo T).binding p) {generation : Nat}
    {owner : Owner} {name : String} {h : Handle}
    (hh : (Node.ofBinding generation owner name p).value.facts.handle = some h) :
    (Node.ofBinding generation owner name p).value.Faithful T s h := by
  rw [handle_ofBinding] at hh
  rcases hp h hh with rfl | ⟨whole, hwhole, habridges⟩
  · exact .new ..
  · unfold Node.ofBinding
    dsimp only
    split
    · exact (Node.Faithful.new ..).fill hwhole habridges
    · exact .new ..

theorem Update.faithful (h : Update (.trueTo T) on s s') (hs : s.Faithful T) : s'.Faithful T := by
  have hgrows := h.grows
  cases h with
  | @learn k p hp =>
      refine hs.of_grows hgrows rfl (fun j q hq => ?_) fun id n hn => .inl hn
      rw [learned, Cache.get?_put] at hq
      split at hq
      · next heq =>
        cases hq
        rw [heq]
        exact hp
      · exact hs.cache j q hq
  | @fill id n k p _ hn hk htells =>
      refine hs.setNode hn (n.heir_fill p) fun hgen j hj => ?_
      -- The node keeps the handle for which the payload is at hand.
      rw [(n.heir_fill p).handle k hk] at hj
      cases hj
      exact (hs.nodes id n hn hgen k hk).fill (hs.tells htells) (.inl rfl)
  | @begin id n _ hn _ =>
      refine hs.setNode hn n.heir_begun fun hgen k hk => ?_
      obtain ⟨hfacts, hview, -⟩ := hs.nodes id n hn hgen k hk
      exact ⟨hfacts, hview, nofun⟩
  | list _ hn _ hlists => exact hs.withChildren hn hlists
  | @reply id n _ hn hview =>
      refine hs.recordOn fun m hm _ => ?_
      rw [hn] at hm
      cases hm
      exact hview
  | fail _ =>
      refine hs.recordOn fun m _ hres => ?_
      cases hm : m.resolution <;> simp [hm, Resolution.on] at hres
  | @bind frame name p hp =>
      refine hs.of_grows hgrows rfl hs.cache fun k n hn => ?_
      rw [node?_addNode] at hn
      split at hn
      · cases hn
        exact .inr fun _ h hh => faithful_ofBinding hp hh
      · exact .inl hn
  | enter _ _ => exact hs.of_grows hgrows rfl hs.cache fun id n hn => .inl hn
  | ask _ => exact hs.of_grows hgrows rfl hs.cache fun id n hn => .inl hn
  | manage hcache hnodes _ =>
      refine hs.of_grows hgrows (by rw [hcache]) (by rw [hcache]; exact hs.cache)
        fun id n hn => .inl ?_
      rwa [node?, ← hnodes]

theorem Updates.faithful (h : Updates (.trueTo T) on s s') (hs : s.Faithful T) :
    s'.Faithful T := by
  induction h with
  | refl => exact hs
  | tail _ hlast ih => exact hlast.faithful ih

end Session

/-! ### Runs -/

namespace Inquiry

/-- A suspension is about to begin: the session is new, or the last move has ended the one before. -/
def BeginsSuspension (before : List Move) : Prop :=
  before = [] ∨ ∃ earlier m, before = earlier ++ [m] ∧ m.Ends

/-- All moves are within one suspension, and what they bring in is true to the machine. -/
def TrueTo (T : Machine) : Inquiry → List Move → Prop
  | _, [] => True
  | w, m :: moves => ¬m.Ends ∧ w.Supplied (.trueTo T) m ∧ TrueTo T (w.step m) moves

/-- At the beginning of a suspension nothing is cached and no node is of its generation. -/
theorem faithful_begin (T : Machine) (options : LookupOptions) {before : List Move}
    (hbegins : BeginsSuspension before) : (run options before).session.Faithful T := by
  rcases hbegins with rfl | ⟨earlier, m, rfl, hends⟩
  · refine ⟨fun h p hp => ?_, fun id n hn => ?_⟩
    · simp [run, after, Cache.get?] at hp
    · simp [run, after, Session.node?] at hn
  · have hdated := (coherent_run options earlier).dated
    have hlast : run options (earlier ++ [m]) = (run options earlier).step m :=
      run_append options earlier [m]
    obtain ⟨current, table, hstep⟩ := step_ends hends
    rw [hlast, hstep]
    refine ⟨fun h p hp => ?_, fun id n hn hgen => ?_⟩
    · cases hp
    have hle := hdated.nodes id n hn
    have hnext : n.generation = (run options earlier).session.cache.generation + 1 := hgen
    omega

theorem step_faithful {T : Machine} {w : Inquiry} (hw : w.Coherent) {m : Move} (hm : ¬m.Ends)
    (htrue : w.Supplied (.trueTo T) m) (hs : w.session.Faithful T) :
    (w.step m).session.Faithful T :=
  Session.Updates.faithful (step_updates hw hm htrue) hs

theorem after_faithful {T : Machine} {w : Inquiry} (hw : w.Coherent) {moves : List Move}
    (htrue : TrueTo T w moves) (hs : w.session.Faithful T) :
    (w.after moves).session.Faithful T := by
  induction moves generalizing w with
  | nil => exact hs
  | cons m moves ih =>
      obtain ⟨hm, hsupplied, hrest⟩ := htrue
      exact ih (step_coherent hw m) hrest (step_faithful hw hm hsupplied hs)

/-- The moves of one suspension keep the generation. -/
theorem after_generation {T : Machine} {w : Inquiry} (hw : w.Coherent) {moves : List Move}
    (htrue : TrueTo T w moves) :
    (w.after moves).session.cache.generation = w.session.cache.generation := by
  induction moves generalizing w with
  | nil => rfl
  | cons m moves ih =>
      obtain ⟨hm, -, hrest⟩ := htrue
      exact (ih (step_coherent hw m) hrest).trans (step_generation hw hm)

/-- After any run up to the beginning of a suspension, and any moves within it that are true to the
machine, each node of the suspension that is resolved and has a handle shows what the machine reports
for that handle. -/
theorem resolved_node_shows (options : LookupOptions) (T : Machine) (before moves : List Move)
    (hbegins : BeginsSuspension before) (htrue : TrueTo T (run options before) moves)
    (id : NodeId) (n : Node) (h : Handle)
    (hn : (run options (before ++ moves)).session.node? id = some n)
    (hcurrent : (run options (before ++ moves)).session.isCurrent n.generation = true)
    (hresolved : n.resolution = .resolved) (hh : n.facts.handle = some h) :
    ∃ p v, T h = some p ∧ n.shown = some v ∧
      (run options (before ++ moves)).session.Shows p v := by
  have hfaithful : (run options (before ++ moves)).session.Faithful T := by
    rw [run_append]
    exact after_faithful (coherent_run options before) htrue (faithful_begin T options hbegins)
  have hnode := hfaithful.nodes id n hn (Session.isCurrent_iff.1 hcurrent) h hh
  obtain ⟨v, hv⟩ := Option.isSome_iff_exists.1 (hnode.resolved hresolved)
  obtain ⟨p, hp, hshows⟩ := hnode.view v hv
  refine ⟨p, v, hp, ?_, hshows⟩
  rw [Node.shown, hresolved]
  exact hv

def pointMachine : Machine := fun h => List.lookup h
  [(1, { handle := some 1, tag := some "object", className := some "Point",
          properties := [⟨"a", 2⟩, ⟨".map", 3⟩] }),
    (2, { handle := some 2, tag := some "number", text := some "5" })]

def pointReply : Envelope := .response 1 "lookup" true (some (.object [("1", .object
  [("type", .string "object"), ("className", .string "Point"), ("properties", .array
    [.object [("name", .string "a"), ("ref", .ofUInt64 2)],
      .object [("name", .string ".map"), ("ref", .ofUInt64 3)]])])]))

def coordinateReply : Envelope := .response 2 "lookup" true (some (.object [("2", .object
  [("type", .string "number"), ("text", .string "5")])]))

def earlierMoves : List Move :=
  [.createFrame 0 "main" [⟨"old", { handle := some 1 }⟩], .expand 0, .retire]

/-- In the next one a variable is expanded, its lookup brings an object, and the lookup of the object's
property brings a number. -/
def pointMoves : List Move :=
  [.createFrame 0 "main" [⟨"point", { handle := some 1 }⟩], .expand 1, .settle 1 (.ok pointReply),
    .settle 1 (.ok coordinateReply)]

def pointNode : Node :=
  { Node.new "point" "point" 1 (.frame 1) (some 1) false with
    facts := { name := "point", handle := some 1, valueType := some .object,
               className := some "Point", properties := some [⟨"a", 2⟩, ⟨".map", 3⟩] }
    resolution := .resolved
    view := some (.object .object (some "Point") [2]) }

theorem covers_of_reply {T : Machine} {handles : List Handle} {e : Envelope}
    (hreply : ∀ h ∈ handles, (LookupReply.ofEnvelope e).get? h = T h) (hrefs : e.refs = none) :
    (Source.trueTo T).Covers handles e where
  reply := fun h hh p hp => (hreply h hh).symm.trans hp
  refs := fun p hp => by
    rw [hrefs] at hp
    exact (List.not_mem_nil hp).elim

theorem supplied_settle {src : Source} {w : Inquiry} {place : Nat} {q : Query} {e : Envelope}
    (hq : w.underWay[place]? = some q) (he : src.Covers q.lookup.handles e) :
    w.Supplied src (.settle place (.ok e)) := by
  intro q' hq' _ e' he'
  rw [hq] at hq'
  cases hq'
  have hsame : e' = e := by
    simp only [Session.successful?] at he'
    split at he'
    · exact (Option.some.inj he').symm
    · cases he'
  rw [hsame]
  exact he

theorem resolved_node_shows_point :
    ∃ p v, pointMachine 1 = some p ∧ pointNode.shown = some v ∧
      (run {} (earlierMoves ++ pointMoves)).session.Shows p v := by
  have hpoint : (Source.trueTo pointMachine).Covers [1] pointReply := by
    refine covers_of_reply (fun h hh => ?_) rfl
    obtain rfl := List.mem_singleton.1 hh
    decide +kernel
  have hcoordinate : (Source.trueTo pointMachine).Covers [2] coordinateReply := by
    refine covers_of_reply (fun h hh => ?_) rfl
    obtain rfl := List.mem_singleton.1 hh
    decide +kernel
  have hbinding : (Source.trueTo pointMachine).binding { handle := some 1 } := by
    intro h hh
    cases hh
    exact .inl rfl
  have htrue : TrueTo pointMachine (run {} earlierMoves) pointMoves := by
    refine ⟨id, ?_, id, trivial, id, ?_, id, ?_, trivial⟩
    · intro b hb
      obtain rfl := List.mem_singleton.1 hb
      exact hbinding
    · exact supplied_settle (q := ⟨.node 1, ⟨[1], .own 1 1 1⟩⟩) rfl hpoint
    · exact supplied_settle (q := ⟨.node 1, ⟨[2], .batch 1 [(2, 2)] (some 1)⟩⟩) (by decide +kernel)
        hcoordinate
  have hcurrent : (run {} (earlierMoves ++ pointMoves)).session.isCurrent 1 = true := by
    rw [Session.isCurrent_iff, run_append, after_generation (coherent_run {} earlierMoves) htrue]
    rfl
  exact resolved_node_shows {} pointMachine earlierMoves pointMoves
    (.inr ⟨earlierMoves.dropLast, .retire, rfl, trivial⟩) htrue 1 pointNode 1 (by decide +kernel)
    hcurrent rfl rfl

end Inquiry

end RemoteInspector
