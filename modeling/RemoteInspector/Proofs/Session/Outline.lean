import RemoteInspector.Session.Report
import RemoteInspector.Proofs.Session.Captured
import RemoteInspector.Proofs.Session.Informed

/-!
The outline of what a machine reports: a plain recursion over the payloads, from handle to handle and
down to a depth. It has no cache, sends nothing, and knows of no nodes. A node of the tree has a part in
it as soon as it has been told what the machine reports for its handle (`Node.Ready`); its line is then
that of the outline, before and after it is opened.
-/

namespace RemoteInspector

/-- What a payload is said to be: a compound value by its class, or else its type, anything else by type
and text. -/
def Payload.summary (p : Payload) : String :=
  if p.isCompound then p.className.getD ((p.valueType?.getD .object).name)
  else p.scalar.1.name ++ " " ++ p.scalar.2

def Payload.shown (p : Payload) : List PropertyRef :=
  if p.isCompound then visible p.properties else []

def Report.entry (indent : Nat) (name what : String) : String :=
  String.ofList (List.replicate (indent * 2) ' ') ++
    (if isIndex name then "[" ++ name ++ "]" else name) ++ ": " ++ what ++ "\n"

def Machine.summary (T : Machine) (h : Handle) : String :=
  ((T h).map Payload.summary).getD "<unavailable>"

def Machine.shown (T : Machine) (h : Handle) : List PropertyRef := ((T h).map Payload.shown).getD []

/-- The outline of what the machine reports for a handle, at most `depth` levels below it. Where it is
cut off nothing is looked at, and what is not described is not known to be unavailable. -/
def Machine.outline (T : Machine) : (depth indent : Nat) → String → Handle → String
  | 0, indent, name, h => Report.entry indent name (((T h).map Payload.summary).getD "?")
  | depth + 1, indent, name, h => Report.entry indent name (T.summary h) ++
      String.join ((T.shown h).map fun r => T.outline depth (indent + 1) r.name r.handle)

def StackFrame.variables (f : StackFrame) : List PropertyRef :=
  (Session.shownBindings (f.arguments ++ f.locals)).filterMap fun b =>
    b.value.handle.map fun h => ⟨b.name, h⟩

def Report.heading (f : StackFrame) : String :=
  "#" ++ toString f.index.toNat ++ " " ++ f.function ++ Report.lineSuffix f.line ++ "\n"

/-- The outline of a frame: its line, and under it those of its variables. -/
def Machine.frameOutline (T : Machine) (depth : Nat) (f : StackFrame) : String :=
  Report.heading f ++ String.join (f.variables.map fun r => T.outline depth 1 r.name r.handle)

def Machine.stackOutline (T : Machine) (depth : Nat) (frames : List StackFrame) : String :=
  String.join (frames.map (T.frameOutline depth))

/-! ### Nodes that the outline tells of -/

/-- What a node knows that has been told what the machine reports, and that nothing else has happened
to. A scalar is settled by that. -/
def Node.Knows (n : Node) : Option Payload → Prop
  | none => n.resolution = .unresolved ∧ n.facts.Blank
  | some p =>
    if p.isCompound then n.resolution = .unresolved ∧ n.facts.Reports p
    else n.resolution = .resolved ∧ n.view = some (.scalar p.scalar.1 p.scalar.2)

/-- A node with a name and a handle is ready to have its part in the outline. -/
structure Node.Ready (T : Machine) (n : Node) (name : String) (h : Handle) : Prop where
  name : n.name = name
  handle : n.facts.handle = some h
  children : n.children = []
  knows : n.Knows (T h)

/-- A node says what its payload says of it and lists these nodes. -/
structure Node.Opened (n : Node) (p : Payload) (ids : List NodeId) : Prop where
  resolved : n.resolution = .resolved
  valueType : n.facts.valueType = p.valueType?
  className : n.facts.className = p.className
  view : n.view = some (n.compoundView ids)

namespace Node

variable {T : Machine} {n : Node} {name : String} {h : Handle} {p : Payload}

theorem children_of_view {n m : Node} {ids : List NodeId} (hview : n.view = some (m.compoundView ids)) :
    n.children = ids := by
  simp [Node.children, hview]

theorem Opened.children {ids : List NodeId} (hn : n.Opened p ids) : n.children = ids :=
  children_of_view hn.view

theorem Ready.unknown (hn : n.Ready T name h) (hp : T h = none) :
    n.resolution = .unresolved ∧ n.facts.Blank := by
  have hknows := hn.knows
  rwa [hp] at hknows

theorem Ready.compound (hn : n.Ready T name h) (hp : T h = some p) (hcompound : p.isCompound = true) :
    n.resolution = .unresolved ∧ n.facts.Reports p := by
  have hknows := hn.knows
  rwa [hp, Knows, if_pos hcompound] at hknows

theorem Ready.scalar (hn : n.Ready T name h) (hp : T h = some p) (hscalar : p.isCompound = false) :
    n.resolution = .resolved ∧ n.view = some (.scalar p.scalar.1 p.scalar.2) := by
  have hknows := hn.knows
  rwa [hp, Knows, if_neg (by simp [hscalar])] at hknows

/-- What is not a scalar can be expanded. -/
theorem Ready.expandable (hn : n.Ready T name h) (hknown : ∀ p, T h = some p → p.isCompound = true) :
    n.isExpandable = true ∧ n.resolution = .unresolved := by
  unfold isExpandable
  cases hp : T h with
  | none =>
      obtain ⟨hres, hblank⟩ := hn.unknown hp
      rw [hblank.valueType, hn.handle]
      exact ⟨rfl, hres⟩
  | some p =>
      have hcompound := hknown p hp
      obtain ⟨hres, hreports⟩ := hn.compound hp hcompound
      rw [← hreports.isCompound, Facts.isCompound] at hcompound
      cases ht : n.facts.valueType with
      | none => simp [ht] at hcompound
      | some t => exact ⟨by simpa [ht] using hcompound, hres⟩

/-- What is still unresolved is not a scalar. -/
theorem Ready.isCompound (hn : n.Ready T name h) (hres : n.resolution = .unresolved)
    (hp : T h = some p) : p.isCompound = true := by
  by_contra hscalar
  have hresolved := (hn.scalar hp (by simpa using hscalar)).1
  rw [hres] at hresolved
  cases hresolved

/-- What cannot be expanded is a scalar. -/
theorem Ready.scalar_of_closed (hn : n.Ready T name h)
    (hclosed : ¬(n.isExpandable = true ∧ n.resolution = .unresolved)) :
    ∃ p, T h = some p ∧ p.isCompound = false := by
  by_contra hnot
  refine hclosed (hn.expandable fun p hp => ?_)
  by_contra hcompound
  exact hnot ⟨p, hp, by simpa using hcompound⟩

/-- Properties that are known are those that the machine reports. -/
theorem Ready.properties_known (hn : n.Ready T name h) (hres : n.resolution = .unresolved)
    {refs : List PropertyRef} (hrefs : n.facts.properties = some refs) :
    ∃ p, T h = some p ∧ n.facts.Reports p ∧ p.properties = refs := by
  cases hp : T h with
  | none =>
      rw [(hn.unknown hp).2.properties] at hrefs
      cases hrefs
  | some p =>
      have hcompound := hn.isCompound hres hp
      have hreports := (hn.compound hp hcompound).2
      refine ⟨p, rfl, hreports, ?_⟩
      rcases (hreports.compound hcompound).2.2 with hnone | hsome
      · rw [hnone] at hrefs
        cases hrefs
      · exact Option.some.inj (hsome.symm.trans hrefs)

theorem line_eq (hname : n.name = name) {what : String} (hwhat : Report.summary n = what)
    (indent : Nat) : Report.line indent n = Report.entry indent name what := by
  rw [Report.line, Report.entry, displayName, hname, hwhat]

/-- What is said of a node that nothing is shown of is what is known. -/
theorem summary_unresolved (hres : n.resolution = .unresolved) : Report.summary n =
    ((n.facts.className).or (n.facts.valueType.map (·.name))).getD "?" := by
  unfold Report.summary shown
  simp [hres]

theorem Ready.summary_compound (hn : n.Ready T name h) (hp : T h = some p)
    (hcompound : p.isCompound = true) : Report.summary n = p.summary := by
  obtain ⟨hres, hreports⟩ := hn.compound hp hcompound
  obtain ⟨htype, hclass, -⟩ := hreports.compound hcompound
  rw [summary_unresolved hres, htype, hclass, Payload.summary, if_pos hcompound]
  cases p.className with
  | some c => rfl
  | none =>
      cases ht : p.valueType? with
      | some t => rfl
      | none => simp [Payload.isCompound, ht] at hcompound

theorem Ready.summary_scalar (hn : n.Ready T name h) (hp : T h = some p)
    (hscalar : p.isCompound = false) : Report.summary n = p.summary := by
  obtain ⟨hres, hview⟩ := hn.scalar hp hscalar
  rw [Payload.summary, if_neg (by simp [hscalar]), Report.summary, shown, hres]
  simp only [hview]

/-- Where the outline is cut off, a node is said to be what is known. -/
theorem Ready.line (hn : n.Ready T name h) (indent : Nat) :
    Report.line indent n = T.outline 0 indent name h := by
  refine line_eq hn.name ?_ indent
  cases hp : T h with
  | none =>
      obtain ⟨hres, hblank⟩ := hn.unknown hp
      rw [summary_unresolved hres, hblank.className, hblank.valueType]
      rfl
  | some p =>
      cases hcompound : p.isCompound with
      | true => exact hn.summary_compound hp hcompound
      | false => exact hn.summary_scalar hp hcompound

/-- An opened node is said to be the same as before. -/
theorem Opened.summary {ids : List NodeId} (hn : n.Opened p ids) (hcompound : p.isCompound = true) :
    Report.summary n = p.summary := by
  rw [Payload.summary, if_pos hcompound, Report.summary, shown, hn.resolved]
  simp only [hn.view]
  unfold compoundView
  rw [hn.valueType, hn.className]
  cases p.valueType? with
  | none => rfl
  | some t => cases t <;> rfl

/-- A new node that has been told what the machine reports, by whichever way that came, is ready. -/
theorem Ready.of_informed {s : Session} (hs : s.Faithful T) {id : NodeId} (hn : s.node? id = some n)
    (hgen : n.generation = s.cache.generation) {path : String} {generation : Nat} {owner : Owner}
    {shallow : Bool} (hcore : n.core =
      (Node.new name path generation owner (some h) shallow).informed (T h) true) :
    n.Ready T name h := by
  have hhandle : n.facts.handle = some h :=
    (congrArg (fun m : Node => m.facts.handle) hcore).trans (informed_frame _ _ _).2.2
  have hfacts := (hs.nodes id n hn hgen h hhandle).facts
  cases hp : T h with
  | none =>
      rw [hp, informed_none] at hcore
      have hview : n.view = none := congrArg Node.view hcore
      have hblank : n.facts.Blank := by
        refine hfacts.resolve_right fun ⟨p, hsome, _⟩ => ?_
        rw [hp] at hsome
        cases hsome
      refine ⟨congrArg Node.name hcore, hhandle, by simp [Node.children, hview], ?_⟩
      rw [hp]
      exact ⟨congrArg Node.resolution hcore, hblank⟩
  | some p =>
      have htold : n.core = (Node.new name path generation owner (some h) shallow).told p := by
        rw [hp] at hcore
        exact hcore
      cases hcompound : p.isCompound with
      | true =>
          simp only [told, new, Resolution.isFinal, Bool.false_eq_true, if_false, hcompound, if_true,
            Facts.told] at htold
          have hview : n.view = none := congrArg Node.view htold
          have htype : n.facts.valueType = p.valueType? :=
            congrArg (fun m : Node => m.facts.valueType) htold
          -- A compound value has a type, so something is known of the node.
          have hreports : n.facts.Reports p := by
            rcases hfacts with hblank | ⟨q, hq, hreports⟩
            · rw [hblank.valueType] at htype
              simp [Payload.isCompound, ← htype] at hcompound
            · rw [hp] at hq
              exact Option.some.inj hq ▸ hreports
          refine ⟨congrArg Node.name htold, hhandle, by simp [Node.children, hview], ?_⟩
          rw [hp, Knows, if_pos hcompound]
          exact ⟨congrArg Node.resolution htold, hreports⟩
      | false =>
          simp only [told, new, Resolution.isFinal, Bool.false_eq_true, if_false, hcompound] at htold
          have hview : n.view = some (.scalar p.scalar.1 p.scalar.2) := congrArg Node.view htold
          refine ⟨congrArg Node.name htold, hhandle, by simp [Node.children, hview, View.children], ?_⟩
          rw [hp, Knows, if_neg (by simp [hcompound])]
          exact ⟨congrArg Node.resolution htold, hview⟩

end Node

end RemoteInspector
