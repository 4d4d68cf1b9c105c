import Mathlib.Data.List.Forall2
import RemoteInspector.Proofs.Session.Store
import RemoteInspector.Proofs.Session.Expansion

/-!
What it is for a view to show a payload, and what a payload does to what is known about a node. A
payload of a compound value may come without its properties; what is known then is part of what the
whole payload says, and a second payload for the same handle does not contradict it.
-/

namespace RemoteInspector

namespace Payload

def isCompound (p : Payload) : Bool := !p.isError && p.valueType?.any (·.isCompound)

/-- The type and text that a payload without properties is shown with. A failure is a string, and so
is a payload that lacks a type or a text. -/
def scalar (p : Payload) : ValueType × String :=
  if p.isError then (.string, p.text.getD Facts.retrievalFailed)
  else
    match p.valueType?, p.text with
    | some t, some text => (t, text)
    | _, _ => (.string, Facts.malformed)

/-- A report of a payload that may leave out its properties. -/
def Abridges (p whole : Payload) : Prop := p = whole ∨ p = { whole with properties := [] }

theorem scalar_not_compound {p : Payload} (h : p.isCompound = false) :
    p.scalar.1.isCompound = false := by
  unfold isCompound at h
  unfold scalar
  cases he : p.isError with
  | true => rfl
  | false =>
      cases ht : p.valueType? with
      | none => rfl
      | some t =>
          cases hx : p.text with
          | none => rfl
          | some text => simpa [he, ht] using h

end Payload

/-! ### What is known about a node -/

namespace Facts

structure Blank (f : Facts) : Prop where
  valueType : f.valueType = none
  className : f.className = none
  properties : f.properties = none

/-- What is known agrees with a payload; the properties of a compound value may be missing. -/
def Reports (f : Facts) (p : Payload) : Prop :=
  if p.isCompound then
    f.valueType = p.valueType? ∧ f.className = p.className ∧
      (f.properties = none ∨ f.properties = some p.properties)
  else f.valueType = some p.scalar.1 ∧ f.text = some p.scalar.2 ∧ f.properties = none

theorem Reports.compound {f : Facts} {p : Payload} (h : f.Reports p) (hp : p.isCompound = true) :
    f.valueType = p.valueType? ∧ f.className = p.className ∧
      (f.properties = none ∨ f.properties = some p.properties) := by
  rwa [Reports, if_pos hp] at h

theorem Reports.scalar {f : Facts} {p : Payload} (h : f.Reports p) (hp : p.isCompound = false) :
    f.valueType = some p.scalar.1 ∧ f.text = some p.scalar.2 ∧ f.properties = none := by
  rwa [Reports, if_neg (by simp [hp])] at h

/-- A node is known to be compound exactly when the payload is. -/
theorem Reports.isCompound {f : Facts} {p : Payload} (h : f.Reports p) :
    f.isCompound = p.isCompound := by
  cases hp : p.isCompound with
  | true =>
      have hcompound := hp
      simp only [Payload.isCompound, Bool.and_eq_true] at hcompound
      rw [Facts.isCompound, (h.compound hp).1]
      exact hcompound.2
  | false =>
      rw [Facts.isCompound, (h.scalar hp).1]
      exact Payload.scalar_not_compound hp

theorem Blank.isCompound {f : Facts} (h : f.Blank) : f.isCompound = false := by
  rw [Facts.isCompound, h.valueType]
  rfl

theorem fill_compound {p : Payload} (hp : p.isCompound = true) (f : Facts)
    (withProperties : Bool) :
    f.fill p withProperties = { f.adoptHandle p.handle with
      valueType := p.valueType?
      className := p.className
      properties := if withProperties && !p.properties.isEmpty then some p.properties
        else f.properties } := by
  have hproperties : (f.adoptHandle p.handle).properties = f.properties := by
    unfold adoptHandle
    split <;> rfl
  simp only [Payload.isCompound, Bool.and_eq_true, Bool.not_eq_true'] at hp
  obtain ⟨he, ht⟩ := hp
  cases hv : p.valueType? with
  | none => simp [hv] at ht
  | some t =>
      have ht : t.isCompound = true := by simpa [hv] using ht
      simp only [fill, he, hv, ht, Bool.false_eq_true, if_false, if_true]
      split
      · simp [setProperties, isScalar, setType, ht]
      · simp [setType, hproperties]

theorem fill_scalar {p : Payload} (hp : p.isCompound = false) (f : Facts) (withProperties : Bool) :
    f.fill p withProperties = { f.adoptHandle p.handle with
      valueType := some p.scalar.1
      text := some p.scalar.2 } := by
  have hstring : ValueType.string.isCompound = false := rfl
  cases he : p.isError with
  | true => simp [fill, he, setText, setType, Facts.isCompound, hstring, Payload.scalar]
  | false =>
      cases hv : p.valueType? with
      | none => simp [fill, he, hv, setText, setType, Facts.isCompound, hstring, Payload.scalar]
      | some t =>
          have ht : t.isCompound = false := by simpa [Payload.isCompound, he, hv] using hp
          cases hx : p.text with
          | none =>
              simp [fill, he, hv, hx, ht, setText, setType, Facts.isCompound, hstring,
                Payload.scalar]
          | some text =>
              simp [fill, he, hv, hx, ht, setText, setType, Facts.isCompound, Payload.scalar]

/-- Every payload declares a type. -/
theorem valueType_fill (f : Facts) (p : Payload) (withProperties : Bool) :
    (f.fill p withProperties).valueType =
      if p.isCompound then p.valueType? else some p.scalar.1 := by
  cases hp : p.isCompound with
  | true => rw [fill_compound hp, if_pos rfl]
  | false => rw [fill_scalar hp, if_neg nofun]

theorem declared_fill (f : Facts) (p : Payload) (withProperties : Bool) :
    (f.fill p withProperties).valueType ≠ none := by
  rw [valueType_fill]
  cases hp : p.isCompound with
  | false => exact nofun
  | true =>
      have htype : p.valueType?.any (·.isCompound) = true := by
        simp only [Payload.isCompound, Bool.and_eq_true] at hp
        exact hp.2
      rw [if_pos rfl]
      intro hnone
      rw [hnone] at htype
      cases htype

/-- A payload makes what is known agree with it, and so does one that leaves out the properties. -/
theorem reports_fill {f : Facts} {p whole : Payload} (hp : p.Abridges whole)
    (hf : f.Blank ∨ f.Reports whole) (withProperties : Bool) :
    (f.fill p withProperties).Reports whole := by
  have hsame : p.isCompound = whole.isCompound ∧ p.valueType? = whole.valueType? ∧
      p.className = whole.className ∧ p.scalar = whole.scalar ∧
      (p.properties = whole.properties ∨ p.properties = []) := by
    rcases hp with rfl | rfl
    · exact ⟨rfl, rfl, rfl, rfl, .inl rfl⟩
    · exact ⟨rfl, rfl, rfl, rfl, .inr rfl⟩
  obtain ⟨hcompound, htype, hclass, hscalar, hproperties⟩ := hsame
  cases hwhole : whole.isCompound with
  | true =>
      -- A report without properties leaves those in place that an earlier one has brought.
      have hold : f.properties = none ∨ f.properties = some whole.properties := by
        rcases hf with hblank | hreports
        · exact .inl hblank.properties
        · exact (hreports.compound hwhole).2.2
      rw [fill_compound (hcompound.trans hwhole), Reports, if_pos hwhole]
      refine ⟨htype, hclass, ?_⟩
      dsimp only
      split
      · next hbrings =>
        rcases hproperties with heq | heq
        · exact .inr (congrArg some heq)
        · simp [heq] at hbrings
      · exact hold
  | false =>
      have hold : f.properties = none := by
        rcases hf with hblank | hreports
        · exact hblank.properties
        · exact (hreports.scalar hwhole).2.2
      rw [fill_scalar (hcompound.trans hwhole), Reports, if_neg (by simp [hwhole]), hscalar]
      refine ⟨rfl, rfl, ?_⟩
      unfold adoptHandle
      split <;> exact hold

end Facts

/-! ### Views -/

namespace Session

/-- The nodes under these numbers are those of the properties, in order, each with the name and the
handle of its property. -/
def Lists (s : Session) (ids : List NodeId) (refs : List PropertyRef) : Prop :=
  List.Forall₂ (fun id r => ∃ c, s.node? id = some c ∧ c.name = r.name ∧
    c.facts.handle = some r.handle) ids refs

/-- A view shows a payload: a compound value by its type, its class and the properties that are not
hidden, where arrays and no others have the view of an array; anything else by type and text. -/
def Shows (s : Session) (p : Payload) : View → Prop
  | .scalar t text => p.isCompound = false ∧ (t, text) = p.scalar
  | .array className children => p.isCompound = true ∧ p.valueType? = some .array ∧
      className = p.className ∧ s.Lists children (visible p.properties)
  | .object t className children => p.isCompound = true ∧ p.valueType? = some t ∧ t ≠ .array ∧
      className = p.className ∧ s.Lists children (visible p.properties)

theorem Lists.mono {s s' : Session} (hgrows : s.Grows s') {ids : List NodeId}
    {refs : List PropertyRef} (h : s.Lists ids refs) : s'.Lists ids refs := by
  refine List.Forall₂.imp ?_ h
  rintro id r ⟨c, hc, hname, hhandle⟩
  obtain ⟨c', hc', heir⟩ := hgrows.nodes id c hc
  exact ⟨c', hc', heir.name.trans hname, heir.handle _ hhandle⟩

theorem Shows.mono {s s' : Session} (hgrows : s.Grows s') {p : Payload} {v : View}
    (h : s.Shows p v) : s'.Shows p v := by
  cases v with
  | scalar t text => exact h
  | array className children =>
      obtain ⟨hp, htype, hclass, hlists⟩ := h
      exact ⟨hp, htype, hclass, hlists.mono hgrows⟩
  | object t className children =>
      obtain ⟨hp, htype, hne, hclass, hlists⟩ := h
      exact ⟨hp, htype, hne, hclass, hlists.mono hgrows⟩

theorem lists_withChildren {s : Session} {id : NodeId} {m : Node} (hm : s.node? id = some m)
    (n : Node) (refs : List PropertyRef) :
    (s.withChildren id n refs).Lists (s.childIds refs) (visible refs) := by
  refine List.forall₂_iff_get.2 ⟨by simp [childIds], fun i hi hi' => ?_⟩
  have hchild := node?_child hm n hi'
  have heir := s.heir_childNode id n (visible refs)[i]
  refine ⟨_, ?_, heir.name, heir.handle _ rfl⟩
  simpa [childIds] using hchild

theorem shows_withChildren {s : Session} {id : NodeId} {m n : Node} {p : Payload}
    (hm : s.node? id = some m) (hreports : n.facts.Reports p) (hp : p.isCompound = true) :
    (s.withChildren id n p.properties).Shows p (n.compoundView (s.childIds p.properties)) := by
  obtain ⟨htype, hclass, -⟩ := hreports.compound hp
  have hlists := lists_withChildren hm n p.properties
  unfold Node.compoundView
  split
  · next harray => exact ⟨hp, htype.symm.trans harray, hclass, hlists⟩
  · next hne =>
    have hsome : ∃ t, p.valueType? = some t := by
      simp only [Payload.isCompound, Bool.and_eq_true] at hp
      cases hv : p.valueType? with
      | none => simp [hv] at hp
      | some t => exact ⟨t, rfl⟩
    obtain ⟨t, ht⟩ := hsome
    rw [htype, ht] at hne ⊢
    exact ⟨hp, ht, fun harray => hne (congrArg some harray), hclass, hlists⟩

theorem shows_scalarView {s : Session} {f : Facts} {p : Payload} (hreports : f.Reports p)
    (hp : p.isCompound = false) : s.Shows p (Node.scalarView f) := by
  obtain ⟨htype, htext, -⟩ := hreports.scalar hp
  refine ⟨hp, ?_⟩
  rw [htype, htext]
  rfl

end Session

end RemoteInspector
