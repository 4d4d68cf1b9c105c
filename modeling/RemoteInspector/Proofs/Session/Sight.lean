import RemoteInspector.Proofs.Session.Lifecycle

/-!
What a user sees of a node, and what the outcomes that it waits for will make of it. `Node.sight` leaves
out what only serves later operations: numbers of nodes, and whether the properties are known already.
`Node.settled` is the end that a node comes to when all that it waits for has come, as the machine
reports it; the lemmas say that it does not matter what comes first.
-/

namespace RemoteInspector

/-- A view whose children are numbered by their places. -/
def View.numbered : View → View
  | .scalar t text => .scalar t text
  | .object t className children => .object t className (List.range children.length)
  | .array className children => .array className (List.range children.length)

structure Sight where
  name : String
  path : String
  resolution : Resolution
  valueType : Option ValueType
  className : Option String
  view : Option View
  deriving DecidableEq, Repr

/-- What is known about a value after a payload, less its properties. -/
def Facts.told (f : Facts) (p : Payload) : Facts :=
  if p.isCompound then
    { f with valueType := p.valueType?, className := p.className, properties := none }
  else { f with valueType := some p.scalar.1, text := some p.scalar.2, properties := none }

namespace Node

def sight (n : Node) : Sight :=
  ⟨n.name, n.path, n.resolution, n.facts.valueType, n.facts.className, n.view.map View.numbered⟩

/-- A node, less what is known about its properties. -/
def core (n : Node) : Node := { n with facts := { n.facts with properties := none }, shallow := false }

/-- A node after its own payload, less what is known about its properties. -/
def told (n : Node) (p : Payload) : Node :=
  if n.resolution.isFinal then n.core
  else if p.isCompound then { n with facts := n.facts.told p, shallow := false }
  else { n with facts := n.facts.told p, shallow := false, resolution := .resolved,
                view := some (.scalar p.scalar.1 p.scalar.2) }

/-- A node when its own payload has come, if it is to come. -/
def informed (n : Node) (p? : Option Payload) (awaited : Bool) : Node :=
  if awaited then p?.elim n.core n.told else n.core

/-- The end of a node whose payload has come. A node that waits for its `own` payload lists the
properties that this brings, and fails if there is none; one that leads a batch is answered. -/
def finish (n : Node) (p? : Option Payload) (own leads : Bool) : Node :=
  if n.resolution.isFinal then n
  else if own then
    match p? with
    | none => { n with resolution := .failed }
    | some p => { n with
        resolution := .resolved
        view := some (n.compoundView (List.range (visible p.properties).length)) }
  else if leads then { n with resolution := .resolved }
  else n

/-- What becomes of a node when all that it waits for has come. -/
def settled (n : Node) (p? : Option Payload) (awaited own leads : Bool) : Node :=
  (n.informed p? awaited).finish p? own leads

end Node

/-! ### Payloads and what is seen -/

/-- A payload says of a value with a handle what it is told to say. -/
theorem Facts.fill_told {f : Facts} (hf : f.handle.isSome) (p : Payload) (brings : Bool) :
    { f.fill p brings with properties := none } = f.told p := by
  have hadopt : f.adoptHandle p.handle = f := by
    obtain ⟨h, hh⟩ := Option.isSome_iff_exists.1 hf
    simp [adoptHandle, hh]
  cases hp : p.isCompound with
  | true => simp only [fill_compound hp, hadopt, told, hp, if_true]
  | false => simp only [fill_scalar hp, hadopt, told, hp, Bool.false_eq_true, if_false]

namespace Node

variable {n m : Node} {p : Payload} {p? : Option Payload} {early : Bool}

theorem core_fill (hn : n.facts.handle.isSome) (p : Payload) : (n.fill p).value.core = n.told p := by
  have hfacts := Facts.fill_told hn p (!n.shallow)
  rcases n.fill_cases p with ⟨hfinal, hvalue⟩ | ⟨hfinal, hcompound, hvalue⟩ |
      ⟨hfinal, hcompound, hvalue⟩
  · rw [hvalue, told, if_pos hfinal]
  · rw [Facts.isCompound_fill] at hcompound
    simp only [hvalue, core, told, hfinal, hcompound, Bool.false_eq_true, if_false, if_true, ← hfacts]
  · have hscalar := hcompound
    rw [Facts.isCompound_fill] at hscalar
    have hview : scalarView (n.facts.fill p (!n.shallow)) = .scalar p.scalar.1 p.scalar.2 := by
      rw [Facts.fill_scalar hscalar]
      rfl
    simp only [hvalue, core, told, hfinal, hscalar, hview, Bool.false_eq_true, if_false, ← hfacts]

theorem told_core (n : Node) (p : Payload) : n.core.told p = n.told p := by
  unfold told Facts.told
  rfl

theorem sight_core (n : Node) : n.core.sight = n.sight := rfl

@[simp] theorem core_told (n : Node) (p : Payload) : (n.told p).core = n.told p := by
  unfold told Facts.told
  split
  · rfl
  · split <;> simp_all [core]

/-- A payload that has come once brings nothing new. -/
theorem told_told (n : Node) (p : Payload) : (n.told p).told p = n.told p := by
  cases hfinal : n.resolution.isFinal with
  | true =>
      have hcore : n.told p = n.core := by rw [told, if_pos hfinal]
      rw [hcore, told_core, hcore]
  | false =>
      cases hp : p.isCompound with
      | true =>
          have htold : n.told p = { n with facts := n.facts.told p, shallow := false } := by
            simp only [told, hfinal, hp, Bool.false_eq_true, if_false, if_true]
          rw [htold]
          simp only [told, hfinal, hp, Bool.false_eq_true, if_false, if_true, Facts.told]
      | false =>
          have htold : (n.told p).resolution.isFinal = true := by
            simp only [told, hfinal, hp, Bool.false_eq_true, if_false]
            rfl
          rw [told, if_pos htold, core_told]

/-- Neither does the payload that a compound value is known by. -/
theorem told_of_reports (hp : p.isCompound = true) (h : n.facts.Reports p) : n.told p = n.core := by
  cases hfinal : n.resolution.isFinal with
  | true => rw [told, if_pos hfinal]
  | false =>
      obtain ⟨htype, hclass, -⟩ := h.compound hp
      simp only [told, hfinal, hp, Bool.false_eq_true, if_false, if_true, Facts.told, core, ← htype,
        ← hclass]

/-! ### What waits for what -/

/-- What a node comes to does not depend on what is known about its properties. -/
theorem informed_congr (h : n.core = m.core) (p? : Option Payload) (awaited : Bool) :
    n.informed p? awaited = m.informed p? awaited := by
  have htold : ∀ p, n.told p = m.told p := fun p => by rw [← told_core, h, told_core]
  unfold informed
  rw [h, funext htold]

@[simp] theorem core_informed (n : Node) (p? : Option Payload) (awaited : Bool) :
    (n.informed p? awaited).core = n.informed p? awaited := by
  cases awaited with
  | false => rfl
  | true =>
      cases p? with
      | none => rfl
      | some p => exact n.core_told p

/-- Payloads do not change which node it is, nor the handle. -/
theorem told_frame (n : Node) (p : Payload) : (n.told p).owner = n.owner ∧
    (n.told p).path = n.path ∧ (n.told p).facts.handle = n.facts.handle := by
  have hhandle : (n.facts.told p).handle = n.facts.handle := by
    unfold Facts.told
    split <;> rfl
  unfold told
  split
  · exact ⟨rfl, rfl, rfl⟩
  · split
    · exact ⟨rfl, rfl, hhandle⟩
    · exact ⟨rfl, rfl, hhandle⟩

theorem informed_frame (n : Node) (p? : Option Payload) (awaited : Bool) :
    (n.informed p? awaited).owner = n.owner ∧ (n.informed p? awaited).path = n.path ∧
      (n.informed p? awaited).facts.handle = n.facts.handle := by
  unfold informed
  split
  · cases p? with
    | none => exact ⟨rfl, rfl, rfl⟩
    | some p => exact n.told_frame p
  · exact ⟨rfl, rfl, rfl⟩

theorem informed_none (n : Node) (awaited : Bool) : n.informed none awaited = n.core := by
  cases awaited <;> rfl

/-- A settled node ignores payloads. -/
theorem informed_final (hfinal : n.resolution.isFinal = true) (p? : Option Payload)
    (awaited : Bool) : n.informed p? awaited = n.core := by
  cases awaited with
  | false => rfl
  | true =>
      cases p? with
      | none => rfl
      | some p => exact if_pos hfinal

/-- A payload that comes early or late comes once. -/
theorem informed_informed (n : Node) (p? : Option Payload) (early late : Bool) :
    (n.informed p? early).informed p? late = n.informed p? (late || early) := by
  cases late with
  | false => exact core_informed n p? early
  | true =>
      cases p? with
      | none =>
          cases early <;> rfl
      | some p =>
          cases early with
          | false => exact n.told_core p
          | true => exact n.told_told p

theorem informed_of_reports (h : ∀ p, p? = some p → p.isCompound = true ∧ n.facts.Reports p)
    (awaited : Bool) : n.informed p? awaited = n.core := by
  cases awaited with
  | false => rfl
  | true =>
      cases p? with
      | none => rfl
      | some p =>
          obtain ⟨hp, hreports⟩ := h p rfl
          exact told_of_reports hp hreports

theorem finish_final (hfinal : n.resolution.isFinal = true) (p? : Option Payload)
    (own leads : Bool) : n.finish p? own leads = n := if_pos hfinal

theorem finish_idle (n : Node) (p? : Option Payload) : n.finish p? false false = n := by
  unfold finish
  split <;> rfl

theorem settled_final (hfinal : n.resolution.isFinal = true) (p? : Option Payload)
    (awaited own leads : Bool) : n.settled p? awaited own leads = n.core := by
  rw [settled, informed_final hfinal]
  exact finish_final (n := n.core) hfinal p? own leads

/-- A node comes to the same end whether or not its payload has come already. -/
theorem settled_informed (h : m.core = n.informed p? early) (late own leads : Bool) :
    m.settled p? late own leads = n.settled p? (late || early) own leads := by
  have hcore : m.core = (n.informed p? early).core := by rw [h, core_informed]
  rw [settled, informed_congr hcore, informed_informed, settled]

/-- A node that has been answered comes to the same end as one that is still to be answered. -/
theorem settled_replied (hbegun : n.resolution ≠ .unresolved)
    (h : n.resolution.isFinal = false →
      ∀ p, p? = some p → p.isCompound = true ∧ n.facts.Reports p) (awaited leads : Bool) :
    (n.record .replied).value.settled p? awaited false leads = n.settled p? awaited false true := by
  cases hfinal : n.resolution.isFinal with
  | true => rw [record_final hfinal, settled_final hfinal, settled_final hfinal]
  | false =>
      have hpending : n.resolution = .pending := by
        cases hr : n.resolution <;> simp_all [Resolution.isFinal]
      have hcore : n.core.resolution.isFinal = false := hfinal
      have hrecord : (n.record .replied).value = { n with resolution := .resolved } := by
        rw [record_value, hpending]
        rfl
      rw [hrecord, settled_final rfl, settled, informed_of_reports (h hfinal)]
      simp only [finish, hcore, Bool.false_eq_true, if_false, if_true]
      rfl

/-- Without a payload of its own a node fails. -/
theorem settled_failed (n : Node) (awaited own leads leads' : Bool) :
    (n.record .failed).value.settled none awaited own leads = n.settled none true true leads' := by
  cases hfinal : n.resolution.isFinal with
  | true => rw [record_final hfinal, settled_final hfinal, settled_final hfinal]
  | false =>
      have hcore : n.core.resolution.isFinal = false := hfinal
      have hrecord : (n.record .failed).value = { n with resolution := .failed } := by
        rw [record_value]
        cases hr : n.resolution <;> simp_all [Resolution.isFinal, Resolution.on]
      rw [hrecord, settled_final rfl, settled, informed_none]
      simp only [finish, hcore, Bool.false_eq_true, if_false, if_true]
      rfl

/-- A node that its own payload has settled comes to nothing else. -/
theorem settled_told (h : m.core = n.told p) (hfinal : m.resolution.isFinal = true)
    (own leads : Bool) : n.settled (some p) true own leads = m.core := by
  have hinformed : n.informed (some p) true = m.core := h.symm
  rw [settled, hinformed]
  exact finish_final (n := m.core) hfinal _ _ _

theorem numbered_compoundView (n : Node) {ids ids' : List NodeId} (h : ids.length = ids'.length) :
    (n.compoundView ids).numbered = (n.compoundView ids').numbered := by
  unfold compoundView
  split <;> simp only [View.numbered, h]

/-- A node whose own payload is compound comes to list the properties that this brings. -/
theorem sight_listed (h : m.core = n.told p) (hfinal : m.resolution.isFinal = false)
    {ids : List NodeId} (hids : ids.length = (visible p.properties).length) (leads : Bool) :
    { m with resolution := .resolved, view := some (m.compoundView ids) : Node }.sight =
      (n.settled (some p) true true leads).sight := by
  have hcore : m.core.resolution.isFinal = false := hfinal
  have hinformed : n.informed (some p) true = m.core := h.symm
  have hview : (m.compoundView ids).numbered =
      (m.compoundView (List.range (visible p.properties).length)).numbered :=
    numbered_compoundView m (by simpa using hids)
  rw [settled, hinformed, finish, hcore]
  simp only [Bool.false_eq_true, if_false, if_true, sight, core, Option.map_some, hview]
  rfl

/-- So it does if it waits for those that it lists. -/
theorem sight_waiting (h : m.core = n.told p) (hpending : m.resolution = .pending)
    (hp : p.isCompound = true ∧ m.facts.Reports p) {ids : List NodeId}
    (hids : ids.length = (visible p.properties).length) (awaited leads : Bool) :
    ({ m with view := some (m.compoundView ids) : Node }.settled (some p) awaited false true).sight =
      (n.settled (some p) true true leads).sight := by
  have hrecord : (record { m with view := some (m.compoundView ids) } .replied).value =
      { m with resolution := .resolved, view := some (m.compoundView ids) } := by
    rw [record_value, hpending]
    rfl
  have hreplied : (record { m with view := some (m.compoundView ids) } .replied).value.settled
      (some p) awaited false true = _ :=
    settled_replied (by rw [hpending]; nofun) (fun _ p' hp' => Option.some.inj hp' ▸ hp) awaited true
  rw [← hreplied, hrecord, settled_final rfl, sight_core]
  exact sight_listed h (by rw [hpending]; rfl) hids leads

end Node

end RemoteInspector
