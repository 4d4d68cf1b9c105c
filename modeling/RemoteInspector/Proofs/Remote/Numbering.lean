import Mathlib.Algebra.Group.Nat.Defs
import RemoteInspector.Remote.Reduction

/-!
Which handles remote values get. To reduce a value is to assign it a handle and to describe it under
that handle. A table keeps the handle of a name for as long as the name is in use, and the values of the
properties of an object get their handles one after the other.
-/

namespace RemoteInspector

namespace ObjectTable

/-- Assigns a handle to a value: that of its name, or a fresh one if it has none. -/
def assign (t : ObjectTable) : Option String → Handle × ObjectTable
  | some name => t.intern name
  | none => t.fresh

def top (t : ObjectTable) : Nat := unnamedBase.toNat + t.unnamed.toNat

/-- A handle has been assigned to the value with this name, or to a value without one. -/
def Assigned (t : ObjectTable) (h : Handle) : Option String → Prop
  | some name => t.handle? name = some h
  | none => unnamedBase.toNat < h.toNat ∧ h.toNat ≤ t.top

/-- What a table has assigned is assigned in a later one. -/
structure Extends (t t' : ObjectTable) : Prop where
  named : ∀ name h, t.handle? name = some h → t'.handle? name = some h
  unnamed : t.unnamed.toNat ≤ t'.unnamed.toNat

theorem Extends.refl (t : ObjectTable) : t.Extends t := ⟨fun _ _ h => h, Nat.le_refl _⟩

theorem Extends.trans {a b c : ObjectTable} (h : a.Extends b) (h' : b.Extends c) : a.Extends c :=
  ⟨fun name k hk => h'.named name k (h.named name k hk), Nat.le_trans h.unnamed h'.unnamed⟩

theorem Extends.top {t t' : ObjectTable} (h : t.Extends t') : t.top ≤ t'.top :=
  Nat.add_le_add_left h.unnamed _

theorem Assigned.handle? {t : ObjectTable} {h : Handle} {name : Option String} {own : String}
    (hh : t.Assigned h name) (hname : name = some own) : t.handle? own = some h := by
  subst hname
  exact hh

theorem Assigned.mono {t t' : ObjectTable} (h : t.Extends t') {k : Handle} {name : Option String}
    (hk : t.Assigned k name) : t'.Assigned k name := by
  cases name with
  | some name => exact h.named name k hk
  | none => exact ⟨hk.1, Nat.le_trans hk.2 h.top⟩

theorem handle?_cons (t : ObjectTable) (name name' : String) (h last : Handle)
    (names : List (Handle × String)) :
    handle? { t with lastNamed := last, entries := (name, h) :: t.entries, names } name' =
      if name' = name then some h else t.handle? name' := by
  rw [handle?, List.lookup_cons]
  by_cases heq : name' = name
  · simp [heq]
  · rw [if_neg heq, beq_eq_false_iff_ne.2 heq]
    rfl

end ObjectTable

/-! ### What values are reduced to -/

namespace RemoteObject

def payload (o : RemoteObject) (h : Handle) : Payload :=
  { handle := some h, tag := some o.tagAndClass.1, text := o.displayText?,
    className := o.tagAndClass.2 }

theorem reduce_eq (o : RemoteObject) (t : ObjectTable) :
    o.reduce t = (o.payload (t.assign o.objectId).1, (t.assign o.objectId).2) := by
  unfold reduce handle
  cases o.objectId <;> rfl

end RemoteObject

namespace PropertyDescriptor

/-- The name of the object that is the value of a property. Nothing is known of a value that was
thrown but its text. -/
def named? (d : PropertyDescriptor) : Option String :=
  if d.wasThrown = some true then none else d.value.bind (·.objectId)

def payload (d : PropertyDescriptor) (h : Handle) : Payload :=
  match d.value with
  | none => { handle := some h }
  | some value =>
    if d.wasThrown = some true then .failure (some h) value.description else value.payload h

theorem handle_payload (d : PropertyDescriptor) (h : Handle) : (d.payload h).handle = some h := by
  unfold payload
  split
  · rfl
  · split <;> rfl

theorem properties_payload (d : PropertyDescriptor) (h : Handle) :
    (d.payload h).properties = [] := by
  unfold payload
  split
  · rfl
  · split <;> rfl

theorem value_of_named {d : PropertyDescriptor} {name : String} (h : d.named? = some name) :
    ∃ value, d.value = some value ∧ ∀ k, d.payload k = value.payload k := by
  unfold named? at h
  split at h
  · cases h
  · next hthrown =>
    obtain ⟨value, hvalue, -⟩ := Option.bind_eq_some_iff.1 h
    refine ⟨value, hvalue, fun k => ?_⟩
    simp only [payload, hvalue, if_neg hthrown]

theorem reduce_eq {d : PropertyDescriptor} (hd : d.value.isSome = true) (t : ObjectTable) :
    d.reduce t = (some (d.payload (t.assign d.named?).1), (t.assign d.named?).2) := by
  obtain ⟨value, hvalue⟩ := Option.isSome_iff_exists.1 hd
  unfold reduce payload named?
  rw [hvalue]
  dsimp only
  split
  · rfl
  · rw [RemoteObject.reduce_eq]
    rfl

end PropertyDescriptor

namespace PropertyListing

/-- The properties that have a value, in order, each with the handle that its value is assigned. -/
def numbered : List PropertyDescriptor → ObjectTable →
    List (PropertyDescriptor × Handle) × ObjectTable
  | [], t => ([], t)
  | d :: ds, t =>
    if d.value.isSome then
      let (h, t) := t.assign d.named?
      let (xs, t) := numbered ds t
      ((d, h) :: xs, t)
    else numbered ds t

def refsOf (xs : List (PropertyDescriptor × Handle)) : List PropertyRef :=
  xs.map fun (d, h) => ⟨d.name, h⟩

theorem reduceAll_eq (ds : List PropertyDescriptor) (t : ObjectTable) :
    reduceAll ds t = ((refsOf (numbered ds t).1, (numbered ds t).1.map fun x => x.1.payload x.2),
      (numbered ds t).2) := by
  induction ds generalizing t with
  | nil => rfl
  | cons d ds ih =>
      unfold reduceAll numbered
      cases hd : d.value.isSome with
      | true =>
          rw [PropertyDescriptor.reduce_eq hd]
          simp only [if_true, ih, PropertyDescriptor.handle_payload]
          rfl
      | false =>
          have hnone : d.reduce t = (none, t) := by
            have hvalue : d.value = none := by simpa using hd
            rw [PropertyDescriptor.reduce, hvalue]
          rw [hnone]
          simp only [Bool.false_eq_true, if_false, ih]

/-- An object that is listed, its properties, and the table after it. -/
theorem reduce_eq (data : PropertyListing) (parent : RemoteObject) (t : ObjectTable) :
    data.reduce parent t =
      (({ parent.payload (t.assign parent.objectId).1 with
          properties := refsOf (numbered data.result (t.assign parent.objectId).2).1 },
        (numbered data.result (t.assign parent.objectId).2).1.map fun x => x.1.payload x.2),
      (numbered data.result (t.assign parent.objectId).2).2) := by
  simp only [reduce, RemoteObject.reduce_eq, reduceAll_eq]

theorem numbered_fst (ds : List PropertyDescriptor) (t : ObjectTable) :
    (numbered ds t).1.map Prod.fst = ds.filter (·.value.isSome) := by
  induction ds generalizing t with
  | nil => rfl
  | cons d ds ih =>
      unfold numbered
      split
      · next hd =>
        rw [List.filter_cons, if_pos hd, ← ih]
        rfl
      · next hd => rw [List.filter_cons, if_neg hd, ih]

theorem mem_numbered {ds : List PropertyDescriptor} (t : ObjectTable) {d : PropertyDescriptor} :
    (∃ x ∈ (numbered ds t).1, x.1 = d) ↔ d ∈ ds ∧ d.value.isSome = true := by
  rw [← List.mem_map, numbered_fst, List.mem_filter]

end PropertyListing

end RemoteInspector
