import RemoteInspector.Proofs.Remote.Numbering
import RemoteInspector.Proofs.Session.Display

/-!
Thrown values. What a call has thrown is told by the text that any other value would have; what was
thrown in place of a property is told by its description alone. The two agree as long as a value does
not say more of itself than its description does, as a text or a number without description does.
-/

namespace RemoteInspector

/-! ### What is told -/

namespace RemoteObject

/-- What a value says of itself: its own text, or its name if it is undefined or null and not
described. -/
def ownText? (o : RemoteObject) : Option String :=
  (o.value.bind Json.scalarText?).or
    (if o.description.isNone then Payload.tagAsText? (some o.tagAndClass.1) else none)

theorem displayText?_eq (o : RemoteObject) : o.displayText? = o.ownText?.or o.description := by
  unfold displayText? ownText?
  cases o.value.bind Json.scalarText? with
  | some s => rfl
  | none => cases o.description <;> simp

/-- What a value says of itself counts before its description. -/
theorem told_alike_iff (o : RemoteObject) (unknown : String) :
    (o.description = o.displayText? ↔ ∀ s, o.ownText? = some s → o.description = some s) ∧
      (o.description.getD unknown = o.displayText?.getD unknown ↔
        ∀ s, o.ownText? = some s → o.description.getD unknown = s) := by
  rw [displayText?_eq]
  cases o.ownText? with
  | none => simp
  | some s => simp

end RemoteObject

/-- What is known of a value that could not be retrieved. -/
theorem Facts.text_fill_error {p : Payload} (hp : p.isError = true) (f : Facts)
    (withProperties : Bool) :
    (f.fill p withProperties).text = some (p.text.getD Facts.retrievalFailed) := by
  have hscalar : p.isCompound = false := by simp only [Payload.isCompound, hp]; rfl
  rw [fill_scalar hscalar, Payload.scalar, if_pos hp]

/-! ### Where it is told -/

theorem CallResult.reduce_thrown (v : RemoteObject) (t : ObjectTable) :
    ((⟨v, some true⟩ : CallResult).reduce t).1 =
      .failure (some (t.assign v.objectId).1) v.displayText? := by
  simp only [reduce, RemoteObject.reduce_eq]
  rfl

theorem PropertyDescriptor.payload_thrown (name : String) (v : RemoteObject) (h : Handle) :
    payload { name := name, value := some v, wasThrown := some true } h =
      .failure (some h) v.description := by
  simp only [payload, if_true]

/-- A property that has a value is found behind those before it that have one. -/
theorem PropertyListing.reduce_getElem? (before after : List PropertyDescriptor)
    {d : PropertyDescriptor} (hd : d.value.isSome = true) (parent : RemoteObject) (t : ObjectTable) :
    ∃ h, ((⟨before ++ d :: after⟩ : PropertyListing).reduce parent
      t).1.2[(before.filter (·.value.isSome)).length]? = some (d.payload h) := by
  rw [reduce_eq]
  dsimp only
  have hplaces := numbered_fst (before ++ d :: after) (t.assign parent.objectId).2
  rw [List.filter_append, List.filter_cons, if_pos hd] at hplaces
  have hplace := congrArg (·[(before.filter (·.value.isSome)).length]?) hplaces
  simp only [List.getElem?_map, List.getElem?_append_right (Nat.le_refl _), Nat.sub_self,
    List.getElem?_cons_zero, Option.map_eq_some_iff] at hplace ⊢
  obtain ⟨⟨_, h⟩, hx, rfl⟩ := hplace
  exact ⟨h, _, hx, rfl⟩

/-- A value that was thrown in place of a property, wherever it is listed, and the same value thrown by
a call. Of the one the description is told, of the other what it says of itself, and only else the
description. So the same is told of both, and shown of them, just if the value says nothing of itself or
is described by that. -/
theorem RemoteObject.thrown_values_read_alike_iff (parent v : RemoteObject) (name : String)
    (before after : List PropertyDescriptor) (t t' : ObjectTable) :
    ∃ p q : Payload,
      ((⟨before ++ { name := name, value := some v, wasThrown := some true } :: after⟩ :
        PropertyListing).reduce parent t).1.2[(before.filter (·.value.isSome)).length]? = some p ∧
      ((⟨v, some true⟩ : CallResult).reduce t').1 = q ∧
      p.isError = true ∧ q.isError = true ∧
      p.text = v.description ∧ q.text = v.ownText?.or v.description ∧
      (p.text = q.text ↔ ∀ s, v.ownText? = some s → v.description = some s) ∧
      ∀ (f g : Facts) (a b : Bool), (f.fill p a).text = (g.fill q b).text ↔
        ∀ s, v.ownText? = some s → v.description.getD Facts.retrievalFailed = s := by
  obtain ⟨h, hp⟩ := PropertyListing.reduce_getElem? before after
    (d := { name := name, value := some v, wasThrown := some true }) rfl parent t
  rw [PropertyDescriptor.payload_thrown] at hp
  obtain ⟨htold, hshown⟩ := v.told_alike_iff Facts.retrievalFailed
  refine ⟨_, _, hp, CallResult.reduce_thrown v t', rfl, rfl, rfl, v.displayText?_eq, htold,
    fun f g a b => ?_⟩
  rw [Facts.text_fill_error rfl, Facts.text_fill_error rfl, Option.some_inj]
  exact hshown

/-- A text that is thrown: a call tells it, a property does not. -/
theorem RemoteObject.thrown_text_not_told :
    ((⟨[{ name := "boom", value := some { kind := "string", value := some (.string "nope") },
          wasThrown := some true }]⟩ : PropertyListing).reduce
        { kind := "object", objectId := some "p" } {}).1.2.map (·.text) = [none] ∧
      ((⟨{ kind := "string", value := some (.string "nope") }, some true⟩ : CallResult).reduce
        {}).1.text = some "nope" := by
  decide +kernel

end RemoteInspector
