import Mathlib.Data.List.Induction
import RemoteInspector.Proofs.Session.Lifecycle

/-!
What is known about a value, and the type it is known to have. Text belongs to values that are not
compound and properties to compound ones, and each change looks at the type that is known when it is
made. No change takes away what another kind of value has been given before, so what is known stays
consistent just as long as no type is declared that does not fit what is there.
-/

namespace RemoteInspector

namespace Facts

inductive Change where
  | type (t : ValueType)
  | text (s : String)
  | properties (className : Option String) (refs : List PropertyRef)
  | fill (p : Payload) (withProperties : Bool)

def change (f : Facts) : Change → Facts
  | .type t => f.setType t
  | .text s => f.setText s
  | .properties className refs => f.setProperties className refs
  | .fill p withProperties => f.fill p withProperties

def after (f : Facts) (cs : List Change) : Facts := cs.foldl change f

/-- Nothing is known but the name and perhaps a handle. -/
def fresh (name : String) (handle : Option Handle) : Facts := { name := name, handle := handle }

/-- There are properties only of a compound value, and a text only of another one. -/
structure Consistent (f : Facts) : Prop where
  properties : f.isCompound = false → f.properties = none
  text : f.isCompound = true → f.text = none

/-! ### One change -/

variable {f : Facts} {c : Change}

theorem text_adoptHandle (f : Facts) (handle : Option Handle) :
    (f.adoptHandle handle).text = f.text := by
  unfold adoptHandle
  split <;> rfl

theorem properties_adoptHandle (f : Facts) (handle : Option Handle) :
    (f.adoptHandle handle).properties = f.properties := by
  unfold adoptHandle
  split <;> rfl

namespace Change

def declares : Change → Option ValueType
  | .type t => some t
  | .fill p _ => if p.isCompound then p.valueType? else some p.scalar.1
  | .text _ | .properties .. => none

/-- The change gives a value of this type a text. -/
def GivesText (known : Option ValueType) : Change → Prop
  | .text _ => known.any (·.isCompound) = false
  | .fill p _ => p.isCompound = false
  | .type _ | .properties .. => False

/-- The change gives a value of this type properties. -/
def GivesProperties (known : Option ValueType) : Change → Prop
  | .properties .. => known.any (fun t => !t.isCompound) = false
  | .fill p withProperties => p.isCompound = true ∧ withProperties = true ∧ p.properties ≠ []
  | .type _ | .text _ => False

end Change

theorem valueType_change (f : Facts) (c : Change) :
    (f.change c).valueType = c.declares.or f.valueType := by
  cases c with
  | type t => rfl
  | text s =>
      show (f.setText s).valueType = _
      unfold setText
      split <;> rfl
  | properties className refs =>
      show (f.setProperties className refs).valueType = _
      unfold setProperties
      split <;> rfl
  | fill p withProperties =>
      have htype : (f.fill p withProperties).valueType = (Change.fill p withProperties).declares :=
        valueType_fill f p withProperties
      obtain ⟨t, ht⟩ := Option.ne_none_iff_exists'.1 (declared_fill f p withProperties)
      show (f.fill p withProperties).valueType = _
      rw [← htype, ht]
      rfl

theorem text_change (f : Facts) (c : Change) :
    (f.change c).text ≠ none ↔ f.text ≠ none ∨ c.GivesText f.valueType := by
  cases c with
  | type t => exact (iff_of_eq (or_false _)).symm
  | text s =>
      show (f.setText s).text ≠ none ↔ f.text ≠ none ∨ f.isCompound = false
      unfold setText
      cases hf : f.isCompound <;> simp
  | properties className refs =>
      show (f.setProperties className refs).text ≠ none ↔ f.text ≠ none ∨ False
      unfold setProperties
      split <;> simp
  | fill p withProperties =>
      show (f.fill p withProperties).text ≠ none ↔ f.text ≠ none ∨ p.isCompound = false
      cases hp : p.isCompound with
      | true => simp [fill_compound hp, text_adoptHandle]
      | false => simp [fill_scalar hp]

theorem properties_change (f : Facts) (c : Change) :
    (f.change c).properties ≠ none ↔ f.properties ≠ none ∨ c.GivesProperties f.valueType := by
  cases c with
  | type t => exact (iff_of_eq (or_false _)).symm
  | text s =>
      show (f.setText s).properties ≠ none ↔ f.properties ≠ none ∨ False
      unfold setText
      split <;> simp
  | properties className refs =>
      show (f.setProperties className refs).properties ≠ none ↔
        f.properties ≠ none ∨ f.isScalar = false
      unfold setProperties
      cases hf : f.isScalar <;> simp
  | fill p withProperties =>
      show (f.fill p withProperties).properties ≠ none ↔ f.properties ≠ none ∨
        (p.isCompound = true ∧ withProperties = true ∧ p.properties ≠ [])
      cases hp : p.isCompound with
      | true =>
          cases withProperties <;> cases hrefs : p.properties <;>
            simp [fill_compound hp, hrefs]
      | false => simp [fill_scalar hp, properties_adoptHandle]

namespace Change

theorem declares_fill (p : Payload) (withProperties : Bool) :
    (Change.fill p withProperties).declares.any (·.isCompound) = p.isCompound := by
  cases hp : p.isCompound with
  | true =>
      simp only [Payload.isCompound, Bool.and_eq_true] at hp
      simp [declares, Payload.isCompound, hp]
  | false =>
      simp [declares, hp, Payload.scalar_not_compound hp]

theorem not_givesText {t : ValueType} (known : Option ValueType) (ht : c.declares = some t)
    (hcompound : t.isCompound = true) : ¬ c.GivesText known := by
  cases c with
  | type u => exact id
  | text s => cases ht
  | properties className refs => cases ht
  | fill p withProperties =>
      have hp := declares_fill p withProperties
      rw [ht] at hp
      intro hgives
      exact Bool.false_ne_true (hgives.symm.trans (hp.symm.trans hcompound))

theorem not_givesProperties {t : ValueType} (known : Option ValueType) (ht : c.declares = some t)
    (hscalar : t.isCompound = false) : ¬ c.GivesProperties known := by
  cases c with
  | type u => exact id
  | text s => cases ht
  | properties className refs => cases ht
  | fill p withProperties =>
      have hp := declares_fill p withProperties
      rw [ht] at hp
      intro hgives
      exact Bool.false_ne_true (hscalar.symm.trans (hp.trans hgives.1))

/-- A change that declares no type gives a text to no compound value. -/
theorem not_compound_of_givesText {known : Option ValueType} (hnone : c.declares = none)
    (h : c.GivesText known) : known.any (·.isCompound) = false := by
  cases c with
  | text s => exact h
  | type t => cases hnone
  | properties className refs => exact h.elim
  | fill p withProperties =>
      simp only [declares] at hnone
      rw [if_neg (Bool.eq_false_iff.1 h)] at hnone
      cases hnone

end Change

theorem isCompound_change (f : Facts) (c : Change) :
    (f.change c).isCompound = (c.declares.or f.valueType).any (·.isCompound) := by
  rw [isCompound, valueType_change]

/-! ### All changes made so far -/

def declared (told : List Change) : Option ValueType := told.reverse.findSome? Change.declares

/-- One of the changes gave the value, of the type it was known to have by then, what is asked
for. -/
def Gave (gives : Option ValueType → Change → Prop) (cs : List Change) : Prop :=
  ∃ told c rest, cs = told ++ c :: rest ∧ gives (declared told) c

theorem declared_append_singleton (told : List Change) (c : Change) :
    declared (told ++ [c]) = c.declares.or (declared told) := by
  rw [declared, List.reverse_append]
  cases hc : c.declares <;> simp [declared, hc]

theorem not_gave_nil (gives : Option ValueType → Change → Prop) : ¬ Gave gives [] := by
  rintro ⟨told, c, rest, hcs, -⟩
  cases told <;> cases hcs

theorem gave_append_singleton (gives : Option ValueType → Change → Prop) (cs : List Change)
    (c : Change) : Gave gives (cs ++ [c]) ↔ Gave gives cs ∨ gives (declared cs) c := by
  constructor
  · rintro ⟨told, d, rest, hcs, hgives⟩
    rcases List.eq_nil_or_concat rest with rfl | ⟨front, last, rfl⟩
    · obtain ⟨rfl, hd⟩ := List.append_inj' hcs rfl
      cases hd
      exact .inr hgives
    · have hsplit : cs ++ [c] = (told ++ d :: front) ++ [last] := by rw [hcs]; simp
      obtain ⟨rfl, -⟩ := List.append_inj' hsplit rfl
      exact .inl ⟨told, d, front, rfl, hgives⟩
  · rintro (⟨told, d, rest, rfl, hgives⟩ | hgives)
    · exact ⟨told, d, rest ++ [c], by simp, hgives⟩
    · exact ⟨cs, c, [], rfl, hgives⟩

theorem after_append_singleton (f : Facts) (cs : List Change) (c : Change) :
    f.after (cs ++ [c]) = (f.after cs).change c := by
  rw [after, List.foldl_append]
  rfl

variable (name : String) (handle : Option Handle)

theorem valueType_after (cs : List Change) :
    ((fresh name handle).after cs).valueType = declared cs := by
  induction cs using List.reverseRecOn with
  | nil => rfl
  | append_singleton cs c ih =>
      rw [after_append_singleton, valueType_change, ih, declared_append_singleton]

/-- What changes give and never take away is there just if one of them gave it. -/
theorem gave_after (has : Facts → Prop) {gives : Option ValueType → Change → Prop}
    (hfresh : ¬ has (fresh name handle))
    (hchange : ∀ f c, has (f.change c) ↔ has f ∨ gives f.valueType c) (cs : List Change) :
    has ((fresh name handle).after cs) ↔ Gave gives cs := by
  induction cs using List.reverseRecOn with
  | nil => exact iff_of_false hfresh (not_gave_nil gives)
  | append_singleton cs c ih =>
      rw [after_append_singleton, hchange, ih, valueType_after, gave_append_singleton]

theorem text_after (cs : List Change) :
    ((fresh name handle).after cs).text ≠ none ↔ Gave Change.GivesText cs := by
  apply gave_after name handle fun f => f.text ≠ none
  · exact fun hne => hne rfl
  · exact text_change

theorem properties_after (cs : List Change) :
    ((fresh name handle).after cs).properties ≠ none ↔ Gave Change.GivesProperties cs := by
  apply gave_after name handle fun f => f.properties ≠ none
  · exact fun hne => hne rfl
  · exact properties_change

/-- After these changes the next one does not fit: it declares a type that has no place for what the
value was given, or brings properties while no type is known. -/
inductive Change.Misfits (told : List Change) : Change → Prop where
  | compound {c : Change} {t : ValueType} (hc : c.declares = some t) (ht : t.isCompound = true)
      (htext : Gave GivesText told) : Misfits told c
  | scalar {c : Change} {t : ValueType} (hc : c.declares = some t) (ht : t.isCompound = false)
      (hproperties : Gave GivesProperties told) : Misfits told c
  | untyped (className : Option String) (refs : List PropertyRef) (htold : declared told = none) :
      Misfits told (.properties className refs)

variable {name handle} {told : List Change}

theorem Consistent.change (h : ((fresh name handle).after told).Consistent)
    (hfits : ¬ c.Misfits told) : (((fresh name handle).after told).change c).Consistent where
  properties := by
    rw [isCompound_change]
    intro hscalar
    by_contra hne
    rw [← ne_eq, properties_change] at hne
    cases hc : c.declares with
    | some t =>
        have ht : t.isCompound = false := by simpa [hc] using hscalar
        rcases hne with hne | hgives
        · exact hfits (.scalar hc ht ((properties_after name handle told).1 hne))
        · exact Change.not_givesProperties _ hc ht hgives
    | none =>
        rw [hc, Option.none_or] at hscalar
        rcases hne with hne | hgives
        · exact hne (h.properties hscalar)
        · cases c with
          | type t => exact hgives
          | text s => exact hgives
          | fill p withProperties =>
              have hp := Change.declares_fill p withProperties
              rw [hc, hgives.1] at hp
              cases hp
          | properties className refs =>
              -- what is known to be neither compound nor scalar has no type yet
              rw [valueType_after] at hscalar hgives
              refine hfits (.untyped className refs ?_)
              cases htold : declared told with
              | none => rfl
              | some t => simp_all [Change.GivesProperties]
  text := by
    rw [isCompound_change]
    intro hcompound
    by_contra hne
    rw [← ne_eq, text_change] at hne
    cases hc : c.declares with
    | some t =>
        have ht : t.isCompound = true := by simpa [hc] using hcompound
        rcases hne with hne | hgives
        · exact hfits (.compound hc ht ((text_after name handle told).1 hne))
        · exact Change.not_givesText _ hc ht hgives
    | none =>
        rw [hc, Option.none_or] at hcompound
        rcases hne with hne | hgives
        · exact hne (h.text hcompound)
        · have hscalar := Change.not_compound_of_givesText hc hgives
          exact Bool.false_ne_true (hscalar.symm.trans hcompound)

theorem Consistent.fits (h : (((fresh name handle).after told).change c).Consistent) :
    ¬ c.Misfits told := by
  have hproperties := h.properties
  have htext := h.text
  rw [isCompound_change] at hproperties htext
  intro hmisfits
  cases hmisfits with
  | compound hc ht hgave =>
      rw [hc, Option.some_or] at htext
      exact (text_change _ c).2 (.inl ((text_after name handle told).2 hgave)) (htext ht)
  | scalar hc ht hgave =>
      rw [hc, Option.some_or] at hproperties
      exact (properties_change _ c).2 (.inl ((properties_after name handle told).2 hgave))
        (hproperties ht)
  | untyped className refs htold =>
      have hvalue : ((fresh name handle).after told).valueType = none := by
        rw [valueType_after, htold]
      rw [hvalue] at hproperties
      refine (properties_change _ (.properties className refs)).2 (.inr ?_) (hproperties rfl)
      rw [hvalue]
      rfl

theorem consistent_fresh (name : String) (handle : Option Handle) :
    (fresh name handle).Consistent :=
  ⟨fun _ => rfl, fun _ => rfl⟩

/-- What a value is known to be depends on the changes alone: its type is the one declared last, and
it has a text or properties just if some change gave it them. So it is consistent after every change
just if each change fits those before. -/
theorem consistent_throughout_iff (name : String) (handle : Option Handle) (cs : List Change) :
    ((fresh name handle).after cs).valueType = declared cs ∧
    (((fresh name handle).after cs).text ≠ none ↔ Gave Change.GivesText cs) ∧
    (((fresh name handle).after cs).properties ≠ none ↔ Gave Change.GivesProperties cs) ∧
    ((∀ told, told <+: cs → ((fresh name handle).after told).Consistent) ↔
      ∀ told c, told ++ [c] <+: cs → ¬ c.Misfits told) := by
  refine ⟨valueType_after name handle cs, text_after name handle cs, properties_after name handle cs,
    fun h told c hprefix => ?_, fun h told hprefix => ?_⟩
  · have hafter := h _ hprefix
    rw [after_append_singleton] at hafter
    exact hafter.fits
  · induction told using List.reverseRecOn with
    | nil => exact consistent_fresh name handle
    | append_singleton told c ih =>
        rw [after_append_singleton]
        have htold : told <+: cs := (List.prefix_append told [c]).trans hprefix
        exact (ih htold).change (h told c hprefix)

/-- A value of either kind keeps what it was given when it is declared to be of the other kind. -/
theorem later_type_keeps_the_old :
    let point : Facts := (fresh "x" (some 1)).after
      [.type .object, .properties (some "Point") [⟨"a", 2⟩], .type .number]
    let one : Facts := (fresh "x" (some 1)).after [.type .number, .text "1", .type .object]
    (point.isCompound = false ∧ point.properties = some [⟨"a", 2⟩]) ∧
    (one.isCompound = true ∧ one.text = some "1") :=
  ⟨⟨rfl, rfl⟩, rfl, rfl⟩

end Facts

end RemoteInspector
