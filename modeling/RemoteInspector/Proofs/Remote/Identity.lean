import Mathlib.Data.Set.Card
import RemoteInspector.Proofs.Remote.Numbering

/-!
What a handle stands for. A handle is given to an object by its name, or to a value without a name, and
then belongs to that alone. Names mean something only until they are forgotten together: the same name
given again later is another object and gets another handle. So a record of everything that has been
given a handle, kept beside the table, never has two uses under one handle, although the table itself
forgets; and what the table remembers can be read in both directions.

`Sound` relates a table to such a record. It is kept by one handle given (`Sound.assign`) and by
forgetting (`Sound.clear`), hence by every operation, which is a sequence of these. What it says of a
table is told step by step (`Sound.next`) and for a row of values (`Sound.listed`).
-/

namespace RemoteInspector

namespace ObjectTable

/-! ### Operations and what they give handles to -/

/-- Something that is done with a table. -/
inductive Operation where
  | intern (name : String)
  | fresh
  | clear
  | reduce (object : RemoteObject)
  | list (parent : RemoteObject) (data : PropertyListing)
  | call (data : CallResult)

/-- A value that has been given a handle, by its name if it has one, with all the handles that are
found for it in what an operation gives back. -/
abbrev Given := Option String × List Handle

namespace Operation

/-- The values to which an operation gives handles, in order, and the table after it. A property shows
the handle of its value twice, in the reference to it and in its payload. -/
def perform (t : ObjectTable) : Operation → List Given × ObjectTable
  | .intern name => ([(some name, [(t.intern name).1])], (t.intern name).2)
  | .fresh => ([(none, [t.fresh.1])], t.fresh.2)
  | .clear => ([], t.clear)
  | .reduce object => ([(object.objectId, (object.reduce t).1.handle.toList)], (object.reduce t).2)
  | .list parent data =>
    let ((p, ps), t) := data.reduce parent t
    let values := data.result.filter (·.value.isSome)
    ((parent.objectId, p.handle.toList) ::
      values.zipWith (fun d (r, q) => (d.named?, r.handle :: q.handle.toList))
        (p.properties.zip ps), t)
  | .call data => ([(data.result.objectId, (data.reduce t).1.handle.toList)], (data.reduce t).2)

end Operation

inductive Use where
  /-- The object with a name, after the names have been forgotten `era` times. -/
  | object (era : Nat) (name : String)
  /-- The value without a name that is preceded by `serial` others. -/
  | value (serial : Nat)
  deriving DecidableEq, Repr

structure Record where
  /-- How many times the names have been forgotten. -/
  era : Nat := 0
  /-- How many values without a name have been given a handle. -/
  values : Nat := 0
  /-- The uses with their handles, the latest first. -/
  given : List (Use × Handle) := []

namespace Record

def use (r : Record) : Option String → Use
  | some name => .object r.era name
  | none => .value r.values

def note (r : Record) (x : Given) : Record :=
  { r with
    values := if x.1.isNone then r.values + 1 else r.values
    given := x.2.map (r.use x.1, ·) ++ r.given }

def noteAll (r : Record) (xs : List Given) : Record := xs.foldl note r

/-- What handles are used for. There are as many uses as handles have been allocated. -/
def uses (r : Record) : Finset Use := (r.given.map Prod.fst).toFinset

def after (r : Record) (xs : List Given) : Operation → Record
  | .clear => { r with era := r.era + 1 }
  | _ => r.noteAll xs

end Record

structure History where
  table : ObjectTable := {}
  record : Record := {}

namespace History

def perform (w : History) (op : Operation) : History where
  table := (op.perform w.table).2
  record := w.record.after (op.perform w.table).1 op

def of (ops : List Operation) : History := ops.foldl perform {}

end History

/-! ### The table -/

section Table

variable {t : ObjectTable} {name : String} {h : Handle}

theorem intern_known (hname : t.handle? name = some h) : t.intern name = (h, t) := by
  simp only [intern, hname]

def withName (t : ObjectTable) (name : String) : ObjectTable :=
  { t with
    lastNamed := t.lastNamed + 1
    entries := (name, t.lastNamed + 1) :: t.entries
    names := (t.lastNamed + 1, name) :: t.names }

theorem intern_new (hname : t.handle? name = none) :
    t.intern name = (t.lastNamed + 1, t.withName name) := by
  simp only [intern, hname]
  rfl

theorem handle?_withName (t : ObjectTable) (name other : String) :
    (t.withName name).handle? other =
      if other = name then some (t.lastNamed + 1) else t.handle? other :=
  handle?_cons t name other (t.lastNamed + 1) (t.lastNamed + 1) _

theorem name?_withName (t : ObjectTable) (name : String) (h : Handle) :
    (t.withName name).name? h = if h = t.lastNamed + 1 then some name else t.name? h := by
  show List.lookup h ((t.lastNamed + 1, name) :: t.names) = _
  rw [List.lookup_cons]
  by_cases heq : h = t.lastNamed + 1
  · simp [heq]
  · rw [if_neg heq, beq_eq_false_iff_ne.2 heq]
    rfl

/-- Names and handles stay inverse when a name that is not in use gets a handle that is not. -/
theorem inverse_withName (hinverse : ∀ name h, t.handle? name = some h ↔ t.name? h = some name)
    (hname : t.handle? name = none) (hunused : t.name? (t.lastNamed + 1) = none) (other : String) :
    (t.withName name).handle? other = some h ↔ (t.withName name).name? h = some other := by
  rw [handle?_withName, name?_withName]
  split <;> split
  · next heq heq' => simp [heq, heq']
  · next heq hne =>
    refine iff_of_false (fun h => hne (Option.some.inj h).symm) fun hother => ?_
    rw [heq, ← hinverse, hname] at hother
    cases hother
  · next hne heq =>
    refine iff_of_false (fun hother => ?_) fun h => hne (Option.some.inj h).symm
    rw [heq, hinverse, hunused] at hother
    cases hother
  · exact hinverse other h

theorem handle?_assign {other : String} {h : Handle} (hother : t.handle? other = some h)
    (name : Option String) : (t.assign name).2.handle? other = some h := by
  cases name with
  | none => exact hother
  | some name =>
      rw [assign]
      cases hname : t.handle? name with
      | some k => rwa [intern_known hname]
      | none =>
          rw [intern_new hname, handle?_withName, if_neg, hother]
          rintro rfl
          rw [hname] at hother
          cases hother

theorem handle?_assigned (t : ObjectTable) (name : Option String) :
    ∀ own, name = some own → (t.assign name).2.handle? own = some (t.assign name).1 := by
  rintro own rfl
  rw [assign]
  cases hown : t.handle? own with
  | some h => rw [intern_known hown, hown]
  | none => rw [intern_new hown, handle?_withName, if_pos rfl]

theorem not_mem_of_lookup {α β : Type} [BEq α] [LawfulBEq α] {a : α} {xs : List (α × β)}
    (ha : xs.lookup a = none) : a ∉ xs.map Prod.fst := by
  intro hmem
  obtain ⟨x, hx, rfl⟩ := List.mem_map.1 hmem
  have hne := List.lookup_eq_none_iff.1 ha x hx
  simp at hne

theorem ncard_lookup {α β : Type} [BEq α] [LawfulBEq α] {xs : List (α × β)}
    (hnodup : (xs.map Prod.fst).Nodup) : {a | (xs.lookup a).isSome}.ncard = xs.length := by
  classical
  have hset : {a | (xs.lookup a).isSome} = ↑(xs.map Prod.fst).toFinset := by
    ext a
    simp [List.lookup_isSome_iff]
  rw [hset, Set.ncard_coe_finset, List.toFinset_card_of_nodup hnodup, List.length_map]

end Table

/-! ### One handle for one use -/

/-- Uses share a handle only if they are the same. -/
def OneToOne (given : List (Use × Handle)) : Prop :=
  ∀ x ∈ given, ∀ y ∈ given, x.2 = y.2 ↔ x.1 = y.1

theorem OneToOne.insert {given given' : List (Use × Handle)} {u : Use} {h : Handle}
    (hold : OneToOne given) (huse : ∀ x ∈ given, x.1 ≠ u)
    (hhandle : ∀ x ∈ given, x.2 ≠ h)
    (hmem : ∀ x ∈ given', x ∈ given ∨ x = (u, h)) : OneToOne given' := by
  intro x hx y hy
  rcases hmem x hx with hx | rfl <;> rcases hmem y hy with hy | rfl
  · exact hold x hx y hy
  · exact iff_of_false (hhandle x hx) (huse x hx)
  · exact iff_of_false (hhandle y hy).symm (huse y hy).symm
  · exact iff_of_true rfl rfl

/-- A table and the record of everything that it has given a handle to. -/
structure Sound (t : ObjectTable) (r : Record) : Prop where
  inverse : ∀ name h, t.handle? name = some h ↔ t.name? h = some name
  entries : (t.entries.map Prod.fst).Nodup
  names : (t.names.map Prod.fst).Nodup
  sizes : t.names.length = t.entries.length
  values : t.unnamed.toNat = r.values
  allocated : t.lastNamed.toNat + t.unnamed.toNat = r.uses.card
  /-- The objects that still have their names are in the table. -/
  object : ∀ era name h, (.object era name, h) ∈ r.given →
    h.toNat ≤ t.lastNamed.toNat ∧ era ≤ r.era ∧ (era = r.era → t.handle? name = some h)
  recorded : ∀ name h, t.handle? name = some h → (.object r.era name, h) ∈ r.given
  value : ∀ serial h, (.value serial, h) ∈ r.given →
    serial < r.values ∧ h.toNat = unnamedBase.toNat + (serial + 1)
  single : OneToOne r.given

namespace Record

variable {r : Record} {name : Option String} {h : Handle} {hs : List Handle}

/-- The handles noted for a value are one, as often as it is shown. -/
def Shows (hs : List Handle) (h : Handle) : Prop := h ∈ hs ∧ ∀ k ∈ hs, k = h

theorem mem_note (r : Record) (name : Option String) (hhs : Shows hs h) (x : Use × Handle) :
    x ∈ (r.note (name, hs)).given ↔ x ∈ r.given ∨ x = (r.use name, h) := by
  show x ∈ hs.map (r.use name, ·) ++ r.given ↔ _
  rw [List.mem_append, List.mem_map, or_comm]
  refine or_congr_right ⟨?_, ?_⟩
  · rintro ⟨k, hk, rfl⟩
    rw [hhs.2 k hk]
  · rintro rfl
    exact ⟨h, hhs.1, rfl⟩

theorem mem_uses {u : Use} : u ∈ r.uses ↔ ∃ h, (u, h) ∈ r.given := by
  simp [uses]

theorem uses_note (hhs : Shows hs h) :
    (r.note (name, hs)).uses = insert (r.use name) r.uses := by
  ext u
  rw [Finset.mem_insert, mem_uses, mem_uses]
  constructor
  · rintro ⟨k, hk⟩
    rcases (mem_note r name hhs _).1 hk with hk | hk
    · exact .inr ⟨k, hk⟩
    · exact .inl (congrArg Prod.fst hk)
  · rintro (rfl | ⟨k, hk⟩)
    · exact ⟨h, (mem_note r name hhs _).2 (.inr rfl)⟩
    · exact ⟨k, (mem_note r name hhs _).2 (.inl hk)⟩

theorem shows_once (h : Handle) : Shows [h] h := by simp [Shows]

theorem shows_twice (h : Handle) : Shows [h, h] h := by simp [Shows]

theorem card_uses_note (hhs : Shows hs h) (hnew : ∀ x ∈ r.given, x.1 ≠ r.use name) :
    (r.note (name, hs)).uses.card = r.uses.card + 1 := by
  rw [uses_note hhs, Finset.card_insert_of_notMem]
  intro hmem
  obtain ⟨k, hk⟩ := mem_uses.1 hmem
  exact hnew _ hk rfl

theorem card_uses_le_noteAll (r : Record) (xs : List Given) :
    r.uses.card ≤ (r.noteAll xs).uses.card := by
  refine Finset.card_le_card ?_
  induction xs generalizing r with
  | nil => exact Finset.Subset.refl _
  | cons x xs ih =>
      refine Finset.Subset.trans (fun u hu => ?_) (ih (r.note x))
      obtain ⟨h, hh⟩ := mem_uses.1 hu
      exact mem_uses.2 ⟨h, List.mem_append_right _ hh⟩

/-- A value is one use, however often its handle is shown. -/
theorem card_uses_note_le (r : Record) (x : Given) :
    (r.note x).uses.card ≤ r.uses.card + 1 := by
  have hsub : (r.note x).uses ⊆ insert (r.use x.1) r.uses := by
    intro u hu
    obtain ⟨h, hh⟩ := mem_uses.1 hu
    rw [Finset.mem_insert, mem_uses]
    rcases List.mem_append.1 hh with hh | hh
    · obtain ⟨k, -, heq⟩ := List.mem_map.1 hh
      exact .inl (congrArg Prod.fst heq).symm
    · exact .inr ⟨h, hh⟩
  exact Nat.le_trans (Finset.card_le_card hsub) (Finset.card_insert_le _ _)

theorem card_uses_noteAll_le (r : Record) (xs : List Given) :
    (r.noteAll xs).uses.card ≤ r.uses.card + xs.length := by
  induction xs generalizing r with
  | nil => exact Nat.le_refl _
  | cons x xs ih =>
      have hrest : ((r.note x).noteAll xs).uses.card ≤ _ := ih (r.note x)
      have hfirst := r.card_uses_note_le x
      rw [List.length_cons]
      show ((r.note x).noteAll xs).uses.card ≤ _
      omega

theorem card_uses_le_after (r : Record) (xs : List Given) (op : Operation) :
    r.uses.card ≤ (r.after xs op).uses.card := by
  cases op with
  | clear => exact Nat.le_refl _
  | _ => exact r.card_uses_le_noteAll xs

end Record

theorem History.card_uses_le (w : History) (ops : List Operation) :
    w.record.uses.card ≤ (ops.foldl perform w).record.uses.card := by
  induction ops generalizing w with
  | nil => exact Nat.le_refl _
  | cons op ops ih => exact Nat.le_trans (Record.card_uses_le_after _ _ op) (ih (w.perform op))

/-! ### Operations give one handle after the other -/

/-- Properties with the handle of their value, which is shown twice. -/
def shown (xs : List (PropertyDescriptor × Handle)) : List Given :=
  xs.map fun (d, h) => (d.named?, [h, h])

theorem Operation.perform_list (parent : RemoteObject) (data : PropertyListing) (t : ObjectTable) :
    (Operation.list parent data).perform t =
      ((parent.objectId, [(t.assign parent.objectId).1]) ::
        shown (PropertyListing.numbered data.result (t.assign parent.objectId).2).1,
        (PropertyListing.numbered data.result (t.assign parent.objectId).2).2) := by
  simp only [perform, PropertyListing.reduce_eq]
  rw [← PropertyListing.numbered_fst data.result (t.assign parent.objectId).2]
  generalize PropertyListing.numbered data.result (t.assign parent.objectId).2 = listed
  simp [PropertyListing.refsOf, RemoteObject.payload, shown, List.zip_map', List.zipWith_map,
    List.zipWith_self, PropertyDescriptor.handle_payload]

/-- No handle in what a listing gives back is missed. -/
theorem Operation.shown_by_list {parent : RemoteObject} {data : PropertyListing} {t : ObjectTable}
    {h : Handle} (hh : (data.reduce parent t).1.1.handle = some h ∨
      (∃ p ∈ (data.reduce parent t).1.1.properties, p.handle = h) ∨
      ∃ q ∈ (data.reduce parent t).1.2, q.handle = some h) :
    ∃ x ∈ ((Operation.list parent data).perform t).1, h ∈ x.2 := by
  rw [perform_list]
  rw [PropertyListing.reduce_eq] at hh
  rcases hh with hh | ⟨p, hp, rfl⟩ | ⟨q, hq, hh⟩
  · cases hh
    exact ⟨_, List.mem_cons_self, List.mem_singleton_self _⟩
  · obtain ⟨x, hx, rfl⟩ := List.mem_map.1 hp
    exact ⟨_, List.mem_cons_of_mem _ (List.mem_map_of_mem hx), List.mem_cons_self⟩
  · obtain ⟨x, hx, rfl⟩ := List.mem_map.1 hq
    rw [PropertyDescriptor.handle_payload] at hh
    cases hh
    exact ⟨_, List.mem_cons_of_mem _ (List.mem_map_of_mem hx), List.mem_cons_self⟩

theorem Operation.perform_call (data : CallResult) (t : ObjectTable) :
    (Operation.call data).perform t =
      ([(data.result.objectId, [(t.assign data.result.objectId).1])],
        (t.assign data.result.objectId).2) := by
  simp only [perform, CallResult.reduce, RemoteObject.reduce_eq]
  split <;> rfl

namespace Sound

variable {t : ObjectTable} {r : Record} {hs : List Handle}

theorem new : Sound {} {} where
  inverse _ _ := ⟨nofun, nofun⟩
  entries := .nil
  names := .nil
  sizes := rfl
  values := rfl
  allocated := rfl
  object := nofun
  recorded := nofun
  value := nofun
  single := nofun

/-- The names are forgotten, but nothing in the record is. -/
theorem clear (hw : Sound t r) : Sound t.clear { r with era := r.era + 1 } where
  inverse _ _ := ⟨nofun, nofun⟩
  entries := .nil
  names := .nil
  sizes := rfl
  values := hw.values
  allocated := hw.allocated
  object era name h hh := by
    obtain ⟨hle, hera, -⟩ := hw.object era name h hh
    exact ⟨hle, Nat.le_succ_of_le hera, fun heq => absurd heq (Nat.ne_of_lt (Nat.lt_succ_of_le hera))⟩
  recorded := nofun
  value := hw.value
  single := hw.single

/-- An object that has its handle already is not a new use. -/
theorem intern_again (hw : Sound t r) {name : String} {h : Handle} (hname : t.handle? name = some h)
    (hhs : Record.Shows hs h) : Sound t (r.note (some name, hs)) := by
  have huse : (r.use (some name), h) ∈ r.given := hw.recorded name h hname
  have hmem : ∀ x, x ∈ (r.note (some name, hs)).given ↔ x ∈ r.given := by
    intro x
    rw [Record.mem_note _ _ hhs, or_iff_left_of_imp]
    rintro rfl
    exact huse
  have huses : (r.note (some name, hs)).uses = r.uses := by
    rw [Record.uses_note hhs, Finset.insert_eq_of_mem (Record.mem_uses.2 ⟨h, huse⟩)]
  exact {
    inverse := hw.inverse
    entries := hw.entries
    names := hw.names
    sizes := hw.sizes
    values := hw.values
    allocated := huses ▸ hw.allocated
    object := fun era name h hh => hw.object era name h ((hmem _).1 hh)
    recorded := fun name h hh => (hmem _).2 (hw.recorded name h hh)
    value := fun serial h hh => hw.value serial h ((hmem _).1 hh)
    single := fun x hx y hy => hw.single x ((hmem _).1 hx) y ((hmem _).1 hy) }

theorem name_first (hw : Sound t r) {name : String} (hname : t.handle? name = none) :
    ∀ x ∈ r.given, x.1 ≠ r.use (some name) := by
  rintro ⟨u, h⟩ hx rfl
  have hcurrent := (hw.object _ name h hx).2.2 rfl
  rw [hname] at hcurrent
  cases hcurrent

theorem value_first (hw : Sound t r) : ∀ x ∈ r.given, x.1 ≠ r.use none := by
  rintro ⟨u, h⟩ hx rfl
  exact Nat.lt_irrefl _ (hw.value _ h hx).1

/-- A name that is not in use gets the next handle, which is above those of all other names. -/
theorem intern_first (hw : Sound t r) {name : String} (hname : t.handle? name = none)
    (hroom : t.lastNamed.toNat + 1 < 2 ^ 63) (hhs : Record.Shows hs (t.lastNamed + 1)) :
    Sound (t.withName name) (r.note (some name, hs)) := by
  have hbase : unnamedBase.toNat = 2 ^ 63 := rfl
  have hnext : (t.lastNamed + 1).toNat = t.lastNamed.toNat + 1 := by
    rw [UInt64.toNat_add, UInt64.toNat_one]
    omega
  have habove : ∀ other, t.handle? other ≠ some (t.lastNamed + 1) := by
    intro other hother
    have hle := (hw.object _ _ _ (hw.recorded other _ hother)).1
    omega
  have hunused : t.name? (t.lastNamed + 1) = none := by
    cases hother : t.name? (t.lastNamed + 1) with
    | none => rfl
    | some other => exact absurd ((hw.inverse other _).2 hother) (habove other)
  -- Neither the use nor the handle is in the record.
  have hfirst := hw.name_first hname
  have hnew : ∀ x ∈ r.given, x.2 ≠ t.lastNamed + 1 := by
    rintro ⟨⟨era, other⟩ | ⟨serial⟩, h⟩ hx rfl
    · have hle := (hw.object era other _ hx).1
      omega
    · have heq := (hw.value serial _ hx).2
      omega
  have hmem := Record.mem_note r (some name) hhs
  refine {
    inverse := fun other h => inverse_withName hw.inverse hname hunused other
    entries := List.nodup_cons.2 ⟨not_mem_of_lookup hname, hw.entries⟩
    names := List.nodup_cons.2 ⟨not_mem_of_lookup hunused, hw.names⟩
    sizes := congrArg (· + 1) hw.sizes, values := hw.values, allocated := ?_,
    object := fun era other h hh => ?_, recorded := fun other h hh => ?_,
    value := fun serial h hh => ?_,
    single := hw.single.insert hfirst hnew fun x hx => (hmem x).1 hx }
  · rw [Record.card_uses_note hhs hfirst, ← hw.allocated]
    show (t.lastNamed + 1).toNat + t.unnamed.toNat = _
    omega
  · show h.toNat ≤ (t.lastNamed + 1).toNat ∧ era ≤ r.era ∧ (era = r.era → _)
    rw [handle?_withName]
    rcases (hmem _).1 hh with hh | heq
    · obtain ⟨hle, hera, hcurrent⟩ := hw.object era other h hh
      refine ⟨by omega, hera, fun heq => ?_⟩
      rw [if_neg, hcurrent heq]
      rintro rfl
      rw [hname] at hcurrent
      cases hcurrent heq
    · obtain ⟨huse, rfl⟩ := Prod.mk.inj heq
      obtain ⟨rfl, rfl⟩ := Use.object.inj huse
      exact ⟨Nat.le_refl _, Nat.le_refl _, fun _ => if_pos rfl⟩
  · rw [handle?_withName] at hh
    split at hh
    · next heq =>
      cases hh
      exact (hmem _).2 (.inr (by rw [heq]; rfl))
    · exact (hmem _).2 (.inl (hw.recorded other h hh))
  · rcases (hmem _).1 hh with hh | heq
    · exact hw.value serial h hh
    · cases heq

/-- A value without a name gets the next handle of the upper half. -/
theorem fresh_value (hw : Sound t r) (hroom : t.lastNamed.toNat + t.unnamed.toNat + 1 < 2 ^ 63)
    (hhs : Record.Shows hs t.fresh.1) : Sound t.fresh.2 (r.note (none, hs)) := by
  have hbase : unnamedBase.toNat = 2 ^ 63 := rfl
  have hvalues := hw.values
  have hnext : (t.unnamed + 1).toNat = t.unnamed.toNat + 1 := by
    rw [UInt64.toNat_add, UInt64.toNat_one]
    omega
  have hhandle : t.fresh.1.toNat = unnamedBase.toNat + (r.values + 1) := by
    show (unnamedBase + (t.unnamed + 1)).toNat = _
    rw [UInt64.toNat_add, hnext]
    omega
  have hnew : ∀ x ∈ r.given, x.2 ≠ t.fresh.1 := by
    rintro ⟨⟨era, other⟩ | ⟨serial⟩, h⟩ hx rfl
    · have hle := (hw.object era other _ hx).1
      omega
    · obtain ⟨hlt, heq⟩ := hw.value serial _ hx
      omega
  have hmem := Record.mem_note r none hhs
  refine {
    inverse := hw.inverse, entries := hw.entries, names := hw.names, sizes := hw.sizes,
    values := hnext.trans (congrArg (· + 1) hvalues), allocated := ?_,
    object := fun era name h hh => ?_,
    recorded := fun name h hh => (hmem _).2 (.inl (hw.recorded name h hh)),
    value := fun serial h hh => ?_,
    single := hw.single.insert hw.value_first hnew fun x hx => (hmem x).1 hx }
  · rw [Record.card_uses_note hhs hw.value_first, ← hw.allocated]
    show t.lastNamed.toNat + (t.unnamed + 1).toNat = _
    omega
  · rcases (hmem _).1 hh with hh | heq
    · exact hw.object era name h hh
    · cases heq
  · show serial < r.values + 1 ∧ _
    rcases (hmem _).1 hh with hh | heq
    · obtain ⟨hlt, heq⟩ := hw.value serial h hh
      exact ⟨Nat.lt_succ_of_lt hlt, heq⟩
    · obtain ⟨huse, rfl⟩ := Prod.mk.inj heq
      rw [Use.value.inj huse]
      exact ⟨Nat.lt_succ_self _, hhandle⟩

/-- One handle is given, as long as handles are left. -/
theorem assign (hw : Sound t r) (name : Option String) (hhs : Record.Shows hs (t.assign name).1)
    (hroom : (r.note (name, hs)).uses.card < 2 ^ 63) :
    Sound (t.assign name).2 (r.note (name, hs)) := by
  cases name with
  | none =>
      refine hw.fresh_value ?_ hhs
      rw [Record.card_uses_note hhs hw.value_first, ← hw.allocated] at hroom
      exact hroom
  | some name =>
      simp only [ObjectTable.assign] at hhs ⊢
      cases hname : t.handle? name with
      | some h =>
          rw [intern_known hname] at hhs ⊢
          exact hw.intern_again hname hhs
      | none =>
          rw [intern_new hname] at hhs ⊢
          refine hw.intern_first hname ?_ hhs
          rw [Record.card_uses_note hhs (hw.name_first hname), ← hw.allocated] at hroom
          omega

end Sound

/-! ### Several handles in a row -/

section Rows

variable {t t' : ObjectTable} {r r' : Record} {name name' : Option String} {h : Handle}
  {hs : List Handle}

theorem Sound.top_eq (hw : Sound t r) : t.top = unnamedBase.toNat + r.values := by
  rw [top, hw.values]

/-- Names have their handles in the lower half. -/
theorem Sound.named_lt_base (hw : Sound t r) (hroom : r.uses.card < 2 ^ 63) {era : Nat} {name : String}
    (hx : (.object era name, h) ∈ r.given) : h.toNat < unnamedBase.toNat := by
  have hbase : unnamedBase.toNat = 2 ^ 63 := rfl
  have hle := (hw.object era name h hx).1
  have hallocated := hw.allocated
  omega

theorem Sound.le_top (hw : Sound t r) (hroom : r.uses.card < 2 ^ 63) {x : Use × Handle}
    (hx : x ∈ r.given) : x.2.toNat ≤ t.top := by
  rw [hw.top_eq]
  obtain ⟨⟨era, name⟩ | ⟨serial⟩, h⟩ := x
  · exact Nat.le_add_right_of_le (Nat.le_of_lt (hw.named_lt_base hroom hx))
  · obtain ⟨hlt, heq⟩ := hw.value serial h hx
    rw [heq]
    exact Nat.add_le_add_left hlt _

theorem Sound.assigned_le_top (hw : Sound t r) (hroom : r.uses.card < 2 ^ 63)
    (hh : t.Assigned h name) : h.toNat ≤ t.top := by
  cases name with
  | none => exact hh.2
  | some name => exact hw.le_top hroom (hw.recorded name h hh)

/-- A handle belongs to one name only, or to none. -/
theorem Sound.name_unique (hw : Sound t r) (hroom : r.uses.card < 2 ^ 63) (hh : t.Assigned h name)
    (hh' : t.Assigned h name') : name = name' := by
  have hbelow : ∀ name, t.handle? name = some h → ¬unnamedBase.toNat < h.toNat := fun name hname =>
    Nat.not_lt_of_lt (hw.named_lt_base hroom (hw.recorded name h hname))
  cases name with
  | none =>
      cases name' with
      | none => rfl
      | some name' => exact (hbelow name' hh' hh.1).elim
  | some name =>
      cases name' with
      | none => exact (hbelow name hh hh'.1).elim
      | some name' => exact ((hw.inverse name h).1 hh).symm.trans ((hw.inverse name' h).1 hh')

/-- A table has become another one in which one more value has its handle. -/
structure Next (t : ObjectTable) (name : Option String) (h : Handle) (t' : ObjectTable)
    (r' : Record) : Prop where
  sound : Sound t' r'
  room : r'.uses.card < 2 ^ 63
  later : t.Extends t'
  assigned : t'.Assigned h name
  fresh : name = none → t.top < h.toNat

theorem Sound.next (hw : Sound t r) (name : Option String)
    (hhs : Record.Shows hs (t.assign name).1) (hroom : (r.note (name, hs)).uses.card < 2 ^ 63) :
    Next t name (t.assign name).1 (t.assign name).2 (r.note (name, hs)) := by
  have hnext := hw.assign name hhs hroom
  cases name with
  | some name =>
      refine ⟨hnext, hroom, ⟨fun _ _ hother => handle?_assign hother _, ?_⟩,
        handle?_assigned t _ name rfl, nofun⟩
      exact Nat.le_of_eq (hw.values.trans hnext.values.symm)
  | none =>
      have hvalues : (t.assign none).2.unnamed.toNat = r.values + 1 := hnext.values
      have hgiven := (Record.mem_note r none hhs _).2 (.inr rfl)
      have hhandle : (t.assign none).1.toNat = unnamedBase.toNat + (r.values + 1) :=
        (hnext.value r.values _ hgiven).2
      refine ⟨hnext, hroom, ⟨fun _ _ hother => hother, ?_⟩, ⟨?_, ?_⟩, fun _ => ?_⟩
      · rw [hw.values, hvalues]
        exact Nat.le_succ _
      · omega
      · rw [top, hvalues, hhandle]
      · rw [hw.top_eq, hhandle]
        omega

/-- A table has become another one in which some properties have the handles of their values, given one
after the other. -/
structure Listed (t : ObjectTable) (xs : List (PropertyDescriptor × Handle)) (t' : ObjectTable)
    (r' : Record) : Prop where
  sound : Sound t' r'
  room : r'.uses.card < 2 ^ 63
  later : t.Extends t'
  assigned : ∀ x ∈ xs, t'.Assigned x.2 x.1.named?
  fresh : ∀ x ∈ xs, x.1.named? = none → t.top < x.2.toNat
  apart : xs.Pairwise fun x y => x.1.named? = none ∨ y.1.named? = none → x.2 ≠ y.2

/-- One more property in front. -/
theorem Listed.cons {t₁ : ObjectTable} {r₁ : Record} {xs : List (PropertyDescriptor × Handle)}
    {d : PropertyDescriptor} (hfirst : Next t d.named? h t₁ r₁) (hxs : Listed t₁ xs t' r') :
    Listed t ((d, h) :: xs) t' r' := by
  have hkept := hfirst.assigned.mono hxs.later
  refine ⟨hxs.sound, hxs.room, hfirst.later.trans hxs.later, List.forall_mem_cons.2 ⟨hkept, hxs.assigned⟩,
    List.forall_mem_cons.2 ⟨hfirst.fresh, fun x hx hnone => ?fresh⟩,
    List.pairwise_cons.2 ⟨fun y hy hnone heq => ?apart, hxs.apart⟩⟩
  case fresh => exact Nat.lt_of_le_of_lt hfirst.later.top (hxs.fresh x hx hnone)
  case apart =>
    change h = y.2 at heq
    -- One and the same handle is never that of a value and of an object.
    have hsame : y.1.named? = d.named? :=
      hxs.sound.name_unique hxs.room (heq ▸ hxs.assigned y hy) hkept
    have hboth : y.1.named? = none := hnone.elim hsame.trans id
    have hlt := hxs.fresh y hy hboth
    have hle := hfirst.sound.assigned_le_top hfirst.room hfirst.assigned
    rw [← heq] at hlt
    omega

/-- The handles of the properties of an object are given one after the other. -/
theorem Sound.listed (hw : Sound t r) (ds : List PropertyDescriptor)
    (hroom : (r.noteAll (shown (PropertyListing.numbered ds t).1)).uses.card < 2 ^ 63) :
    Listed t (PropertyListing.numbered ds t).1 (PropertyListing.numbered ds t).2
      (r.noteAll (shown (PropertyListing.numbered ds t).1)) := by
  induction ds generalizing t r with
  | nil => exact ⟨hw, hroom, .refl t, nofun, nofun, .nil⟩
  | cons d ds ih =>
      unfold PropertyListing.numbered at hroom ⊢
      split at hroom
      · next hd =>
        rw [if_pos hd]
        have hfirst : (r.note (d.named?, [(t.assign d.named?).1, (t.assign d.named?).1])).uses.card <
            2 ^ 63 := Nat.lt_of_le_of_lt (Record.card_uses_le_noteAll _ _) hroom
        have hnext := hw.next d.named? (Record.shows_twice _) hfirst
        exact .cons hnext (ih hnext.sound hroom)
      · next hd =>
        rw [if_neg hd]
        exact ih hw hroom

/-- A handle at two places belongs to a value with a name. -/
theorem Listed.place {xs : List (PropertyDescriptor × Handle)} (hxs : Listed t xs t' r') {i j : Nat}
    {x y : PropertyDescriptor × Handle} (hx : xs[i]? = some x) (hy : xs[j]? = some y)
    (hnone : x.1.named? = none) (heq : y.2 = x.2) : j = i := by
  obtain ⟨hi, rfl⟩ := List.getElem?_eq_some_iff.1 hx
  obtain ⟨hj, rfl⟩ := List.getElem?_eq_some_iff.1 hy
  have hapart := List.pairwise_iff_getElem.1 hxs.apart
  rcases Nat.lt_trichotomy i j with hlt | heq' | hlt
  · exact absurd heq.symm (hapart i j hi hj hlt (.inl hnone))
  · exact heq'.symm
  · exact absurd heq (hapart j i hj hi hlt (.inr hnone))

/-- The object itself gets its handle before the values of its properties. -/
theorem Sound.list (hw : Sound t r) {parent : RemoteObject} {data : PropertyListing}
    (hroom : (r.noteAll ((Operation.list parent data).perform t).1).uses.card < 2 ^ 63) :
    Next t parent.objectId (t.assign parent.objectId).1 (t.assign parent.objectId).2
        (r.note (parent.objectId, [(t.assign parent.objectId).1])) ∧
      Listed (t.assign parent.objectId).2
        (PropertyListing.numbered data.result (t.assign parent.objectId).2).1
        (PropertyListing.numbered data.result (t.assign parent.objectId).2).2
        (r.noteAll ((Operation.list parent data).perform t).1) := by
  rw [Operation.perform_list] at hroom ⊢
  have hnext := hw.next parent.objectId (Record.shows_once _)
    (Nat.lt_of_le_of_lt (Record.card_uses_le_noteAll _ _) hroom)
  exact ⟨hnext, hnext.sound.listed data.result hroom⟩

end Rows

/-! ### A whole history -/

namespace Sound

variable {t : ObjectTable} {r : Record}

/-- What one operation preserves. -/
theorem perform (hw : Sound t r) (op : Operation)
    (hroom : (r.after (op.perform t).1 op).uses.card < 2 ^ 63) :
    Sound (op.perform t).2 (r.after (op.perform t).1 op) := by
  cases op with
  | intern name => exact hw.assign (some name) (Record.shows_once _) hroom
  | fresh => exact hw.assign none (Record.shows_once _) hroom
  | clear => exact hw.clear
  | reduce object =>
      simp only [Operation.perform, RemoteObject.reduce_eq] at hroom ⊢
      exact hw.assign object.objectId (Record.shows_once _) hroom
  | list parent data =>
      have hlisted := (hw.list hroom).2.sound
      rw [Operation.perform_list] at hlisted ⊢
      exact hlisted
  | call data =>
      rw [Operation.perform_call] at hroom ⊢
      exact hw.assign data.result.objectId (Record.shows_once _) hroom

/-- What a whole history preserves. -/
theorem history {w : History} (hw : Sound w.table w.record) (ops : List Operation)
    (hroom : (ops.foldl History.perform w).record.uses.card < 2 ^ 63) :
    Sound (ops.foldl History.perform w).table (ops.foldl History.perform w).record := by
  induction ops generalizing w with
  | nil => exact hw
  | cons op ops ih =>
      refine ih (hw.perform op ?_) hroom
      exact Nat.lt_of_le_of_lt (History.card_uses_le (w.perform op) ops) hroom

end Sound

/-- Handles identify exactly one thing each, forever: as long as fewer than half of them have been
allocated, the table can be read in both directions, an object that still has its name keeps its handle,
and of everything that has ever been given a handle no two uses share one. -/
theorem handles_are_unique_to_their_use (ops : List Operation)
    (hroom : (History.of ops).record.uses.card < 2 ^ 63) :
    (∀ name h, (History.of ops).table.handle? name = some h ↔
      (History.of ops).table.name? h = some name) ∧
    {name | ((History.of ops).table.handle? name).isSome}.ncard = (History.of ops).table.size ∧
    {h | ((History.of ops).table.name? h).isSome}.ncard = (History.of ops).table.size ∧
    (∀ name h, (.object (History.of ops).record.era name, h) ∈ (History.of ops).record.given →
      (History.of ops).table.intern name = (h, (History.of ops).table)) ∧
    ∀ x ∈ (History.of ops).record.given, ∀ y ∈ (History.of ops).record.given,
      x.2 = y.2 ↔ x.1 = y.1 := by
  have hw : Sound (History.of ops).table (History.of ops).record := Sound.new.history ops hroom
  refine ⟨hw.inverse, ncard_lookup hw.entries, ?_, fun name h hh => ?_, hw.single⟩
  · exact (ncard_lookup hw.names).trans hw.sizes
  · exact intern_known ((hw.object _ name h hh).2.2 rfl)

/-- A name before and after it has been forgotten, an object that lists itself, and values without
names, some of them thrown. -/
def sampleOperations : List Operation :=
  let point : RemoteObject := { kind := "object", objectId := some "p" }
  let number : RemoteObject := { kind := "number", value := some (.string "1") }
  [.intern "p", .intern "q", .fresh, .clear,
    .list point ⟨[{ name := "x", value := some number }, { name := "y" },
      { name := "self", value := some point },
      { name := "z", value := some point, wasThrown := some true }]⟩,
    .call ⟨point, some true⟩, .reduce number, .intern "q"]

theorem handles_are_unique_to_their_use_sample :
    (History.of sampleOperations).record.given.reverse =
      [(.object 0 "p", 1), (.object 0 "q", 2), (.value 0, 0x8000000000000001),
        (.object 1 "p", 3), (.value 1, 0x8000000000000002), (.value 1, 0x8000000000000002),
        (.object 1 "p", 3), (.object 1 "p", 3), (.value 2, 0x8000000000000003),
        (.value 2, 0x8000000000000003), (.object 1 "p", 3), (.value 3, 0x8000000000000004),
        (.object 1 "q", 4)] ∧
    ∀ x ∈ (History.of sampleOperations).record.given,
      ∀ y ∈ (History.of sampleOperations).record.given, x.2 = y.2 ↔ x.1 = y.1 :=
  have hroom : (History.of sampleOperations).record.uses.card < 2 ^ 63 := by decide +kernel
  ⟨by decide +kernel, (handles_are_unique_to_their_use sampleOperations hroom).2.2.2.2⟩

end ObjectTable

end RemoteInspector
