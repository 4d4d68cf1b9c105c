import RemoteInspector.Proofs.Remote.Identity

/-!
What the listing of an object gives back. The references to its properties and the payloads of their
values line up, each reference with the payload that stands at its place; properties without a value
shift nothing. Values with a name stand under the handle of that name, all others under a handle that
nothing else has, before or beside them. What the table knew it still knows.

`Sound.list` says what a listing does to the table; here it is read off what the listing gives back.
-/

namespace RemoteInspector

theorem PropertyListing.getElem?_refsOf (xs : List (PropertyDescriptor × Handle)) (i : Nat) :
    (refsOf xs)[i]? = xs[i]?.map fun x => (⟨x.1.name, x.2⟩ : PropertyRef) := by
  rw [refsOf, List.getElem?_map]

namespace ObjectTable

/-- Operations that have been carried out and one more. -/
theorem History.of_append (ops : List Operation) (op : Operation) :
    History.of (ops ++ [op]) = (History.of ops).perform op := by
  rw [of, List.foldl_append, List.foldl_cons, List.foldl_nil, ← of]

theorem History.before {ops : List Operation} {op : Operation}
    (hroom : (History.of (ops ++ [op])).record.uses.card < 2 ^ 63) :
    (History.of ops).record.uses.card < 2 ^ 63 ∧
      Sound (History.of ops).table (History.of ops).record := by
  rw [of_append] at hroom
  have hbefore := Nat.lt_of_le_of_lt (Record.card_uses_le_after _ _ _) hroom
  exact ⟨hbefore, Sound.new.history ops hbefore⟩

/-- As long as fewer than half of the handles have been allocated: the references of an object that is
listed bear the names of the properties that have a value, in order, and at the place of each reference
stands the payload of that value, under the handle of the reference. A value that has a name and was not
thrown has the handle of its name, be it that of the object itself; every other one has a handle of the
upper half that is neither that of the object nor at another place nor was ever given before. The names
that were in use keep their handles. -/
theorem references_line_up (ops : List Operation) (parent : RemoteObject) (data : PropertyListing)
    (hroom : (History.of (ops ++ [.list parent data])).record.uses.card < 2 ^ 63) :
    ∃ (p : Payload) (children : List Payload) (t : ObjectTable),
      data.reduce parent (History.of ops).table = ((p, children), t) ∧
      p.properties.map (·.name) = (data.result.filter (·.value.isSome)).map (·.name) ∧
      children.map (·.handle) = p.properties.map (fun ref => some ref.handle) ∧
      children = (data.result.filter (·.value.isSome)).zipWith
        (fun d ref => d.payload ref.handle) p.properties ∧
      (∀ name, parent.objectId = some name → t.handle? name = p.handle) ∧
      (∀ (i : Nat) (d : PropertyDescriptor) (ref : PropertyRef),
        (data.result.filter (·.value.isSome))[i]? = some d → p.properties[i]? = some ref →
        (∀ name, d.named? = some name → t.handle? name = some ref.handle) ∧
        (d.named? = none → unnamedBase < ref.handle ∧ p.handle ≠ some ref.handle ∧
          (∀ (j : Nat) (other : PropertyRef), p.properties[j]? = some other →
            other.handle = ref.handle → j = i) ∧
          ∀ x ∈ (History.of ops).record.given, x.2 ≠ ref.handle)) ∧
      (∀ name h, (History.of ops).table.handle? name = some h → t.handle? name = some h) ∧
      ∀ name h, (History.of ops).table.name? h = some name → t.name? h = some name := by
  obtain ⟨hbefore, hw⟩ := History.before hroom
  rw [History.of_append] at hroom
  generalize History.of ops = w at hroom hbefore hw ⊢
  obtain ⟨hparent, hlisted⟩ := hw.list hroom
  have hlater := hparent.later.trans hlisted.later
  have hvalues := PropertyListing.numbered_fst data.result (w.table.assign parent.objectId).2
  rw [PropertyListing.reduce_eq, ← hvalues]
  generalize PropertyListing.numbered data.result (w.table.assign parent.objectId).2 = listed
    at hlisted hlater ⊢
  refine ⟨_, _, _, rfl, ?names, ?handles, ?children, ?own, ?places, hlater.named, ?known⟩
  case names => simp [PropertyListing.refsOf]
  case handles => simp [PropertyListing.refsOf, PropertyDescriptor.handle_payload]
  case children =>
    simp [PropertyListing.refsOf, List.zipWith_map, List.zipWith_self]
  case own =>
    exact fun name hname => (hparent.assigned.mono hlisted.later).handle? hname
  case places =>
    intro i d ref hd href
    rw [List.getElem?_map] at hd
    obtain ⟨x, hx, rfl⟩ := Option.map_eq_some_iff.1 hd
    simp only [PropertyListing.getElem?_refsOf, Option.map_eq_some_iff] at href ⊢
    obtain ⟨y, hy, rfl⟩ := href
    rw [hx] at hy
    cases hy
    have hassigned := hlisted.assigned x (List.mem_of_getElem? hx)
    refine ⟨fun name hname => hassigned.handle? hname, fun hnone => ?_⟩
    rw [hnone] at hassigned
    -- The handle is above all that were given before it.
    have hfresh := hlisted.fresh x (List.mem_of_getElem? hx) hnone
    refine ⟨UInt64.lt_iff_toNat_lt.2 hassigned.1, fun heq => ?_, ?_, fun y hy heq => ?_⟩
    · have hle := hparent.sound.assigned_le_top hparent.room hparent.assigned
      rw [Option.some.inj heq] at hle
      exact Nat.not_le_of_lt hfresh hle
    · rintro j other ⟨y, hy, rfl⟩ heq
      exact hlisted.place hx hy hnone heq
    · have hle := Nat.le_trans (hw.le_top hbefore hy) hparent.later.top
      rw [heq] at hle
      exact Nat.not_le_of_lt hfresh hle
  case known =>
    exact fun name h hname => (hlisted.sound.inverse name h).1
      (hlater.named name h ((hw.inverse name h).2 hname))

/-- An object that is listed among its own properties. -/
def selfListed : RemoteObject := { kind := "object", objectId := some "p" }

/-- It stands there twice and is thrown once; one property has no value, and one has an inline value. -/
def selfListing : PropertyListing :=
  ⟨[{ name := "me", value := some selfListed }, { name := "getter" },
    { name := "x", value := some { kind := "number" } },
    { name := "boom", value := some selfListed, wasThrown := some true },
    { name := "again", value := some selfListed }]⟩

theorem references_line_up_self :
    ∃ p children t, selfListing.reduce selfListed (History.of [.fresh, .intern "p"]).table =
        ((p, children), t) ∧
      p.properties = [⟨"me", 1⟩, ⟨"x", 0x8000000000000002⟩, ⟨"boom", 0x8000000000000003⟩,
        ⟨"again", 1⟩] ∧
      t.handle? "p" = some 1 ∧
      ∀ x ∈ (History.of [.fresh, .intern "p"]).record.given, x.2 ≠ 0x8000000000000003 := by
  have hroom : (History.of ([.fresh, .intern "p"] ++
      [.list selfListed selfListing])).record.uses.card < 2 ^ 63 := by decide +kernel
  obtain ⟨p, children, t, hreduce, -, -, -, -, hplaces, -⟩ :=
    references_line_up [.fresh, .intern "p"] selfListed selfListing hroom
  have hproperties : (selfListing.reduce selfListed
      (History.of [.fresh, .intern "p"]).table).1.1.properties = [⟨"me", 1⟩,
        ⟨"x", 0x8000000000000002⟩, ⟨"boom", 0x8000000000000003⟩, ⟨"again", 1⟩] := by
    decide +kernel
  rw [hreduce] at hproperties
  refine ⟨p, children, t, hreduce, hproperties, ?_, ?_⟩
  · exact (hplaces 0 { name := "me", value := some selfListed } ⟨"me", 1⟩ rfl
      (by rw [hproperties]; rfl)).1 "p" rfl
  · exact ((hplaces 2 { name := "boom", value := some selfListed, wasThrown := some true }
      ⟨"boom", 0x8000000000000003⟩ rfl (by rw [hproperties]; rfl)).2 rfl).2.2.2

end ObjectTable

end RemoteInspector
