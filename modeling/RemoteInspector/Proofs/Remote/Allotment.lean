import RemoteInspector.Proofs.Remote.Identity

/-!
Tables that have given out so many handles. How many there are at most is all that is kept of what they
have been given to; it suffices to know that the handles do not run out. What a table does then is read
off any record of it (`Sound`).
-/

namespace RemoteInspector

namespace ObjectTable

/-- A table that has given out so many handles, at most. -/
def Within (t : ObjectTable) (count : Nat) : Prop := ∃ r, Sound t r ∧ r.uses.card ≤ count

variable {t : ObjectTable} {count : Nat}

theorem within_new : Within {} 0 := ⟨{}, Sound.new, Nat.le_refl 0⟩

theorem Within.mono {count' : Nat} (ht : t.Within count) (hle : count ≤ count') :
    t.Within count' := by
  obtain ⟨r, hw, hcount⟩ := ht
  exact ⟨r, hw, Nat.le_trans hcount hle⟩

theorem Within.clear (ht : t.Within count) : t.clear.Within count := by
  obtain ⟨r, hw, hcount⟩ := ht
  exact ⟨_, hw.clear, hcount⟩

theorem Within.le_top (ht : t.Within count) (hroom : count < 2 ^ 63) {h : Handle}
    {name : Option String} (hh : t.Assigned h name) : h.toNat ≤ t.top := by
  obtain ⟨r, hw, hcount⟩ := ht
  exact hw.assigned_le_top (Nat.lt_of_le_of_lt hcount hroom) hh

theorem Within.name_unique (ht : t.Within count) (hroom : count < 2 ^ 63) {h : Handle}
    {name name' : Option String} (hh : t.Assigned h name) (hh' : t.Assigned h name') :
    name = name' := by
  obtain ⟨r, hw, hcount⟩ := ht
  exact hw.name_unique (Nat.lt_of_le_of_lt hcount hroom) hh hh'

/-- The table after one more value has got its handle. -/
structure AssignedNext (t : ObjectTable) (name : Option String) (count : Nat) (h : Handle)
    (t' : ObjectTable) : Prop where
  within : t'.Within (count + 1)
  later : t.Extends t'
  assigned : t'.Assigned h name
  fresh : name = none → t.top < h.toNat

theorem assign_next (ht : t.Within count) (hroom : count + 1 < 2 ^ 63) (name : Option String) :
    AssignedNext t name count (t.assign name).1 (t.assign name).2 := by
  obtain ⟨r, hw, hcount⟩ := ht
  have hnoted := r.card_uses_note_le (name, [(t.assign name).1])
  have hnext := hw.next name (Record.shows_once _) (by omega)
  exact ⟨⟨_, hnext.sound, by omega⟩, hnext.later, hnext.assigned, hnext.fresh⟩

end ObjectTable

namespace PropertyListing

open ObjectTable

/-- The table after the values of some properties have got their handles. -/
structure NumberedAll (t : ObjectTable) (count : Nat) (xs : List (PropertyDescriptor × Handle))
    (t' : ObjectTable) : Prop where
  within : t'.Within count
  later : t.Extends t'
  assigned : ∀ x ∈ xs, t'.Assigned x.2 x.1.named?
  fresh : ∀ x ∈ xs, x.1.named? = none → t.top < x.2.toNat
  /-- The handle of a value without a name is that of no other. -/
  single : ∀ x ∈ xs, ∀ y ∈ xs, x.1.named? = none → x.2 = y.2 → x = y

theorem length_numbered_le (ds : List PropertyDescriptor) (t : ObjectTable) :
    (numbered ds t).1.length ≤ ds.length := by
  have hlength := congrArg List.length (numbered_fst ds t)
  rw [List.length_map] at hlength
  rw [hlength]
  exact List.length_filter_le _ ds

theorem numbered_all {t : ObjectTable} {count : Nat} (ds : List PropertyDescriptor)
    (ht : t.Within count) (hroom : count + ds.length < 2 ^ 63) :
    NumberedAll t (count + ds.length) (numbered ds t).1 (numbered ds t).2 := by
  obtain ⟨r, hw, hcount⟩ := ht
  have hnoted := r.card_uses_noteAll_le (shown (numbered ds t).1)
  have hlength : (shown (numbered ds t).1).length ≤ ds.length := by
    rw [shown, List.length_map]
    exact length_numbered_le ds t
  have hlisted := hw.listed ds (by omega)
  refine ⟨⟨_, hlisted.sound, by omega⟩, hlisted.later, hlisted.assigned, hlisted.fresh, ?_⟩
  intro x hx y hy hnone heq
  obtain ⟨i, hi⟩ := List.mem_iff_getElem?.1 hx
  obtain ⟨j, hj⟩ := List.mem_iff_getElem?.1 hy
  rw [hlisted.place hi hj hnone heq.symm, hi] at hj
  exact Option.some.inj hj

end PropertyListing

end RemoteInspector
