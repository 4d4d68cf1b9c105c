import RemoteInspector.Proofs.Json.Value

/-!
All that is read fits: the depth is counted down on the way in, members are put in their places as
they come, and the numbers are in range.
-/

namespace RemoteInspector.Json

def Yields {α : Type} (read : Reader α) (P : α → Prop) : Prop :=
  ∀ {s r : Bytes} {v : α}, read s = .ok (v, r) → P v

/-! ### Bind -/

theorem bind_ok {ε α β : Type} {x : Except ε α} {f : α → Except ε β} {b : β}
    (h : x >>= f = .ok b) : ∃ a, x = .ok a ∧ f a = .ok b := by
  cases x with
  | error e => cases h
  | ok a => exact ⟨a, rfl, h⟩

theorem map_ok {ε α β : Type} {x : Except ε α} {f : α → β} {b : β} (h : x.map f = .ok b) :
    ∃ a, x = .ok a ∧ f a = b := by
  cases x with
  | error e => cases h
  | ok a => exact ⟨a, rfl, Except.ok.inj h⟩

/-! ### Members in order -/

theorem mem_put {name : String} {v : Json} {ms : List (String × Json)} {m : String × Json}
    (hm : m ∈ put name v ms) : m = (name, v) ∨ m ∈ ms := by
  induction ms with
  | nil => exact .inl (List.mem_singleton.1 hm)
  | cons k ms ih =>
      obtain ⟨n, w⟩ := k
      unfold put at hm
      split at hm
      · exact List.mem_cons.1 hm
      · split at hm
        · rcases List.mem_cons.1 hm with rfl | hm
          · exact .inl rfl
          · exact .inr (List.mem_cons_of_mem _ hm)
        · rcases List.mem_cons.1 hm with rfl | hm
          · exact .inr List.mem_cons_self
          · exact (ih hm).imp_right (List.mem_cons_of_mem _)

theorem sorted_put {ms : List (String × Json)} (h : Sorted ms) (name : String) (v : Json) :
    Sorted (put name v ms) := by
  induction ms with
  | nil => exact List.pairwise_singleton _ _
  | cons k ms ih =>
      obtain ⟨n, w⟩ := k
      obtain ⟨hfirst, hrest⟩ := List.pairwise_cons.1 h
      unfold put
      split
      · next hlt =>
        refine List.pairwise_cons.2 ⟨fun m hm => ?_, h⟩
        rcases List.mem_cons.1 hm with rfl | hm
        · exact hlt
        · exact String.lt_trans hlt (hfirst m hm)
      · next hge =>
        split
        · next heq =>
          subst heq
          exact List.pairwise_cons.2 ⟨hfirst, hrest⟩
        · next hne =>
          refine List.pairwise_cons.2 ⟨fun m hm => ?_, ih hrest⟩
          rcases mem_put hm with rfl | hm
          · exact Std.lt_of_le_of_ne (String.not_lt.1 hge) (Ne.symm hne)
          · exact hfirst m hm

/-! ### Lists and objects -/

section

variable {value : Reader Json} {P : Json → Prop}

theorem readItems_yields (h : Yields value P) {fuel : Nat} {seen : List Json}
    (hseen : ∀ v ∈ seen, P v) : Yields (readItems value fuel seen) fun vs => ∀ v ∈ vs, P v := by
  intro s r vs hread
  induction fuel generalizing seen s with
  | zero => cases hread
  | succ fuel ih =>
      unfold readItems at hread
      split at hread
      · cases hread
      · cases hread
        intro v hv
        exact hseen v (List.mem_reverse.1 hv)
      · split at hread
        · cases hread
        · next w _ hw =>
          refine ih (fun v hv => ?_) hread
          rcases List.mem_cons.1 hv with rfl | hv
          · exact h hw
          · exact hseen v hv

theorem readListBody_yields (h : Yields value P) :
    Yields (readListBody value) fun vs => ∀ v ∈ vs, P v := by
  intro s r vs hread
  obtain ⟨next, -, hread⟩ := bind_ok hread
  cases next with
  | done t =>
      cases hread
      nofun
  | item t =>
      obtain ⟨⟨v, t'⟩, hv, hread⟩ := bind_ok hread
      refine readItems_yields h (fun w hw => ?_) hread
      rw [List.mem_singleton.1 hw]
      exact h hv

theorem readMember_yields (h : Yields value P) : Yields (readMember value) fun m => P m.2 := by
  intro s r m hread
  obtain ⟨⟨name, t⟩, -, hread⟩ := bind_ok hread
  obtain ⟨t', -, hread⟩ := bind_ok hread
  obtain ⟨⟨v, t''⟩, hv, hread⟩ := bind_ok hread
  cases hread
  exact h hv

theorem readMembers_yields (h : Yields value P) {fuel : Nat} {seen : List (String × Json)}
    (hsorted : Sorted seen) (hseen : ∀ m ∈ seen, P m.2) :
    Yields (readMembers value fuel seen) fun ms => Sorted ms ∧ ∀ m ∈ ms, P m.2 := by
  intro s r ms hread
  induction fuel generalizing seen s with
  | zero => cases hread
  | succ fuel ih =>
      unfold readMembers at hread
      split at hread
      · cases hread
      · cases hread
        exact ⟨hsorted, hseen⟩
      · split at hread
        · cases hread
        · next name v _ hv =>
          refine ih (sorted_put hsorted name v) (fun m hm => ?_) hread
          rcases mem_put hm with rfl | hm
          · exact readMember_yields h hv
          · exact hseen m hm

theorem readObjectBody_yields (h : Yields value P) :
    Yields (readObjectBody value) fun ms => Sorted ms ∧ ∀ m ∈ ms, P m.2 := by
  intro s r ms hread
  obtain ⟨next, -, hread⟩ := bind_ok hread
  cases next with
  | done t =>
      cases hread
      exact ⟨.nil, nofun⟩
  | item t =>
      obtain ⟨⟨⟨name, v⟩, t'⟩, hv, hread⟩ := bind_ok hread
      refine readMembers_yields h (sorted_put .nil name v) (fun m hm => ?_) hread
      rcases mem_put hm with rfl | hm
      · exact readMember_yields h hv
      · exact (List.not_mem_nil hm).elim

end

/-- What is read fits the depth that is left. -/
theorem readValue_yields (depth : Nat) : Yields (readValue depth) (Fits Number.InRange depth) := by
  intro s r v hread
  induction depth generalizing s r v with
  | zero => cases hread
  | succ depth ih =>
      unfold readValue at hread
      split at hread
      · cases hread
      split at hread
      · obtain ⟨t, -, heq⟩ := map_ok hread
        cases heq
        trivial
      split at hread
      · obtain ⟨t, -, heq⟩ := map_ok hread
        cases heq
        trivial
      split at hread
      · obtain ⟨t, -, heq⟩ := map_ok hread
        cases heq
        trivial
      split at hread
      · obtain ⟨⟨n, t⟩, hn, heq⟩ := map_ok hread
        cases heq
        exact readNumber_bounded hn
      split at hread
      · obtain ⟨⟨t, _⟩, -, heq⟩ := map_ok hread
        cases heq
        trivial
      split at hread
      · split at hread
        · cases hread
        · next hdepth =>
          obtain ⟨⟨vs, t⟩, hvs, heq⟩ := map_ok hread
          cases heq
          exact ⟨hdepth, readListBody_yields ih hvs⟩
      split at hread
      · split at hread
        · cases hread
        · next hdepth =>
          obtain ⟨⟨ms, t⟩, hms, heq⟩ := map_ok hread
          cases heq
          exact ⟨hdepth, readObjectBody_yields ih hms⟩
      · cases hread

end RemoteInspector.Json
