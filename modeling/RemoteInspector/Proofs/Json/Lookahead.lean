import RemoteInspector.Json.Reader

/-!
How far a reader looks. It takes bytes off the front of a text and looks at one byte beyond them, so
what it gives does not depend on all the rest. A string that is reported for being of the wrong kind
has been read as a whole, and any other string in its place would be reported in the same way.
-/

namespace RemoteInspector

def Found.isString : Found → Bool
  | .string _ => true
  | _ => false

namespace Json

def Reason.isMismatch : Reason → Bool
  | .mismatch _ => true
  | _ => false

/-! ### What a reader gives -/

class HasRest (ρ : Type) where
  rest : ρ → Bytes
  withRest : ρ → Bytes → ρ
  rest_withRest (x : ρ) (t : Bytes) : rest (withRest x t) = t
  withRest_rest (x : ρ) : withRest x (rest x) = x
  withRest_withRest (x : ρ) (t t' : Bytes) : withRest (withRest x t) t' = withRest x t'

open HasRest

attribute [simp] rest_withRest withRest_rest withRest_withRest

instance : HasRest Bytes where
  rest s := s
  withRest _ t := t
  rest_withRest _ _ := rfl
  withRest_rest _ := rfl
  withRest_withRest _ _ _ := rfl

instance {α : Type} : HasRest (α × Bytes) where
  rest x := x.2
  withRest x t := (x.1, t)
  rest_withRest _ _ := rfl
  withRest_rest _ := rfl
  withRest_withRest _ _ _ := rfl

instance : HasRest Next where
  rest
    | .item s => s
    | .done s => s
  withRest
    | .item _, t => .item t
    | .done _, t => .done t
  rest_withRest x _ := by cases x <;> rfl
  withRest_rest x := by cases x <;> rfl
  withRest_withRest x _ _ := by cases x <;> rfl

variable {ρ σ : Type} [HasRest ρ] [HasRest σ]

instance : HasRest (Except Fault ρ) where
  rest
    | .ok x => rest x
    | .error f => f.rest
  withRest
    | .ok x, t => .ok (withRest x t)
    | .error f, t => .error ⟨f.reason, t⟩
  rest_withRest x t := by
    cases x with
    | ok x => exact rest_withRest x t
    | error f => rfl
  withRest_rest x := by
    cases x with
    | ok x => exact congrArg Except.ok (withRest_rest x)
    | error f => rfl
  withRest_withRest x t t' := by
    cases x with
    | ok x => exact congrArg Except.ok (withRest_withRest x t t')
    | error f => rfl

/-! ### Strings as values -/

def IsLiteral (lit : Bytes) (x : String) : Prop :=
  ∃ body, lit = 34 :: body ∧ ∀ t, readStringBody (body ++ t) = .ok (x, t)

def wrongString (x wanted : String) : Reason := .mismatch (.wrongType (.string x) wanted)

theorem ne_wrongString {reason : Reason} (h : reason.isMismatch = false) (x wanted : String) :
    reason ≠ wrongString x wanted := by
  rintro rfl
  cases h

/-- A string has been read up to `r`, and any string in its place, whatever follows it, is reported
in the same way. -/
def ReportsString (run : Bytes → Except Fault ρ) (s : Bytes) (x wanted : String) (r : Bytes) :
    Prop :=
  '"' ∉ wanted.toList ∧ ∃ ahead lit, s = ahead ++ lit ++ r ∧ IsLiteral lit x ∧
    ∀ x' lit' r', IsLiteral lit' x' →
      run (ahead ++ lit' ++ r') = .error ⟨wrongString x' wanted, r'⟩

/-! ### Readers that look one byte ahead -/

/-- What may stand in place of the rest: something with the same first byte. If `closed` is set, the
end of what is read shows by itself, so anything may follow it. -/
def MayFollow (closed : Bool) (given : Except Fault ρ) (t : Bytes) : Prop :=
  t.head? = (rest given).head? ∨ closed = true ∧ ∃ x, given = .ok x

structure OrderlyAt (closed : Bool) (run : Bytes → Except Fault ρ) (s : Bytes) : Prop where
  takes : ∃ taken, s = taken ++ rest (run s) ∧
    ∀ t, MayFollow closed (run s) t → run (taken ++ t) = withRest (run s) t
  reports : ∀ x wanted r, run s = .error ⟨wrongString x wanted, r⟩ → ReportsString run s x wanted r

def Orderly (closed : Bool) (run : Bytes → Except Fault ρ) : Prop := ∀ s, OrderlyAt closed run s

namespace OrderlyAt

variable {closed : Bool} {run run' : Bytes → Except Fault ρ} {s r : Bytes}

theorem length_le {x : ρ} (h : OrderlyAt closed run s) (hx : run s = .ok x) :
    (rest x).length ≤ s.length := by
  obtain ⟨taken, hs, -⟩ := h.takes
  rw [hx] at hs
  have hlength : s.length = taken.length + (rest x).length := by
    rw [hs, List.length_append]
    rfl
  omega

theorem head_append {t t' : Bytes} (ht : t.head? = t'.head?) (taken : Bytes) :
    (taken ++ t).head? = (taken ++ t').head? := by
  cases taken with
  | nil => exact ht
  | cons b taken => rfl

theorem weaken (h : OrderlyAt true run s) : OrderlyAt false run s := by
  obtain ⟨taken, hs, htakes⟩ := h.takes
  refine ⟨⟨taken, hs, fun t ht => htakes t ?_⟩, h.reports⟩
  exact ht.imp_right fun hclosed => ⟨rfl, hclosed.2⟩

/-- A fault that is not about a string. -/
theorem fault (reason : Reason) (taken : Bytes)
    (hreason : ∀ x wanted, reason ≠ wrongString x wanted) (hs : s = taken ++ r)
    (hrun : ∀ t, t.head? = r.head? → run (taken ++ t) = .error ⟨reason, t⟩) :
    OrderlyAt closed run s := by
  have hsame : run s = .error ⟨reason, r⟩ := hs ▸ hrun r rfl
  refine ⟨⟨taken, ?_, ?_⟩, ?_⟩
  · rw [hsame]
    exact hs
  · intro t ht
    rw [hsame] at ht ⊢
    rcases ht with ht | ⟨-, x, hx⟩
    · exact hrun t ht
    · cases hx
  · intro x wanted r' hreport
    rw [hsame] at hreport
    cases hreport
    exact (hreason x wanted rfl).elim

/-- A fault before the next byte. -/
theorem here (reason : Reason) (hreason : reason.isMismatch = false)
    (hrun : ∀ t, run t = Json.atHere reason t) : OrderlyAt closed run s :=
  fault reason [] (ne_wrongString hreason) rfl fun t _ => hrun t

/-- A fault at the next byte. -/
theorem next (reason : Reason) (hreason : reason.isMismatch = false)
    (hrun : ∀ t, run t = atNext reason t) : OrderlyAt closed run s := by
  cases s with
  | nil =>
      refine fault reason [] (ne_wrongString hreason) rfl fun t ht => ?_
      rw [List.head?_eq_none_iff.1 ht]
      exact hrun []
  | cons b s => exact fault reason [b] (ne_wrongString hreason) rfl fun t _ => hrun (b :: t)

/-- A fault at the end of the text. -/
theorem ends (reason : Reason) (hreason : reason.isMismatch = false)
    (hrun : run s = Json.atHere reason []) : OrderlyAt closed run s := by
  refine fault reason s (ne_wrongString hreason) (List.append_nil s).symm fun t ht => ?_
  rw [List.head?_eq_none_iff.1 ht, List.append_nil]
  exact hrun

/-- A value of another kind than a string is refused. -/
theorem wrong (found : Found) (wanted : String) (hfound : found.isString = false)
    (hrun : ∀ t, run t = .error ⟨.mismatch (.wrongType found wanted), t⟩) :
    OrderlyAt closed run s := by
  refine fault (.mismatch (.wrongType found wanted)) [] ?_ rfl fun t _ => hrun t
  intro x wanted' heq
  cases heq
  cases hfound

/-- A string is refused, and so would be any other. -/
theorem string {x wanted : String} {lit : Bytes} (hwanted : '"' ∉ wanted.toList)
    (hlit : IsLiteral lit x)
    (hrun : ∀ x' lit' r', IsLiteral lit' x' →
      run (lit' ++ r') = .error ⟨wrongString x' wanted, r'⟩) :
    OrderlyAt closed run (lit ++ r) := by
  have hsame := hrun x lit r hlit
  refine ⟨⟨lit, ?_, ?_⟩, ?_⟩
  · rw [hsame]
    rfl
  · intro t _
    rw [hsame]
    exact hrun x lit t hlit
  · intro x' wanted' r' hreport
    rw [hsame] at hreport
    cases hreport
    exact ⟨hwanted, [], lit, rfl, hlit, hrun⟩

/-- What is given, if nothing is taken, whatever follows. -/
theorem done (x : ρ) (hrun : ∀ t, run t = .ok (withRest x t)) : OrderlyAt closed run s := by
  have hsame := hrun s
  refine ⟨⟨[], ?_, ?_⟩, ?_⟩
  · rw [hsame]
    exact (rest_withRest x s).symm
  · intro t _
    rw [hsame, List.nil_append, hrun t]
    exact congrArg Except.ok (withRest_withRest x s t).symm
  · intro x' wanted r hreport
    rw [hsame] at hreport
    cases hreport

theorem done_pair {α : Type} {reader : Reader α} (a : α) (hrun : ∀ t, reader t = .ok (a, t)) :
    OrderlyAt closed reader s :=
  done (a, []) hrun

theorem done_rest {skip : Bytes → Except Fault Bytes} (hrun : ∀ t, skip t = .ok t) :
    OrderlyAt closed skip s :=
  done [] hrun

/-- Behind some bytes the reader goes on in another way. -/
theorem behind (taken : Bytes) (h : OrderlyAt closed run' s)
    (hrun : ∀ t, closed = true ∨ t.head? = s.head? → run (taken ++ t) = run' t) :
    OrderlyAt closed run (taken ++ s) := by
  have hsame := hrun s (.inr rfl)
  obtain ⟨more, hs, htakes⟩ := h.takes
  refine ⟨⟨taken ++ more, ?_, ?_⟩, ?_⟩
  · rw [hsame, List.append_assoc, ← hs]
  · intro t ht
    rw [hsame] at ht ⊢
    rw [List.append_assoc, hrun, htakes t ht]
    rcases ht with ht | ⟨hclosed, -⟩
    · exact .inr (by rw [head_append ht, ← hs])
    · exact .inl hclosed
  · intro x wanted r hreport
    rw [hsame] at hreport
    obtain ⟨hwanted, ahead, lit, hlit, hx, hany⟩ := h.reports x wanted r hreport
    refine ⟨hwanted, taken ++ ahead, lit, by simp [hlit], hx, fun x' lit' r' hx' => ?_⟩
    have hhead : (ahead ++ lit' ++ r').head? = s.head? := by
      obtain ⟨body, rfl, -⟩ := hx
      obtain ⟨body', rfl, -⟩ := hx'
      rw [hlit, List.append_assoc, List.append_assoc]
      exact head_append (by rfl) ahead
    rw [List.append_assoc, List.append_assoc, ← List.append_assoc ahead, hrun _ (.inr hhead)]
    exact hany x' lit' r' hx'

/-- One byte is taken, and the reader goes on in another way. -/
theorem cons {b : UInt8} (h : OrderlyAt closed run' s) (hrun : ∀ t, run (b :: t) = run' t) :
    OrderlyAt closed run (b :: s) :=
  behind [b] h fun t _ => hrun t

/-- Nothing is left, and that is seen. -/
theorem congr_nil (h : OrderlyAt false run' []) (hrun : run [] = run' []) :
    OrderlyAt false run [] := by
  refine behind [] h fun t ht => ?_
  rw [List.head?_eq_none_iff.1 (ht.resolve_left (by decide))]
  exact hrun

/-- The next byte is seen, and tells how the reader goes on. -/
theorem congr_cons {b : UInt8} (h : OrderlyAt false run' (b :: s))
    (hrun : ∀ t, run (b :: t) = run' (b :: t)) : OrderlyAt false run (b :: s) := by
  refine behind [] h fun t ht => ?_
  obtain ⟨t, rfl⟩ := List.head?_eq_some_iff.1 (ht.resolve_left (by decide))
  exact hrun t

/-- Blanks are passed over first. -/
theorem blanks (h : OrderlyAt closed run (skipBlanks s))
    (hrun : ∀ t, run (skipBlanks t) = run t) : OrderlyAt closed run s := by
  have hblank : ∀ b ∈ s.takeWhile isBlank, isBlank b = true := fun b hb =>
    List.all_eq_true.1 List.all_takeWhile b hb
  rw [← List.takeWhile_append_dropWhile (p := isBlank) (l := s)]
  refine behind _ h fun t _ => ?_
  rw [← hrun, skipBlanks, List.dropWhile_append_of_pos hblank]
  exact hrun t

/-- Digits are passed over first. -/
theorem digits (h : OrderlyAt false run' (skipDigits s))
    (hrun : ∀ t, run t = run' (skipDigits t)) : OrderlyAt false run s := by
  have hdigit : ∀ b ∈ s.takeWhile isDigit, isDigit b = true := fun b hb =>
    List.all_eq_true.1 List.all_takeWhile b hb
  have hstop : ∀ t : Bytes, t.head? = (skipDigits s).head? → skipDigits t = t := by
    intro t ht
    cases t with
    | nil => rfl
    | cons b t =>
        have hb := List.head?_dropWhile_not isDigit s
        rw [← skipDigits, ← ht] at hb
        rw [skipDigits, List.dropWhile_cons_of_neg (by simpa using hb)]
  rw [← List.takeWhile_append_dropWhile (p := isDigit) (l := s)]
  refine behind _ h fun t ht => ?_
  rw [hrun, skipDigits, List.dropWhile_append_of_pos hdigit, ← skipDigits,
    hstop t (ht.resolve_left (by decide))]

/-- One reader after another. -/
theorem bind {next : ρ → Except Fault σ} (h : OrderlyAt closed run s)
    (hnext : ∀ x, run s = .ok x → OrderlyAt closed (fun t => next (withRest x t)) (rest x)) :
    OrderlyAt closed (fun s => run s >>= next) s := by
  obtain ⟨taken, hs, htakes⟩ := h.takes
  cases hgiven : run s with
  | error f =>
      have hsame : (run s >>= next) = .error f := by rw [hgiven]; rfl
      have hkept : ∀ {t : Bytes} {f : Fault}, run t = .error f → (run t >>= next) = .error f := by
        intro t f ht
        rw [ht]
        rfl
      rw [hgiven] at hs htakes
      refine ⟨⟨taken, ?_, ?_⟩, ?_⟩
      · rw [hsame]
        exact hs
      · intro t ht
        rw [hsame] at ht ⊢
        exact hkept (htakes t (.inl (ht.resolve_right (by rintro ⟨-, x, ⟨⟩⟩))))
      · intro x wanted r hreport
        rw [hsame] at hreport
        cases hreport
        obtain ⟨hwanted, ahead, lit, hlit, hx, hany⟩ := h.reports x wanted r hgiven
        exact ⟨hwanted, ahead, lit, hlit, hx, fun x' lit' r' hx' => hkept (hany x' lit' r' hx')⟩
  | ok x =>
      rw [hgiven] at hs htakes
      have hs' : s = taken ++ rest x := hs
      rw [hs']
      refine behind _ (hnext x hgiven) fun t ht => ?_
      have hfollow : MayFollow closed (.ok x) t :=
        ht.symm.imp_right fun hclosed => ⟨hclosed, x, rfl⟩
      rw [htakes t hfollow]
      rfl

theorem bind_pair {α : Type} {first : Reader α} {next : α × Bytes → Except Fault σ}
    (h : OrderlyAt closed first s)
    (hnext : ∀ a r, first s = .ok (a, r) → OrderlyAt closed (fun t => next (a, t)) r) :
    OrderlyAt closed (fun s => first s >>= next) s :=
  h.bind fun x hx => hnext x.1 x.2 hx

theorem bind_rest {first : Bytes → Except Fault Bytes} {next : Bytes → Except Fault σ}
    (h : OrderlyAt closed first s)
    (hnext : ∀ r, first s = .ok r → OrderlyAt closed next r) :
    OrderlyAt closed (fun s => first s >>= next) s :=
  h.bind hnext

/-- What is given is changed, and what is left to read is not. -/
theorem map (f : ρ → σ) (h : OrderlyAt closed run s)
    (hf : ∀ x t, f (withRest x t) = withRest (f x) t) :
    OrderlyAt closed (fun s => (run s).map f) s := by
  have hmap : (fun s => (run s).map f) = fun s => run s >>= fun x => .ok (f x) := by
    funext t
    cases run t <;> rfl
  rw [hmap]
  exact h.bind fun x _ => done (f x) fun t => congrArg Except.ok (hf x t)

end OrderlyAt

/-! ### Loops -/

/-- What a round of a loop gives: what to go on with, or the end. -/
inductive Round (α ρ : Type) where
  | again (a : α) (s : Bytes)
  | done (x : ρ)

instance {α : Type} : HasRest (Round α ρ) where
  rest
    | .again _ s => s
    | .done x => rest x
  withRest
    | .again a _, t => .again a t
    | .done x, t => .done (withRest x t)
  rest_withRest x t := by
    cases x with
    | again a s => rfl
    | done x => exact rest_withRest x t
  withRest_rest x := by
    cases x with
    | again a s => rfl
    | done x => exact congrArg Round.done (withRest_rest x)
  withRest_withRest x t t' := by
    cases x with
    | again a s => rfl
    | done x => exact congrArg Round.done (withRest_withRest x t t')

section

variable {α : Type} (step : α → Bytes → Except Fault (Round α ρ)) (spent : Bytes → Except Fault ρ)

/-- One round after another, up to the end. -/
def rounds : (fuel : Nat) → α → Bytes → Except Fault ρ
  | 0, _, s => spent s
  | fuel + 1, a, s => do
    match ← step a s with
    | .again a r => rounds fuel a r
    | .done x => .ok x

variable {step spent} {closed : Bool}

omit [HasRest ρ] in
/-- If every round takes a byte or more, as many rounds as there are bytes are enough. -/
theorem rounds_fuel (hshorter : ∀ a s a' r, step a s = .ok (.again a' r) → r.length < s.length)
    {fuel fuel' : Nat} (a : α) {s : Bytes} (h : s.length < fuel) (h' : s.length < fuel') :
    rounds step spent fuel a s = rounds step spent fuel' a s := by
  induction fuel generalizing fuel' a s with
  | zero => exact (Nat.not_lt_zero _ h).elim
  | succ fuel ih =>
      obtain ⟨fuel', rfl⟩ := Nat.exists_eq_succ_of_ne_zero (Nat.ne_zero_of_lt h')
      rw [rounds, rounds]
      cases hstep : step a s with
      | error f => rfl
      | ok x =>
          cases x with
          | done x => rfl
          | again a' r =>
              have hr := hshorter a s a' r hstep
              exact ih a' (by omega) (by omega)

theorem orderly_rounds (hstep : ∀ a, Orderly closed (step a))
    (hshorter : ∀ a s a' r, step a s = .ok (.again a' r) → r.length < s.length) (a : α) :
    Orderly closed fun s => rounds step spent (s.length + 1) a s := by
  let goOn : Round α ρ → Except Fault ρ
    | .again a r => rounds step spent (r.length + 1) a r
    | .done x => .ok x
  have hrounds : ∀ a, (fun s => rounds step spent (s.length + 1) a s) =
      fun s => step a s >>= goOn := by
    intro a
    funext s
    rw [rounds]
    cases hx : step a s with
    | error f => rfl
    | ok x =>
        cases x with
        | done x => rfl
        | again a' r =>
            exact rounds_fuel hshorter a' (hshorter a s a' r hx) (Nat.lt_succ_self _)
  intro s
  induction hlength : s.length using Nat.strongRecOn generalizing a s with
  | ind n ih =>
      rw [hrounds]
      refine (hstep a s).bind fun x hx => ?_
      cases x with
      | done x => exact .done x fun _ => rfl
      | again a' r => exact ih r.length (hlength ▸ hshorter a s a' r hx) a' r rfl

end

end Json

end RemoteInspector
