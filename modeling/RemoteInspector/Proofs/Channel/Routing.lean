import RemoteInspector.Channel.Correlator
import Mathlib.Data.List.Nodup

/-!
What the operations of a correlator do to its table. A number stands in the table at most once, so
that taking an entry off undoes entering it. Each operation is read off here once, less its log
entries; later modules cite these lemmas and do not unfold the operations.
-/

namespace RemoteInspector

deriving instance DecidableEq for Firing

def Waiter.completion? {τ : Type} : Waiter τ → Option τ
  | .completion t => some t
  | .relay => none

def Waiter.of {τ : Type} (mode : SendMode) (t : τ) : Waiter τ :=
  match mode with
  | .async => .completion t
  | .sync => .relay

namespace Correlator

variable {τ α : Type}

/-! ### Tables -/

@[simp] theorem mem_without {seq : UInt64} {table : List (UInt64 × α)} {p : UInt64 × α} :
    p ∈ without seq table ↔ p ∈ table ∧ p.1 ≠ seq := by
  simp [without]

theorem without_sublist (seq : UInt64) (table : List (UInt64 × α)) :
    (without seq table).Sublist table :=
  List.filter_sublist

theorem mem_of_lookup {seq : UInt64} {a : α} {table : List (UInt64 × α)}
    (h : table.lookup seq = some a) : (seq, a) ∈ table := by
  obtain ⟨before, after, rfl, -⟩ := List.lookup_eq_some_iff.1 h
  simp

/-- An entry of a table without repetitions is the one that is found. -/
theorem lookup_of_mem {seq : UInt64} {a : α} {table : List (UInt64 × α)}
    (hkeys : (table.map Prod.fst).Nodup) (h : (seq, a) ∈ table) : table.lookup seq = some a := by
  induction table with
  | nil => simp at h
  | cons p table ih =>
      obtain ⟨k, b⟩ := p
      rw [List.map_cons, List.nodup_cons] at hkeys
      rcases List.mem_cons.1 h with heq | htail
      · cases heq
        simp
      · have hne : seq ≠ k := by
          rintro rfl
          exact hkeys.1 (List.mem_map.2 ⟨_, htail, rfl⟩)
        rw [List.lookup_cons, beq_false_of_ne hne]
        exact ih hkeys.2 htail

/-- A table is the entry found in it and the rest. -/
theorem perm_without {seq : UInt64} {a : α} {table : List (UInt64 × α)}
    (hkeys : (table.map Prod.fst).Nodup) (h : table.lookup seq = some a) :
    table.Perm ((seq, a) :: without seq table) := by
  obtain ⟨before, after, rfl, hbefore⟩ := List.lookup_eq_some_iff.1 h
  have hafter : ∀ p ∈ after, p.1 ≠ seq := by
    intro p hp heq
    rw [List.map_append, List.map_cons, List.nodup_append, List.nodup_cons] at hkeys
    exact hkeys.2.1.1 (List.mem_map.2 ⟨p, hp, heq⟩)
  have hleft : without seq before = before := by
    refine List.filter_eq_self.2 fun p hp => bne_iff_ne.2 fun heq => ?_
    simpa [heq] using hbefore p hp
  have hright : without seq after = after := by
    exact List.filter_eq_self.2 fun p hp => bne_iff_ne.2 (hafter p hp)
  have hwhole : without seq (before ++ (seq, a) :: after) = before ++ after := by
    have hsplit : without seq (before ++ (seq, a) :: after) =
        without seq before ++ without seq after := by
      simp [without]
    rw [hsplit, hleft, hright]
  rw [hwhole]
  exact List.perm_middle

/-! ### Completions in a table -/

def completions (table : List (UInt64 × Waiter τ)) : List τ :=
  table.filterMap fun p => p.2.completion?

theorem mem_completions {t : τ} {table : List (UInt64 × Waiter τ)} :
    t ∈ completions table ↔ ∃ seq, (seq, .completion t) ∈ table := by
  simp only [completions, List.mem_filterMap, Prod.exists]
  constructor
  · rintro ⟨seq, w, hmem, hw⟩
    cases w with
    | completion u =>
        cases hw
        exact ⟨seq, hmem⟩
    | relay => simp [Waiter.completion?] at hw
  · rintro ⟨seq, hmem⟩
    exact ⟨seq, _, hmem, rfl⟩

@[simp] theorem completions_append (a b : List (UInt64 × Waiter τ)) :
    completions (a ++ b) = completions a ++ completions b :=
  List.filterMap_append

theorem perm_completions {seq : UInt64} {w : Waiter τ} {table : List (UInt64 × Waiter τ)}
    (hkeys : (table.map Prod.fst).Nodup) (h : table.lookup seq = some w) :
    (completions table).Perm (w.completion?.toList ++ completions (without seq table)) := by
  have hperm := (perm_without hkeys h).filterMap fun p => p.2.completion?
  cases w <;> simpa [completions, Waiter.completion?] using hperm

/-- A number that no completion stands under can be taken off without loss. -/
theorem completions_without {seq : UInt64} {table : List (UInt64 × Waiter τ)}
    (h : ∀ t, (seq, .completion t) ∉ table) :
    completions (without seq table) = completions table := by
  induction table with
  | nil => rfl
  | cons p table ih =>
      obtain ⟨k, w⟩ := p
      have hrest := ih fun t ht => h t (List.mem_cons_of_mem _ ht)
      by_cases hk : k = seq
      · subst hk
        cases w with
        | completion t => exact absurd List.mem_cons_self (h t)
        | relay => simpa [completions, without, Waiter.completion?] using hrest
      · cases w <;> simpa [completions, without, Waiter.completion?, hk] using hrest

/-! ### Operations -/

/-- How a request starts: refused after closing, refused with its number used up, or entered in the
table. -/
theorem start_cases (c : Correlator τ) (r : Request) (mode : SendMode) (t : τ) :
    (c.closed = true ∧
      (c.start r mode t).value = .refused c ⟨t, .error .closed, false⟩ .closed) ∨
    (c.closed = false ∧ ∃ fault, (c.start r mode t).value =
      .refused { c with nextSeq := c.nextSeq + 1 } ⟨t, .error fault, false⟩ fault) ∨
    (c.closed = false ∧ ∃ frame, (r.envelope c.nextSeq).encodeText = .ok frame ∧
      (c.start r mode t).value = .written
        { c with nextSeq := c.nextSeq + 1, pending := c.pending ++ [(c.nextSeq, .of mode t)] }
        c.nextSeq frame) := by
  cases hclosed : c.closed with
  | true => exact .inl ⟨rfl, by simp [start, hclosed]⟩
  | false =>
      right
      cases htext : (r.envelope c.nextSeq).encodeText with
      | error e => exact .inl ⟨rfl, _, by simp [start, hclosed, htext]; rfl⟩
      | ok frame =>
          refine .inr ⟨rfl, frame, rfl, ?_⟩
          cases mode <;> simp [start, hclosed, htext, Waiter.of]

/-- Where a message goes: back, nowhere, or to the request under the number that it names. -/
theorem deliver_cases (c : Correlator τ) (e : Envelope) :
    (e.isResponse = false ∧ (c.deliver e).value = { correlator := c, returned := some e }) ∨
    (e.isResponse = true ∧ (∀ seq, e.requestSeq = some seq → c.pending.lookup seq = none) ∧
      (c.deliver e).value = { correlator := c }) ∨
    (e.isResponse = true ∧ ∃ seq w, e.requestSeq = some seq ∧ c.pending.lookup seq = some w ∧
      (c.deliver e).value =
        { correlator := (settle { c with pending := without seq c.pending } seq w (.ok e)).1
          fired := (settle { c with pending := without seq c.pending } seq w (.ok e)).2 }) := by
  cases hkind : e.isResponse with
  | false => exact .inl ⟨rfl, by simp [deliver, hkind]⟩
  | true =>
      right
      cases hseq : e.requestSeq with
      | none => exact .inl ⟨rfl, nofun, by simp [deliver, hkind, hseq]⟩
      | some seq =>
          cases hfind : c.pending.lookup seq with
          | none =>
              refine .inl ⟨rfl, ?_, by simp [deliver, hkind, hseq, hfind]⟩
              rintro _ ⟨⟩
              exact hfind
          | some w => exact .inr ⟨rfl, seq, w, rfl, hfind, by simp [deliver, hkind, hseq, hfind]⟩

/-- To settle changes nothing but what relays have received. -/
theorem settle_frame (c : Correlator τ) (seq : UInt64) (w : Waiter τ) (o : Outcome) :
    ∃ received, (c.settle seq w o).1 = { c with received := received } := by
  cases w with
  | completion t => exact ⟨c.received, rfl⟩
  | relay => exact ⟨_, rfl⟩

theorem settle_fired (c : Correlator τ) (seq : UInt64) (w : Waiter τ) (o : Outcome) :
    (c.settle seq w o).2 = w.completion?.map fun t => ⟨t, o, false⟩ := by
  cases w <;> rfl

theorem settleAll_fired (fault : ChannelFault) (table : List (UInt64 × Waiter τ))
    (c : Correlator τ) :
    (settleAll fault table c).2 = (completions table).map fun t => ⟨t, .error fault, false⟩ := by
  induction table generalizing c with
  | nil => rfl
  | cons p table ih =>
      have hsplit : (settleAll fault (p :: table) c).2 =
          (c.settle p.1 p.2 (.error fault)).2.toList ++
            (settleAll fault table (c.settle p.1 p.2 (.error fault)).1).2 := rfl
      rw [hsplit, ih, settle_fired]
      obtain ⟨k, w⟩ := p
      cases w <;> simp [completions, Waiter.completion?]

/-- What relays receive when all of a table gets one fault. -/
def relayed (fault : ChannelFault) (table : List (UInt64 × Waiter τ)) : List (UInt64 × Outcome) :=
  table.filterMap fun
    | (seq, .relay) => some (seq, .error fault)
    | (_, .completion _) => none

theorem settleAll_eq (fault : ChannelFault) (table : List (UInt64 × Waiter τ)) (c : Correlator τ) :
    settleAll fault table c =
      ({ c with received := c.received ++ relayed fault table },
        (completions table).map fun t => ⟨t, .error fault, false⟩) := by
  refine Prod.ext ?_ (settleAll_fired fault table c)
  induction table generalizing c with
  | nil => simp [settleAll, relayed]
  | cons p table ih =>
      obtain ⟨k, w⟩ := p
      have hsplit : (settleAll fault ((k, w) :: table) c).1 =
          (settleAll fault table (c.settle k w (.error fault)).1).1 := rfl
      rw [hsplit, ih]
      cases w <;> simp [settle, relayed]

/-- Closing empties the table and fires every completion that stood there. -/
theorem close_eq (c : Correlator τ) :
    c.close.value =
      ({ c with closed := true, pending := [], received := c.received ++ relayed .closed c.pending },
        (completions c.pending).map fun t => ⟨t, .error .closed, false⟩) := by
  have hvalue : c.close.value =
      settleAll .closed c.pending { c with closed := true, pending := [] } := by
    unfold close
    split <;> rfl
  rw [hvalue, settleAll_eq]

theorem close_value (c : Correlator τ) :
    ∃ received, c.close.value =
      ({ c with closed := true, pending := [], received := received },
        (completions c.pending).map fun t => ⟨t, .error .closed, false⟩) :=
  ⟨_, close_eq c⟩

/-- The end of an asynchronous send: nothing is left to do unless the sink has refused the frame and
the completion still stands in the table. -/
theorem finishAsync_cases (c : Correlator τ) (seq : UInt64) (v : Verdict) :
    ((c.finishAsync seq v).correlator = c ∧ (c.finishAsync seq v).fired = none ∧
      (c.finishAsync seq v).result = v ∧
      (v = .ok () ∨ ∀ t, c.pending.lookup seq ≠ some (.completion t))) ∨
    ∃ fault t, v = .error fault ∧ c.pending.lookup seq = some (.completion t) ∧
      c.finishAsync seq v =
        ⟨{ c with pending := without seq c.pending }, some ⟨t, .error fault, true⟩, v⟩ := by
  cases v with
  | ok u => exact .inl ⟨rfl, rfl, rfl, .inl rfl⟩
  | error fault =>
      cases hfind : c.pending.lookup seq with
      | none => exact .inl (by simp [finishAsync, hfind])
      | some w =>
          cases w with
          | completion t => exact .inr ⟨fault, t, rfl, rfl, by simp [finishAsync, hfind]⟩
          | relay => exact .inl (by simp [finishAsync, hfind])

/-- The end of a synchronous send fires its completion and leaves nothing of it behind. -/
theorem finishSync_value (c : Correlator τ) (seq : UInt64) (t : τ) (v : Verdict) :
    ∃ outcome, (c.finishSync seq t v).value =
      ⟨{ c with pending := without seq c.pending, received := without seq c.received },
        some ⟨t, outcome, false⟩, v⟩ := by
  cases v with
  | error fault => exact ⟨_, rfl⟩
  | ok u =>
      cases hfind : c.received.lookup seq with
      | some o => exact ⟨o, by simp [finishSync, hfind]⟩
      | none => exact ⟨.error .timeout, by simp [finishSync, hfind]⟩

end Correlator

end RemoteInspector
