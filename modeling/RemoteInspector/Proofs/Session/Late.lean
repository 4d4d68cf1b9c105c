import RemoteInspector.Session.Debugger
import RemoteInspector.Proofs.Session.Inquiry

/-!
Late outcomes are inert. An outcome that comes when the cache is no longer of the generation in which
who asked was made leaves the session as it was, whatever it brings, and nothing is sent.

A node belongs to the generation of the frame that it is found under. That is the generation it was
made in, except for the children that a node of an earlier suspension is still given; these are made
later than the generation they belong to, and it makes no difference here which of the two is meant.
-/

namespace RemoteInspector

namespace Inquiry

/-- A move of the run has made the node or frame while the cache was of this generation. -/
def BornIn (options : LookupOptions) (moves : List Move) (o : Owner) (g : Nat) : Prop :=
  ∃ before m later, moves = before ++ m :: later ∧
    (run options before).session.generationOf o = none ∧
    ((run options (before ++ [m])).session.generationOf o).isSome ∧
    (run options before).session.cache.generation = g

/-- What is made in a generation belongs to that or to an earlier one, and the present generation is
none before it. -/
theorem BornIn.le {options : LookupOptions} {moves : List Move} {o : Owner} {g belongs : Nat}
    (h : BornIn options moves o g)
    (hbelongs : (run options moves).session.generationOf o = some belongs) :
    belongs ≤ g ∧ g ≤ (run options moves).session.cache.generation := by
  obtain ⟨before, m, later, rfl, hnone, hsome, rfl⟩ := h
  have hbefore := coherent_run options before
  have hstep : run options (before ++ [m]) = (run options before).step m :=
    run_append options before [m]
  have hrest : run options (before ++ m :: later) = ((run options before).step m).after later :=
    run_append options before (m :: later)
  rw [hstep] at hsome
  obtain ⟨belongs', hmade⟩ := Option.isSome_iff_exists.1 hsome
  -- The end of a suspension makes nothing.
  have hgoes : ¬m.Ends := by
    intro hends
    obtain ⟨current, table, hends⟩ := step_ends hends
    rw [hends] at hmade
    have hsame : (run options before).session.generationOf o = some belongs' := hmade
    rw [hnone] at hsame
    cases hsame
  have hgen := step_generation hbefore hgoes
  have hafter := step_coherent hbefore m
  have hkeeps := Session.generationOf_mono (after_grows hafter later) hmade
  rw [hrest] at hbelongs ⊢
  rw [hbelongs] at hkeeps
  obtain rfl := Option.some.inj hkeeps
  rw [← hgen]
  exact ⟨hafter.dated.generationOf_le hmade, after_generation_le hafter later⟩

/-- Let a lookup be under way at any point of a run, asked for by a node or frame that was made in or
belongs to the generation `g`. When the cache is of another generation, no outcome of the lookup
changes the session or sends a request; it only is no longer under way. -/
theorem late_outcome_inert (options : LookupOptions) (moves : List Move) (place : Nat) (q : Query)
    (g : Nat) (hq : (run options moves).underWay[place]? = some q)
    (hg : BornIn options moves q.asker g ∨
      (run options moves).session.generationOf q.asker = some g)
    (hlate : (run options moves).session.cache.generation ≠ g) (o : Outcome) :
    (run options moves).step (.settle place o) =
      { run options moves with underWay := (run options moves).underWay.eraseIdx place } := by
  have hasked := (coherent_run options moves).asked q (List.mem_of_getElem? hq)
  have hstale : q.lookup.waiting.generation ≠ (run options moves).session.cache.generation := by
    rcases hg with hborn | hbelongs
    · obtain ⟨hle, hle'⟩ := hborn.le hasked
      omega
    · rw [hasked] at hbelongs
      obtain rfl := Option.some.inj hbelongs
      exact Ne.symm hlate
  simp only [step, hq, Session.deliver_stale hstale]
  rfl

/-- A variable asks for its value, the machine goes on and halts anew, and the frame of the new
suspension has a variable with the same handle. -/
def resumedMoves : List Move :=
  [.createFrame 0 "main" [⟨"x", { handle := some 7 }⟩], .expand 0, .retire,
    .createFrame 0 "main" [⟨"y", { handle := some 7 }⟩]]

theorem late_outcome_inert_resumed :
    (run {} resumedMoves).step (.settle 0 (.ok (.response 1 "lookup" true (some (.object
        [("7", .object [("type", .string "string"), ("value", .string "late")])]))))) =
      { run {} resumedMoves with underWay := [] } := by
  have hborn : BornIn {} resumedMoves (.node 0) 0 :=
    ⟨[], _, _, rfl, rfl, rfl, rfl⟩
  exact late_outcome_inert {} resumedMoves 0 ⟨.node 0, ⟨[7], .own 0 0 7⟩⟩ 0 rfl (.inl hborn)
    (by decide) _

end Inquiry

namespace Debugger

/-- A debugger drops what comes for an earlier suspension, whichever way its channel brings it. -/
theorem fire_late (issue : Issue) (d : Debugger) {w : Waiting} (o : Outcome)
    (hlate : w.generation ≠ d.session.cache.generation) :
    (d.fire issue (.lookup w) o).value = d := by
  simp only [fire, Logged.value_bind, Session.deliver_stale hlate]
  rfl

end Debugger

end RemoteInspector
