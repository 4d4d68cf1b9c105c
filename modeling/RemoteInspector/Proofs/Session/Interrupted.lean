import RemoteInspector.Proofs.Session.Captured
import RemoteInspector.Proofs.Session.Schedule

/-!
Operations of two steps. Whoever asks for a backtrace, or tells the machine to go on, first sends a
request, and does the rest after the send has returned. In between the session may be told that the
machine has resumed or halted anew, and frames of another suspension may be made. Lookups remember the
generation that they were sent in; the second step of these two operations does not, and goes by the
suspension that it finds: a backtrace is taken up whatever has ended since it was asked for, and a
resume retires whatever has begun since.
-/

namespace RemoteInspector

namespace Inquiry

/-- Whether a move ends the suspension is seen from the move. -/
instance decidableEnds : DecidablePred Move.Ends
  | .message e => decEq (Session.endsSuspension e) true
  | .retire | .invalidate => .isTrue trivial
  | .createFrame .. | .materialize .. | .expand _ | .ensureProperties .. | .ensureVariables _
  | .settle .. | .name _ | .absorb .. | .store .. | .hold .. => .isFalse id

def ended (moves : List Move) : Nat := moves.countP (·.Ends)

theorem after_generation_ended {w : Inquiry} (hw : w.Coherent) (moves : List Move) :
    (w.after moves).session.cache.generation = w.session.cache.generation + ended moves := by
  induction moves generalizing w with
  | nil => rfl
  | cons m moves ih =>
      have hrest := ih (step_coherent hw m)
      have hcount : ended (m :: moves) = ended moves + if m.Ends then 1 else 0 := by
        simp [ended, List.countP_cons]
      show ((w.step m).after moves).session.cache.generation = _
      rw [hrest, hcount]
      by_cases hm : m.Ends
      · rw [step_generation_ends hm, if_pos hm]
        omega
      · rw [step_generation hw hm, if_neg hm, Nat.add_zero]

theorem run_generation_ended (options : LookupOptions) (before between : List Move) :
    (run options (before ++ between)).session.cache.generation =
      (run options before).session.cache.generation + ended between := by
  rw [run_append]
  exact after_generation_ended (coherent_run options before) between

/-! ### Backtraces -/

/-- An outcome that tells frames, with the payloads that come along. -/
def Tells (o : Option Outcome) (frames : List StackFrame) (refs : List Payload) : Prop :=
  ∃ e, o = some (.ok e) ∧ e.isSuccessful = true ∧
    StackFrame.listOfJson (e.body.getD .null) = .ok frames ∧ Payload.ofRefs (e.refs.getD []) = refs

/-- Let a backtrace be asked for, and its outcome be processed after any other moves. If it tells frames,
these are taken up as frames of the suspension that is current by then, as many suspensions after the
one it was asked for in as have ended in between, and the payloads that have come along are cached.
Otherwise there is an error, and no other session. -/
theorem backtrace_joins_present_suspension (options : LookupOptions) (before between : List Move)
    (o : Option Outcome) :
    let sent := (run options before).session
    let found := (run options (before ++ between)).session
    (∀ frames refs, Tells o frames refs → ∃ ids s',
      (found.finishBacktrace o).value = .ok (ids, s') ∧ found.Takes frames refs ids s' ∧
        s'.current = ids ∧ ids.length = frames.length ∧
        ∀ id ∈ ids, ∃ f, s'.callFrame? id = some f ∧
          f.generation = sent.cache.generation + ended between ∧
          s'.isCurrent f.generation = true) ∧
    ((∀ frames refs, ¬Tells o frames refs) → ∃ e, (found.finishBacktrace o).value = .error e) := by
  intro sent found
  have hgen := run_generation_ended options before between
  refine ⟨?_, fun hnone => ?_⟩
  · rintro frames refs ⟨e, rfl, hok, hframes, rfl⟩
    obtain ⟨ids, s', hvalue, htakes⟩ := found.materialize_takes (e.refs.getD []) hframes
    have hlength : ids.length = frames.length := by rw [htakes.numbers, List.length_range']
    refine ⟨ids, s', ?_, htakes, htakes.current, hlength, fun id hid => ?_⟩
    · simp only [Session.finishBacktrace, hok, if_true, hvalue]
    · rw [htakes.numbers] at hid
      obtain ⟨i, hi, rfl⟩ := List.mem_range'.1 hid
      rw [Nat.one_mul]
      obtain ⟨start, hframe, -⟩ := htakes.enters i frames[i] (List.getElem?_eq_getElem hi)
      refine ⟨_, hframe, htakes.generation.trans hgen, ?_⟩
      exact beq_self_eq_true _
  · unfold Session.finishBacktrace
    split
    · exact ⟨_, rfl⟩
    · exact ⟨_, rfl⟩
    · next e =>
      split
      · next hok =>
        cases hframes : StackFrame.listOfJson (e.body.getD .null) with
        | ok frames => exact (hnone frames _ ⟨e, rfl, hok, hframes, rfl⟩).elim
        | error err => exact ⟨_, found.materialize_refuses _ hframes⟩
      · exact ⟨_, rfl⟩

def oneFrame : Envelope :=
  let frame : Json := .object [("index", .number (.integer 0))]
  let payload : Json := .object [("handle", .number (.integer 7)), ("type", .string "object")]
  { Envelope.response 1 "backtrace" true (some (.object [("frames", .array [frame])])) with
    refs := some [payload] }

theorem backtrace_joins_present_suspension_resumed :
    let found := (run {} ([] ++ [.retire])).session
    ∃ ids s', (found.finishBacktrace (some (.ok oneFrame))).value = .ok (ids, s') ∧
      s'.current = ids ∧ ids.length = 1 ∧ ∀ id ∈ ids, ∃ f, s'.callFrame? id = some f ∧
        f.generation = (run {} []).session.cache.generation + ended [.retire] ∧
        s'.isCurrent f.generation = true := by
  have htells : Tells (some (.ok oneFrame)) [{ index := 0, function := StackFrame.anonymous }]
      [{ handle := some 7, tag := some "object" }] :=
    ⟨oneFrame, rfl, rfl, by decide +kernel, by decide +kernel⟩
  obtain ⟨ids, s', hvalue, -, hall⟩ :=
    (backtrace_joins_present_suspension {} [] [.retire] (some (.ok oneFrame))).1 _ _ htells
  exact ⟨ids, s', hvalue, hall⟩

/-- A backtrace does not keep to the suspension that it was asked for in: its frame is current and valid
in the next one, and what came along is cached there. -/
theorem backtrace_outlives_its_suspension :
    let found := (run {} [.retire]).session
    found.cache.generation ≠ (run {} []).session.cache.generation ∧
      ∃ s', (found.finishBacktrace (some (.ok oneFrame))).value = .ok ([0], s') ∧
        s'.current = [0] ∧ s'.current ≠ found.current ∧
        (∃ f, s'.callFrame? 0 = some f ∧ s'.isCurrent f.generation = true) ∧
        s'.cache.contains 7 = true ∧ found.cache.contains 7 = false := by
  refine ⟨by decide, _, by rfl, ?_⟩
  exact ⟨rfl, by decide, ⟨_, rfl, rfl⟩, rfl, rfl⟩

/-! ### Resuming -/

/-- Let the machine be told to go on, and the suspension be retired after any other moves. Then nothing
is left of whatever has been captured until that moment: no frame is current and nothing is cached, all
frames and nodes are still there and none of them is valid any more. -/
theorem resume_retires_present_suspension (options : LookupOptions) (before between : List Move) :
    let sent := (run options before).session
    let found := (run options (before ++ between)).session
    let left := (run options (before ++ between ++ [.retire])).session
    left.cache.generation = sent.cache.generation + ended between + 1 ∧
      left.current = [] ∧ (∀ h, left.cache.get? h = none) ∧
      left.callFrames = found.callFrames ∧ left.nodes = found.nodes ∧
      (∀ id f, left.callFrame? id = some f → left.isCurrent f.generation = false) ∧
      ∀ id n, left.node? id = some n → left.isCurrent n.generation = false := by
  intro sent found left
  have hleft : left = found.retire.value := by
    show (run options (before ++ between ++ [.retire])).session = _
    rw [run_append options (before ++ between)]
    rfl
  have hgen : left.cache.generation = found.cache.generation + 1 := by
    rw [hleft]
    rfl
  have hdated := (coherent_run options (before ++ between)).dated
  have hpast : ∀ g, g ≤ found.cache.generation → left.isCurrent g = false := by
    intro g hg
    rw [← Bool.not_eq_true, Session.isCurrent_iff, hgen]
    omega
  refine ⟨?_, ?_, ?_, ?_, ?_, fun id f hf => ?_, fun id n hn => ?_⟩
  · rw [hgen, ← run_generation_ended options before between]
  · rw [hleft]
    rfl
  · intro h
    rw [hleft]
    rfl
  · rw [hleft]
    rfl
  · rw [hleft]
    rfl
  · rw [hleft] at hf
    exact hpast _ (hdated.frames id f hf)
  · rw [hleft] at hn
    exact hpast _ (hdated.nodes id n hn)

/-- The machine halts anew before the caller that has told it to go on does the rest, and frames of the
new suspension are taken up. -/
def haltedMoves : List Move :=
  [.message { kind := "event", event := some "break" }, .materialize (oneFrame.body.getD .null)
    (oneFrame.refs.getD [])]

/-- What was captured for a suspension that began while the machine was told to go on is dropped with
it. -/
theorem resume_drops_next_suspension :
    let sent := (run {} []).session
    let found := (run {} haltedMoves).session
    let left := (run {} (haltedMoves ++ [.retire])).session
    found.cache.generation = sent.cache.generation + 1 ∧ found.current = [0] ∧
      (∃ f, found.callFrame? 0 = some f ∧ found.isCurrent f.generation = true ∧
        left.callFrame? 0 = some f ∧ left.isCurrent f.generation = false) ∧
      found.cache.contains 7 = true ∧ left.cache.contains 7 = false ∧ left.current = [] :=
  ⟨rfl, rfl, ⟨_, rfl, rfl, rfl, rfl⟩, rfl, rfl, rfl⟩

end Inquiry

namespace Debugger

variable {x : Inquiry} {d : Debugger}

/-- What a debugger that asks for a backtrace does to its session is an instance of the two steps. -/
theorem requestBacktrace_in_two_steps (h : x.Tracks d []) (first last : UInt32) :
    ∃ between d', (x.after between).Tracks d' [] ∧ (d.requestBacktrace first last).value =
      match (d'.session.finishBacktrace d'.backtrace).value with
      | .error e => (.error e, d')
      | .ok (ids, s) => (.ok ids, d'.withSession s) := by
  have hbegin : Leads d [] { d with backtrace := none } [] := .of_channel rfl fun _ => Nat.le_refl _
  have hasked : Leads d [] (d.asked first last) [] := hbegin.trans (send_other_leads _ _ _ _ rfl)
  obtain ⟨between, -, htracks⟩ := hasked x h
  exact ⟨between, _, htracks, d.requestBacktrace_value first last⟩

/-- So is what it does when it tells the machine to go on. -/
theorem resume_in_two_steps (h : x.Tracks d []) : ∃ between d', ∃ v : Correlator.Verdict,
    (x.after between).Tracks d' [] ∧ d.resume.value =
      match v with
      | .error f => (.error (.channel f), d')
      | .ok () => (.ok (), d'.withSession d'.session.retire.value) := by
  have htold : Leads d [] d.toldToGoOn.1 [] := send_other_leads _ _ _ _ rfl
  obtain ⟨between, -, htracks⟩ := htold x h
  exact ⟨between, _, _, htracks, d.resume_value⟩

end Debugger

end RemoteInspector
