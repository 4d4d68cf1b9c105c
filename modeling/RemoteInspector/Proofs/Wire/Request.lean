import RemoteInspector.Proofs.Wire.Frame
import RemoteInspector.Wire.Request

/-!
Every request that is short enough for a frame is read back from the frame that is written for it.
Its numbers are whole and of 64 bits, so nothing depends on how reals are printed.
-/

namespace RemoteInspector.Request

open Json Text

/-! ### Requests are well formed -/

theorem fits_ofUInt64 (depth : Nat) (n : UInt64) : Fits Number.InRange (depth + 1) (.ofUInt64 n) :=
  inRange_toNat n

theorem sorted_three {a b c : String × Json} (hab : a.1 < b.1) (hbc : b.1 < c.1) :
    Sorted [a, b, c] := by
  refine List.pairwise_cons.2 ⟨?_, List.pairwise_pair.2 hbc⟩
  simp only [List.forall_mem_cons, List.not_mem_nil, false_implies, implies_true, and_true]
  exact ⟨hab, String.lt_trans hab hbc⟩

theorem fits_arguments {r : Request} {v : Json} (h : r.arguments? = some v) :
    v ≠ .null ∧ Fits Number.InRange (depthLimit - 1) v := by
  cases r with
  | lookup handles inlineRefs =>
      have hfirst : "handles" < "includeSource" := by decide
      have hsecond : "includeSource" < "inlineRefs" := by decide
      cases h
      refine ⟨nofun, by decide, sorted_three hfirst hsecond, ?_⟩
      simp only [List.forall_mem_cons, List.not_mem_nil, false_implies, implies_true, and_true]
      exact ⟨⟨by decide, List.forall_mem_map.2 fun h _ => fits_ofUInt64 _ h⟩, trivial, trivial⟩
  | backtrace first last inlineRefs =>
      have hfirst : "fromFrame" < "inlineRefs" := by decide
      have hsecond : "inlineRefs" < "toFrame" := by decide
      cases h
      refine ⟨nofun, by decide, sorted_three hfirst hsecond, ?_⟩
      simp only [List.forall_mem_cons, List.not_mem_nil, false_implies, implies_true, and_true]
      exact ⟨fits_ofUInt64 _ _, trivial, fits_ofUInt64 _ _⟩
  | resume => cases h

theorem wellFormed_envelope (r : Request) (seq : UInt64) : (r.envelope seq).WellFormed where
  arguments _ := fits_arguments
  body := nofun
  refs := nofun

theorem realsOfItems_ofUInt64 (ns : List UInt64) : realsOfItems (ns.map Json.ofUInt64) = [] := by
  induction ns with
  | nil => rfl
  | cons n ns ih => exact ih

theorem reals_envelope (r : Request) (seq : UInt64) : (r.envelope seq).reals = [] := by
  cases r with
  | lookup handles inlineRefs =>
      show realsOfItems (handles.map Json.ofUInt64) ++ [] ++ [] = []
      rw [realsOfItems_ofUInt64]
      rfl
  | backtrace first last inlineRefs => rfl
  | resume => rfl

/-! ### The frame of a request -/

/-- The frame that is written for a request holds the request, whatever bytes follow it. -/
theorem read_frame {r : Request} {seq : UInt64} {frame : String}
    (h : (r.envelope seq).encodeText = .ok frame) :
    ∃ f, (r.envelope seq).CarriedBy f ∧
      ∀ t, Frame.read (utf8 frame ++ t) = .ok (some (f, t)) := by
  have hreals : ∀ x ∈ (r.envelope seq).reals, (Number.real x).IsReproducible := by
    simp [reals_envelope]
  have hsize : (r.envelope seq).text.utf8ByteSize ≤ Frame.maxBody := by
    refine Nat.not_lt.1 fun hlarge => ?_
    rw [Envelope.encodeText, if_pos hlarge] at h
    cases h
  have hreceived := (Envelope.received_iff hreals).2 (wellFormed_envelope r seq)
  have hbytes : (r.envelope seq).frameBytes = utf8 frame := by
    have hencode := Envelope.encode_eq hsize
    rw [Envelope.encode, h] at hencode
    exact (Except.ok.inj hencode).symm
  rw [← hbytes]
  exact ⟨.ofText (r.envelope seq).text, Envelope.carriedBy_ofText ⟨hreceived, hsize, hreals⟩,
    Envelope.read_frameBytes hsize⟩

end RemoteInspector.Request
