import Mathlib.Data.List.Find
import Mathlib.Data.List.Forall2
import Mathlib.Data.List.Nodup
import RemoteInspector.Proofs.Session.Captured

/-!
Frames by their index. The machine reports numbers of 64 bits for the indices, lines and columns of
frames and a frame keeps the lower 32 of them, so an index that is too wide stands for another one,
and the first frame that stands for an index is found under it.
-/

namespace RemoteInspector

/-- The number that the machine reports for a frame under this member. -/
def StackFrame.reported (member : String) (v : Json) : Option UInt64 :=
  (v.get? member).bind Json.uint64?

/-- The number that is reported under this member, if any, has no more than 32 bits. -/
def StackFrame.Fits (member : String) (v : Json) : Prop :=
  ∀ n, StackFrame.reported member v = some n → n.toNat < UInt32.size

/-- A call frame shows what was reported for it, with each number reduced to 32 bits. -/
structure CallFrame.Shows (f : CallFrame) (v : Json) : Prop where
  index : some f.index = (StackFrame.reported "index" v).map (·.toUInt32)
  function : f.function = StackFrame.functionOfJson v
  line : f.line = (StackFrame.reported "line" v).map (·.toUInt32)
  column : f.column = (StackFrame.reported "column" v).map (·.toUInt32)
  source : f.source = (v.get? "sourceLineText").bind Json.string?

/-- Numbers of 64 bits survive the reduction if they have no more than 32. -/
theorem toUInt32_eq_iff_of_lt {n : UInt64} {i : UInt32} (hn : n.toNat < UInt32.size) :
    n.toUInt32 = i ↔ n = i.toUInt64 := by
  rw [← UInt32.toNat_inj, ← UInt64.toNat_inj, UInt64.toNat_toUInt32, UInt32.toNat_toUInt64,
    Nat.mod_eq_of_lt hn]

namespace Session

variable {s : Session} {entries : List (FrameId × UInt64)} {i : UInt32}

/-- The current frames with the indices that were reported for them. -/
structure Indexed (s : Session) (entries : List (FrameId × UInt64)) : Prop where
  current : s.current = entries.map Prod.fst
  distinct : (entries.map Prod.fst).Nodup
  index : ∀ e ∈ entries, ∃ f, s.callFrame? e.1 = some f ∧ f.index = e.2.toUInt32

def firstEntry (i : UInt32) (entries : List (FrameId × UInt64)) : Option (FrameId × UInt64) :=
  entries.find? fun e => e.2.toUInt32 == i

theorem Indexed.findFrame (h : s.Indexed entries) (i : UInt32) :
    s.findFrame i = match firstEntry i entries with
      | some e => .ok e.1
      | none => .error (.unknownFrame i) := by
  have hfirst : (s.current.find? fun id => (s.callFrame? id).any fun f => f.index == i) =
      (firstEntry i entries).map Prod.fst := by
    rw [h.current, List.find?_map, firstEntry]
    congr 1
    apply List.find?_congr
    intro e he
    obtain ⟨f, hf, hindex⟩ := h.index e he
    simp [hf, hindex]
  rw [Session.findFrame, hfirst]
  cases firstEntry i entries <;> rfl

/-- Frames are found under the indices that were reported for them, if these have 32 bits, and no
frame is found under another index. -/
structure FindsReported (s : Session) (entries : List (FrameId × UInt64)) : Prop where
  reported : ∀ i id, (id, i.toUInt64) ∈ entries → s.findFrame i = .ok id
  unreported : ∀ i, i.toUInt64 ∉ entries.map Prod.snd → s.findFrame i = .error (.unknownFrame i)

/-- Every index that is too wide comes after the one that it is reduced to. -/
def WideShadowed (indices : List UInt64) : Prop :=
  ∀ before n after, indices = before ++ n :: after → UInt32.size ≤ n.toNat →
    n.toUInt32.toUInt64 ∈ before

/-- An entry stands for an index if it reports it, or if the index was reported before it. -/
theorem WideShadowed.reports {indices before after : List UInt64} {n : UInt64}
    (h : WideShadowed indices) (hindices : indices = before ++ n :: after) (hn : n.toUInt32 = i) :
    n = i.toUInt64 ∨ i.toUInt64 ∈ before := by
  rcases Nat.lt_or_ge n.toNat UInt32.size with hfits | hwide
  · exact .inl ((toUInt32_eq_iff_of_lt hfits).1 hn)
  · exact .inr (hn ▸ h before n after hindices hwide)

theorem Indexed.findsReported (h : s.Indexed entries) (hdistinct : (entries.map Prod.snd).Nodup)
    (hwide : WideShadowed (entries.map Prod.snd)) : s.FindsReported entries where
  reported i id hmem := by
    obtain ⟨before, after, rfl⟩ := List.append_of_mem hmem
    rw [List.map_append, List.map_cons, List.nodup_middle, List.nodup_cons] at hdistinct
    have hnew : i.toUInt64 ∉ before.map Prod.snd := fun hi =>
      hdistinct.1 (List.mem_append_left _ hi)
    have hfirst : firstEntry i (before ++ (id, i.toUInt64) :: after) = some (id, i.toUInt64) := by
      refine List.find?_eq_some_iff_append.2 ⟨by simp, before, after, rfl, fun e he => ?_⟩
      rw [Bool.not_eq_true', beq_eq_false_iff_ne]
      intro hnarrow
      -- an entry that comes first and stands for the index would have it reported once more
      obtain ⟨front, back, rfl⟩ := List.append_of_mem he
      rw [List.map_append, List.map_cons] at hnew
      rcases hwide.reports (by simp; rfl) hnarrow with heq | hi
      · exact hnew (List.mem_append_right _ (heq ▸ List.mem_cons_self))
      · exact hnew (List.mem_append_left _ hi)
    rw [h.findFrame, hfirst]
  unreported i hnot := by
    have hfirst : firstEntry i entries = none := by
      refine List.find?_eq_none.2 fun e he hnarrow => ?_
      obtain ⟨front, back, rfl⟩ := List.append_of_mem he
      rw [List.map_append, List.map_cons] at hnot
      rcases hwide.reports List.map_append (beq_iff_eq.1 hnarrow) with heq | hi
      · exact hnot (List.mem_append_right _ (heq ▸ List.mem_cons_self))
      · exact hnot (List.mem_append_left _ hi)
    rw [h.findFrame, hfirst]

theorem Indexed.wideShadowed (h : s.Indexed entries) (hfinds : s.FindsReported entries) :
    WideShadowed (entries.map Prod.snd) := by
  intro before n after hindices hwide
  obtain ⟨front, rest, rfl, rfl, hrest⟩ := List.map_eq_append_iff.1 hindices
  obtain ⟨⟨id, m⟩, back, rfl, rfl, -⟩ := List.map_eq_cons_iff.1 hrest
  have hfirst : ∃ e, firstEntry m.toUInt32 (front ++ (id, m) :: back) = some e ∧
      (e ∈ front ∨ e = (id, m)) := by
    rw [firstEntry, List.find?_append]
    cases hfront : front.find? fun e => e.2.toUInt32 == m.toUInt32 with
    | some e => exact ⟨e, rfl, .inl (List.mem_of_find?_eq_some hfront)⟩
    | none => exact ⟨(id, m), by simp, .inr rfl⟩
  obtain ⟨e, hfound, he⟩ := hfirst
  have hframe := h.findFrame m.toUInt32
  rw [hfound] at hframe
  by_cases hreported : m.toUInt32.toUInt64 ∈ (front ++ (id, m) :: back).map Prod.snd
  · -- what is found is the entry that reports the index, and that is not the wide one
    obtain ⟨e', he', hindex⟩ := List.mem_map.1 hreported
    have hid : e'.1 = e.1 := by
      have hfinds := hfinds.reported m.toUInt32 e'.1 (hindex ▸ he')
      rw [hframe] at hfinds
      exact (Except.ok.inj hfinds).symm
    have hmem : e ∈ front ++ (id, m) :: back := List.mem_of_find?_eq_some hfound
    obtain rfl := List.inj_on_of_nodup_map h.distinct he' hmem hid
    rcases he with he | rfl
    · exact hindex ▸ List.mem_map_of_mem he
    · have hle : m.toNat < UInt32.size := by
        rw [show m = m.toUInt32.toUInt64 from hindex, UInt32.toNat_toUInt64]
        exact m.toUInt32.toNat_lt_size
      exact absurd hle (Nat.not_lt.2 hwide)
  · have hnone := hfinds.unreported _ hreported
    rw [hframe] at hnone
    cases hnone

/-- A number that a frame reports is kept just if it fits. -/
theorem kept_iff_fits (member : String) (v : Json) :
    ((StackFrame.reported member v).map (·.toUInt32)).map (·.toUInt64) =
      StackFrame.reported member v ↔ StackFrame.Fits member v := by
  unfold StackFrame.Fits
  cases StackFrame.reported member v with
  | none => exact iff_of_true rfl nofun
  | some m =>
      constructor
      · intro hkept k hk
        obtain rfl := Option.some.inj hk
        rw [← Option.some.inj hkept, UInt32.toNat_toUInt64]
        exact m.toUInt32.toNat_lt_size
      · intro hfits
        exact congrArg some ((toUInt32_eq_iff_of_lt (hfits m rfl)).1 rfl).symm

/-- The call frame with this number shows what was reported. -/
def ShowsAt (s : Session) (id : FrameId) (v : Json) : Prop :=
  ∃ f, s.callFrame? id = some f ∧ f.Shows v

theorem Enters.showsAt {id : FrameId} {k : Nat} {v : Json} {n : UInt64}
    (h : s.Enters id (StackFrame.ofJson k v)) (hn : StackFrame.reported "index" v = some n) :
    s.ShowsAt id v := by
  obtain ⟨start, hf, -⟩ := h
  refine ⟨_, hf, ?_, rfl, rfl, rfl, rfl⟩
  show some (((StackFrame.reported "index" v).map (·.toUInt32)).getD _) = _
  rw [hn]
  rfl

/-- The numbers of frames go with the indices that these report. -/
theorem forall₂_index {ids : List FrameId} {frames : List Json} {indices : List UInt64}
    (h : List.Forall₂ s.ShowsAt ids frames)
    (hindices : frames.map (StackFrame.reported "index") = indices.map some) :
    List.Forall₂ (fun id n => ∃ f, s.callFrame? id = some f ∧ f.index = n.toUInt32) ids indices := by
  induction h generalizing indices with
  | nil =>
      cases indices with
      | nil => exact .nil
      | cons n indices => cases hindices
  | cons hfirst _ ih =>
      cases indices with
      | nil => cases hindices
      | cons n indices =>
          obtain ⟨hn, hrest⟩ := List.cons.inj hindices
          obtain ⟨f, hf, hshows⟩ := hfirst
          have hindex := hshows.index
          rw [hn] at hindex
          exact .cons ⟨f, hf, Option.some.inj hindex⟩ (ih hrest)

/-- The first frame is found whose index is reduced to the one that is asked for. So frames are found
under the indices they report, and under these only, just if every index that is too wide comes after
the one it is reduced to; lines and columns are kept just if they fit. -/
theorem frames_found_by_reduced_index (s : Session) {body : Json} (refs : List Json)
    {frames : List Json} {indices : List UInt64}
    (hframes : (body.get? "frames").getD (.array []) = .array frames)
    (hindices : frames.map (StackFrame.reported "index") = indices.map some)
    (hdistinct : indices.Nodup) :
    ∃ ids s', (s.materialize body refs).value = .ok (ids, s') ∧ s'.current = ids ∧
      List.Forall₂ (fun id v => ∃ f, s'.callFrame? id = some f ∧ f.Shows v ∧
        (f.line.map (·.toUInt64) = StackFrame.reported "line" v ↔ StackFrame.Fits "line" v) ∧
        (f.column.map (·.toUInt64) = StackFrame.reported "column" v ↔
          StackFrame.Fits "column" v)) ids frames ∧
      (∀ i, s'.findFrame i = match firstEntry i (ids.zip indices) with
        | some e => .ok e.1
        | none => .error (.unknownFrame i)) ∧
      (s'.FindsReported (ids.zip indices) ↔ WideShadowed indices) := by
  have hlist : StackFrame.listOfJson body = .ok (frames.mapIdx StackFrame.ofJson) := by
    unfold StackFrame.listOfJson
    cases hbody : body.get? "frames" with
    | none =>
        rw [hbody] at hframes
        cases hframes
        rfl
    | some v =>
        rw [hbody] at hframes
        cases hframes
        rfl
  obtain ⟨ids, s', hvalue, htakes⟩ := s.materialize_takes refs hlist
  have hshows : List.Forall₂ s'.ShowsAt ids frames := by
    rw [htakes.numbers, List.length_mapIdx]
    refine forall₂_range' fun k v hv => ?_
    have hn : ∃ n, StackFrame.reported "index" v = some n := by
      have hmem : StackFrame.reported "index" v ∈ indices.map some :=
        hindices ▸ List.mem_map_of_mem (List.mem_of_getElem? hv)
      obtain ⟨n, -, hn⟩ := List.mem_map.1 hmem
      exact ⟨n, hn.symm⟩
    obtain ⟨n, hn⟩ := hn
    exact (htakes.enters k _ (by rw [List.getElem?_mapIdx, hv]; rfl)).showsAt hn
  have hentries := forall₂_index hshows hindices
  have hfst : (ids.zip indices).map Prod.fst = ids := List.map_fst_zip hentries.length_eq.le
  have hsnd : (ids.zip indices).map Prod.snd = indices := List.map_snd_zip hentries.length_eq.ge
  have hindexed : s'.Indexed (ids.zip indices) :=
    ⟨htakes.current.trans hfst.symm, hfst.symm ▸ htakes.nodup,
      fun e he => List.forall₂_zip hentries he⟩
  refine ⟨ids, s', hvalue, htakes.current, ?_, hindexed.findFrame, fun hfinds => ?_, fun hwide => ?_⟩
  · refine hshows.imp fun id v hv => ?_
    obtain ⟨f, hf, hshown⟩ := hv
    refine ⟨f, hf, hshown, ?_, ?_⟩
    · rw [hshown.line]
      exact kept_iff_fits "line" v
    · rw [hshown.column]
      exact kept_iff_fits "column" v
  · exact hsnd ▸ hindexed.wideShadowed hfinds
  · exact hindexed.findsReported (hsnd.symm ▸ hdistinct) (hsnd.symm ▸ hwide)

def stackFrameJson (function : String) (index line : Int) : Json :=
  .object [("func", .object [("name", .string function)]), ("index", .number (.integer index)),
    ("line", .number (.integer line))]

/-- The indices of the last frames are too wide, and so is the line of the first one. -/
def shadowedFrames : List Json :=
  [stackFrameJson "top" 7 4294967301, stackFrameJson "far" 4294967303 0,
    stackFrameJson "farther" 8589934599 1]

/-- Both wide indices are reduced to the first one, so that all frames are found where they should
be; the line is not the one that was reported. -/
theorem frames_found_by_reduced_index_shadowed :
    ∃ ids s', (({} : Session).materialize (.object [("frames", .array shadowedFrames)]) []).value =
        .ok (ids, s') ∧
      s'.FindsReported (ids.zip [7, 4294967303, 8589934599]) ∧
      List.Forall₂ (fun id v => ∃ f, s'.callFrame? id = some f ∧
        (f.line.map (·.toUInt64) = StackFrame.reported "line" v ↔ StackFrame.Fits "line" v))
        ids shadowedFrames ∧
      ¬ StackFrame.Fits "line" (stackFrameJson "top" 7 4294967301) := by
  have hframes : ((Json.object [("frames", .array shadowedFrames)]).get? "frames").getD (.array []) =
      .array shadowedFrames := rfl
  have hindices : shadowedFrames.map (StackFrame.reported "index") =
      [7, 4294967303, 8589934599].map some := by decide
  have hwide : WideShadowed [7, 4294967303, 8589934599] := by
    intro before n after hsplit hwide
    rcases before with _ | ⟨a, _ | ⟨b, _ | ⟨c, before⟩⟩⟩
    · cases hsplit
      exact absurd hwide (by decide)
    · cases hsplit
      decide
    · cases hsplit
      decide
    · simp at hsplit
  obtain ⟨ids, s', hvalue, -, hshows, -, hfinds⟩ :=
    frames_found_by_reduced_index ({} : Session) [] hframes hindices (by decide)
  refine ⟨ids, s', hvalue, hfinds.2 hwide, hshows.imp fun id v hv => ?_, fun hfits => ?_⟩
  · obtain ⟨f, hf, -, hline, -⟩ := hv
    exact ⟨f, hf, hline⟩
  · exact absurd (hfits 4294967301 (by decide)) (by decide)

/-- A frame whose index is too wide, and the frame that it is taken for. -/
def collidingBody : Json :=
  .object [("frames", .array [stackFrameJson "far" 4294967296 0, stackFrameJson "top" 0 0])]

/-- Under the index that one frame reports another one is found. -/
theorem wide_index_hides_frame :
    ∃ ids s', (({} : Session).materialize collidingBody []).value = .ok (ids, s') ∧
      ∃ id f, s'.findFrame 0 = .ok id ∧ s'.callFrame? id = some f ∧ f.function = "far" :=
  ⟨_, _, rfl, 0, _, rfl, rfl, rfl⟩

end Session

end RemoteInspector
