import Mathlib.Data.List.Forall2
import RemoteInspector.Proofs.Session.Holding

/-!
What is made of a backtrace. Its frames become call frames of the present generation, one after the
other, and the bindings that are shown become nodes that are numbered in a row for each frame. The
payloads that came along are cached beforehand, and everything older keeps its number and its content.
-/

namespace RemoteInspector

/-- The call frame that a reported frame becomes, if the nodes of its variables are numbered from
`start`. -/
def StackFrame.callFrame (f : StackFrame) (generation : Nat) (start : NodeId) : CallFrame :=
  { generation, index := f.index, function := f.function, line := f.line, column := f.column,
    source := f.source,
    roots := List.range' start (Session.shownBindings (f.arguments ++ f.locals)).length }

namespace Session

variable {s s' : Session}

/-- What is numbered in a row, number by number. -/
theorem forall₂_range' {α : Type} {R : Nat → α → Prop} {start : Nat} {xs : List α}
    (h : ∀ (i : Nat) x, xs[i]? = some x → R (start + i) x) :
    List.Forall₂ R (List.range' start xs.length) xs := by
  induction xs generalizing start with
  | nil => exact .nil
  | cons r xs ih =>
      refine .cons (h 0 r rfl) (ih fun i x hx => ?_)
      have hnext := h (i + 1) x hx
      rwa [Nat.add_comm i 1, ← Nat.add_assoc] at hnext

/-- The reported frame has become the call frame with this number, and its variables have become
nodes. -/
def Enters (s : Session) (id : FrameId) (f : StackFrame) : Prop :=
  ∃ start, s.callFrame? id = some (f.callFrame s.cache.generation start) ∧
    ∀ (i : Nat) b, (shownBindings (f.arguments ++ f.locals))[i]? = some b → s.node? (start + i) =
      some (Node.ofBinding s.cache.generation (.frame id) b.name b.value).value

structure Captures (s : Session) (frames : List StackFrame) (s' : Session) : Prop where
  nodes : ∃ news : List Node, s'.nodes = s.nodes ++ news.toArray
  callFrames : ∃ news : List CallFrame, news.length = frames.length ∧
    s'.callFrames = s.callFrames ++ news.toArray
  rest : s' = { s with nodes := s'.nodes, callFrames := s'.callFrames }
  enters : ∀ (i : Nat) f, frames[i]? = some f → s'.Enters (s.callFrames.size + i) f

theorem Captures.generation {frames : List StackFrame} (h : s.Captures frames s') :
    s'.cache = s.cache := by
  rw [h.rest]

theorem Captures.node? {frames : List StackFrame} (h : s.Captures frames s') {id : NodeId} {n : Node}
    (hn : s.node? id = some n) : s'.node? id = some n := by
  obtain ⟨news, hnews⟩ := h.nodes
  have hlt := lt_size_of_node? hn
  rw [Session.node?, hnews, Array.getElem?_append_left hlt]
  exact hn

theorem Captures.callFrame? {frames : List StackFrame} (h : s.Captures frames s') {id : FrameId}
    {f : CallFrame} (hf : s.callFrame? id = some f) : s'.callFrame? id = some f := by
  obtain ⟨news, -, hnews⟩ := h.callFrames
  obtain ⟨hlt, -⟩ := Array.getElem?_eq_some_iff.1 hf
  rw [Session.callFrame?, hnews, Array.getElem?_append_left hlt]
  exact hf

/-- A frame that has been entered stays so while others are. -/
theorem Enters.captures {frames : List StackFrame} {id : FrameId} {f : StackFrame}
    (h : s.Enters id f) (hs : s.Captures frames s') : s'.Enters id f := by
  obtain ⟨start, hframe, hnodes⟩ := h
  refine ⟨start, ?_, fun i b hb => ?_⟩
  · rw [hs.generation]
    exact hs.callFrame? hframe
  · rw [hs.generation]
    exact hs.node? (hnodes i b hb)

theorem Captures.refl (s : Session) : s.Captures [] s where
  nodes := ⟨[], by simp⟩
  callFrames := ⟨[], rfl, by simp⟩
  rest := rfl
  enters := nofun

theorem Captures.cons {f : StackFrame} {fs : List StackFrame} {t : Session} (h : s.Captures [f] t)
    (h' : t.Captures fs s') : s.Captures (f :: fs) s' where
  nodes := by
    obtain ⟨news, hnews⟩ := h.nodes
    obtain ⟨news', hnews'⟩ := h'.nodes
    exact ⟨news ++ news', by rw [hnews', hnews]; simp⟩
  callFrames := by
    obtain ⟨news, hlength, hnews⟩ := h.callFrames
    obtain ⟨news', hlength', hnews'⟩ := h'.callFrames
    exact ⟨news ++ news', by simp [hlength, hlength', Nat.add_comm], by rw [hnews', hnews]; simp⟩
  rest := by rw [h'.rest, h.rest]
  enters i g hg := by
    obtain ⟨news, hlength, hnews⟩ := h.callFrames
    have hsize : t.callFrames.size = s.callFrames.size + 1 := by simp [hnews, hlength]
    cases i with
    | zero =>
        obtain rfl := Option.some.inj hg
        exact (h.enters 0 f rfl).captures h'
    | succ i =>
        have henters := h'.enters i g hg
        rw [hsize, Nat.add_assoc, Nat.add_comm 1] at henters
        exact henters

theorem addFrame_captures (s : Session) (f : StackFrame) :
    (s.addFrame f).value.1 = s.callFrames.size ∧ s.Captures [f] (s.addFrame f).value.2 := by
  unfold addFrame
  simp only [Logged.value_bind, Logged.value_pure, addBindings_value]
  refine ⟨trivial, ⟨_, rfl⟩, ⟨[f.callFrame s.cache.generation s.nodes.size], rfl, ?_⟩, rfl,
    fun i g hg => ?_⟩
  · rw [← Array.push_eq_append]
    rfl
  cases i with
  | succ i => cases hg
  | zero =>
      obtain rfl := Option.some.inj hg
      refine ⟨s.nodes.size, ?_, fun i b hb => ?_⟩
      · simp [Session.callFrame?, StackFrame.callFrame]
      · have hnode : (s.bindingNodes s.callFrames.size (f.arguments ++ f.locals))[i]? =
            some (Node.ofBinding s.cache.generation (.frame s.callFrames.size) b.name b.value).value := by
          rw [bindingNodes, List.getElem?_map, hb]
          rfl
        show (s.nodes ++ (s.bindingNodes s.callFrames.size _).toArray)[s.nodes.size + i]? = _
        rw [Array.getElem?_append_right (Nat.le_add_right _ _), Nat.add_sub_cancel_left,
          List.getElem?_toArray, hnode]
        rfl

theorem addFrames_captures (fs : List StackFrame) (s : Session) :
    (addFrames fs s).value.1 = List.range' s.callFrames.size fs.length ∧
      s.Captures fs (addFrames fs s).value.2 := by
  induction fs generalizing s with
  | nil => exact ⟨rfl, .refl s⟩
  | cons f fs ih =>
      obtain ⟨hid, hfirst⟩ := s.addFrame_captures f
      obtain ⟨hids, hrest⟩ := ih (s.addFrame f).value.2
      unfold addFrames
      simp only [Logged.value_bind, Logged.value_pure]
      refine ⟨?_, hfirst.cons hrest⟩
      obtain ⟨news, hlength, hnews⟩ := hfirst.callFrames
      have hsize : (s.addFrame f).value.2.callFrames.size = s.callFrames.size + 1 := by
        simp [hnews, hlength]
      rw [hid, hids, hsize]
      rfl

structure Takes (s : Session) (frames : List StackFrame) (refs : List Payload) (ids : List FrameId)
    (s' : Session) : Prop where
  numbers : ids = List.range' s.callFrames.size frames.length
  rest : s' = { s with
    cache := (s.cache.seed s.cache.generation refs).1, nodes := s'.nodes,
    callFrames := s'.callFrames, current := ids }
  enters : ∀ (i : Nat) f, frames[i]? = some f → s'.Enters (s.callFrames.size + i) f
  node? : ∀ id n, s.node? id = some n → s'.node? id = some n
  callFrame? : ∀ id f, s.callFrame? id = some f → s'.callFrame? id = some f

theorem generation_seed (c : Cache) (ps : List Payload) :
    (c.seed c.generation ps).1.generation = c.generation := by
  rw [seed_eq]
  generalize keyed ps = xs
  induction xs generalizing c with
  | nil => rfl
  | cons x xs ih => exact ih (c.put x.1 x.2)

theorem Takes.generation {frames : List StackFrame} {refs : List Payload} {ids : List FrameId}
    (h : s.Takes frames refs ids s') : s'.cache.generation = s.cache.generation := by
  rw [h.rest]
  exact generation_seed s.cache refs

theorem Takes.current {frames : List StackFrame} {refs : List Payload} {ids : List FrameId}
    (h : s.Takes frames refs ids s') : s'.current = ids := by
  rw [h.rest]

theorem Takes.nodup {frames : List StackFrame} {refs : List Payload} {ids : List FrameId}
    (h : s.Takes frames refs ids s') : ids.Nodup := by
  rw [h.numbers]
  exact List.nodup_range'

theorem Takes.entered {frames : List StackFrame} {refs : List Payload} {ids : List FrameId}
    (h : s.Takes frames refs ids s') : List.Forall₂ s'.Enters ids frames := by
  rw [h.numbers]
  exact forall₂_range' h.enters

theorem materialize_takes {body : Json} {frames : List StackFrame} (s : Session) (refs : List Json)
    (hframes : StackFrame.listOfJson body = .ok frames) :
    ∃ ids s', (s.materialize body refs).value = .ok (ids, s') ∧
      s.Takes frames (Payload.ofRefs refs) ids s' := by
  let t : Session := { s with cache := (s.cache.seed s.cache.generation (Payload.ofRefs refs)).1 }
  obtain ⟨hids, hcaptures⟩ := addFrames_captures frames t
  unfold materialize
  rw [hframes]
  simp only [Logged.value_bind, Logged.value_pure]
  have hrest := congrArg (fun u : Session => { u with current := (addFrames frames t).value.1 })
    hcaptures.rest
  exact ⟨_, _, rfl, hids, hrest, hcaptures.enters, fun _ _ => hcaptures.node?,
    fun _ _ => hcaptures.callFrame?⟩

theorem materialize_refuses {body : Json} {e : WireError} (s : Session) (refs : List Json)
    (hframes : StackFrame.listOfJson body = .error e) :
    (s.materialize body refs).value = .error (.wire e) := by
  unfold materialize
  rw [hframes]
  rfl

end Session

end RemoteInspector
