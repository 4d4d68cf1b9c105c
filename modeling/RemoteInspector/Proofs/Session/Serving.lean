import RemoteInspector.Proofs.Channel.Routing
import RemoteInspector.Proofs.Json.Fitting
import RemoteInspector.Proofs.Session.Attained
import RemoteInspector.Proofs.Text.Encoding
import RemoteInspector.Proofs.Value.Reply
import RemoteInspector.Session.Debugger

/-!
A channel that answers lookups while they are sent: a machine in memory, or a correlator over a sink that
responds to each frame. Whether the session waits for responses or not, when a lookup has been sent it has
been answered, and so have those that its answer has called for; what they attain, the debugger attains.
-/

namespace RemoteInspector

/-- A response brings exactly what the machine reports for the handles, and what comes along with it is true
to the machine. -/
structure Machine.Answers (T : Machine) (hs : List Handle) (e : Envelope) : Prop where
  successful : e.isSuccessful = true
  reply : ∀ h ∈ hs, (LookupReply.ofEnvelope e).get? h = T h
  refs : ∀ p ∈ Payload.ofRefs (e.refs.getD []), ∀ h, p.handle = some h → T h = some p

theorem Machine.Answers.answer {T : Machine} {l : Lookup} {e : Envelope} (h : T.Answers l.handles e) :
    Inquiry.Answer T l (.ok e) e where
  successful := by
    rw [Session.successful?, if_pos h.successful]
  reply := h.reply
  refs := h.refs

/-- A machine in memory answers lookups of handles of `P` at once. -/
structure TableVm.Serves {τ : Type} (T : Machine) (P : List Handle) (vm : TableVm τ) : Prop where
  taking : vm.dropping = false
  manner : vm.manner = .reply
  answers : ∀ hs inline, Handles P hs → T.Answers hs (vm.reply (.lookup hs inline)).1

/-- A sink responds to lookups of handles of `P` while it writes their frames. -/
def Sink.Serves (T : Machine) (P : List Handle) : Sink → Prop
  | .scripted _ => False
  | .serving serve _ => ∀ n hs inline, Handles P hs → ∃ members,
      serve n (.lookup hs inline) = [.reply members] ∧ ∀ seq, ∃ e,
        (SinkStep.reply members).message? seq = some e ∧ e.isResponse = true ∧
          e.requestSeq = some seq ∧ T.Answers hs e

/-- Lookups of handles of `P` fit into frames. -/
def LookupsFit (P : List Handle) : Prop :=
  ∀ hs inline seq, Handles P hs →
    ∃ frame, ((Request.lookup hs inline).envelope seq).encodeText = .ok frame

structure Correlator.Idle {τ : Type} (c : Correlator τ) : Prop where
  opened : c.closed = false
  pending : c.pending = []
  received : c.received = []

/-- A channel answers lookups of handles of `P` at once. -/
def Channel.Serves (T : Machine) (P : List Handle) : Channel → Prop
  | .memory vm => vm.Serves T P
  | .wire c sink => c.Idle ∧ sink.Serves T P ∧ LookupsFit P

namespace TableVm

variable {τ : Type} {T : Machine} {P : List Handle} {vm : TableVm τ}

theorem Serves.send (h : vm.Serves T P) (r : Request) (t : τ) : vm.send r t =
    ⟨{ vm with requests := vm.requests ++ [r], replies := vm.replies + 1 }, some (.ok (vm.reply r).1),
      .ok ()⟩ := by
  unfold TableVm.send
  rw [h.taking]
  simp only [Bool.false_eq_true, if_false, h.manner]
  rfl

theorem Serves.next (h : vm.Serves T P) (r : Request) : TableVm.Serves T P
    { vm with requests := vm.requests ++ [r], replies := vm.replies + 1 } where
  taking := h.taking
  manner := h.manner
  answers := fun hs inline hhs =>
    let answer := h.answers hs inline hhs
    ⟨answer.successful, answer.reply, answer.refs⟩

end TableVm

/-! ### A machine in memory -/

theorem Json.name_put {name : String} (n : String) (v : Json) {ms : List (String × Json)}
    (h : (∃ m ∈ ms, m.1 = name) ∨ n = name) : ∃ m ∈ Json.put n v ms, m.1 = name := by
  induction ms with
  | nil => exact ⟨(n, v), List.mem_singleton_self _, h.resolve_left nofun⟩
  | cons m ms ih =>
      obtain ⟨k, w⟩ := m
      unfold Json.put
      split
      · rcases h with ⟨x, hx, hname⟩ | rfl
        · exact ⟨x, List.mem_cons_of_mem _ hx, hname⟩
        · exact ⟨(n, v), List.mem_cons_self, rfl⟩
      split
      · next heq =>
        rcases h with ⟨x, hx, hname⟩ | rfl
        · rcases List.mem_cons.1 hx with rfl | hx
          · exact ⟨(n, v), List.mem_cons_self, heq.trans hname⟩
          · exact ⟨x, List.mem_cons_of_mem _ hx, hname⟩
        · exact ⟨(n, v), List.mem_cons_self, rfl⟩
      · rcases h with ⟨x, hx, hname⟩ | hn
        · rcases List.mem_cons.1 hx with rfl | hx
          · exact ⟨(k, w), List.mem_cons_self, hname⟩
          · obtain ⟨y, hy, hname⟩ := ih (.inl ⟨x, hx, hname⟩)
            exact ⟨y, List.mem_cons_of_mem _ hy, hname⟩
        · obtain ⟨y, hy, hname⟩ := ih (.inr hn)
          exact ⟨y, List.mem_cons_of_mem _ hy, hname⟩

/-- The names of an object are those that have been put there. -/
theorem Json.name_puts {name : String} (xs : List (String × Json)) {ms : List (String × Json)}
    (h : (∃ m ∈ ms, m.1 = name) ∨ ∃ x ∈ xs, x.1 = name) :
    ∃ m ∈ xs.foldl (fun all (name, value) => Json.put name value all) ms, m.1 = name := by
  induction xs generalizing ms with
  | nil => exact h.resolve_right nofun
  | cons x xs ih =>
      refine ih ?_
      rcases h with hold | ⟨y, hy, hname⟩
      · exact .inl (Json.name_put x.1 x.2 (.inl hold))
      · rcases List.mem_cons.1 hy with rfl | hy
        · exact .inl (Json.name_put y.1 y.2 (.inr hname))
        · exact .inr ⟨y, hy, hname⟩

theorem Json.mem_puts {m : String × Json} (xs : List (String × Json)) {ms : List (String × Json)}
    (h : m ∈ xs.foldl (fun all (name, value) => Json.put name value all) ms) : m ∈ xs ∨ m ∈ ms := by
  induction xs generalizing ms with
  | nil => exact .inr h
  | cons x xs ih =>
      rcases ih h with hlater | hput
      · exact .inl (List.mem_cons_of_mem x hlater)
      · rcases Json.mem_put hput with rfl | hold
        · exact .inl List.mem_cons_self
        · exact .inr hold

/-- Two handles that are written alike are one. -/
theorem toString_handle_injective {h k : Handle} (htext : toString h.toNat = toString k.toNat) : h = k := by
  have hread := Text.readUInt64_toString h
  rw [htext, Text.readUInt64_toString] at hread
  exact (Except.ok.inj hread).symm

namespace TableVm

variable {τ : Type}

def machine (vm : TableVm τ) : Machine := fun h =>
  (vm.handles.lookup h).bind fun v => (Payload.ofJson? v).map fun p =>
    { p with handle := some (p.handle.getD h) }

/-- The members of a reply are what the table has for the requested handles. -/
theorem members_lookupBody (vm : TableVm τ) (hs : List Handle) : ∃ ms, vm.lookupBody hs = .object ms ∧
    (∀ m ∈ ms, ∃ h, m.1 = toString h.toNat ∧ vm.handles.lookup h = some m.2) ∧
    ∀ h ∈ hs, ∀ v, vm.handles.lookup h = some v → (toString h.toNat, v) ∈ ms := by
  let xs := hs.filterMap fun h => (vm.handles.lookup h).map fun v => (toString h.toNat, v)
  have hof : ∀ m ∈ xs.foldl (fun all (name, value) => Json.put name value all) [],
      ∃ h, m.1 = toString h.toNat ∧ vm.handles.lookup h = some m.2 := by
    intro m hm
    obtain ⟨h, -, hh⟩ := List.mem_filterMap.1 ((Json.mem_puts xs hm).resolve_right nofun)
    obtain ⟨v, hv, rfl⟩ := Option.map_eq_some_iff.1 hh
    exact ⟨h, rfl, hv⟩
  refine ⟨_, rfl, hof, fun h hh v hv => ?_⟩
  have hx : (toString h.toNat, v) ∈ xs := List.mem_filterMap.2 ⟨h, hh, by rw [hv]; rfl⟩
  obtain ⟨m, hm, hname⟩ := Json.name_puts xs (.inr ⟨_, hx, rfl⟩)
  obtain ⟨k, hk, hmv⟩ := hof m hm
  obtain rfl := toString_handle_injective (hk.symm.trans hname)
  obtain rfl := Option.some.inj (hmv.symm.trans hv)
  rw [← hk]
  exact hm

/-- A reply says of each requested handle what the machine reports. -/
theorem lookup_lookupBody (vm : TableVm τ) {hs : List Handle} {h : Handle} (hh : h ∈ hs) :
    (LookupReply.ofBody (some (vm.lookupBody hs))).lookup h = vm.machine h := by
  obtain ⟨ms, hbody, hof, hthere⟩ := vm.members_lookupBody hs
  rw [hbody]
  cases hlookup : (LookupReply.ofBody (some (.object ms))).lookup h with
  | some p =>
      obtain ⟨m, hm, hentry⟩ := LookupReply.exists_of_lookup_ofBody hlookup
      obtain ⟨k, hname, hv⟩ := hof m hm
      rw [hname, LookupReply.entry?_spelled (Text.readUInt64_toString k)] at hentry
      obtain ⟨q, hq, heq⟩ := Option.map_eq_some_iff.1 hentry
      obtain ⟨rfl, rfl⟩ := Prod.mk.inj heq
      simp [machine, hv, hq]
  | none =>
      cases hv : vm.handles.lookup h with
      | none => simp [machine, hv]
      | some v =>
          have hobject := LookupReply.entry?_ne_iff.1
            (LookupReply.lookup_ofBody_eq_none.1 hlookup _ (hthere h hh v hv))
            (Text.readUInt64_toString h)
          rw [← LookupReply.isSome_ofJson?] at hobject
          simp [machine, hv, Option.isNone_iff_eq_none.1 (by simpa using hobject)]

/-- A machine in memory that replies serves its table, whatever handles it is asked for. -/
theorem serves_machine (vm : TableVm τ) (htaking : vm.dropping = false) (hmanner : vm.manner = .reply)
    (P : List Handle) : vm.Serves vm.machine P where
  taking := htaking
  manner := hmanner
  answers := fun _ _ _ => ⟨rfl, fun _ hh => vm.lookup_lookupBody hh, nofun⟩

/-- What such a machine mentions is in its table. -/
theorem mentions_machine {vm : TableVm τ} {P : List Handle}
    (hP : ∀ e ∈ vm.handles, ∀ r ∈ Payload.propertiesOfJson e.2, r.handle ∈ P) :
    vm.machine.Mentions P := by
  intro h p hp r hr
  obtain ⟨v, hv, hpayload⟩ := Option.bind_eq_some_iff.1 hp
  obtain ⟨q, hq, rfl⟩ := Option.map_eq_some_iff.1 hpayload
  obtain ⟨before, after, hmem, -⟩ := List.lookup_eq_some_iff.1 hv
  have hproperties : q.properties = Payload.propertiesOfJson v := by
    unfold Payload.ofJson? at hq
    split at hq
    · rw [← Option.some.inj hq]
    · cases hq
  exact hP (h, v) (by simp [hmem]) r (hproperties ▸ hr)

end TableVm

namespace Correlator

variable {τ : Type} {c : Correlator τ}

def awaiting (c : Correlator τ) (mode : SendMode) (t : τ) : Correlator τ :=
  { c with nextSeq := c.nextSeq + 1, pending := [(c.nextSeq, .of mode t)] }

theorem Idle.start (h : c.Idle) {r : Request} {frame : String}
    (hframe : (r.envelope c.nextSeq).encodeText = .ok frame) (mode : SendMode) (t : τ) :
    (c.start r mode t).value = .written (c.awaiting mode t) c.nextSeq frame := by
  cases mode <;> simp [Correlator.start, h.opened, hframe, awaiting, h.pending, Waiter.of]

/-- The response to the one request that is under way. -/
theorem Idle.deliver (h : c.Idle) (mode : SendMode) (t : τ) {e : Envelope} (he : e.isResponse = true)
    (hseq : e.requestSeq = some c.nextSeq) : ((c.awaiting mode t).deliver e).value =
      match mode with
      | .async => { correlator := { c with nextSeq := c.nextSeq + 1 }, fired := some ⟨t, .ok e, false⟩ }
      | .sync => { correlator := { c with
          nextSeq := c.nextSeq + 1, received := [(c.nextSeq, .ok e)] } } := by
  obtain ⟨nextSeq, closed, pending, received⟩ := c
  obtain ⟨rfl, rfl, rfl⟩ := h
  cases mode <;>
    simp [Correlator.deliver, he, hseq, awaiting, settle, Waiter.of, without]

end Correlator

namespace Debugger

variable {T : Machine} {P : List Handle} {d : Debugger} {issue : Issue} {e : Envelope}

def issueAt (depth : Nat) : Issue := fun l d => do
  let (d, v) ← send depth (l.request d.session.options) d.session.options.mode (.lookup l.waiting) d
  match v with
  | .error _ => Logged.note .debug Log.resolve "lookup not sent"
  | .ok () => pure ()
  pure d

theorem issueAt_value (depth : Nat) (l : Lookup) (d : Debugger) : (issueAt depth l d).value =
    (send depth (l.request d.session.options) d.session.options.mode (.lookup l.waiting) d).value.1 := by
  simp only [issueAt, Logged.value_bind]
  split <;> rfl

/-! ### The channel while a lookup is sent -/

/-- A sink that delivers one message and accepts the frame. -/
theorem react_reply {seq : UInt64} {members : List (String × Json)}
    (he : (SinkStep.reply members).message? seq = some e) (d : Debugger) :
    (react issue seq [.reply members] d).value = ((d.route issue e).value.2, .ok ()) := by
  simp only [react, he, Logged.value_bind, Logged.value_pure]

theorem finishSend_async (d : Debugger) (seq : UInt64) (errand : Errand) :
    (d.finishSend issue seq .async errand (.ok ())).value.1 = d := by
  unfold finishSend
  cases hc : d.channel with
  | memory vm => rfl
  | wire c sink =>
      have hsame : { d with channel := .wire c sink } = d := by rw [← hc]
      simp only [Correlator.finish, Correlator.finishAsync, Logged.value_bind, Logged.value_pure,
        Option.toList_none, fireAll, hsame]

/-- The outcome of a lookup that is under way reaches its errand once, with or without a relay. -/
theorem finishSend_routed {c : Correlator Errand} {sink : Sink} (hc : c.Idle) (mode : SendMode)
    (errand : Errand) (hchannel : d.channel = .wire (c.awaiting mode errand) sink)
    (he : e.isResponse = true) (hseq : e.requestSeq = some c.nextSeq) :
    ((d.route issue e).value.2.finishSend issue c.nextSeq mode errand (.ok ())).value.1 =
      ({ d with channel := .wire { c with nextSeq := c.nextSeq + 1 } sink }.fire issue errand
        (.ok e)).value := by
  have hdeliver := hc.deliver mode errand he hseq
  obtain ⟨nextSeq, closed, pending, received⟩ := c
  obtain ⟨rfl, rfl, rfl⟩ := hc
  cases mode with
  | async =>
      rw [finishSend_async]
      simp only [route, hchannel, Logged.value_bind, hdeliver, Option.toList_some, fireAll,
        Logged.value_pure]
  | sync =>
      simp only [route, hchannel, Logged.value_bind, hdeliver, Option.toList_none, fireAll,
        Logged.value_pure, finishSend, Correlator.finish, Correlator.finishSync,
        List.lookup_cons_self, Option.toList_some, Correlator.without]
      simp

/-- A lookup that is sent over a channel that serves is answered before the send returns. -/
theorem send_answered (hserves : d.channel.Serves T P) {l : Lookup} (hl : Handles P l.handles)
    (options : LookupOptions) (mode : SendMode) (depth : Nat) :
    ∃ (e : Envelope) (d' : Debugger), T.Answers l.handles e ∧ d'.session = d.session ∧
      d'.channel.Serves T P ∧ (send (depth + 1) (l.request options) mode (.lookup l.waiting) d).value.1 =
        (d'.fire (issueAt depth) (.lookup l.waiting) (.ok e)).value := by
  cases hc : d.channel with
  | memory vm =>
      rw [hc] at hserves
      have hvm : vm.Serves T P := hserves
      refine ⟨_, { d with channel := .memory { vm with requests := vm.requests ++ [l.request options]
                                                       replies := vm.replies + 1 } },
        hvm.answers l.handles options.inlineRefs hl, rfl, hvm.next (l.request options), ?_⟩
      unfold send
      simp only [hc, hvm.send, Logged.value_bind, Logged.value_pure]
      rfl
  | wire c sink =>
      rw [hc] at hserves
      obtain ⟨hidle, hsink, hfit⟩ := hserves
      cases sink with
      | scripted reactions => exact hsink.elim
      | serving serve served =>
          obtain ⟨members, hreact, hreply⟩ := hsink served l.handles options.inlineRefs hl
          obtain ⟨e, he, hresponse, hseq, hanswers⟩ := hreply c.nextSeq
          obtain ⟨frame, hframe⟩ := hfit l.handles options.inlineRefs c.nextSeq hl
          have hnext : (Sink.serving serve served).next (l.request options) =
              ([.reply members], .serving serve (served + 1)) := by
            simp only [Sink.next, Lookup.request, hreact]
            rfl
          refine ⟨e, { d with
            channel := .wire { c with nextSeq := c.nextSeq + 1 } (.serving serve (served + 1))
            written := frame :: d.written }, hanswers, rfl,
            ⟨⟨hidle.opened, hidle.pending, hidle.received⟩, hsink, hfit⟩, ?_⟩
          have hstart := hidle.start (r := l.request options) hframe mode (Errand.lookup l.waiting)
          unfold send
          simp only [hc, Logged.value_bind, hstart, hnext, react_reply he]
          exact finishSend_routed hidle mode (.lookup l.waiting) rfl hresponse hseq

/-- What the lookups attain, the debugger attains that sends them. -/
theorem follow_attains {Q : Session → Prop} {count : Nat} {next : Session × Option Lookup}
    (h : Session.Attains T P Q count next) {depth : Nat} (hdepth : count ≤ depth)
    (hserves : d.channel.Serves T P) :
    Q (d.follow (issueAt depth) next).value.session ∧
      (d.follow (issueAt depth) next).value.channel.Serves T P := by
  induction count generalizing next depth d with
  | zero =>
      obtain ⟨s, l?⟩ := next
      cases l? with
      | none => exact ⟨h, hserves⟩
      | some l => exact h.elim
  | succ count ih =>
      obtain ⟨s, l?⟩ := next
      cases l? with
      | none => exact ⟨h, hserves⟩
      | some l =>
          obtain ⟨hhandles, hanswered⟩ := h
          obtain ⟨depth, rfl⟩ := Nat.exists_eq_add_of_le' (Nat.le_of_add_left_le hdepth)
          obtain ⟨e, d', hanswers, hsession, hserves', hsent⟩ :=
            send_answered (d := d.withSession s) hserves hhandles (d.withSession s).session.options
              (d.withSession s).session.options.mode depth
          have hfollow : (d.follow (issueAt (depth + 1)) (s, some l)).value =
              (d'.follow (issueAt depth) (s.deliver l.waiting (.ok e)).value).value := by
            show (issueAt (depth + 1) l (d.withSession s)).value = _
            rw [issueAt_value, hsent]
            simp only [fire, Logged.value_bind, hsession]
            rfl
          rw [hfollow]
          exact ih (hanswered e hanswers.answer) (Nat.le_of_add_le_add_right hdepth) hserves'

end Debugger

end RemoteInspector
