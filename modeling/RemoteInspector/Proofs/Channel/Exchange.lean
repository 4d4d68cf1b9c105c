import RemoteInspector.Channel.Sink
import RemoteInspector.Proofs.Channel.Routing
import Mathlib.Algebra.Order.Group.Multiset
import Mathlib.Data.List.Induction
import Mathlib.Tactic.Abel

/-!
Runs of a correlator. A send is two moves, its start and its end, since the sink works in between
and a synchronous sender also waits there: what a sink delivers or closes while it writes, a response
or the closing that comes during the wait, and other sends that overlap are moves that stand between
the two. A wait that nothing has come for ends as a timeout.

`Accounted` is what every run keeps: a completion that was handed in has fired, stands in the table
under the number that its frame carried, or is in the hands of a synchronous sender that has not
returned. From it follows that every completion fires at most once and none is lost.
-/

namespace RemoteInspector

open Correlator

/-- One who has handed in a completion. -/
structure Sender (τ : Type) where
  mode : SendMode
  completion : τ

/-- The completion that a sender keeps to itself while a relay stands in the table. -/
def Sender.kept? {τ : Type} (s : Sender τ) : Option τ :=
  match s.mode with
  | .async => none
  | .sync => some s.completion

structure Posted (τ : Type) where
  seq : UInt64
  sender : Sender τ
  request : Request
  frame : String

/-- A correlator and what has come of it so far. -/
structure Exchange (τ : Type) where
  correlator : Correlator τ := {}
  /-- The sends that have not returned, by their numbers. -/
  sending : List (UInt64 × Sender τ) := []
  posted : List (Posted τ) := []
  fired : List (Firing τ) := []
  /-- The sends that have returned, with what they returned. -/
  returned : List (Sender τ × Verdict) := []

namespace Exchange

variable {τ : Type}

inductive Move (τ : Type) where
  | start (r : Request) (mode : SendMode) (t : τ)
  | deliver (e : Envelope)
  | close
  /-- The send with a number ends; its sink has given a verdict. -/
  | finish (seq : UInt64) (v : Verdict)

def Move.entrusted? : Move τ → Option τ
  | .start _ _ t => some t
  | _ => none

/-- The completions that are handed in by moves, one for each send. -/
def entrusted (moves : List (Move τ)) : List τ := moves.filterMap Move.entrusted?

def step (x : Exchange τ) : Move τ → Exchange τ
  | .start r mode t =>
    match (x.correlator.start r mode t).value with
    | .refused c f fault =>
      { x with correlator := c, fired := x.fired ++ [f],
               returned := x.returned ++ [(⟨mode, t⟩, .error fault)] }
    | .written c seq frame =>
      { x with correlator := c, sending := x.sending ++ [(seq, ⟨mode, t⟩)],
               posted := x.posted ++ [⟨seq, ⟨mode, t⟩, r, frame⟩] }
  | .deliver e =>
    let r := (x.correlator.deliver e).value
    { x with correlator := r.correlator, fired := x.fired ++ r.fired.toList }
  | .close =>
    let r := x.correlator.close.value
    { x with correlator := r.1, fired := x.fired ++ r.2 }
  | .finish seq v =>
    match x.sending.lookup seq with
    | none => x
    | some s =>
      let f := (x.correlator.finish seq s.mode s.completion v).value
      { x with correlator := f.correlator, sending := without seq x.sending,
               fired := x.fired ++ f.fired.toList, returned := x.returned ++ [(s, f.result)] }

def after (x : Exchange τ) (moves : List (Move τ)) : Exchange τ := moves.foldl step x

def run (moves : List (Move τ)) : Exchange τ := after {} moves

@[simp] theorem run_concat (moves : List (Move τ)) (m : Move τ) :
    run (moves ++ [m]) = (run moves).step m := by
  simp [run, after]

def completed (x : Exchange τ) : List τ := x.fired.map Firing.completion

/-- The completions that synchronous senders have kept to themselves. -/
def kept (x : Exchange τ) : List τ := x.sending.filterMap fun p => p.2.kept?

theorem mem_completed_append {t : τ} {x y : Exchange τ} {fs : List (Firing τ)}
    (hy : y.fired = x.fired ++ fs) (h : t ∈ x.completed) : t ∈ y.completed := by
  rw [completed, hy, List.map_append]
  exact List.mem_append_left _ h

/-! ### What every run keeps -/

/-- All completions that were handed in are accounted for. -/
structure Accounted (ts : List τ) (x : Exchange τ) : Prop where
  /-- Numbers are given out in order, and no more of them than there were sends. -/
  numbers : ∃ k ≤ ts.length, x.correlator.nextSeq = .ofNat (k + 1) ∧
    ∀ p ∈ x.posted, ∃ j, 0 < j ∧ j ≤ k ∧ p.seq = .ofNat j
  distinct : (x.posted.map Posted.seq).Nodup
  frames : ∀ p ∈ x.posted, (p.request.envelope p.seq).encodeText = .ok p.frame
  keys : (x.correlator.pending.map Prod.fst).Nodup
  stored : ∀ seq t, (seq, .completion t) ∈ x.correlator.pending →
    ∃ p ∈ x.posted, p.seq = seq ∧ p.sender = ⟨.async, t⟩
  relays : ∀ seq, (seq, .relay) ∈ x.correlator.pending → ∃ t, (seq, ⟨.sync, t⟩) ∈ x.sending
  senders : ∀ seq s, (seq, s) ∈ x.sending → ∃ p ∈ x.posted, p.seq = seq ∧ p.sender = s
  senderKeys : (x.sending.map Prod.fst).Nodup
  /-- An asynchronous sender has its completion in the table until that fires. -/
  early : ∀ seq t, (seq, ⟨.async, t⟩) ∈ x.sending →
    (seq, .completion t) ∈ x.correlator.pending ∨ t ∈ x.completed
  emptied : x.correlator.closed = true → x.correlator.pending = []
  returns : ∀ r ∈ x.returned, r.1.mode = .sync ∨ r.2 ≠ .ok () → r.1.completion ∈ x.completed
  law : (ts : Multiset τ) = x.completed + completions x.correlator.pending + x.kept

theorem accounted_nil : Accounted [] ({} : Exchange τ) where
  numbers := ⟨0, Nat.le_refl _, rfl, by simp⟩
  distinct := by simp
  frames := by simp
  keys := by simp
  stored := by simp
  relays := by simp
  senders := by simp
  senderKeys := by simp
  early := by simp
  emptied := fun _ => rfl
  returns := by simp
  law := by simp [completed, completions, kept]

namespace Accounted

variable {ts : List τ} {x : Exchange τ}

/-- Two frames with one number are one frame. -/
theorem posted_inj (h : Accounted ts x) {p q : Posted τ} (hp : p ∈ x.posted) (hq : q ∈ x.posted)
    (heq : p.seq = q.seq) : p = q :=
  List.inj_on_of_nodup_map h.distinct hp hq heq

/-- No completion stands under the number of a synchronous send. -/
theorem not_stored_of_sync (h : Accounted ts x) {seq : UInt64} {t : τ}
    (hs : (seq, ⟨.sync, t⟩) ∈ x.sending) (u : τ) : (seq, .completion u) ∉ x.correlator.pending := by
  intro hu
  obtain ⟨p, hp, hpseq, hpsender⟩ := h.senders seq _ hs
  obtain ⟨q, hq, hqseq, hqsender⟩ := h.stored seq u hu
  -- Both stand for the one frame with this number.
  have heq := h.posted_inj hp hq (hpseq.trans hqseq.symm)
  rw [← heq, hpsender] at hqsender
  cases hqsender

/-- The next number has not been given to any frame. -/
theorem nextSeq_fresh (h : Accounted ts x) (hlen : ts.length + 1 < 2 ^ 64) {p : Posted τ}
    (hp : p ∈ x.posted) : p.seq ≠ x.correlator.nextSeq := by
  obtain ⟨k, hk, hnext, hposted⟩ := h.numbers
  obtain ⟨j, -, hj, hseq⟩ := hposted p hp
  rw [hseq, hnext]
  intro heq
  -- So few numbers have been given that none has come round again.
  have hnat := congrArg UInt64.toNat heq
  rw [UInt64.toNat_ofNat_of_lt' (by simp [UInt64.size]; omega),
    UInt64.toNat_ofNat_of_lt' (by simp [UInt64.size]; omega)] at hnat
  omega

/-- Taking an entry off the table and firing its completion, if it is one. -/
theorem settled (h : Accounted ts x) {seq : UInt64} {w : Waiter τ}
    (hfind : x.correlator.pending.lookup seq = some w) (received : List (UInt64 × Outcome))
    {fs : List (Firing τ)} (hfs : fs.map Firing.completion = w.completion?.toList) :
    Accounted ts { x with
      correlator :=
        { x.correlator with pending := without seq x.correlator.pending, received := received }
      fired := x.fired ++ fs } where
  numbers := h.numbers
  distinct := h.distinct
  frames := h.frames
  keys := h.keys.sublist ((without_sublist ..).map _)
  stored := fun k t hmem => h.stored k t (mem_without.1 hmem).1
  relays := fun k hmem => h.relays k (mem_without.1 hmem).1
  senders := h.senders
  senderKeys := h.senderKeys
  early := by
    intro k t hs
    rcases h.early k t hs with hmem | hfired
    · by_cases hk : k = seq
      · subst hk
        have hw : w = .completion t := by
          rw [lookup_of_mem h.keys hmem] at hfind
          exact (Option.some.inj hfind).symm
        right
        simp [completed, hfs, hw, Waiter.completion?]
      · exact .inl (mem_without.2 ⟨hmem, hk⟩)
    · exact .inr (mem_completed_append rfl hfired)
  emptied := by
    intro hclosed
    have := h.emptied hclosed
    simp [this, without]
  returns := by
    intro r hr hmust
    exact mem_completed_append rfl (h.returns r hr hmust)
  law := by
    have hperm : (completions x.correlator.pending : Multiset τ) =
        w.completion?.toList + completions (without seq x.correlator.pending) := by
      rw [Multiset.coe_add]
      exact Multiset.coe_eq_coe.2 (perm_completions h.keys hfind)
    rw [h.law, hperm]
    simp only [completed, kept, List.map_append, hfs, ← Multiset.coe_add]
    abel

/-- The return of an asynchronous sender. -/
theorem returned_async (h : Accounted ts x) {seq : UInt64} {t : τ}
    (hfind : x.sending.lookup seq = some ⟨.async, t⟩) {v : Verdict}
    (hv : v = .ok () ∨ t ∈ x.completed) :
    Accounted ts { x with
      sending := without seq x.sending
      returned := x.returned ++ [(⟨.async, t⟩, v)] } where
  numbers := h.numbers
  distinct := h.distinct
  frames := h.frames
  keys := h.keys
  stored := h.stored
  relays := by
    intro k hmem
    obtain ⟨u, hu⟩ := h.relays k hmem
    -- A relay is of a synchronous sender, so not of the one who returns.
    refine ⟨u, mem_without.2 ⟨hu, ?_⟩⟩
    rintro rfl
    rw [lookup_of_mem h.senderKeys hu] at hfind
    cases hfind
  senders := fun k s hmem => h.senders k s (mem_without.1 hmem).1
  senderKeys := h.senderKeys.sublist ((without_sublist ..).map _)
  early := fun k u hmem => h.early k u (mem_without.1 hmem).1
  emptied := h.emptied
  returns := by
    intro r hr hmust
    rcases List.mem_append.1 hr with hold | hnew
    · exact h.returns r hold hmust
    · rw [List.mem_singleton.1 hnew] at hmust ⊢
      rcases hv with rfl | hfired
      · simp at hmust
      · exact hfired
  law := by
    have hperm := (perm_without h.senderKeys hfind).filterMap fun p => p.2.kept?
    rw [h.law]
    congr 1
    exact Multiset.coe_eq_coe.2 (by simpa [kept, Sender.kept?] using hperm)

/-- The return of a synchronous sender, who fires the completion that it has kept. -/
theorem returned_sync (h : Accounted ts x) {seq : UInt64} {t : τ}
    (hfind : x.sending.lookup seq = some ⟨.sync, t⟩) (v : Verdict) (o : Outcome)
    (received : List (UInt64 × Outcome)) :
    Accounted ts { x with
      correlator :=
        { x.correlator with pending := without seq x.correlator.pending, received := received }
      sending := without seq x.sending
      fired := x.fired ++ [⟨t, o, false⟩]
      returned := x.returned ++ [(⟨.sync, t⟩, v)] } where
  numbers := h.numbers
  distinct := h.distinct
  frames := h.frames
  keys := h.keys.sublist ((without_sublist ..).map _)
  stored := fun k u hmem => h.stored k u (mem_without.1 hmem).1
  relays := by
    intro k hmem
    obtain ⟨hmem, hk⟩ := mem_without.1 hmem
    obtain ⟨u, hu⟩ := h.relays k hmem
    exact ⟨u, mem_without.2 ⟨hu, hk⟩⟩
  senders := fun k s hmem => h.senders k s (mem_without.1 hmem).1
  senderKeys := h.senderKeys.sublist ((without_sublist ..).map _)
  early := by
    intro k u hmem
    obtain ⟨hmem, hk⟩ := mem_without.1 hmem
    rcases h.early k u hmem with hstored | hfired
    · exact .inl (mem_without.2 ⟨hstored, hk⟩)
    · exact .inr (mem_completed_append rfl hfired)
  emptied := by
    intro hclosed
    have := h.emptied hclosed
    simp [this, without]
  returns := by
    intro r hr hmust
    rcases List.mem_append.1 hr with hold | hnew
    · exact mem_completed_append rfl (h.returns r hold hmust)
    · simp [List.mem_singleton.1 hnew, completed]
  law := by
    have hkept := (perm_without h.senderKeys hfind).filterMap fun p => p.2.kept?
    have hperm : (x.kept : Multiset τ) =
        [t] + (without seq x.sending).filterMap fun p => p.2.kept? := by
      rw [Multiset.coe_add]
      exact Multiset.coe_eq_coe.2 (by simpa [kept, Sender.kept?] using hkept)
    -- What is taken off the table under its number is no completion.
    have hstored := completions_without (h.not_stored_of_sync (mem_of_lookup hfind))
    rw [h.law, hperm]
    simp only [completed, kept, List.map_append, List.map_cons, List.map_nil, hstored,
      ← Multiset.coe_add]
    abel

/-- The start of a send whose number is used up, or not even given, before there is a frame. -/
theorem refused (h : Accounted ts x) {c : Correlator τ} {mode : SendMode} {t : τ}
    {fault : ChannelFault} (hc : c = x.correlator ∨
      c = { x.correlator with nextSeq := x.correlator.nextSeq + 1 }) (o : Outcome) :
    Accounted (ts ++ [t]) { x with
      correlator := c
      fired := x.fired ++ [⟨t, o, false⟩]
      returned := x.returned ++ [(⟨mode, t⟩, .error fault)] } := by
  have hpending : c.pending = x.correlator.pending := by
    rcases hc with rfl | rfl <;> rfl
  have hclosed : c.closed = x.correlator.closed := by
    rcases hc with rfl | rfl <;> rfl
  obtain ⟨k, hk, hnext, hposted⟩ := h.numbers
  constructor
  case numbers =>
    rcases hc with rfl | rfl
    · exact ⟨k, by simp; omega, hnext, hposted⟩
    · refine ⟨k + 1, by simpa using hk, ?_, ?_⟩
      · simp [hnext]
      · intro p hp
        obtain ⟨j, hpos, hj, hseq⟩ := hposted p hp
        exact ⟨j, hpos, by omega, hseq⟩
  case distinct => exact h.distinct
  case frames => exact h.frames
  case keys => simpa only [hpending] using h.keys
  case stored => simpa only [hpending] using h.stored
  case relays => simpa only [hpending] using h.relays
  case senders => exact h.senders
  case senderKeys => exact h.senderKeys
  case early =>
    intro seq u hmem
    rcases h.early seq u hmem with hstored | hfired
    · exact .inl (hpending ▸ hstored)
    · exact .inr (mem_completed_append rfl hfired)
  case emptied => simpa only [hpending, hclosed] using h.emptied
  case returns =>
    intro r hr hmust
    rcases List.mem_append.1 hr with hold | hnew
    · exact mem_completed_append rfl (h.returns r hold hmust)
    · simp [List.mem_singleton.1 hnew, completed]
  case law =>
    rw [← Multiset.coe_add, h.law, hpending]
    simp only [completed, kept, List.map_append, List.map_cons, List.map_nil, ← Multiset.coe_add]
    abel

/-- The start of a send whose frame goes to the sink. -/
theorem posted (h : Accounted ts x) (hopen : x.correlator.closed = false)
    (hlen : ts.length + 1 < 2 ^ 64) {r : Request} {mode : SendMode} {t : τ} {frame : String}
    (hframe : (r.envelope x.correlator.nextSeq).encodeText = .ok frame) :
    Accounted (ts ++ [t]) { x with
      correlator := { x.correlator with
        nextSeq := x.correlator.nextSeq + 1
        pending := x.correlator.pending ++ [(x.correlator.nextSeq, .of mode t)] }
      sending := x.sending ++ [(x.correlator.nextSeq, ⟨mode, t⟩)]
      posted := x.posted ++ [⟨x.correlator.nextSeq, ⟨mode, t⟩, r, frame⟩] } := by
  have hfresh : ∀ p ∈ x.posted, p.seq ≠ x.correlator.nextSeq := fun p hp => h.nextSeq_fresh hlen hp
  have hsender : ∀ seq s, (seq, s) ∈ x.sending → seq ≠ x.correlator.nextSeq := by
    intro seq s hmem
    obtain ⟨p, hp, rfl, -⟩ := h.senders seq s hmem
    exact hfresh p hp
  have hkey : ∀ seq w, (seq, w) ∈ x.correlator.pending → seq ≠ x.correlator.nextSeq := by
    intro seq w hmem
    -- An entry has a frame, or a sender who has one.
    cases w with
    | completion u =>
        obtain ⟨p, hp, rfl, -⟩ := h.stored seq u hmem
        exact hfresh p hp
    | relay =>
        obtain ⟨u, hu⟩ := h.relays seq hmem
        exact hsender seq _ hu
  obtain ⟨k, hk, hnext, hposted⟩ := h.numbers
  constructor
  case numbers =>
    refine ⟨k + 1, by simpa using hk, by simp [hnext], ?_⟩
    intro p hp
    rcases List.mem_append.1 hp with hold | hnew
    · obtain ⟨j, hpos, hj, hseq⟩ := hposted p hold
      exact ⟨j, hpos, by omega, hseq⟩
    · exact ⟨k + 1, by omega, le_rfl, by rw [List.mem_singleton.1 hnew, hnext]⟩
  case distinct =>
    rw [List.map_append]
    refine List.nodup_append.2 ⟨h.distinct, by simp, ?_⟩
    intro a ha b hb
    obtain ⟨p, hp, rfl⟩ := List.mem_map.1 ha
    simp only [List.map_cons, List.map_nil, List.mem_singleton] at hb
    exact hb ▸ hfresh p hp
  case frames =>
    intro p hp
    rcases List.mem_append.1 hp with hold | hnew
    · exact h.frames p hold
    · rw [List.mem_singleton.1 hnew]
      exact hframe
  case keys =>
    rw [List.map_append]
    refine List.nodup_append.2 ⟨h.keys, by simp, ?_⟩
    intro a ha b hb
    obtain ⟨p, hp, rfl⟩ := List.mem_map.1 ha
    simp only [List.map_cons, List.map_nil, List.mem_singleton] at hb
    exact hb ▸ hkey p.1 p.2 hp
  case stored =>
    intro seq u hmem
    rcases List.mem_append.1 hmem with hold | hnew
    · obtain ⟨p, hp, hpseq, hpsender⟩ := h.stored seq u hold
      exact ⟨p, List.mem_append_left _ hp, hpseq, hpsender⟩
    · cases mode <;> simp only [Waiter.of, List.mem_singleton, Prod.mk.injEq, reduceCtorEq,
        and_false] at hnew
      obtain ⟨rfl, heq⟩ := hnew
      cases heq
      exact ⟨_, List.mem_append_right _ (List.mem_singleton.2 rfl), rfl, rfl⟩
  case relays =>
    intro seq hmem
    rcases List.mem_append.1 hmem with hold | hnew
    · obtain ⟨u, hu⟩ := h.relays seq hold
      exact ⟨u, List.mem_append_left _ hu⟩
    · cases mode <;> simp only [Waiter.of, List.mem_singleton, Prod.mk.injEq, reduceCtorEq,
        and_false, and_true] at hnew
      subst hnew
      exact ⟨t, List.mem_append_right _ (List.mem_singleton.2 rfl)⟩
  case senders =>
    intro seq s hmem
    rcases List.mem_append.1 hmem with hold | hnew
    · obtain ⟨p, hp, hpseq, hpsender⟩ := h.senders seq s hold
      exact ⟨p, List.mem_append_left _ hp, hpseq, hpsender⟩
    · cases List.mem_singleton.1 hnew
      exact ⟨_, List.mem_append_right _ (List.mem_singleton.2 rfl), rfl, rfl⟩
  case senderKeys =>
    rw [List.map_append]
    refine List.nodup_append.2 ⟨h.senderKeys, by simp, ?_⟩
    intro a ha b hb
    obtain ⟨p, hp, rfl⟩ := List.mem_map.1 ha
    simp only [List.map_cons, List.map_nil, List.mem_singleton] at hb
    exact hb ▸ hsender p.1 p.2 hp
  case early =>
    intro seq u hmem
    rcases List.mem_append.1 hmem with hold | hnew
    · exact (h.early seq u hold).imp_left (List.mem_append_left _)
    · cases List.mem_singleton.1 hnew
      exact .inl (List.mem_append_right _ (List.mem_singleton.2 rfl))
  case emptied =>
    intro hclosed
    rw [hopen] at hclosed
    cases hclosed
  case returns => exact h.returns
  case law =>
    rw [← Multiset.coe_add, h.law]
    have hnew : completions [(x.correlator.nextSeq, Waiter.of mode t)] ++
        [(x.correlator.nextSeq, (⟨mode, t⟩ : Sender τ))].filterMap (fun p => p.2.kept?) = [t] := by
      cases mode <;> rfl
    rw [← hnew]
    simp only [completed, kept, completions_append, List.filterMap_append, ← Multiset.coe_add]
    abel

/-- Closing fires all that stands in the table. -/
theorem closed (h : Accounted ts x) : Accounted ts (x.step .close) := by
  obtain ⟨received, hvalue⟩ := close_value x.correlator
  simp only [step, hvalue]
  constructor
  case numbers => exact h.numbers
  case distinct => exact h.distinct
  case frames => exact h.frames
  case keys => simp
  case stored => simp
  case relays => simp
  case senders => exact h.senders
  case senderKeys => exact h.senderKeys
  case early =>
    intro seq t hmem
    right
    rcases h.early seq t hmem with hstored | hfired
    · have := mem_completions.2 ⟨seq, hstored⟩
      simp only [completed, List.map_append, List.map_map, List.mem_append]
      exact .inr (by simpa using this)
    · exact mem_completed_append rfl hfired
  case emptied => simp
  case returns => exact fun r hr hmust => mem_completed_append rfl (h.returns r hr hmust)
  case law =>
    have hfired : ((completions x.correlator.pending).map fun t =>
        (⟨t, .error .closed, false⟩ : Firing τ)).map Firing.completion =
          completions x.correlator.pending := by
      simp [Function.comp_def]
    have hnone : completions ([] : List (UInt64 × Waiter τ)) = [] := rfl
    rw [h.law]
    simp only [completed, kept, List.map_append, hfired, hnone, ← Multiset.coe_add]
    simp

theorem delivered (h : Accounted ts x) (e : Envelope) : Accounted ts (x.step (.deliver e)) := by
  rcases deliver_cases x.correlator e with ⟨-, hvalue⟩ | ⟨-, -, hvalue⟩ |
      ⟨-, seq, w, -, hfind, hvalue⟩
  · simpa [step, hvalue] using h
  · simpa [step, hvalue] using h
  · obtain ⟨received, hframe⟩ := settle_frame
      { x.correlator with pending := without seq x.correlator.pending } seq w (.ok e)
    simp only [step, hvalue, hframe, settle_fired]
    refine h.settled hfind received ?_
    cases w <;> rfl

theorem finished (h : Accounted ts x) (seq : UInt64) (v : Verdict) :
    Accounted ts (x.step (.finish seq v)) := by
  cases hfind : x.sending.lookup seq with
  | none => simpa [step, hfind] using h
  | some s =>
      obtain ⟨mode, t⟩ := s
      cases mode with
      | async =>
          rcases finishAsync_cases x.correlator seq v with ⟨hc, hnone, hresult, hdone⟩ |
              ⟨fault, u, rfl, hstored, hvalue⟩
          · have hfired : v = .ok () ∨ t ∈ x.completed := by
              refine hdone.imp_right fun hmissing => ?_
              rcases h.early seq t (mem_of_lookup hfind) with hmem | hfired
              · exact absurd (lookup_of_mem h.keys hmem) (hmissing t)
              · exact hfired
            simpa [step, hfind, finish, hc, hnone, hresult] using h.returned_async hfind hfired
          · have htu : u = t := by
              obtain ⟨p, hp, hpseq, hpsender⟩ := h.stored seq u (mem_of_lookup hstored)
              obtain ⟨q, hq, hqseq, hqsender⟩ := h.senders seq _ (mem_of_lookup hfind)
              rw [h.posted_inj hp hq (hpseq.trans hqseq.symm), hqsender] at hpsender
              exact (congrArg Sender.completion hpsender).symm
            subst htu
            have hone : [(⟨u, .error fault, true⟩ : Firing τ)].map Firing.completion =
                (Waiter.of .async u).completion?.toList := rfl
            have hsettled := h.settled hstored x.correlator.received hone
            have hreturned := hsettled.returned_async hfind (v := .error fault)
              (.inr (by simp [completed]))
            simpa [step, hfind, finish, hvalue] using hreturned
      | sync =>
          obtain ⟨o, hvalue⟩ := finishSync_value x.correlator seq t v
          simp only [step, hfind, finish, hvalue]
          exact h.returned_sync hfind v o _

/-- A move that hands in no completion keeps the account, and one that hands one in adds it. -/
theorem stepped (h : Accounted ts x) (m : Move τ)
    (hlen : (ts ++ m.entrusted?.toList).length < 2 ^ 64) :
    Accounted (ts ++ m.entrusted?.toList) (x.step m) := by
  cases m with
  | start r mode t =>
      have hone : (Move.start r mode t).entrusted?.toList = [t] := rfl
      rw [hone, List.length_append] at hlen
      rcases start_cases x.correlator r mode t with ⟨-, hvalue⟩ | ⟨-, fault, hvalue⟩ |
          ⟨hopen, frame, hframe, hvalue⟩
      · simpa only [step, hvalue, hone] using h.refused (.inl rfl) _
      · simpa only [step, hvalue, hone] using h.refused (.inr rfl) _
      · simpa only [step, hvalue, hone] using h.posted hopen hlen hframe
  | deliver e => simpa [Move.entrusted?] using h.delivered e
  | close => simpa [Move.entrusted?] using h.closed
  | finish seq v => simpa [Move.entrusted?] using h.finished seq v

end Accounted

theorem entrusted_append (moves more : List (Move τ)) :
    entrusted (moves ++ more) = entrusted moves ++ entrusted more :=
  List.filterMap_append

theorem entrusted_singleton (m : Move τ) : entrusted [m] = m.entrusted?.toList := by
  cases m <;> rfl

/-- Every run with fewer sends than there are numbers accounts for all completions. -/
theorem accounted_run (moves : List (Move τ)) (few : (entrusted moves).length < 2 ^ 64) :
    Accounted (entrusted moves) (run moves) := by
  induction moves using List.reverseRecOn with
  | nil => exact accounted_nil
  | append_singleton moves m ih =>
      rw [entrusted_append, entrusted_singleton] at few ⊢
      rw [run_concat]
      refine (ih ?_).stepped m few
      rw [List.length_append] at few
      omega

end Exchange

end RemoteInspector
