import Mathlib.Data.List.Forall2
import RemoteInspector.Proofs.Text.Redaction
import RemoteInspector.Settings.Reading

/-!
What a refusal tells of a string that a setting was given. Two documents that differ in one string
are refused with the same message, if the string is refused in both: the message shows a mask in its
place. The name of a mode is shown without double quotes, and so it is not masked.
-/

namespace RemoteInspector.Settings

open Text
open Toml (Item Entries TableForm)

/-! ### Settings that refuse strings -/

/-- What a setting holds that does not take every string. -/
inductive Kind where
  /-- A value of another kind, by its name in messages. -/
  | plain (wanted : String)
  | mode
  deriving DecidableEq

def Kind.Refuses : Kind → String → Prop
  | .plain _, _ => True
  | .mode, s => s ≠ "sync" ∧ s ≠ "async"

def Kind.fault : Kind → String → Fault
  | .plain wanted, s => .mismatch (.wrongType (.string s) wanted)
  | .mode, s => .mismatch (.unknownVariant s ["sync", "async"])

/-- The settings of a group in order, and what they hold unless it is text. -/
structure Group where
  title : String
  fields : List (String × Option Kind)

def loggingGroup : Group :=
  ⟨"LoggingConfig", [("level", none), ("json", some (.plain "a boolean")),
    ("stderr", some (.plain "a boolean")), ("file", none)]⟩

def connectionGroup : Group :=
  ⟨"ConnectionConfig", [("host", none), ("port", some (.plain "u16")),
    ("connect_timeout_ms", some (.plain "u64")), ("reply_timeout_ms", some (.plain "u64"))]⟩

def resolverGroup : Group :=
  ⟨"ResolverConfig", [("send_mode", some .mode), ("inline_refs", some (.plain "a boolean")),
    ("backtrace_frames", some (.plain "u32"))]⟩

def groups : List (String × Group) :=
  [("logging", loggingGroup), ("connection", connectionGroup), ("resolver", resolverGroup)]

/-! ### Documents with a blank -/

/-- Where in a group a string is to be put: under a name, in its place, or for the whole group. -/
inductive Slot where
  | named (form : TableForm) (before : Entries) (field : String) (after : Entries)
  | placed (before after : List Item)
  | whole

def Slot.fill (s : String) : Slot → Item
  | .named form before field after => .table form (before ++ (field, .string s) :: after)
  | .placed before after => .array (before ++ .string s :: after)
  | .whole => .string s

def Slot.kind? (g : Group) : Slot → Option Kind
  | .named _ _ field _ => (g.fields.lookup field).join
  | .placed before _ => g.fields[before.length]?.bind Prod.snd
  | .whole => some (.plain ("struct " ++ g.title))

/-- A document in which one string is left open. -/
structure Blank where
  before : Entries
  group : String
  slot : Slot
  after : Entries

def Blank.fill (b : Blank) (s : String) : Entries :=
  b.before ++ (b.group, b.slot.fill s) :: b.after

def Blank.kind? (b : Blank) : Option Kind := (groups.lookup b.group).bind fun g => b.slot.kind? g

/-! ### Two runs -/

section

variable {α β : Type} {kind : Kind} {s₁ s₂ : String}

/-- Both runs fail, in the same way or each for its string. -/
def BothFail (kind : Kind) (s₁ s₂ : String) (r₁ r₂ : Except Fault α) : Prop :=
  (∃ f, r₁ = .error f ∧ r₂ = .error f) ∨
    r₁ = .error (kind.fault s₁) ∧ r₂ = .error (kind.fault s₂)

namespace BothFail

theorem fault (f : Fault) : BothFail kind s₁ s₂ (.error f : Except Fault α) (.error f) :=
  .inl ⟨f, rfl, rfl⟩

/-- What comes behind a failure does not count. -/
theorem bind {r₁ r₂ : Except Fault α} (h : BothFail kind s₁ s₂ r₁ r₂)
    (next₁ next₂ : α → Except Fault β) : BothFail kind s₁ s₂ (r₁ >>= next₁) (r₂ >>= next₂) := by
  rcases h with ⟨f, rfl, rfl⟩ | ⟨rfl, rfl⟩
  · exact fault f
  · exact .inr ⟨rfl, rfl⟩

/-- What comes before is the same for both. -/
theorem after {r : Except Fault α} {next₁ next₂ : α → Except Fault β}
    (h : ∀ a, BothFail kind s₁ s₂ (next₁ a) (next₂ a)) :
    BothFail kind s₁ s₂ (r >>= next₁) (r >>= next₂) := by
  cases r with
  | error f => exact fault f
  | ok a => exact h a

end BothFail

def RefusesBoth (kind : Kind) (s₁ s₂ : String) (v₁ v₂ : Item) (change : Change α) : Prop :=
  ∀ a, BothFail kind s₁ s₂ (change v₁ a) (change v₂ a)

theorem bothFail_setByName {fields : Fields α} {change : Change α} {name : String} {v₁ v₂ : Item}
    (hname : fields.lookup name = some change) (h : RefusesBoth kind s₁ s₂ v₁ v₂ change)
    (before after : List (String × Item)) (a : α) :
    BothFail kind s₁ s₂ (setByName fields (before ++ (name, v₁) :: after) a)
      (setByName fields (before ++ (name, v₂) :: after) a) := by
  induction before generalizing a with
  | nil =>
      simp only [List.nil_append, setByName, hname]
      exact (h a).bind _ _
  | cons m before ih =>
      simp only [List.cons_append, setByName]
      cases fields.lookup m.1 with
      | none => exact .fault _
      | some other => exact .after ih

theorem bothFail_setInOrder {fields : Fields α} {name : String} {change : Change α} {v₁ v₂ : Item}
    (before after : List Item) (hfield : fields[before.length]? = some (name, change))
    (h : RefusesBoth kind s₁ s₂ v₁ v₂ change) (a : α) :
    BothFail kind s₁ s₂ (setInOrder fields (before ++ v₁ :: after) a)
      (setInOrder fields (before ++ v₂ :: after) a) := by
  induction before generalizing fields a with
  | nil =>
      cases fields with
      | nil => cases hfield
      | cons f fields =>
          cases hfield
          exact (h a).bind _ _
  | cons v before ih =>
      cases fields with
      | nil => cases hfield
      | cons f fields => exact .after fun a' => ih hfield a'

/-! ### The fields -/

/-- Two entries have one name, and what is under it goes together. -/
def Alike {γ δ : Type} (R : γ → δ → Prop) (p : String × γ) (q : String × δ) : Prop :=
  p.1 = q.1 ∧ R p.2 q.2

theorem alike {γ δ : Type} {R : γ → δ → Prop} {name : String} {c : γ} {d : δ} (h : R c d) :
    Alike R (name, c) (name, d) := ⟨rfl, h⟩

theorem lookup_alike {γ δ : Type} {R : γ → δ → Prop} {ps : List (String × γ)}
    {qs : List (String × δ)} (h : List.Forall₂ (Alike R) ps qs) {name : String} {d : δ}
    (hd : qs.lookup name = some d) : ∃ c, ps.lookup name = some c ∧ R c d := by
  induction h with
  | nil => cases hd
  | @cons p q ps qs hpq _ ih =>
      obtain ⟨hname, hR⟩ := hpq
      rw [List.lookup_cons] at hd ⊢
      rw [hname]
      cases hq : name == q.1 with
      | true =>
          rw [hq] at hd
          exact ⟨p.2, rfl, Option.some.inj hd ▸ hR⟩
      | false =>
          rw [hq] at hd
          exact ih hd

theorem getElem?_alike {γ δ : Type} {R : γ → δ → Prop} {ps : List (String × γ)}
    {qs : List (String × δ)} (h : List.Forall₂ (Alike R) ps qs) {i : Nat} {q : String × δ}
    (hq : qs[i]? = some q) : ∃ p, ps[i]? = some p ∧ R p.2 q.2 := by
  induction h generalizing i with
  | nil => cases hq
  | @cons p q' ps qs hpq _ ih =>
      cases i with
      | zero =>
          cases hq
          exact ⟨p, rfl, hpq.2⟩
      | succ i => exact ih hq

/-- A field refuses the strings that what it holds refuses. -/
def Guards (change : Change α) (known : Option Kind) : Prop :=
  ∀ kind, known = some kind → ∀ s, kind.Refuses s →
    ∀ a, change (.string s) a = .error (kind.fault s)

theorem guards_none (change : Change α) : Guards change none := nofun

theorem guards_truth (set : Bool → α → α) : Guards (truth set) (some (.plain "a boolean")) := by
  intro kind hkind s _ a
  cases hkind
  rfl

theorem guards_count (limit : Nat) (wanted : String) (set : Nat → α → α) :
    Guards (count limit wanted set) (some (.plain wanted)) := by
  intro kind hkind s _ a
  cases hkind
  rfl

theorem guards_mode (set : SendMode → α → α) :
    Guards (fun v a => do return set (← readMode v) a) (some .mode) := by
  intro kind hkind s hs a
  cases hkind
  obtain ⟨hsync, hasync⟩ := hs
  have hnamed : modeNamed s = .error (Kind.mode.fault s) := by
    have hlookup : modes.lookup s = none := by
      rw [modes, List.lookup_cons, beq_eq_false_iff_ne.2 hsync, List.lookup_cons,
        beq_eq_false_iff_ne.2 hasync, List.lookup_nil]
    rw [modeNamed, hlookup]
    rfl
  have hread : readMode (.string s) = .error (Kind.mode.fault s) := hnamed
  simp only [hread]
  rfl

theorem guards_both {change : Change α} (h : Guards change (some kind)) (hs₁ : kind.Refuses s₁)
    (hs₂ : kind.Refuses s₂) : RefusesBoth kind s₁ s₂ (.string s₁) (.string s₂) change :=
  fun a => .inr ⟨h kind rfl s₁ hs₁ a, h kind rfl s₂ hs₂ a⟩

/-! ### The groups -/

/-- A group refuses what is refused where the string is put. -/
def GroupGuards (change : Change α) (g : Group) : Prop :=
  ∀ slot kind s₁ s₂, Slot.kind? g slot = some kind → kind.Refuses s₁ → kind.Refuses s₂ →
    RefusesBoth kind s₁ s₂ (slot.fill s₁) (slot.fill s₂) change

theorem group_guards {fields : Fields α} {g : Group}
    (h : List.Forall₂ (Alike Guards) fields g.fields) : GroupGuards (group g.title fields) g := by
  intro slot kind s₁ s₂ hkind hs₁ hs₂ a
  cases slot with
  | named form before field after =>
      obtain ⟨change, hchange, hguards⟩ := lookup_alike h (Option.join_eq_some_iff.1 hkind)
      exact bothFail_setByName hchange (guards_both hguards hs₁ hs₂) before after a
  | placed before after =>
      obtain ⟨⟨name, known⟩, hplace, rfl⟩ := Option.bind_eq_some_iff.1 hkind
      obtain ⟨⟨name', change⟩, hfield, hguards⟩ := getElem?_alike h hplace
      exact bothFail_setInOrder before after hfield (guards_both hguards hs₁ hs₂) a
  | whole =>
      cases hkind
      exact .inr ⟨rfl, rfl⟩

/-- A group among the settings. -/
theorem GroupGuards.within {change : Change α} {g : Group} (h : GroupGuards change g) (init : α)
    (set : α → β → β) : GroupGuards (fun v b => do return set (← change v init) b) g :=
  fun slot kind s₁ s₂ hkind hs₁ hs₂ _ => (h slot kind s₁ s₂ hkind hs₁ hs₂ init).bind _ _

theorem logging_guards : List.Forall₂ (Alike Guards) loggingFields loggingGroup.fields := by
  simp only [loggingFields, loggingGroup, List.forall₂_cons]
  exact ⟨alike (guards_none _), alike (guards_truth _), alike (guards_truth _),
    alike (guards_none _), .nil⟩

theorem connection_guards :
    List.Forall₂ (Alike Guards) connectionFields connectionGroup.fields := by
  simp only [connectionFields, connectionGroup, List.forall₂_cons]
  exact ⟨alike (guards_none _), alike (guards_count _ _ _), alike (guards_count _ _ _),
    alike (guards_count _ _ _), .nil⟩

theorem resolver_guards : List.Forall₂ (Alike Guards) resolverFields resolverGroup.fields := by
  simp only [resolverFields, resolverGroup, List.forall₂_cons]
  exact ⟨alike (guards_mode _), alike (guards_truth _), alike (guards_count _ _ _), .nil⟩

theorem groups_guard : List.Forall₂ (Alike GroupGuards) allFields groups := by
  simp only [allFields, groups, List.forall₂_cons]
  exact ⟨alike ((group_guards logging_guards).within _ _),
    alike ((group_guards connection_guards).within _ _),
    alike ((group_guards resolver_guards).within _ _), .nil⟩

/-- A document in which a string is refused fails alike for any other string that is refused. -/
theorem bothFail_ofEntries {b : Blank} (hkind : b.kind? = some kind) (hs₁ : kind.Refuses s₁)
    (hs₂ : kind.Refuses s₂) :
    BothFail kind s₁ s₂ (ofEntries (b.fill s₁)) (ofEntries (b.fill s₂)) := by
  obtain ⟨g, hgroup, hslot⟩ := Option.bind_eq_some_iff.1 hkind
  obtain ⟨change, hchange, hguards⟩ := lookup_alike groups_guard hgroup
  exact bothFail_setByName hchange (hguards b.slot kind s₁ s₂ hslot hs₁ hs₂) b.before b.after {}

end

/-! ### The messages -/

theorem parse_content {t : String} {es : Entries} {f : Fault} (ht : Toml.parse t = .ok es)
    (hf : ofEntries es = .error f) : parse t = .error (.content f) := by
  simp only [parse, ht, hf]

/-- What is told of a string in place of another value. -/
theorem redacted_plain (wanted s : String) :
    redactLiterals ((Kind.plain wanted).fault s).message.toList =
      "invalid type: string ".toList ++
        (mask ++ redactLiterals (", expected " ++ wanted).toList) := by
  have hmessage : ((Kind.plain wanted).fault s).message.toList = _ := wrongType_message s wanted
  rw [hmessage, redactLiterals_plain (by decide), redactLiterals_quoteChars]

theorem content_message (f : Fault) : (LoadError.content f).message =
    "failed to parse toml config: " ++ redactLiteralsText f.message := rfl

def modeMessage (s : String) : String := (LoadError.content (Kind.mode.fault s)).message

theorem mode_message (s : String) : (Kind.mode.fault s).message =
    "unknown variant `" ++ s ++ "`, expected `sync` or `async`" := by
  have hchoice : "`, expected " ++ oneOf ["sync", "async"] = "`, expected `sync` or `async`" := by
    decide
  have hmessage : (Kind.mode.fault s).message =
      "unknown variant `" ++ s ++ "`, expected " ++ oneOf ["sync", "async"] := rfl
  rw [hmessage, String.append_assoc, hchoice]

/-- A name is shown, if there is no quote in it. -/
theorem modeMessage_shows {s : String} (hs : '"' ∉ s.toList) : modeMessage s =
    "failed to parse toml config: " ++
      ("unknown variant `" ++ s ++ "`, expected `sync` or `async`") := by
  have hplain : '"' ∉ (Kind.mode.fault s).message.toList := by
    simp only [mode_message, String.toList_append, List.mem_append, not_or]
    exact ⟨⟨by decide, hs⟩, by decide⟩
  have hshown : redactLiterals (Kind.mode.fault s).message.toList =
      (Kind.mode.fault s).message.toList := by
    simpa [redactLiterals] using redactLiterals_plain hplain []
  rw [modeMessage, content_message, redactLiteralsText, hshown, String.ofList_toList, mode_message]

/-- If two texts differ in one string, and it is refused in both for what the setting holds, then
the same is told of both, unless the setting is the mode. Of a mode its name is told, and it is shown
if there is no double quote in it. -/
theorem refusals_show {b : Blank} {kind : Kind} {s₁ s₂ t₁ t₂ : String}
    (hkind : b.kind? = some kind) (hs₁ : kind.Refuses s₁) (hs₂ : kind.Refuses s₂)
    (ht₁ : Toml.parse t₁ = .ok (b.fill s₁)) (ht₂ : Toml.parse t₂ = .ok (b.fill s₂)) :
    (∃ e₁ e₂, parse t₁ = .error e₁ ∧ parse t₂ = .error e₂ ∧
      (e₁.message = e₂.message ∨
        kind = .mode ∧ e₁.message = modeMessage s₁ ∧ e₂.message = modeMessage s₂)) ∧
    ∀ s, '"' ∉ s.toList → modeMessage s = "failed to parse toml config: " ++
      ("unknown variant `" ++ s ++ "`, expected `sync` or `async`") := by
  refine ⟨?_, fun s hs => modeMessage_shows hs⟩
  rcases bothFail_ofEntries hkind hs₁ hs₂ with ⟨f, h₁, h₂⟩ | ⟨h₁, h₂⟩
  · exact ⟨_, _, parse_content ht₁ h₁, parse_content ht₂ h₂, .inl rfl⟩
  · refine ⟨_, _, parse_content ht₁ h₁, parse_content ht₂ h₂, ?_⟩
    cases kind with
    | mode => exact .inr ⟨rfl, rfl, rfl⟩
    | plain wanted =>
        refine .inl ?_
        rw [content_message, content_message, redactLiteralsText, redacted_plain,
          redactLiteralsText, redacted_plain]

/-- A text that sets one field of a group to a string, which is written as `literal` says. -/
def oneString (group field literal : String) : String :=
  "[" ++ group ++ "]\n" ++ field ++ " = \"" ++ literal ++ "\"\n"

def oneBlank (group field : String) : Blank := ⟨[], group, .named .headed [] field [], []⟩

theorem refusals_show_port :
    ∃ e₁ e₂, parse (oneString "connection" "port" "a\\\"secret") = .error e₁ ∧
      parse (oneString "connection" "port" "plain") = .error e₂ ∧ e₁.message = e₂.message := by
  have ht₁ : Toml.parse (oneString "connection" "port" "a\\\"secret") =
      .ok ((oneBlank "connection" "port").fill "a\"secret") := by decide +kernel
  have ht₂ : Toml.parse (oneString "connection" "port" "plain") =
      .ok ((oneBlank "connection" "port").fill "plain") := by decide +kernel
  have hkind : (oneBlank "connection" "port").kind? = some (.plain "u16") := by decide
  obtain ⟨⟨e₁, e₂, h₁, h₂, heq | ⟨hmode, -⟩⟩, -⟩ :=
    refusals_show hkind trivial trivial ht₁ ht₂
  · exact ⟨e₁, e₂, h₁, h₂, heq⟩
  · exact absurd hmode (by decide)

/-- Two names that no mode has are told apart by what is told of them. -/
theorem mode_told_by_name :
    ∃ e₁ e₂, parse (oneString "resolver" "send_mode" "secret") = .error e₁ ∧
      parse (oneString "resolver" "send_mode" "other") = .error e₂ ∧
      e₁.message =
        "failed to parse toml config: unknown variant `secret`, expected `sync` or `async`" ∧
      e₁.message ≠ e₂.message := by
  have ht₁ : Toml.parse (oneString "resolver" "send_mode" "secret") =
      .ok ((oneBlank "resolver" "send_mode").fill "secret") := by decide +kernel
  have ht₂ : Toml.parse (oneString "resolver" "send_mode" "other") =
      .ok ((oneBlank "resolver" "send_mode").fill "other") := by decide +kernel
  have h₁ : ofEntries ((oneBlank "resolver" "send_mode").fill "secret") =
      .error (Kind.mode.fault "secret") := by decide +kernel
  have h₂ : ofEntries ((oneBlank "resolver" "send_mode").fill "other") =
      .error (Kind.mode.fault "other") := by decide +kernel
  refine ⟨_, _, parse_content ht₁ h₁, parse_content ht₂ h₂, ?_, ?_⟩
  · decide +kernel
  · decide +kernel

end RemoteInspector.Settings
