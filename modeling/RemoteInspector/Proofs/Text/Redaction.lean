import Mathlib.Tactic.SplitIfs
import RemoteInspector.Json.Mismatch
import RemoteInspector.Text.Redacted

/-!
What is left of a quoted text in a message without quoted values. One way to redact goes by the
escapes, and hides all of a quoted text, however many a message quotes. The other one takes the quotes
as they come; a quote in the text is written as an escape, and each one turns from hiding to showing or
back.
-/

namespace RemoteInspector.Text

/-! ### Quoted characters -/

theorem toDigits_digit {n : Nat} {c : Char} (hc : c ∈ Nat.toDigits 16 n) :
    ∃ d < 16, c = Nat.digitChar d := by
  induction n using Nat.strongRecOn with
  | ind n ih =>
      rw [Nat.toDigits_eq_if (by decide)] at hc
      split at hc
      · next hlt => exact ⟨n, hlt, List.mem_singleton.1 hc⟩
      · next hge =>
        rcases List.mem_append.1 hc with hc | hc
        · exact ih (n / 16) (by omega) hc
        · exact ⟨n % 16, Nat.mod_lt n (by decide), List.mem_singleton.1 hc⟩

/-- A hexadecimal digit has no meaning between quotes. -/
theorem hexDigits_plain {n : Nat} {c : Char} (hc : c ∈ hexDigits n) : c ≠ '"' ∧ c ≠ '\\' := by
  obtain ⟨a, ha, rfl⟩ := List.mem_map.1 hc
  obtain ⟨d, hd, rfl⟩ := toDigits_digit ha
  have hall : ∀ d < 16, (Nat.digitChar d).toLower ≠ '"' ∧ (Nat.digitChar d).toLower ≠ '\\' := by
    decide
  exact hall d hd

/-- How a character is quoted: as itself, or behind a backslash by something that has none. -/
theorem quoteChar_cases (c : Char) :
    (quoteChar c = [c] ∧ c ≠ '"' ∧ c ≠ '\\') ∨
      ∃ e es, quoteChar c = '\\' :: e :: es ∧ (e = '"' → c = '"') ∧
        ∀ a ∈ es, a ≠ '"' ∧ a ≠ '\\' := by
  unfold quoteChar
  split_ifs with h0 ht hr hn hq hs hescaped
  · exact .inr ⟨'0', [], rfl, fun h => absurd h (by decide), by simp⟩
  · exact .inr ⟨'t', [], rfl, fun h => absurd h (by decide), by simp⟩
  · exact .inr ⟨'r', [], rfl, fun h => absurd h (by decide), by simp⟩
  · exact .inr ⟨'n', [], rfl, fun h => absurd h (by decide), by simp⟩
  · exact .inr ⟨'"', [], rfl, fun _ => hq, by simp⟩
  · exact .inr ⟨'\\', [], rfl, fun h => absurd h (by decide), by simp⟩
  · refine .inr ⟨'u', '\x7b' :: (hexDigits c.toNat ++ ['\x7d']), rfl,
      fun h => absurd h (by decide), ?_⟩
    intro a ha
    rcases List.mem_cons.1 ha with rfl | ha
    · decide
    rcases List.mem_append.1 ha with ha | ha
    · exact hexDigits_plain ha
    · rw [List.mem_singleton.1 ha]
      decide
  · exact .inl ⟨rfl, hq, hs⟩

theorem quoteChar_quote : quoteChar '"' = ['\\', '"'] := rfl

theorem quote_notMem_quoteChar {c : Char} (hc : c ≠ '"') : '"' ∉ quoteChar c := by
  rcases quoteChar_cases c with ⟨heq, -, -⟩ | ⟨e, es, heq, he, hes⟩
  · rw [heq, List.mem_singleton]
    exact hc.symm
  · rw [heq]
    intro hmem
    rcases List.mem_cons.1 hmem with hmem | hmem
    · exact absurd hmem (by decide)
    rcases List.mem_cons.1 hmem with hmem | hmem
    · exact hc (he hmem.symm)
    · exact (hes _ hmem).1 rfl

/-! ### By the escapes -/

theorem dropLiteral_plain {cs : List Char} (hcs : ∀ c ∈ cs, c ≠ '"' ∧ c ≠ '\\') (t : List Char) :
    dropLiteral false (cs ++ t) = dropLiteral false t := by
  induction cs with
  | nil => rfl
  | cons c cs ih =>
      obtain ⟨⟨hquote, hslash⟩, hcs⟩ := List.forall_mem_cons.1 hcs
      rw [List.cons_append, dropLiteral, if_neg Bool.false_ne_true, if_neg hslash, if_neg hquote,
        ih hcs]

theorem dropLiteral_quoteChar (c : Char) (t : List Char) :
    dropLiteral false (quoteChar c ++ t) = dropLiteral false t := by
  rcases quoteChar_cases c with ⟨heq, hquote, hslash⟩ | ⟨e, es, heq, -, hes⟩
  · rw [heq]
    exact dropLiteral_plain (List.forall_mem_singleton.2 ⟨hquote, hslash⟩) t
  · rw [heq, List.cons_append, List.cons_append, dropLiteral, if_neg Bool.false_ne_true,
      if_pos rfl, dropLiteral, if_pos rfl]
    exact dropLiteral_plain hes t

theorem dropLiteral_quoted (cs t : List Char) :
    dropLiteral false (cs.flatMap quoteChar ++ '"' :: t) = redactLiterals t := by
  induction cs with
  | nil => rfl
  | cons c cs ih => rw [List.flatMap_cons, List.append_assoc, dropLiteral_quoteChar, ih]

def mask : List Char := '"' :: (redactedMark ++ ['"'])

/-- All of a quoted text is hidden. -/
theorem redactLiterals_quoteChars (cs t : List Char) :
    redactLiterals (quoteChars cs ++ t) = mask ++ redactLiterals t := by
  have hquoted : quoteChars cs ++ t = '"' :: (cs.flatMap quoteChar ++ '"' :: t) := by
    simp [quoteChars]
  rw [hquoted, redactLiterals, if_pos rfl, dropLiteral_quoted]
  simp [mask]

theorem redactLiterals_plain {cs : List Char} (hcs : '"' ∉ cs) (t : List Char) :
    redactLiterals (cs ++ t) = cs ++ redactLiterals t := by
  induction cs with
  | nil => rfl
  | cons c cs ih =>
      obtain ⟨hc, hcs⟩ := not_or.1 (mt List.mem_cons.2 hcs)
      rw [List.cons_append, redactLiterals, if_neg (Ne.symm hc), ih hcs, List.cons_append]

/-! ### Messages that quote several texts -/

/-- The mask is a quoted text itself. -/
theorem mask_eq_quoteChars : mask = quoteChars redactedMark := by
  decide

theorem redactLiterals_mask (t : List Char) :
    redactLiterals (mask ++ t) = mask ++ redactLiterals t := by
  have hquoted := redactLiterals_quoteChars redactedMark t
  rwa [← mask_eq_quoteChars] at hquoted

/-- Nothing is left to redact, neither outside of quoted texts nor behind one that is being
dropped. -/
theorem redactLiterals_idem (cs : List Char) :
    redactLiterals (redactLiterals cs) = redactLiterals cs ∧
      ∀ escaped, redactLiterals (dropLiteral escaped cs) = dropLiteral escaped cs := by
  induction cs with
  | nil => exact ⟨rfl, fun _ => rfl⟩
  | cons c cs ih =>
      obtain ⟨ihplain, ihdropped⟩ := ih
      refine ⟨?_, fun escaped => ?_⟩
      · rw [redactLiterals]
        split
        · have hmask : '"' :: (redactedMark ++ '"' :: dropLiteral false cs) =
              mask ++ dropLiteral false cs := by simp [mask]
          rw [hmask, redactLiterals_mask, ihdropped]
        · next hc => rw [redactLiterals, if_neg hc, ihplain]
      · rw [dropLiteral]
        split
        · exact ihdropped false
        split
        · exact ihdropped true
        split
        · exact ihplain
        · exact ihdropped false

theorem toList_mask : "\"<redacted>\"".toList = mask := rfl

/-- A message that quotes texts, each with what stands behind it. -/
def quoting (first : String) (rest : List (String × String)) : String :=
  first ++ String.join (rest.map fun (s, p) => quote s ++ p)

/-- The message with the mask in place of every quoted text. -/
def masking (first : String) (rest : List String) : String :=
  first ++ String.join (rest.map fun p => "\"<redacted>\"" ++ p)

theorem redactLiterals_quoting {rest : List (String × String)}
    (hrest : ∀ x ∈ rest, '"' ∉ x.2.toList) :
    redactLiterals (String.join (rest.map fun (s, p) => quote s ++ p)).toList =
      (String.join ((rest.map Prod.snd).map fun p => "\"<redacted>\"" ++ p)).toList := by
  induction rest with
  | nil => rfl
  | cons x rest ih =>
      obtain ⟨hx, hrest⟩ := List.forall_mem_cons.1 hrest
      have ih := ih hrest
      simp only [List.map_cons, String.join_cons, String.toList_append, quote,
        String.toList_ofList, List.append_assoc, toList_mask] at ih ⊢
      rw [redactLiterals_quoteChars, redactLiterals_plain hx, ih]

/-- In a message that quotes texts, each of them is replaced by the mask and nothing else is changed.
So the texts do not matter. What has been redacted once stays as it is, in every message. -/
theorem quoted_texts_redacted {first : String} {rest : List (String × String)}
    (hfirst : '"' ∉ first.toList) (hrest : ∀ x ∈ rest, '"' ∉ x.2.toList) :
    redactLiteralsText (quoting first rest) = masking first (rest.map Prod.snd) ∧
      (∀ other : List (String × String), other.map Prod.snd = rest.map Prod.snd →
        redactLiteralsText (quoting first other) = redactLiteralsText (quoting first rest)) ∧
      ∀ message, redactLiteralsText (redactLiteralsText message) = redactLiteralsText message := by
  have hredacted : ∀ other : List (String × String), other.map Prod.snd = rest.map Prod.snd →
      redactLiteralsText (quoting first other) = masking first (rest.map Prod.snd) := by
    intro other hother
    have hplain : ∀ x ∈ other, '"' ∉ x.2.toList := by
      intro x hx
      have hmem : x.2 ∈ rest.map Prod.snd := hother ▸ List.mem_map_of_mem hx
      obtain ⟨y, hy, hyx⟩ := List.mem_map.1 hmem
      exact hyx ▸ hrest y hy
    rw [redactLiteralsText, quoting, String.toList_append, redactLiterals_plain hfirst,
      redactLiterals_quoting hplain, hother, ← String.toList_append, String.ofList_toList, masking]
  refine ⟨hredacted rest rfl, fun other hother => ?_, fun message => ?_⟩
  · rw [hredacted other hother, hredacted rest rfl]
  · rw [redactLiteralsText, redactLiteralsText, String.toList_ofList, (redactLiterals_idem _).1]

/-- A text with a quote in it, and one that ends in a backslash. -/
theorem quoted_texts_redacted_escapes :
    redactLiteralsText "invalid type: string \"hunter\\\"2\", expected \"a\\\\\" or a boolean" =
      "invalid type: string \"<redacted>\", expected \"<redacted>\" or a boolean" := by
  have hquoting : quoting "invalid type: string " [("hunter\"2", ", expected "),
      ("a\\", " or a boolean")] =
      "invalid type: string \"hunter\\\"2\", expected \"a\\\\\" or a boolean" := by
    decide +kernel
  have hmasking : masking "invalid type: string " [", expected ", " or a boolean"] =
      "invalid type: string \"<redacted>\", expected \"<redacted>\" or a boolean" := by
    decide +kernel
  rw [← hquoting, ← hmasking]
  exact (quoted_texts_redacted (by decide) (by decide)).1

/-! ### By the quotes alone -/

mutual

/-- What becomes of the rest of a quoted text behind an odd number of quotes. -/
def hiddenRest : List Char → List Char
  | [] => redactedMark ++ ['"']
  | c :: cs => if c = '"' then redactedMark ++ '"' :: bareRest cs else hiddenRest cs

/-- What becomes of it behind an even number of quotes: its end opens again. -/
def bareRest : List Char → List Char
  | [] => ['"']
  | c :: cs => if c = '"' then '\\' :: '"' :: hiddenRest cs else quoteChar c ++ bareRest cs

end

theorem redactPaired_plain {cs : List Char} (hcs : '"' ∉ cs) (t : List Char) :
    redactPaired (cs ++ t) = cs ++ redactPaired t := by
  induction cs with
  | nil => rfl
  | cons c cs ih =>
      obtain ⟨hc, hcs⟩ := not_or.1 (mt List.mem_cons.2 hcs)
      rw [List.cons_append, redactPaired, if_neg (Ne.symm hc), ih hcs, List.cons_append]

theorem redactOpened_plain {cs : List Char} (hcs : '"' ∉ cs) (seen t : List Char) :
    redactOpened seen (cs ++ t) = redactOpened (cs.reverse ++ seen) t := by
  induction cs generalizing seen with
  | nil => rfl
  | cons c cs ih =>
      obtain ⟨hc, hcs⟩ := not_or.1 (mt List.mem_cons.2 hcs)
      rw [List.cons_append, redactOpened, if_neg (Ne.symm hc), ih hcs]
      simp

/-- Both halves of a quoted text, with something without quotes behind it. -/
theorem redact_quoted {t : List Char} (ht : '"' ∉ t) (cs : List Char) :
    (∀ seen, redactOpened seen (cs.flatMap quoteChar ++ '"' :: t) = hiddenRest cs ++ t) ∧
      redactPaired (cs.flatMap quoteChar ++ '"' :: t) = bareRest cs ++ t := by
  have hpaired : redactPaired t = t := by simpa [redactPaired] using redactPaired_plain ht []
  have hopened : redactOpened [] t = t := by simpa [redactOpened] using redactOpened_plain ht [] []
  induction cs with
  | nil =>
      refine ⟨fun seen => ?_, ?_⟩
      · simp [redactOpened, hiddenRest, hpaired]
      · simp [redactPaired, bareRest, hopened]
  | cons c cs ih =>
      obtain ⟨ihidden, ihbare⟩ := ih
      by_cases hc : c = '"'
      · subst hc
        refine ⟨fun seen => ?_, ?_⟩
        · simp [quoteChar_quote, redactOpened, hiddenRest, ihbare]
        · simp [quoteChar_quote, redactPaired, bareRest, ihidden]
      · have hplain := quote_notMem_quoteChar hc
        refine ⟨fun seen => ?_, ?_⟩
        · rw [List.flatMap_cons, List.append_assoc, redactOpened_plain hplain, ihidden, hiddenRest,
            if_neg hc]
        · rw [List.flatMap_cons, List.append_assoc, redactPaired_plain hplain, ihbare, bareRest,
            if_neg hc, List.append_assoc]

/-- What is shown of a quoted text. -/
def shownPaired (s : String) : String := String.ofList ('"' :: hiddenRest s.toList)

theorem redactPaired_quoteChars {t : List Char} (ht : '"' ∉ t) (s : String) :
    redactPaired (quoteChars s.toList ++ t) = (shownPaired s).toList ++ t := by
  have hquoted : quoteChars s.toList ++ t = '"' :: (s.toList.flatMap quoteChar ++ '"' :: t) := by
    simp [quoteChars]
  rw [hquoted, redactPaired, if_pos rfl, (redact_quoted ht s.toList).1, shownPaired,
    String.toList_ofList]
  rfl

theorem bareRest_ne_nil (cs : List Char) : bareRest cs ≠ [] := by
  cases cs with
  | nil => exact List.cons_ne_nil _ _
  | cons c cs =>
      rw [bareRest]
      split
      · exact List.cons_ne_nil _ _
      · exact List.append_ne_nil_of_right_ne_nil _ (bareRest_ne_nil cs)

/-- A text is hidden as a whole just if it has no quote in it. -/
theorem hiddenRest_eq_mark (cs : List Char) :
    hiddenRest cs = redactedMark ++ ['"'] ↔ '"' ∉ cs := by
  induction cs with
  | nil => simp [hiddenRest]
  | cons c cs ih =>
      rw [hiddenRest]
      by_cases hc : c = '"'
      · subst hc
        rw [if_pos rfl]
        refine iff_of_false ?_ (fun h => h List.mem_cons_self)
        intro heq
        exact bareRest_ne_nil cs (List.cons.inj (List.append_cancel_left heq)).2
      · rw [if_neg hc, ih, List.mem_cons, not_or]
        exact ⟨fun h => ⟨Ne.symm hc, h⟩, And.right⟩

theorem shownPaired_eq_mask (s : String) : shownPaired s = "\"<redacted>\"" ↔ '"' ∉ s.toList := by
  rw [shownPaired, ← String.toList_inj, String.toList_ofList, toList_mask, mask, List.cons_inj_right,
    hiddenRest_eq_mark]

/-! ### Messages about strings -/

/-- In the message about a string of the wrong kind only the string and what is wanted may have
quotes. -/
theorem wrongType_message (x wanted : String) :
    (Mismatch.wrongType (.string x) wanted).message.toList =
      "invalid type: string ".toList ++
        (quoteChars x.toList ++ (", expected " ++ wanted).toList) := by
  have hliteral : "invalid type: ".toList ++ "string ".toList = "invalid type: string ".toList := by
    decide
  have hmessage : (Mismatch.wrongType (.string x) wanted).message =
      "invalid type: " ++ ("string " ++ quote x) ++ ", expected " ++ wanted := rfl
  simp only [hmessage, String.toList_append, quote, String.toList_ofList, ← hliteral,
    List.append_assoc]

end RemoteInspector.Text
