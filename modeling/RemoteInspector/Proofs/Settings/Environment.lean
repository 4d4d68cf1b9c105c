import RemoteInspector.Proofs.Log.Filter
import RemoteInspector.Proofs.Text.Trimming
import RemoteInspector.Settings.Verbosity

/-!
What is logged if both the settings and the environment say so. The directives of the environment stand
behind those of the settings in one text, which is read as a whole or not at all: if it cannot be read,
that of the environment is read alone, and if that cannot be read either, the settings alone count. What
comes out is as if the two had been read apart and merged target by target.
-/

namespace RemoteInspector.Settings

open Log (Directive Filter)
open Text (trim trim_trim trim_padded trim_lowerAscii isEmpty_trim lowerAscii isBlank)

/-! ### The directives of a level -/

theorem directivesOf_congr {a b : String} (h : trim a = trim b) : directivesOf a = directivesOf b := by
  simp only [directivesOf, h]

theorem directivesOf_blank {level : String} (h : (trim level).isEmpty = true) :
    directivesOf level = "info" := by
  simp only [directivesOf, h, if_true]

/-- The level is written by its name, in any case and with blanks around it. -/
def NamesLevel (level : String) : Prop :=
  (levelNames.lookup (lowerAscii (trim level))).isSome = true

theorem directivesOf_name {level name : String}
    (h : levelNames.lookup (lowerAscii (trim level)) = some name) : directivesOf level = name := by
  have hempty : (trim level).isEmpty = false := by
    rw [← Bool.not_eq_true, String.isEmpty_iff]
    intro heq
    have hnone : levelNames.lookup (lowerAscii "") = none := by decide +kernel
    rw [heq, hnone] at h
    cases h
  simp only [directivesOf, hempty, h]
  rfl

theorem directivesOf_other {level : String} (hempty : (trim level).isEmpty = false)
    (h : levelNames.lookup (lowerAscii (trim level)) = none) : directivesOf level = trim level := by
  simp only [directivesOf, hempty, h]
  rfl

/-- What the name of a level stands for stands for itself. -/
theorem directivesOf_standard :
    ∀ name ∈ levelNames.map Prod.snd, directivesOf name = name := by
  decide +kernel

theorem directivesOf_idem (level : String) :
    directivesOf (directivesOf level) = directivesOf level := by
  cases hempty : (trim level).isEmpty with
  | true =>
      rw [directivesOf_blank hempty]
      exact directivesOf_standard "info" (by decide)
  | false =>
      cases hname : levelNames.lookup (lowerAscii (trim level)) with
      | some name =>
          obtain ⟨l₁, l₂, hsplit, -⟩ := List.lookup_eq_some_iff.1 hname
          rw [directivesOf_name hname]
          refine directivesOf_standard name ?_
          rw [hsplit]
          exact List.mem_map_of_mem (f := Prod.snd) (List.mem_append_right _ List.mem_cons_self)
      | none =>
          rw [directivesOf_other hempty hname]
          exact (directivesOf_congr (trim_trim level)).trans (directivesOf_other hempty hname)

/-- The case of the letters does not count in the name of a level. -/
theorem directivesOf_case {level other : String} (hname : NamesLevel level)
    (hcase : lowerAscii other = lowerAscii level) : directivesOf other = directivesOf level := by
  obtain ⟨name, hname⟩ := Option.isSome_iff_exists.1 hname
  have hother : lowerAscii (trim other) = lowerAscii (trim level) := by
    rw [← trim_lowerAscii, hcase, trim_lowerAscii]
  have hsame : levelNames.lookup (lowerAscii (trim other)) = some name := by
    rw [hother]
    exact hname
  rw [directivesOf_name hname, directivesOf_name hsame]

/-! ### Settings and environment -/

theorem environmentDirectives_some (e : String) :
    environmentDirectives (some e) = if (trim e).isEmpty then none else some (trim e) := by
  simp only [environmentDirectives, Option.map_some, Option.filter_some]
  cases (trim e).isEmpty <;> rfl

theorem filter_unset (g : Logging) : g.filter none =
    (Filter.parse? (directivesOf g.level)).getD (.uniform (some .info)) := rfl

theorem filter_blank (g : Logging) {e : String} (h : (trim e).isEmpty = true) :
    g.filter (some e) = g.filter none := by
  rw [Logging.filter, environmentDirectives_some, if_pos h]
  rfl

theorem filter_some (g : Logging) {e : String} (h : (trim e).isEmpty = false) :
    g.filter (some e) = (Filter.parse? (directivesOf g.level ++ "," ++ trim e) <|>
      Filter.parse? (trim e)).getD (g.filter none) := by
  rw [Logging.filter, environmentDirectives_some, h]
  rfl

/-- Directives of the environment that cannot be read do not count. -/
theorem filter_unread (g : Logging) {e : String} (hwish : Directive.listed? (trim e) = none) :
    g.filter (some e) = g.filter none := by
  cases hempty : (trim e).isEmpty with
  | true => exact filter_blank g hempty
  | false =>
      have hboth : Filter.parse? (directivesOf g.level ++ "," ++ trim e) = none := by
        rw [Filter.parse?_comma, hwish]
        cases Directive.listed? (directivesOf g.level) <;> rfl
      rw [filter_some g hempty, hboth, Filter.parse?, hwish]
      exact Option.getD_none

/-- Where those of the settings cannot be read, those of the environment count alone. -/
theorem filter_alone (g : Logging) {e : String} {es : List Directive}
    (hempty : (trim e).isEmpty = false) (hown : Directive.listed? (directivesOf g.level) = none)
    (hwish : Directive.listed? (trim e) = some es) : g.filter (some e) = .ofListed es := by
  rw [filter_some g hempty, Filter.parse?_comma, hown, Filter.parse?, hwish]
  rfl

theorem filter_both (g : Logging) {e : String} {ds es : List Directive}
    (hown : Directive.listed? (directivesOf g.level) = some ds)
    (hwish : Directive.listed? (trim e) = some es) :
    g.filter (some e) = .ofListed (ds ++ es) := by
  cases hempty : (trim e).isEmpty with
  | true =>
      have hnone : Directive.listed? "" = some [] := by decide +kernel
      rw [String.isEmpty_iff.1 hempty, hnone] at hwish
      cases hwish
      rw [filter_blank g hempty, List.append_nil, filter_unset, Filter.parse?, hown]
      rfl
  | false =>
      rw [filter_some g hempty, Filter.parse?_comma, hown, hwish]
      rfl

/-- Of the environment only what can be read counts; where nothing else can be read, it counts alone;
and of two directives about the same entries the later one counts, where those of the environment come
after those of the settings. It does not matter for this how a single directive is read. Blanks around
either text do not count, what a level stands for stands for itself, and the name of a level may be
written in any case. -/
theorem environment_merges (g : Logging) (e : String) :
    g.filter none = (Filter.parse? (directivesOf g.level)).getD (.uniform (some .info)) ∧
    ((∀ c ∈ e.toList, isBlank c = true) ∨ Filter.parse? (trim e) = none →
      g.filter (some e) = g.filter none) ∧
    (∀ f, (∃ c ∈ e.toList, isBlank c = false) →
      Filter.parse? (directivesOf g.level) = none → Filter.parse? (trim e) = some f →
      g.filter (some e) = f) ∧
    (∀ ds es, Directive.listed? (directivesOf g.level) = some ds →
      Directive.listed? (trim e) = some es →
      (ds ++ es = [] → g.filter (some e) = .uniform none) ∧
      (ds ++ es ≠ [] → ∀ d, (g.filter (some e)).Holds d ↔
        (d.lastIn? es).or (d.lastIn? ds) = some d)) ∧
    (∀ first last : String, (∀ c ∈ first.toList, isBlank c = true) →
      (∀ c ∈ last.toList, isBlank c = true) →
      g.filter (some (first ++ e ++ last)) = g.filter (some e) ∧
      directivesOf (first ++ g.level ++ last) = directivesOf g.level) ∧
    directivesOf (directivesOf g.level) = directivesOf g.level ∧
    ∀ other, NamesLevel g.level → lowerAscii other = lowerAscii g.level →
      directivesOf other = directivesOf g.level := by
  refine ⟨filter_unset g, ?unread, ?alone, ?both, ?padded, directivesOf_idem g.level,
    fun other => directivesOf_case⟩
  case unread =>
    rintro (hblank | hnone)
    · exact filter_blank g (isEmpty_trim.2 hblank)
    · exact filter_unread g (Filter.parse?_eq_none.1 hnone)
  case alone =>
    rintro f ⟨c, hc, hseen⟩ hown hwish
    have hempty : (trim e).isEmpty = false := by
      rw [← Bool.not_eq_true, isEmpty_trim]
      intro hblank
      rw [hblank c hc] at hseen
      cases hseen
    obtain ⟨es, hes, rfl⟩ := Option.map_eq_some_iff.1 hwish
    exact filter_alone g hempty (Filter.parse?_eq_none.1 hown) hes
  case both =>
    intro ds es hown hwish
    rw [filter_both g hown hwish]
    refine ⟨fun hnil => ?_, fun hsome d => Filter.holds_ofListed hsome d⟩
    rw [hnil]
    rfl
  case padded =>
    intro first last hfirst hlast
    refine ⟨?_, directivesOf_congr (trim_padded hfirst hlast g.level)⟩
    rw [Logging.filter, environmentDirectives_some, trim_padded hfirst hlast,
      ← environmentDirectives_some, ← Logging.filter]

/-- A target that both name, once with a blank behind it and twice in one text. -/
theorem environment_merges_overlapping :
    (Logging.filter { level := " a=debug,b=info,warn" } (some "b=trace,c=error,b=off\n")).Holds
        { target := some "b", threshold := none } ∧
      ¬(Logging.filter { level := " a=debug,b=info,warn" } (some "b=trace,c=error,b=off\n")).Holds
        { target := some "b", threshold := some .info } := by
  have hown : Directive.listed? (directivesOf " a=debug,b=info,warn") =
      some [{ target := some "a", threshold := some .debug },
        { target := some "b", threshold := some .info }, { threshold := some .warn }] := by
    decide +kernel
  have hwish : Directive.listed? (trim "b=trace,c=error,b=off\n") =
      some [{ target := some "b", threshold := some .trace },
        { target := some "c", threshold := some .error },
        { target := some "b", threshold := none }] := by
    decide +kernel
  have hholds := (environment_merges { level := " a=debug,b=info,warn" }
    "b=trace,c=error,b=off\n").2.2.2.1 _ _ hown hwish
  refine ⟨(hholds.2 (List.cons_ne_nil _ _) _).2 (by decide), fun hheld => ?_⟩
  exact absurd ((hholds.2 (List.cons_ne_nil _ _) _).1 hheld) (by decide)

end RemoteInspector.Settings
