import Mathlib.Data.List.Induction
import RemoteInspector.Log.Filter

/-!
What a filter holds. Every directive is about the entries of one target, or about those in some spans
of it, and of several directives about the same entries the last one counts (`Filter.holds_ofDirectives`). A
text that lists directives, with a comma and another such text behind it, lists the directives of both
(`Directive.listed?_comma`).
-/

namespace RemoteInspector.Log

namespace Directive

/-! ### The last directive about some entries -/

theorem sameScope_iff {a b : Directive} :
    a.sameScope b = true ↔ a.target = b.target ∧ a.span = b.span ∧ a.fields = b.fields := by
  simp only [sameScope, Bool.and_eq_true, beq_iff_eq, and_assoc]

@[simp] theorem sameScope_self (d : Directive) : d.sameScope d = true :=
  sameScope_iff.2 ⟨rfl, rfl, rfl⟩

theorem sameScope_comm (a b : Directive) : a.sameScope b = b.sameScope a := by
  rw [Bool.eq_iff_iff, sameScope_iff, sameScope_iff, eq_comm, @eq_comm _ a.span,
    @eq_comm _ a.fields]

theorem isPlain_congr {a b : Directive} (h : a.sameScope b = true) : a.isPlain = b.isPlain := by
  obtain ⟨-, hspan, hfields⟩ := sameScope_iff.1 h
  simp only [isPlain, hspan, hfields]

theorem isStatic_congr {a b : Directive} (h : a.sameScope b = true) : a.isStatic = b.isStatic := by
  obtain ⟨-, hspan, hfields⟩ := sameScope_iff.1 h
  simp only [isStatic, hspan, hfields]

/-- The last of some directives that is about the same entries as this one. -/
def lastIn? (d : Directive) (ds : List Directive) : Option Directive :=
  ds.findRev? fun e => e.sameScope d

theorem lastIn?_append (d : Directive) (ds es : List Directive) :
    d.lastIn? (ds ++ es) = (d.lastIn? es).or (d.lastIn? ds) := by
  simp only [lastIn?, List.findRev?_eq_find?_reverse, List.reverse_append, List.find?_append]

theorem lastIn?_singleton (d e : Directive) :
    d.lastIn? [e] = if e.sameScope d then some e else none := by
  simp only [lastIn?, List.findRev?_eq_find?_reverse, List.reverse_singleton, List.find?_singleton]

/-- Among the directives of one kind the last one is the same, if the kind depends on the entries
alone. -/
theorem lastIn?_filter {d : Directive} (kind : Directive → Bool)
    (hkind : ∀ e, e.sameScope d = true → kind e = kind d) (ds : List Directive) :
    d.lastIn? (ds.filter kind) = if kind d then d.lastIn? ds else none := by
  have hboth : (fun e => kind e && e.sameScope d) = fun e => kind d && e.sameScope d := by
    funext e
    cases hscope : e.sameScope d with
    | true => rw [hkind e hscope]
    | false => rw [Bool.and_false, Bool.and_false]
  simp only [lastIn?, List.findRev?_eq_find?_reverse, ← List.filter_reverse, List.find?_filter,
    ← Bool.and_eq_true, Bool.decide_eq_true, hboth]
  cases kind d with
  | true => simp only [Bool.true_and, if_true]
  | false => simp

/-! ### Lists of directives -/

/-- The directives that stand before a comma, and those behind it. -/
theorem listed?_comma (a b : String) :
    listed? (a ++ "," ++ b) = do return (← listed? a) ++ (← listed? b) := by
  have hsplit : (a ++ "," ++ b).toList.splitOn ',' = a.toList.splitOn ',' ++ b.toList.splitOn ',' := by
    rw [String.toList_append, String.toList_append, List.append_assoc]
    exact List.splitOn_append_cons_self a.toList b.toList
  simp only [listed?, hsplit, List.filter_append, List.map_append, List.mapM_append]

end Directive

namespace Filter

open Directive

def Holds (f : Filter) (d : Directive) : Prop := d ∈ f.plain ∨ d ∈ f.inSpans

/-- Of the directives put one after the other, those are left that no later one is put in place
of. -/
theorem mem_foldl_put (ds : List Directive) (d : Directive) :
    d ∈ ds.foldl put [] ↔ d.lastIn? ds = some d := by
  induction ds using List.reverseRecOn with
  | nil => exact iff_of_false nofun nofun
  | append_singleton ds e ih =>
      rw [List.foldl_append, List.foldl_cons, List.foldl_nil, put, List.mem_append,
        List.mem_filter, ih, List.mem_singleton, lastIn?_append, lastIn?_singleton,
        sameScope_comm e d]
      cases hscope : d.sameScope e with
      | true =>
          simp [eq_comm]
      | false =>
          have hne : d ≠ e := by
            rintro rfl
            rw [sameScope_self] at hscope
            cases hscope
          simp [hne]

/-- Of the directives about the same entries a filter holds the last one. -/
theorem holds_ofDirectives (ds : List Directive) (d : Directive) :
    (ofDirectives ds).Holds d ↔ d.lastIn? ds = some d := by
  have hplain : ∀ e : Directive, e.sameScope d = true → e.isPlain = d.isPlain :=
    fun _ => isPlain_congr
  have hspans : ∀ e : Directive, e.sameScope d = true → (!e.isPlain) = !d.isPlain :=
    fun e he => congrArg _ (hplain e he)
  simp only [Holds, ofDirectives, mem_foldl_put, lastIn?_append,
    lastIn?_filter isPlain hplain, lastIn?_filter (fun e => !e.isPlain) hspans,
    lastIn?_filter isStatic fun _ => isStatic_congr]
  -- A directive about spans may be found among the plain ones as well.
  cases d.isPlain <;> cases d.isStatic <;> simp

theorem ofListed_eq {ds : List Directive} (hsome : ds ≠ []) : ofListed ds = ofDirectives ds := by
  cases ds with
  | nil => exact absurd rfl hsome
  | cons d ds => rfl

/-- What is held of two lists of directives, one behind the other. -/
theorem holds_ofListed {ds es : List Directive} (hsome : ds ++ es ≠ []) (d : Directive) :
    (ofListed (ds ++ es)).Holds d ↔ (d.lastIn? es).or (d.lastIn? ds) = some d := by
  rw [ofListed_eq hsome, holds_ofDirectives, lastIn?_append]

theorem parse?_comma (a b : String) :
    parse? (a ++ "," ++ b) =
      (listed? a).bind fun ds => (listed? b).map fun es => ofListed (ds ++ es) := by
  rw [parse?, listed?_comma]
  cases listed? a <;> cases listed? b <;> rfl

theorem parse?_eq_none {s : String} : parse? s = none ↔ listed? s = none := Option.map_eq_none_iff

end Filter

end RemoteInspector.Log
