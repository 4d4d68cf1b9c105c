import Mathlib.Data.List.DropRight
import RemoteInspector.Text.Blank

/-!
Texts without the blanks at their ends. Trimming takes away blanks and nothing else, so what has been
trimmed stays as it is, and blanks that are put around a text do not count. Letters are no blanks, in
whatever case they are written.
-/

namespace RemoteInspector.Text

section

variable {α : Type} (drop : α → Bool)

theorem trimList_eq (l : List α) : trimList drop l = (l.dropWhile drop).rdropWhile drop := rfl

/-- What is taken away at the ends, and what is left. -/
theorem trimList_between (l : List α) :
    l.takeWhile drop ++ trimList drop l ++ (l.dropWhile drop).rtakeWhile drop = l := by
  rw [List.append_assoc, trimList_eq, List.rdropWhile_append_rtakeWhile,
    List.takeWhile_append_dropWhile]

theorem rdropWhile_append_dropped {l last : List α} (hlast : ∀ a ∈ last, drop a = true) :
    (l ++ last).rdropWhile drop = l.rdropWhile drop := by
  rw [List.rdropWhile, List.reverse_append, List.dropWhile_append_of_pos, List.rdropWhile]
  exact fun a ha => hlast a (List.mem_reverse.1 ha)

variable {drop}

/-- A list of which nothing is to be dropped. -/
theorem dropWhile_kept {l : List α} (hl : ∀ a ∈ l, drop a = false) :
    l.dropWhile drop = l := by
  cases l with
  | nil => rfl
  | cons a l =>
      rw [List.dropWhile_cons_of_neg]
      rw [hl a List.mem_cons_self]
      exact Bool.false_ne_true

theorem trimList_kept {l : List α} (hl : ∀ a ∈ l, drop a = false) :
    trimList drop l = l := by
  rw [trimList, dropWhile_kept hl, dropWhile_kept fun a ha => hl a (List.mem_reverse.1 ha),
    List.reverse_reverse]

/-- What would be dropped may stand around a list. -/
theorem trimList_padded {first last : List α} (hfirst : ∀ a ∈ first, drop a = true)
    (hlast : ∀ a ∈ last, drop a = true) (l : List α) :
    trimList drop (first ++ l ++ last) = trimList drop l := by
  rw [trimList_eq, trimList_eq, List.append_assoc, List.dropWhile_append_of_pos hfirst,
    List.dropWhile_append]
  split
  · next hempty =>
    rw [List.dropWhile_eq_nil_iff.2 hlast, List.isEmpty_iff.1 hempty]
  · exact rdropWhile_append_dropped drop hlast

theorem trimList_trimList (l : List α) : trimList drop (trimList drop l) = trimList drop l := by
  have hfirst : ∀ a ∈ l.takeWhile drop, drop a = true := fun _ => List.mem_takeWhile_imp
  have hlast : ∀ a ∈ (l.dropWhile drop).rtakeWhile drop, drop a = true :=
    fun _ => List.mem_rtakeWhile_imp
  rw [← trimList_padded hfirst hlast, trimList_between]

theorem trimList_eq_nil {l : List α} : trimList drop l = [] ↔ ∀ a ∈ l, drop a = true := by
  constructor
  · intro hnil a ha
    rw [← trimList_between drop l, hnil, List.append_nil, List.mem_append] at ha
    exact ha.elim List.mem_takeWhile_imp List.mem_rtakeWhile_imp
  · intro hall
    have hpadded := trimList_padded hall (List.forall_mem_nil _) []
    rwa [List.append_nil, List.append_nil] at hpadded

theorem trimList_map {f : α → α} (hf : ∀ a, drop (f a) = drop a) (l : List α) :
    trimList drop (l.map f) = (trimList drop l).map f := by
  have hdrop : drop ∘ f = drop := funext hf
  simp only [trimList, List.dropWhile_map, ← List.map_reverse, hdrop]

end

theorem toList_trim (s : String) : (trim s).toList = trimList isBlank s.toList := by
  rw [trim, String.toList_ofList]

@[simp] theorem trim_trim (s : String) : trim (trim s) = trim s := by
  rw [trim, toList_trim, trimList_trimList, trim]

/-- Blanks around a text do not count. -/
theorem trim_padded {first last : String} (hfirst : ∀ c ∈ first.toList, isBlank c = true)
    (hlast : ∀ c ∈ last.toList, isBlank c = true) (s : String) :
    trim (first ++ s ++ last) = trim s := by
  rw [trim, String.toList_append, String.toList_append, trimList_padded hfirst hlast, trim]

theorem isEmpty_trim {s : String} :
    (trim s).isEmpty = true ↔ ∀ c ∈ s.toList, isBlank c = true := by
  rw [String.isEmpty_iff, ← String.toList_eq_nil_iff, toList_trim, trimList_eq_nil]

theorem isBlank_toLower (c : Char) : isBlank c.toLower = isBlank c := by
  by_cases hascii : c.toNat < 128
  · have hall : ∀ n < 128, isBlank (Char.ofNat n).toLower = isBlank (Char.ofNat n) := by decide
    have hc := hall c.toNat hascii
    rwa [Char.ofNat_toNat] at hc
  · have hlower : ¬(c.val ≥ 'A'.val ∧ c.val ≤ 'Z'.val) := by
      rintro ⟨-, hle⟩
      exact hascii (Nat.lt_of_le_of_lt (UInt32.le_iff_toNat_le.1 hle) (by decide))
    have hkept : c.toLower = c := dif_neg hlower
    rw [hkept]

theorem trim_lowerAscii (s : String) : trim (lowerAscii s) = lowerAscii (trim s) := by
  rw [trim, lowerAscii, String.toList_ofList, trimList_map isBlank_toLower, lowerAscii, toList_trim]

end RemoteInspector.Text
