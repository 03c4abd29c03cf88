import ExternalParser.Text.Blank
import Mathlib.Data.List.DropRight

namespace ExternalParser.Text

theorem not_head?_dropWhile {p : α → Bool} {l : List α} {x : α} (h : x ∈ (l.dropWhile p).head?) :
    p x = false := by
  have hnot := List.head?_dropWhile_not p l
  rwa [Option.mem_def.mp h] at hnot

-- A run that is followed by something else, or by nothing, is the one that is taken.
theorem takeWhile_append_of_stop {p : α → Bool} {run rest : List α} (hrun : ∀ x ∈ run, p x = true)
    (hrest : ∀ x ∈ rest.head?, p x = false) : (run ++ rest).takeWhile p = run := by
  rw [List.takeWhile_append_of_pos hrun]
  cases rest with
  | nil => simp
  | cons x rest => simp [hrest x rfl]

theorem dropWhile_append_of_stop {p : α → Bool} {run rest : List α} (hrun : ∀ x ∈ run, p x = true)
    (hrest : ∀ x ∈ rest.head?, p x = false) : (run ++ rest).dropWhile p = rest := by
  rw [List.dropWhile_append_of_pos hrun]
  cases rest with
  | nil => simp
  | cons x rest => simp [hrest x rfl]

-- The text without its blanks at both ends.
structure Trims (whole part : String) : Prop where
  cuts : ∃ front back : String, whole = front ++ part ++ back ∧
    (∀ c ∈ front.toList, isBlank c = true) ∧ ∀ c ∈ back.toList, isBlank c = true
  head : ∀ c ∈ part.toList.head?, isBlank c = false
  last : ∀ c ∈ part.toList.getLast?, isBlank c = false

theorem trimEnd_append {part back : List Char} (hback : ∀ c ∈ back, isBlank c = true)
    (hlast : ∀ c ∈ part.getLast?, isBlank c = false) : trimEnd (part ++ back) = part := by
  rw [trimEnd, List.reverse_append, dropWhile_append_of_stop (by simpa using hback)
    (by simpa using hlast), List.reverse_reverse]

theorem trimEnd_append_blanks {cs w : List Char} (hw : ∀ c ∈ w, isBlank c = true) :
    trimEnd (cs ++ w) = trimEnd cs := by
  rw [trimEnd, List.reverse_append, List.dropWhile_append_of_pos (by simpa using hw), trimEnd]

theorem trimEnd_isPrefix (cs : List Char) : trimEnd cs <+: cs :=
  List.rdropWhile_prefix isBlank cs

theorem exists_trimEnd_append (cs : List Char) :
    ∃ w, trimEnd cs ++ w = cs ∧ ∀ c ∈ w, isBlank c = true := by
  refine ⟨(cs.reverse.takeWhile isBlank).reverse, ?_, ?_⟩
  · rw [trimEnd, ← List.reverse_append, List.takeWhile_append_dropWhile, List.reverse_reverse]
  · intro c hc
    exact List.mem_takeWhile_imp (List.mem_reverse.mp hc)

theorem trims_trimmed (s : String) : Trims s (trimmed s) := by
  have hrest : trim s.toList <+: s.toList.dropWhile isBlank :=
    List.rdropWhile_prefix isBlank _
  refine ⟨⟨String.ofList (s.toList.takeWhile isBlank),
    String.ofList ((s.toList.dropWhile isBlank).rtakeWhile isBlank), ?_, ?_, ?_⟩, ?_, ?_⟩
  · have hback : trim s.toList ++ (s.toList.dropWhile isBlank).rtakeWhile isBlank =
        s.toList.dropWhile isBlank := List.rdropWhile_append_rtakeWhile
    rw [← String.toList_inj, String.toList_append, String.toList_append, String.toList_ofList,
      String.toList_ofList, trimmed, String.toList_ofList, List.append_assoc, hback,
      List.takeWhile_append_dropWhile]
  · simpa using fun c hc => List.mem_takeWhile_imp hc
  · simpa using fun c hc => List.mem_rtakeWhile_imp hc
  · rw [trimmed, String.toList_ofList]
    intro c hc
    obtain ⟨back, hback⟩ := hrest
    apply not_head?_dropWhile (l := s.toList)
    rw [← hback]
    exact List.mem_head?_append_of_mem_head? hc
  · rw [trimmed, String.toList_ofList, trim, trimEnd, List.getLast?_reverse]
    exact fun c hc => not_head?_dropWhile hc

theorem Trims.eq_trimmed {s part : String} (h : Trims s part) : part = trimmed s := by
  obtain ⟨⟨front, back, rfl, hfront, hback⟩, hhead, hlast⟩ := h
  rw [← String.toList_inj, trimmed, String.toList_ofList, trim, String.toList_append,
    String.toList_append, List.append_assoc, List.dropWhile_append_of_pos hfront]
  by_cases hpart : part.toList = []
  · have hnone : back.toList.dropWhile isBlank = [] := List.dropWhile_eq_nil_iff.mpr hback
    rw [hpart, List.nil_append, hnone]
    rfl
  · have hnothing : (part.toList ++ back.toList).dropWhile isBlank = part.toList ++ back.toList := by
      obtain ⟨c, cs, hcs⟩ := List.exists_cons_of_ne_nil hpart
      rw [hcs] at hhead ⊢
      simp [hhead c rfl]
    rw [hnothing, trimEnd_append hback hlast]

theorem trims_iff {s part : String} : Trims s part ↔ part = trimmed s := by
  constructor
  · exact Trims.eq_trimmed
  · rintro rfl
    exact trims_trimmed s

-- A text of which something is left has a character that shows.
theorem exists_not_blank_of_trimmed_ne_empty {s : String} (h : trimmed s ≠ "") :
    ∃ c ∈ s.toList, isBlank c = false := by
  obtain ⟨⟨front, back, hs, -, -⟩, hhead, -⟩ := trims_trimmed s
  have hpart : (trimmed s).toList ≠ [] := by simpa using h
  obtain ⟨c, cs, hcs⟩ := List.exists_cons_of_ne_nil hpart
  refine ⟨c, ?_, hhead c (by simp [hcs])⟩
  rw [hs]
  simp [hcs]

end ExternalParser.Text
