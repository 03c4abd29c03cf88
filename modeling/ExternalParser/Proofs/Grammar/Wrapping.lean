import ExternalParser.Proofs.Grammar.Origin
import ExternalParser.Proofs.Text.Trim

namespace ExternalParser

namespace Text

-- The last character is blank.
def EndsBlank (cs : List Char) : Prop :=
  ∃ c ∈ cs.getLast?, isBlank c = true

def copies (v : List Char) (count : Nat) : List Char :=
  (List.replicate count v).flatten

-- Blanks and copies of `v` in any order.
inductive Tail (v : List Char) : List Char → Prop
  | nil : Tail v []
  | blank (t : List Char) (c : Char) : Tail v t → isBlank c = true → Tail v (t ++ [c])
  | copy (t : List Char) : Tail v t → Tail v (t ++ v)

-- No copy in the tail of a fragment comes behind a blank: there are no copies, or they stand right behind
-- what shows of the fragment.
def Flush (v fragment tail : List Char) : Prop :=
  (∀ c ∈ tail, isBlank c = true) ∨
    ¬ EndsBlank fragment ∧ ∃ k w, tail = copies v k ++ w ∧ ∀ c ∈ w, isBlank c = true

variable {v cs t w : List Char}

theorem copies_succ (v : List Char) (k : Nat) : copies v (k + 1) = copies v k ++ v := by
  simp [copies, List.replicate_succ']

theorem not_endsBlank_iff : ¬ EndsBlank cs ↔ ∀ c ∈ cs.getLast?, isBlank c = false := by
  simp [EndsBlank]

theorem not_endsBlank_nil : ¬ EndsBlank [] := by
  simp [EndsBlank]

theorem endsBlank_append (hcs : cs ≠ []) : EndsBlank (t ++ cs) ↔ EndsBlank cs := by
  simp [EndsBlank, List.getLast?_append_of_ne_nil t hcs]

theorem endsBlank_of_blanks (hw : ∀ c ∈ w, isBlank c = true) (hne : w ≠ []) : EndsBlank w :=
  ⟨w.getLast hne, List.getLast?_eq_some_getLast hne, hw _ (List.getLast_mem hne)⟩

theorem not_endsBlank_trimEnd (cs : List Char) : ¬ EndsBlank (trimEnd cs) := by
  rw [not_endsBlank_iff, trimEnd, List.getLast?_reverse]
  exact fun c hc => not_head?_dropWhile hc

theorem trimEnd_of_not_endsBlank (h : ¬ EndsBlank cs) : trimEnd cs = cs := by
  have htrim : trimEnd (cs ++ []) = cs := trimEnd_append (by simp) (not_endsBlank_iff.mp h)
  rwa [List.append_nil] at htrim

theorem dropCopies_suffix (v cs : List Char) : dropCopies v cs <:+ cs := by
  fun_induction dropCopies v cs with
  | case1 cs h ih => exact ih.trans (List.drop_suffix _ _)
  | case2 cs h => exact List.suffix_refl cs

theorem dropEndCopies_isPrefix (v cs : List Char) : dropEndCopies v cs <+: cs := by
  have hsuffix := dropCopies_suffix v.reverse cs.reverse
  rwa [← List.reverse_prefix, List.reverse_reverse] at hsuffix

theorem dropEndCopies_append (hv : v ≠ []) : dropEndCopies v (cs ++ v) = dropEndCopies v cs := by
  rw [dropEndCopies, List.reverse_append, dropCopies, if_pos ⟨by simpa using hv, by simp⟩,
    List.drop_left, dropEndCopies]

theorem dropEndCopies_append_copies (hv : v ≠ []) (k : Nat) :
    dropEndCopies v (cs ++ copies v k) = dropEndCopies v cs := by
  induction k with
  | zero => simp [copies]
  | succ k ih => rw [copies_succ, ← List.append_assoc, dropEndCopies_append hv, ih]

theorem dropEndCopies_of_not_suffix (h : ¬ v <:+ cs) : dropEndCopies v cs = cs := by
  have hprefix : ¬ v.reverse.isPrefixOf cs.reverse := by
    simpa using h
  rw [dropEndCopies, dropCopies, if_neg fun hboth => hprefix hboth.2, List.reverse_reverse]

-- Something that shows at its end.
structure Solid (v : List Char) : Prop where
  ne_nil : v ≠ []
  shows : ¬ EndsBlank v

namespace Solid

theorem dropEndCopies_of_endsBlank (hv : Solid v) (h : EndsBlank cs) : dropEndCopies v cs = cs := by
  apply dropEndCopies_of_not_suffix
  rintro ⟨front, rfl⟩
  exact hv.shows ((endsBlank_append hv.ne_nil).mp h)

theorem not_endsBlank_copies (hv : Solid v) (k : Nat) : ¬ EndsBlank (cs ++ copies v (k + 1)) := by
  rw [copies_succ, ← List.append_assoc, endsBlank_append hv.ne_nil]
  exact hv.shows

-- The blanks behind a block of copies go, and the copies go, and then what stands before them is looked
-- at as it is.
theorem cut_block (hv : Solid v) (k : Nat) (hw : ∀ c ∈ w, isBlank c = true) :
    dropEndCopies v (trimEnd (cs ++ copies v (k + 1) ++ w)) = dropEndCopies v cs := by
  rw [trimEnd_append_blanks hw, trimEnd_of_not_endsBlank (hv.not_endsBlank_copies k),
    dropEndCopies_append_copies hv.ne_nil]

end Solid

-- A tail is blank, or its last block of copies begins the tail or comes behind a blank.
theorem Tail.split (h : Tail v t) :
    (∀ c ∈ t, isBlank c = true) ∨
      ∃ front k w, t = front ++ copies v (k + 1) ++ w ∧ (∀ c ∈ w, isBlank c = true) ∧
        (front = [] ∨ EndsBlank front) := by
  induction h with
  | nil => exact .inl (by simp)
  | blank t c _ hc ih =>
      rcases ih with hblank | ⟨front, k, w, rfl, hw, hfront⟩
      · refine .inl fun x hx => ?_
        rcases List.mem_append.mp hx with hx | hx
        · exact hblank x hx
        · rwa [List.mem_singleton.mp hx]
      · refine .inr ⟨front, k, w ++ [c], by simp, fun x hx => ?_, hfront⟩
        rcases List.mem_append.mp hx with hx | hx
        · exact hw x hx
        · rwa [List.mem_singleton.mp hx]
  | copy t _ ih =>
      have hone : copies v 1 = v := by simp [copies]
      rcases ih with hblank | ⟨front, k, w, rfl, hw, hfront⟩
      · refine .inr ⟨t, 0, [], by simp [hone], by simp, ?_⟩
        by_cases ht : t = []
        · exact .inl ht
        · exact .inr (endsBlank_of_blanks hblank ht)
      · by_cases hnil : w = []
        · subst hnil
          exact .inr ⟨front, k + 1, [], by simp [copies_succ v (k + 1)], by simp, hfront⟩
        · refine .inr ⟨front ++ copies v (k + 1) ++ w, 0, [], by simp [hone], by simp, .inr ?_⟩
          exact (endsBlank_append hnil).mpr (endsBlank_of_blanks hw hnil)

end Text

namespace Grammar

open Text

-- What is left of a fragment when it is wrapped.
def body (g : Grammar) (fragment : List Char) : List Char :=
  dropEndCopies g.visibleTerminator (trimEnd fragment)

variable {g : Grammar} {fragment tail : List Char}

theorem wrap_eq (g : Grammar) (fragment : String) :
    g.wrap fragment = g.opening ++ String.ofList (g.body fragment.toList) ++ g.terminator := rfl

theorem wrap_eq_iff (g : Grammar) (f f' : String) :
    g.wrap f = g.wrap f' ↔ g.body f.toList = g.body f'.toList := by
  simp [wrap_eq, ← String.toList_inj]

theorem solid_visibleTerminator (h : g.visibleTerminator ≠ []) : Solid g.visibleTerminator :=
  ⟨h, not_endsBlank_trimEnd _⟩

theorem body_append_blanks (h : ∀ c ∈ tail, isBlank c = true) :
    g.body (fragment ++ tail) = g.body fragment := by
  rw [body, trimEnd_append_blanks h, body]

theorem body_of_blanks (h : ∀ c ∈ tail, isBlank c = true) : g.body tail = [] := by
  have hnothing : g.body ([] ++ tail) = g.body [] := body_append_blanks h
  rw [List.nil_append] at hnothing
  rw [hnothing]
  exact List.prefix_nil.mp (dropEndCopies_isPrefix _ _)

-- A blank at the end is cut off, so what is left is not the fragment, nor anything longer.
theorem body_ne_of_endsBlank {front : List Char} (h : EndsBlank (fragment ++ front)) :
    g.body fragment ≠ fragment ++ front := by
  intro heq
  have hbody : fragment ++ front <+: trimEnd fragment := heq ▸ dropEndCopies_isPrefix _ _
  have htrim := trimEnd_isPrefix fragment
  have hbelow := hbody.length_le
  have hlength := htrim.length_le
  rw [List.length_append] at hbelow
  obtain rfl : front = [] := List.eq_nil_of_length_eq_zero (by omega)
  rw [List.append_nil] at h
  have hnot := not_endsBlank_trimEnd fragment
  rw [htrim.eq_of_length (by omega)] at hnot
  exact hnot h

section Tails

variable (hv : g.visibleTerminator ≠ [])

include hv

theorem body_block_of_endsBlank {cs w : List Char} (k : Nat) (hw : ∀ c ∈ w, isBlank c = true)
    (h : EndsBlank cs) : g.body (cs ++ copies g.visibleTerminator (k + 1) ++ w) = cs := by
  have hsolid := solid_visibleTerminator hv
  rw [body, hsolid.cut_block k hw, hsolid.dropEndCopies_of_endsBlank h]

theorem body_block_of_not_endsBlank {cs w : List Char} (k : Nat) (hw : ∀ c ∈ w, isBlank c = true)
    (h : ¬ EndsBlank cs) :
    g.body (cs ++ copies g.visibleTerminator (k + 1) ++ w) = g.body cs := by
  rw [body, (solid_visibleTerminator hv).cut_block k hw, body, trimEnd_of_not_endsBlank h]

theorem body_copies {w : List Char} (k : Nat) (hw : ∀ c ∈ w, isBlank c = true) :
    g.body (copies g.visibleTerminator k ++ w) = [] := by
  cases k with
  | zero => exact body_of_blanks (by simpa [copies] using hw)
  | succ k =>
      have hblock := body_block_of_not_endsBlank hv k hw not_endsBlank_nil
      rw [List.nil_append] at hblock
      rw [hblock]
      exact body_of_blanks (by simp)

-- A copy behind a blank: if the tail were flush, nothing would be left of it by itself.
theorem not_flush_of_endsBlank {front w : List Char} (k : Nat) (hw : ∀ c ∈ w, isBlank c = true)
    (h : EndsBlank (fragment ++ front)) (hfront : front = [] ∨ EndsBlank front) :
    ¬ Flush g.visibleTerminator fragment
      (front ++ copies g.visibleTerminator (k + 1) ++ w) := by
  rintro (hblank | ⟨hfragment, m, w', htail, hw'⟩)
  · have hshows : ¬ EndsBlank (front ++ copies g.visibleTerminator (k + 1)) :=
      (solid_visibleTerminator hv).not_endsBlank_copies k
    apply hshows
    refine endsBlank_of_blanks (fun c hc => hblank c (List.mem_append_left _ hc)) ?_
    simp [copies, hv]
  · rcases hfront with rfl | hfront
    · exact hfragment (by simpa using h)
    · have hleft := body_block_of_endsBlank hv k hw hfront
      rw [htail, body_copies hv m hw'] at hleft
      exact not_endsBlank_nil (hleft ▸ hfront)

theorem body_append_tail (fragment : List Char) (htail : Tail g.visibleTerminator tail) :
    (Flush g.visibleTerminator fragment tail ∧ g.body (fragment ++ tail) = g.body fragment) ∨
      (¬ Flush g.visibleTerminator fragment tail ∧ ∃ front back, tail = front ++ back ∧
        EndsBlank (fragment ++ front) ∧ g.body (fragment ++ tail) = fragment ++ front) := by
  rcases htail.split with hblank | ⟨front, k, w, rfl, hw, hfront⟩
  · exact .inl ⟨.inl hblank, body_append_blanks hblank⟩
  · by_cases hend : EndsBlank (fragment ++ front)
    · refine .inr ⟨not_flush_of_endsBlank hv k hw hend hfront, front, _,
        List.append_assoc _ _ _, hend, ?_⟩
      have hbody := body_block_of_endsBlank hv k hw hend
      simpa using hbody
    · obtain rfl : front = [] := by
        rcases hfront with hnil | hfront
        · exact hnil
        · exact absurd ((endsBlank_append (by rintro rfl; exact not_endsBlank_nil hfront)).mpr hfront) hend
      rw [List.append_nil] at hend
      refine .inl ⟨.inr ⟨hend, k + 1, w, by simp, hw⟩, ?_⟩
      have hbody := body_block_of_not_endsBlank hv k hw hend
      simpa using hbody

end Tails

-- A tail of blanks and terminators does not show in the wrapped text exactly when it is flush. Otherwise
-- the fragment stays as it is, together with its tail up to a blank.
theorem wrap_append_tail (g : Grammar) (fragment tail : String) (hv : g.visibleTerminator ≠ [])
    (htail : Tail g.visibleTerminator tail.toList) :
    (g.wrap (fragment ++ tail) = g.wrap fragment ↔
        Flush g.visibleTerminator fragment.toList tail.toList) ∧
      (¬ Flush g.visibleTerminator fragment.toList tail.toList →
        ∃ front back : String, tail = front ++ back ∧ EndsBlank (fragment ++ front).toList ∧
          g.wrap (fragment ++ tail) = g.opening ++ (fragment ++ front) ++ g.terminator) := by
  rw [wrap_eq_iff, String.toList_append]
  rcases body_append_tail hv fragment.toList htail with
    ⟨hflush, hbody⟩ | ⟨hflush, front, back, hsplit, hend, hbody⟩
  · exact ⟨iff_of_true hbody hflush, fun hnot => absurd hflush hnot⟩
  · refine ⟨iff_of_false ?_ hflush, fun _ => ?_⟩
    · rw [hbody]
      exact (body_ne_of_endsBlank hend).symm
    · refine ⟨String.ofList front, String.ofList back, ?_, by simpa using hend, ?_⟩
      · rw [← String.toList_inj]
        simpa using hsplit
      · rw [wrap_eq, String.toList_append, hbody, String.ofList_append, String.ofList_toList]

def plainGrammar : Grammar :=
  ⟨"plain", ⟨[(1, "STATEMENT")]⟩, ⟨[]⟩, 1, "> ", defaultTerminator, []⟩

-- Two copies and blanks behind them.
theorem plainGrammar_wrap :
    plainGrammar.visibleTerminator ≠ [] ∧
      Tail plainGrammar.visibleTerminator ";; \n".toList ∧
      Flush plainGrammar.visibleTerminator "x = 1".toList ";; \n".toList ∧
      plainGrammar.wrap ("x = 1" ++ ";; \n") = plainGrammar.wrap "x = 1" := by
  have hv : plainGrammar.visibleTerminator ≠ [] := by decide
  have htail : Tail plainGrammar.visibleTerminator ";; \n".toList :=
    .blank [';', ';', ' '] '\n' (.blank [';', ';'] ' ' (.copy [';'] (.copy [] .nil)) rfl) rfl
  have hshows : ¬ EndsBlank "x = 1".toList := by
    rintro ⟨c, hc, hblank⟩
    obtain rfl : '1' = c := Option.some.inj hc
    cases hblank
  have hflush : Flush plainGrammar.visibleTerminator "x = 1".toList ";; \n".toList :=
    .inr ⟨hshows, 2, [' ', '\n'], rfl,
      List.forall_mem_cons.mpr ⟨rfl, List.forall_mem_singleton.mpr rfl⟩⟩
  exact ⟨hv, htail, hflush, (wrap_append_tail plainGrammar "x = 1" ";; \n" hv htail).1.mpr hflush⟩

-- The copy behind the blank goes, but the blank and the copy before it stay.
theorem separated_terminator_kept :
    plainGrammar.Made ∧ plainGrammar.visibleTerminator = [';'] ∧
      Tail plainGrammar.visibleTerminator "; ;".toList ∧
      plainGrammar.wrap ("x = 1" ++ "; ;") = "> x = 1; ;\n" ∧
      plainGrammar.wrap "x = 1" = "> x = 1;\n" := by
  refine ⟨?_, by decide, ?_, by decide +kernel, by decide +kernel⟩
  · exact .ofSketch ⟨"plain", plainGrammar.nodeKinds, plainGrammar.tokenKinds, "STATEMENT", "> ",
      defaultTerminator, []⟩ plainGrammar ⟨[(1, "STATEMENT")], rfl⟩ ⟨[], rfl⟩ rfl
  · exact .copy [';', ' '] (.blank [';'] ' ' (.copy [] .nil) rfl)

end Grammar

end ExternalParser
