import ExternalParser.Proofs.Grammar.Wrapping

namespace ExternalParser

namespace Text

-- A text cut into a body, copies of `v`, and blanks. Nothing that could go is left in the body; where
-- `v` is empty there are no copies, and nothing is said about the end of the body.
@[ext]
structure Cut (v text : List Char) where
  body : List Char
  count : Nat
  blanks : List Char
  joined : text = body ++ copies v count ++ blanks
  blank : ∀ c ∈ blanks, isBlank c = true
  shows : v ≠ [] → ¬ EndsBlank (body ++ copies v count)
  bare : v ≠ [] → ¬ v <:+ body
  uncopied : v = [] → count = 0

variable {v cs : List Char}

theorem length_copies (v : List Char) (k : Nat) : (copies v k).length = k * v.length := by
  simp [copies]

theorem copies_inj {j k : Nat} (hv : v ≠ []) (h : copies v j = copies v k) : j = k := by
  have hlength := congrArg List.length h
  rw [length_copies, length_copies] at hlength
  exact Nat.eq_of_mul_eq_mul_right (List.length_pos_iff.mpr hv) hlength

theorem copies_reverse (v : List Char) (k : Nat) : copies v.reverse k = (copies v k).reverse := by
  simp [copies, List.reverse_flatten]

@[simp]
theorem dropEndCopies_nil (cs : List Char) : dropEndCopies [] cs = cs := by
  rw [dropEndCopies, dropCopies, if_neg (by simp), List.reverse_reverse]

theorem exists_copies_append_dropCopies (v cs : List Char) :
    ∃ k, copies v k ++ dropCopies v cs = cs := by
  fun_induction dropCopies v cs with
  | case1 cs h ih =>
      obtain ⟨k, hk⟩ := ih
      obtain ⟨rest, rfl⟩ := List.isPrefixOf_iff_prefix.mp h.2
      rw [List.drop_left] at hk
      refine ⟨k + 1, ?_⟩
      rw [List.drop_left, copies, List.replicate_succ, List.flatten_cons, List.append_assoc,
        ← copies, hk]
  | case2 cs h => exact ⟨0, rfl⟩

theorem not_prefix_dropCopies (hv : v ≠ []) : ¬ v <+: dropCopies v cs := by
  fun_induction dropCopies v cs with
  | case1 cs h ih => exact ih
  | case2 cs h =>
      intro hprefix
      exact h ⟨hv, List.isPrefixOf_iff_prefix.mpr hprefix⟩

-- Only copies are dropped, and all of them.
theorem exists_dropEndCopies_append (v cs : List Char) :
    ∃ k, dropEndCopies v cs ++ copies v k = cs := by
  obtain ⟨k, hk⟩ := exists_copies_append_dropCopies v.reverse cs.reverse
  refine ⟨k, ?_⟩
  rw [copies_reverse] at hk
  have hback := congrArg List.reverse hk
  rwa [List.reverse_append, List.reverse_reverse, List.reverse_reverse] at hback

theorem not_suffix_dropEndCopies (hv : v ≠ []) : ¬ v <:+ dropEndCopies v cs := by
  rw [← List.reverse_prefix, dropEndCopies, List.reverse_reverse]
  exact not_prefix_dropCopies (by simpa using hv)

namespace Cut

variable {text : List Char}

theorem trimEnd_eq (c : Cut v text) (h : ¬ EndsBlank (c.body ++ copies v c.count)) :
    trimEnd text = c.body ++ copies v c.count := by
  calc
    trimEnd text = trimEnd (c.body ++ copies v c.count ++ c.blanks) := congrArg trimEnd c.joined
    _ = trimEnd (c.body ++ copies v c.count) := trimEnd_append_blanks c.blank
    _ = c.body ++ copies v c.count := trimEnd_of_not_endsBlank h

-- Where nothing shows in `v` there are no copies to drop. Otherwise all copies are those of the cut,
-- because its body does not end in one.
theorem body_eq (c : Cut v text) (h : ¬ EndsBlank (c.body ++ copies v c.count)) :
    c.body = dropEndCopies v (trimEnd text) := by
  rw [c.trimEnd_eq h]
  by_cases hv : v = []
  · subst hv
    rw [c.uncopied rfl, dropEndCopies_nil, copies, List.replicate_zero, List.flatten_nil,
      List.append_nil]
  · rw [dropEndCopies_append_copies hv, dropEndCopies_of_not_suffix (c.bare hv)]

-- The body decides how many copies there are, and these where the blanks begin.
theorem unique {c d : Cut v text} (hc : ¬ EndsBlank (c.body ++ copies v c.count))
    (hd : ¬ EndsBlank (d.body ++ copies v d.count)) : c = d := by
  have hbody := (c.body_eq hc).trans (d.body_eq hd).symm
  have hshown := (c.trimEnd_eq hc).symm.trans (d.trimEnd_eq hd)
  have hcount : c.count = d.count := by
    by_cases hv : v = []
    · rw [c.uncopied hv, d.uncopied hv]
    · rw [hbody] at hshown
      exact copies_inj hv (List.append_cancel_left hshown)
  have hblanks := c.joined.symm.trans d.joined
  rw [hshown] at hblanks
  exact Cut.ext hbody hcount (List.append_cancel_left hblanks)

-- Dropping the blanks and then the copies makes a cut.
theorem exists_not_endsBlank (v text : List Char) :
    ∃ c : Cut v text, ¬ EndsBlank (c.body ++ copies v c.count) := by
  obtain ⟨w, hw, hblank⟩ := exists_trimEnd_append text
  have hshows := not_endsBlank_trimEnd text
  by_cases hnil : v = []
  · subst hnil
    refine ⟨⟨trimEnd text, 0, w, ?_, hblank, ?_, ?_, fun _ => rfl⟩, ?_⟩
    · rw [copies, List.replicate_zero, List.flatten_nil, List.append_nil, hw]
    · exact fun h => absurd rfl h
    · exact fun h => absurd rfl h
    · simpa [copies] using hshows
  · obtain ⟨k, hk⟩ := exists_dropEndCopies_append v (trimEnd text)
    rw [← hk] at hshows
    refine ⟨⟨dropEndCopies v (trimEnd text), k, w, ?_, hblank, fun _ => hshows, ?_, ?_⟩, hshows⟩
    · rw [hk, hw]
    · exact not_suffix_dropEndCopies
    · exact fun h => absurd h hnil

end Cut

end Text

namespace Grammar

open Text

theorem wrap_eq_append_iff (g : Grammar) (fragment : String) (body : List Char) :
    g.wrap fragment = g.opening ++ String.ofList body ++ g.terminator ↔
      g.body fragment.toList = body := by
  simp [wrap_eq, ← String.toList_inj]

-- What is left of a fragment is the body of a cut that leaves no blank before the blanks it cuts off.
theorem body_eq_iff_of_cut (g : Grammar) {fragment : List Char} (c : Cut g.visibleTerminator fragment) :
    g.body fragment = c.body ↔ ¬ EndsBlank (c.body ++ copies g.visibleTerminator c.count) := by
  constructor
  · intro hbody
    by_cases hv : g.visibleTerminator = []
    · have htrim : c.body = trimEnd fragment := by
        rw [← hbody, body, hv, dropEndCopies_nil]
      rw [c.uncopied hv, htrim]
      simpa [copies] using not_endsBlank_trimEnd fragment
    · exact c.shows hv
  · intro hshows
    exact (c.body_eq hshows).symm

-- Exactly one cut of a fragment has the body that wrapping keeps. It is the one in which no blank is left
-- before those that are cut off, and that is every cut if something shows of the terminator.
theorem wrap_cuts_once (g : Grammar) (fragment : String) :
    (∃! c : Cut g.visibleTerminator fragment.toList,
        g.wrap fragment = g.opening ++ String.ofList c.body ++ g.terminator) ∧
      ∀ c : Cut g.visibleTerminator fragment.toList,
        g.wrap fragment = g.opening ++ String.ofList c.body ++ g.terminator ↔
          ¬ EndsBlank (c.body ++ copies g.visibleTerminator c.count) := by
  simp only [wrap_eq_append_iff, body_eq_iff_of_cut, implies_true, and_true]
  obtain ⟨c, hshows⟩ := Cut.exists_not_endsBlank g.visibleTerminator fragment.toList
  exact ⟨c, hshows, fun d hd => Cut.unique hd hshows⟩

-- The copies overlap, and they are counted from the end: one is cut off, and half of one stays.
example : (plainGrammar.withTerminator " aa\n").toOption.map (·.wrap "xaaa \n") =
    some "> xa aa\n" := by decide +kernel

end Grammar

end ExternalParser
