import ExternalParser.Proofs.Text.Encoding
import ExternalParser.Proofs.Tree.Offsets

namespace ExternalParser

-- The newlines of a text, by the bytes of its encoding, at positions below an offset.
def newlinesBelow (source : String) (offset : Nat) : Nat :=
  (source.toUTF8.data.toList.take offset).count 0x0A

theorem newlinesBelow_eq (source : String) (offset : Nat) :
    newlinesBelow source offset =
      ((source.toList.flatMap Utf8.encodeChar).take offset).count 0x0A := by
  rw [newlinesBelow, ← Utf8.encode_eq_toUTF8]
  rfl

theorem newlinesBelow_mono (source : String) {before behind : Nat} (h : before ≤ behind) :
    newlinesBelow source before ≤ newlinesBelow source behind :=
  (List.take_sublist_take_left h).count_le _

theorem length_encodeChar (c : Char) : (Utf8.encodeChar c).length = c.utf8Size := by
  rw [Utf8.encodeChar_eq_utf8EncodeChar, String.length_utf8EncodeChar]

-- Only the newline itself has the byte of a newline, and no other byte.
theorem newline_notMem_encodeChar {c : Char} (h : c ≠ '\n') : (0x0A : UInt8) ∉ Utf8.encodeChar c := by
  intro hmem
  rcases Utf8.mem_encodeChar hmem with hsame | hhigh
  · have hnat : c.toNat = '\n'.toNat := hsame.symm
    exact h (Char.toNat_inj.mp hnat)
  · exact absurd hhigh (by decide)

theorem count_take_encodeChar {c : Char} (h : c ≠ '\n') (n : Nat) :
    ((Utf8.encodeChar c).take n).count 0x0A = 0 := by
  apply List.count_eq_zero_of_not_mem
  exact fun hmem => newline_notMem_encodeChar h (List.mem_of_mem_take hmem)

theorem count_encode (cs : List Char) :
    (cs.flatMap Utf8.encodeChar).count 0x0A = cs.count '\n' := by
  induction cs with
  | nil => rfl
  | cons c cs ih =>
      rw [List.flatMap_cons, List.count_append, ih]
      by_cases hc : c = '\n'
      · have hbytes : Utf8.encodeChar '\n' = [0x0A] := rfl
        rw [hc, hbytes, List.count_singleton_self, List.count_cons_self, Nat.add_comm]
      · have hnone := List.count_eq_zero_of_not_mem (newline_notMem_encodeChar hc)
        rw [hnone, List.count_cons_of_ne hc, Nat.zero_add]

theorem newlinesBelow_le (source : String) (offset : Nat) :
    newlinesBelow source offset ≤ source.toList.count '\n' := by
  rw [newlinesBelow_eq, ← count_encode]
  exact (List.take_sublist _ _).count_le _

theorem lt_of_mem_lineStartsFrom {base start : Nat} {cs : List Char}
    (h : start ∈ lineStartsFrom base cs) : base < start := by
  induction cs generalizing base with
  | nil => cases h
  | cons c cs ih =>
      have hsize := c.utf8Size_pos
      rw [lineStartsFrom] at h
      split at h
      · rcases List.mem_cons.mp h with hstart | hlater
        · omega
        · have hbehind := ih hlater
          omega
      · have hbehind := ih h
        omega

theorem lineStartsFrom_ascends (base : Nat) (cs : List Char) :
    (lineStartsFrom base cs).Pairwise (· < ·) := by
  induction cs generalizing base with
  | nil => exact List.Pairwise.nil
  | cons c cs ih =>
      rw [lineStartsFrom]
      split
      · exact List.pairwise_cons.mpr ⟨fun start => lt_of_mem_lineStartsFrom, ih _⟩
      · exact ih _

-- A text that begins at `base` has as many line starts up to an offset as newlines before it.
theorem length_takeWhile_lineStartsFrom (base offset : Nat) (cs : List Char) :
    ((lineStartsFrom base cs).takeWhile (· ≤ offset)).length =
      ((cs.flatMap Utf8.encodeChar).take (offset - base)).count 0x0A := by
  induction cs generalizing base with
  | nil => simp [lineStartsFrom]
  | cons c cs ih =>
      rw [List.flatMap_cons, List.take_append, List.count_append, length_encodeChar, lineStartsFrom,
        Nat.sub_sub]
      by_cases hc : c = '\n'
      · subst hc
        have hbytes : Utf8.encodeChar '\n' = [0x0A] := rfl
        have hsize : '\n'.utf8Size = 1 := rfl
        rw [if_pos rfl, hbytes, hsize]
        -- The line behind the newline begins one byte later.
        by_cases hle : base + 1 ≤ offset
        · have hfirst : [(0x0A : UInt8)].take (offset - base) = [0x0A] :=
            List.take_of_length_le (by simp only [List.length_singleton]; omega)
          rw [List.takeWhile_cons_of_pos (by simpa using hle), List.length_cons, ih, hfirst,
            List.count_singleton_self, Nat.add_comm]
        · have hnone : offset - base = 0 := by omega
          have hrest : offset - (base + 1) = 0 := by omega
          rw [List.takeWhile_cons_of_neg (by simpa using hle), hnone, hrest]
          rfl
      · rw [if_neg hc, ih, count_take_encodeChar hc, Nat.zero_add]

section Built

variable {g : Grammar} {source : String} {r : ParseRecord} {t : Tree}

theorem ofRecord_lineStarts (h : Tree.ofRecord g source r = .ok t) :
    t.lineStarts = 0 :: lineStartsFrom 0 source.toList := by
  obtain ⟨owners, -, rfl⟩ := ofRecord_eq_ok h
  rfl

theorem ofRecord_lineStarts_ascend (h : Tree.ofRecord g source r = .ok t) :
    t.lineStarts.Pairwise (· < ·) := by
  rw [ofRecord_lineStarts h]
  exact List.pairwise_cons.mpr ⟨fun start => lt_of_mem_lineStartsFrom, lineStartsFrom_ascends 0 _⟩

theorem ofRecord_lineOf_eq (h : Tree.ofRecord g source r = .ok t) (offset : Nat) :
    t.lineOf offset = 1 + newlinesBelow source offset := by
  rw [Tree.lineOf, ofRecord_lineStarts h, List.takeWhile_cons_of_pos (by simp), List.length_cons,
    length_takeWhile_lineStartsFrom, newlinesBelow_eq, Nat.sub_zero, Nat.add_comm]

-- The starts that are counted are all those up to the offset, so that any search for the last of them
-- ends at the same place.
theorem ofRecord_lt_lineOf_iff (h : Tree.ofRecord g source r = .ok t) {k start offset : Nat}
    (hstart : t.lineStarts[k]? = some start) : k < t.lineOf offset ↔ start ≤ offset := by
  have hpairs : t.lineStarts.Pairwise fun x y =>
      decide (y ≤ offset) = true → decide (x ≤ offset) = true := by
    apply (ofRecord_lineStarts_ascend h).imp
    intro x y hlt hy
    simp only [decide_eq_true_eq] at hy ⊢
    omega
  rw [Tree.lineOf, lt_length_takeWhile_iff hpairs hstart, decide_eq_true_eq]

end Built

-- In a built tree the line of an offset is one more than the number of newlines before it. It is found
-- between the starts of lines up to the offset and those behind it; it is at least the first line and at
-- most the last one, and it does not fall when the offset grows.
theorem ofRecord_lineOf (g : Grammar) (source : String) (r : ParseRecord) (t : Tree)
    (h : Tree.ofRecord g source r = .ok t) :
    (∀ offset, t.lineOf offset = 1 + newlinesBelow source offset) ∧
      (∀ offset k start, t.lineStarts[k]? = some start → (k < t.lineOf offset ↔ start ≤ offset)) ∧
      (∀ offset, 1 ≤ t.lineOf offset ∧ t.lineOf offset ≤ source.toList.count '\n' + 1) ∧
      ∀ before behind, before ≤ behind → t.lineOf before ≤ t.lineOf behind := by
  have hline := ofRecord_lineOf_eq h
  refine ⟨hline, fun offset k start => ofRecord_lt_lineOf_iff h, ?_, ?_⟩
  · intro offset
    have hle := newlinesBelow_le source offset
    have hoffset := hline offset
    omega
  · intro before behind hle
    have hmono := newlinesBelow_mono source hle
    have hbefore := hline before
    have hbehind := hline behind
    omega

-- For sources that begin with a character of two bytes.
def raggedRecord : ParseRecord :=
  ⟨⟨10, [.token 0]⟩, [⟨1, "é", 0⟩]⟩

-- A newline belongs to the line that it ends, and behind the end of the source the last line goes on.
theorem raggedRecord_lineOf :
    ∃ t, Tree.ofRecord sampleGrammar "é\n\nb\n" raggedRecord = .ok t ∧
      (∀ offset, t.lineOf offset = 1 + newlinesBelow "é\n\nb\n" offset) ∧
      [0, 1, 2, 3, 4, 5, 6, 99].map t.lineOf = [1, 1, 1, 2, 3, 3, 4, 4] := by
  have h : Tree.ofRecord sampleGrammar "é\n\nb\n" raggedRecord =
      .ok (Tree.layout sampleGrammar "é\n\nb\n" raggedRecord #[some 0]) := rfl
  exact ⟨_, h, (ofRecord_lineOf _ _ _ _ h).1, rfl⟩

end ExternalParser
