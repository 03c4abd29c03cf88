import ExternalParser.Text.Cut
import Mathlib.Data.List.Basic

namespace ExternalParser.Text

theorem utf8ByteSize_ofList_cons (c : Char) (cs : List Char) :
    (String.ofList (c :: cs)).utf8ByteSize = c.utf8Size + (String.ofList cs).utf8ByteSize := by
  simp

theorem splitBytesFrom_eq_some_iff (done cs first rest : List Char) (n : Nat) :
    splitBytesFrom done cs n = some (first, rest) ↔
      ∃ mid, first = done.reverse ++ mid ∧ cs = mid ++ rest ∧
        (String.ofList mid).utf8ByteSize = n := by
  fun_induction splitBytesFrom done cs n with
  | case1 done cs =>
      simp only [Option.some.injEq, Prod.mk.injEq, String.utf8ByteSize_eq_zero_iff]
      constructor
      · rintro ⟨rfl, rfl⟩
        exact ⟨[], by simp, rfl, rfl⟩
      · rintro ⟨mid, rfl, rfl, hmid⟩
        have hnil : mid = [] := by simpa using hmid
        simp [hnil]
  | case2 done n =>
      simp only [reduceCtorEq, false_iff]
      rintro ⟨mid, -, hcs, hsize⟩
      obtain ⟨rfl, -⟩ := List.append_eq_nil_iff.mp hcs.symm
      simp at hsize
  | case3 done c cs n hle ih =>
      rw [ih]
      constructor
      · rintro ⟨mid, rfl, rfl, hsize⟩
        refine ⟨c :: mid, by simp, rfl, ?_⟩
        rw [utf8ByteSize_ofList_cons, hsize, Nat.add_sub_cancel' hle]
      · rintro ⟨mid, rfl, hcs, hsize⟩
        cases mid with
        | nil => simp at hsize
        | cons d mid =>
            obtain ⟨rfl, rfl⟩ := List.cons.inj hcs
            refine ⟨mid, by simp, rfl, ?_⟩
            rw [utf8ByteSize_ofList_cons] at hsize
            exact Nat.eq_sub_of_add_eq' hsize
  | case4 done c cs n hlt =>
      simp only [reduceCtorEq, false_iff]
      rintro ⟨mid, -, hcs, hsize⟩
      cases mid with
      | nil => simp at hsize
      | cons d mid =>
          obtain ⟨rfl, -⟩ := List.cons.inj hcs
          rw [utf8ByteSize_ofList_cons] at hsize
          omega

theorem splitBytes?_eq_some_iff (cs first rest : List Char) (n : Nat) :
    splitBytes? cs n = some (first, rest) ↔
      cs = first ++ rest ∧ (String.ofList first).utf8ByteSize = n := by
  rw [splitBytes?, splitBytesFrom_eq_some_iff]
  simp

theorem slice?_eq_some_iff (s part : String) (start stop : Nat) :
    slice? s start stop = some part ↔
      ∃ before after : String, s = before ++ part ++ after ∧ before.utf8ByteSize = start ∧
        start + part.utf8ByteSize = stop := by
  unfold slice?
  constructor
  · intro h
    split at h
    · rename_i hle
      simp only [Option.bind_eq_bind, Option.bind_eq_some_iff, Option.pure_def, Option.some.injEq,
        Prod.exists, splitBytes?_eq_some_iff] at h
      obtain ⟨before, tail, ⟨hs, hbefore⟩, mid, after, ⟨rfl, hmid⟩, rfl⟩ := h
      refine ⟨String.ofList before, String.ofList after, ?_, hbefore, by omega⟩
      rw [← String.ofList_append, ← String.ofList_append, List.append_assoc, ← hs,
        String.ofList_toList]
    · cases h
  · rintro ⟨before, after, rfl, rfl, rfl⟩
    have htail : splitBytes? (before ++ part ++ after).toList before.utf8ByteSize =
        some (before.toList, part.toList ++ after.toList) := by
      rw [splitBytes?_eq_some_iff]
      simp
    have hpart : splitBytes? (part.toList ++ after.toList) part.utf8ByteSize =
        some (part.toList, after.toList) := by
      rw [splitBytes?_eq_some_iff]
      simp
    rw [if_pos (Nat.le_add_right _ _), htail, Nat.add_sub_cancel_left]
    simp [hpart]

-- A text has one beginning of each length in bytes.
theorem append_cancel_of_utf8ByteSize_eq {a b c d : String} (h : a ++ b = c ++ d)
    (hsize : a.utf8ByteSize = c.utf8ByteSize) : a = c ∧ b = d := by
  have hsplit : splitBytes? (a ++ b).toList a.utf8ByteSize = some (a.toList, b.toList) := by
    rw [splitBytes?_eq_some_iff]
    simp
  have hsplit' : splitBytes? (a ++ b).toList a.utf8ByteSize = some (c.toList, d.toList) := by
    rw [splitBytes?_eq_some_iff]
    simp [h, hsize]
  rw [hsplit] at hsplit'
  simpa [String.toList_inj] using hsplit'

theorem slice?_append {s part next : String} {start middle stop : Nat}
    (hpart : slice? s start middle = some part) (hnext : slice? s middle stop = some next) :
    slice? s start stop = some (part ++ next) := by
  rw [slice?_eq_some_iff] at hpart hnext ⊢
  obtain ⟨before, tail, hs, hbefore, hmiddle⟩ := hpart
  obtain ⟨upTo, after, hs', hupTo, hstop⟩ := hnext
  have hsame : before ++ part ++ tail = upTo ++ (next ++ after) := by
    rw [← hs, hs', String.append_assoc]
  obtain ⟨-, htail⟩ := append_cancel_of_utf8ByteSize_eq hsame (by
    rw [String.utf8ByteSize_append]
    omega)
  refine ⟨before, after, ?_, hbefore, ?_⟩
  · rw [hs, htail, String.append_assoc, String.append_assoc, String.append_assoc]
  · rw [String.utf8ByteSize_append]
    omega

theorem foldl_utf8Size (cs : List Char) (n : Nat) :
    cs.foldl (fun n c => n + c.utf8Size) n = n + (String.ofList cs).utf8ByteSize := by
  induction cs generalizing n with
  | nil => simp
  | cons c cs ih => rw [List.foldl_cons, ih, utf8ByteSize_ofList_cons, Nat.add_assoc]

theorem byteLength_eq (cs : List Char) : byteLength cs = (String.ofList cs).utf8ByteSize := by
  rw [byteLength, foldl_utf8Size, Nat.zero_add]

theorem byteLength_append (a b : List Char) : byteLength (a ++ b) = byteLength a + byteLength b := by
  simp only [byteLength_eq, String.ofList_append, String.utf8ByteSize_append]

theorem byteLength_eq_zero_iff (cs : List Char) : byteLength cs = 0 ↔ cs = [] := by
  simp [byteLength_eq]

-- Of two beginnings of one text the one with more bytes is the one with more characters.
theorem byteLength_lt_iff_of_prefix {a b text : List Char} (ha : a <+: text) (hb : b <+: text) :
    byteLength a < byteLength b ↔ a.length < b.length := by
  rcases List.prefix_or_prefix_of_prefix ha hb with ⟨more, rfl⟩ | ⟨more, rfl⟩
  · rw [byteLength_append, List.length_append, Nat.lt_add_right_iff_pos, Nat.lt_add_right_iff_pos,
      Nat.pos_iff_ne_zero, Nat.pos_iff_ne_zero, Ne, byteLength_eq_zero_iff, Ne, List.length_eq_zero_iff]
  · rw [byteLength_append, List.length_append]
    omega

theorem slice?_whole (s : String) : slice? s 0 s.utf8ByteSize = some s := by
  rw [slice?_eq_some_iff]
  exact ⟨"", "", by simp, rfl, by simp⟩

end ExternalParser.Text
