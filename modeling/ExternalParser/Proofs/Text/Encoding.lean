import ExternalParser.Text.Utf8

namespace ExternalParser.Utf8

theorem toNat_lt (c : Char) : c.toNat < 0x110000 := by
  rcases c.valid with h | h
  · have hlow : c.toNat < 0xd800 := h
    omega
  · exact h.2

-- The core library masks the bits of the first byte; a character has no others to begin with.
theorem encodeChar_eq_utf8EncodeChar (c : Char) : encodeChar c = String.utf8EncodeChar c := by
  have hmax := toNat_lt c
  have hval : c.val.toNat = c.toNat := rfl
  simp only [encodeChar, String.utf8EncodeChar, hval]
  generalize c.toNat = n at hmax ⊢
  by_cases h1 : n < 0x80
  · rw [if_pos h1, if_pos (by omega)]
  · by_cases h2 : n < 0x800
    · have hlead : n / 64 % 0x20 + 0xc0 = 0xc0 + n / 64 := by omega
      rw [if_neg h1, if_pos h2, if_neg (by omega), if_pos (by omega), hlead, Nat.add_comm (n % 64)]
    · by_cases h3 : n < 0x10000
      · have hlead : n / 4096 % 0x10 + 0xe0 = 0xe0 + n / 4096 := by omega
        rw [if_neg h1, if_neg h2, if_pos h3, if_neg (by omega), if_neg (by omega),
          if_pos (by omega), hlead, Nat.add_comm (n / 64 % 64), Nat.add_comm (n % 64)]
      · have hlead : n / 262144 % 0x08 + 0xf0 = 0xf0 + n / 262144 := by omega
        rw [if_neg h1, if_neg h2, if_neg h3, if_neg (by omega), if_neg (by omega),
          if_neg (by omega), hlead, Nat.add_comm (n / 4096 % 64), Nat.add_comm (n / 64 % 64),
          Nat.add_comm (n % 64)]

theorem encode_eq_toUTF8 (s : String) : encode s = s.toUTF8.data.toList := by
  rw [String.toUTF8_eq_toByteArray, ← String.utf8Encode_toList, List.utf8Encode,
    List.toList_data_toByteArray, encode, funext encodeChar_eq_utf8EncodeChar]

theorem encodeChar_of_lt {c : Char} (h : c.toNat < 0x80) : encodeChar c = [c.toNat.toUInt8] := by
  simp [encodeChar, h]

-- A character of several bytes has none below 0x80.
theorem mem_encodeChar {c : Char} {b : UInt8} (h : b ∈ encodeChar c) :
    b.toNat = c.toNat ∨ 0x80 ≤ b.toNat := by
  have hmax := toNat_lt c
  have hbyte : ∀ m < 256, (Nat.toUInt8 m).toNat = m := by
    intro m hm
    rw [UInt8.toNat_ofNat', Nat.mod_eq_of_lt hm]
  have hhigh : ∀ m, 0x80 ≤ m → m < 256 → 0x80 ≤ (Nat.toUInt8 m).toNat := by
    intro m hlow hm
    rwa [hbyte m hm]
  simp only [encodeChar] at h
  split at h
  · obtain rfl := List.mem_singleton.mp h
    exact .inl (hbyte _ (by omega))
  · right
    repeat' split at h
    all_goals simp only [List.mem_cons, List.not_mem_nil, or_false] at h
    · rcases h with rfl | rfl
      all_goals exact hhigh _ (by omega) (by omega)
    · rcases h with rfl | rfl | rfl
      all_goals exact hhigh _ (by omega) (by omega)
    · rcases h with rfl | rfl | rfl | rfl
      all_goals exact hhigh _ (by omega) (by omega)

theorem lead_ascii : ∀ m < 0x80, lead (Nat.toUInt8 m) = .single (Char.ofNat m) := by decide

theorem lead_two : ∀ m < 0x20, 2 ≤ m → lead (Nat.toUInt8 (0xC0 + m)) = .opens ⟨1, m, 0x80, 0xBF⟩ := by
  decide

theorem lead_three : ∀ m < 0x10, lead (Nat.toUInt8 (0xE0 + m)) =
    .opens ⟨2, m, if m = 0 then 0xA0 else 0x80, if m = 0xD then 0x9F else 0xBF⟩ := by
  decide

theorem lead_four : ∀ m < 5, lead (Nat.toUInt8 (0xF0 + m)) =
    .opens ⟨3, m, if m = 0 then 0x90 else 0x80, if m = 4 then 0x8F else 0xBF⟩ := by
  decide

-- One more byte of a sequence that has begun, which adds the six bits `m`.
theorem Decoder.step_pending (p : Pending) (output : List (Option Char)) {m : Nat} (hm : m < 0x40)
    (hlow : p.low.toNat ≤ 0x80 + m) (hhigh : 0x80 + m ≤ p.high.toNat) :
    Decoder.step ⟨some p, output⟩ (Nat.toUInt8 (0x80 + m)) =
      if p.need ≤ 1 then ⟨none, some (Char.ofNat (p.bits * 64 + m)) :: output⟩
      else ⟨some ⟨p.need - 1, p.bits * 64 + m, 0x80, 0xBF⟩, output⟩ := by
  have hbyte : (Nat.toUInt8 (0x80 + m)).toNat = 0x80 + m := by
    rw [UInt8.toNat_ofNat']
    omega
  have hin : p.low ≤ Nat.toUInt8 (0x80 + m) ∧ Nat.toUInt8 (0x80 + m) ≤ p.high := by
    rw [UInt8.le_iff_toNat_le, UInt8.le_iff_toNat_le, hbyte]
    exact ⟨hlow, hhigh⟩
  simp only [Decoder.step, if_pos hin, hbyte, Nat.add_sub_cancel_left]

theorem Decoder.step_start (output : List (Option Char)) {b : UInt8} {p : Pending}
    (h : lead b = .opens p) : Decoder.step ⟨none, output⟩ b = ⟨some p, output⟩ := by
  simp [Decoder.step, Decoder.begin, h]

-- The bytes of a character are read as that character, whatever was read before it.
theorem foldl_step_encodeChar (output : List (Option Char)) (c : Char) :
    (encodeChar c).foldl Decoder.step ⟨none, output⟩ = ⟨none, some c :: output⟩ := by
  have hvalid : c.toNat < 0xD800 ∨ 0xDFFF < c.toNat ∧ c.toNat < 0x110000 := c.valid
  have hself : Char.ofNat c.toNat = c := Char.ofNat_toNat c
  simp only [encodeChar]
  generalize c.toNat = n at hvalid hself ⊢
  subst hself
  by_cases h1 : n < 0x80
  · simp [h1, Decoder.step, Decoder.begin, lead_ascii n h1]
  · by_cases h2 : n < 0x800
    · have hn : n / 64 * 64 + n % 64 = n := by omega
      rw [if_neg h1, if_pos h2, List.foldl_cons, List.foldl_cons, List.foldl_nil,
        Decoder.step_start _ (lead_two (n / 64) (by omega) (by omega)),
        Decoder.step_pending _ _ (by omega) (by simp) (by simp; omega)]
      simp [hn]
    · by_cases h3 : n < 0x10000
      · have hn : (n / 4096 * 64 + n / 64 % 64) * 64 + n % 64 = n := by omega
        have hlow : (if n / 4096 = 0 then 0xA0 else 0x80 : UInt8).toNat ≤ 0x80 + n / 64 % 64 := by
          split
          · simp only [UInt8.reduceToNat]
            omega
          · exact Nat.le_add_right _ _
        have hhigh : 0x80 + n / 64 % 64 ≤ (if n / 4096 = 0xD then 0x9F else 0xBF : UInt8).toNat := by
          split
          all_goals
            simp only [UInt8.reduceToNat]
            omega
        rw [if_neg h1, if_neg h2, if_pos h3, List.foldl_cons, List.foldl_cons, List.foldl_cons,
          List.foldl_nil, Decoder.step_start _ (lead_three (n / 4096) (by omega)),
          Decoder.step_pending _ _ (by omega) hlow hhigh,
          if_neg (by simp), Decoder.step_pending _ _ (by omega) (by simp) (by simp; omega)]
        simp [hn]
      · have hn : ((n / 262144 * 64 + n / 4096 % 64) * 64 + n / 64 % 64) * 64 + n % 64 = n := by omega
        have hlow : (if n / 262144 = 0 then 0x90 else 0x80 : UInt8).toNat ≤ 0x80 + n / 4096 % 64 := by
          split
          · simp only [UInt8.reduceToNat]
            omega
          · exact Nat.le_add_right _ _
        have hhigh : 0x80 + n / 4096 % 64 ≤ (if n / 262144 = 4 then 0x8F else 0xBF : UInt8).toNat := by
          split
          all_goals
            simp only [UInt8.reduceToNat]
            omega
        rw [if_neg h1, if_neg h2, if_neg h3, List.foldl_cons, List.foldl_cons, List.foldl_cons,
          List.foldl_cons, List.foldl_nil, Decoder.step_start _ (lead_four (n / 262144) (by omega)),
          Decoder.step_pending _ _ (by omega) hlow hhigh,
          if_neg (by simp), Decoder.step_pending _ _ (by omega) (by simp) (by simp; omega),
          if_neg (by simp), Decoder.step_pending _ _ (by omega) (by simp) (by simp; omega)]
        simp [hn]

theorem foldl_step_encode (output : List (Option Char)) (cs : List Char) :
    (cs.flatMap encodeChar).foldl Decoder.step ⟨none, output⟩ =
      ⟨none, (cs.map some).reverse ++ output⟩ := by
  induction cs generalizing output with
  | nil => rfl
  | cons c cs ih => simp [List.foldl_append, foldl_step_encodeChar, ih]

theorem pieces_encode (s : String) : pieces (encode s) = s.toList.map some := by
  simp [pieces, encode, Decoder.start, foldl_step_encode, Decoder.finish]

theorem decode?_encode (s : String) : decode? (encode s) = some s := by
  simp [decode?, pieces_encode, List.filterMap_map]

theorem lossy_encode (s : String) : lossy (encode s) = s := by
  simp [lossy, pieces_encode, Function.comp_def]

end ExternalParser.Utf8
