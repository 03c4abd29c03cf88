import ExternalParser.Json.Reader
import ExternalParser.Json.Writer
import ExternalParser.Proofs.Json.Tokens
import ExternalParser.Proofs.Text.Encoding
import Mathlib.Data.List.Forall2

namespace ExternalParser.Json

def MustEscape (c : Char) : Prop :=
  c = '"' ∨ c = '\\' ∨ c.toNat < 0x20

instance (c : Char) : Decidable (MustEscape c) :=
  inferInstanceAs (Decidable (c = '"' ∨ c = '\\' ∨ c.toNat < 0x20))

-- The characters that an escape of one letter stands for, with the letters.
def letters : List (Char × Char) :=
  [('"', '"'), ('\\', '\\'), ('\x08', 'b'), ('\x0c', 'f'), ('\n', 'n'), ('\r', 'r'), ('\t', 't')]

-- A hexadecimal digit in either case.
def HexDigit (d : Nat) (c : Char) : Prop :=
  d < 16 ∧ (c = Nat.digitChar d ∨ c = (Nat.digitChar d).toUpper)

instance (d : Nat) (c : Char) : Decidable (HexDigit d c) :=
  inferInstanceAs (Decidable (d < 16 ∧ (c = Nat.digitChar d ∨ c = (Nat.digitChar d).toUpper)))

inductive SpellsChar : Char → List Char → Prop where
  | plain (c : Char) (h : ¬ MustEscape c) : SpellsChar c [c]
  | letter (c l : Char) (h : (c, l) ∈ letters) : SpellsChar c ['\\', l]
  | code (c : Char) (h : MustEscape c) (high low : Nat) (x y : Char) (hx : HexDigit high x)
      (hy : HexDigit low y) (hvalue : high * 16 + low = c.toNat) :
      SpellsChar c ['\\', 'u', '0', '0', x, y]

-- The numeral that writes a natural number in decimal.
def Numeral.ofNat (n : Nat) : Numeral :=
  ⟨false, (Nat.toDigits 10 n).map fun c => c.toNat - '0'.toNat, none, none⟩

-- The characters of a token, with strings escaped in any of the ways there are.
inductive Spells : Token → List Char → Prop where
  | openBrace : Spells .openBrace ['\x7b']
  | closeBrace : Spells .closeBrace ['\x7d']
  | openBracket : Spells .openBracket ['[']
  | closeBracket : Spells .closeBracket [']']
  | comma : Spells .comma [',']
  | colon : Spells .colon [':']
  | num (n : Nat) : Spells (.num (.ofNat n)) (Nat.toDigits 10 n)
  | str (s : String) (parts : List (List Char)) (h : List.Forall₂ SpellsChar s.toList parts) :
      Spells (.str s) ('"' :: (parts.flatten ++ ['"']))

namespace Lexer

-- The lexer after the bytes of some characters.
def after (l : Lexer) (cs : List Char) : Lexer :=
  (cs.flatMap Utf8.encodeChar).foldl step l

theorem after_append (l : Lexer) (cs ds : List Char) : l.after (cs ++ ds) = (l.after cs).after ds := by
  simp [after, List.foldl_append]

theorem after_cons (l : Lexer) (c : Char) (cs : List Char) :
    l.after (c :: cs) = (l.after [c]).after cs :=
  after_append l [c] cs

-- A string that has been read without a fault up to some bytes, which are in reverse.
def inText (bytes : Bytes) (tokens : List Token) : Lexer :=
  ⟨.text ⟨bytes, false, none⟩, tokens⟩

theorem foldl_inText {bs : Bytes} (h : ∀ b ∈ bs, 0x20 ≤ b.toNat ∧ b ≠ 0x22 ∧ b ≠ 0x5C)
    (bytes : Bytes) (tokens : List Token) :
    bs.foldl step (inText bytes tokens) = inText (bs.reverse ++ bytes) tokens := by
  induction bs generalizing bytes with
  | nil => rfl
  | cons b bs ih =>
      obtain ⟨⟨hlow, hquote, hslash⟩, hbs⟩ := List.forall_mem_cons.mp h
      have hb : ¬ b < 0x20 := by
        rw [UInt8.lt_iff_toNat_lt]
        exact Nat.not_lt_of_le hlow
      have hstep : (inText bytes tokens).step b = inText (b :: bytes) tokens := by
        simp [inText, step, hslash, hquote, hb, OpenText.abandon, OpenText.push]
      rw [List.foldl_cons, hstep, ih hbs]
      simp

theorem hexDigit?_of_hexDigit {d : Nat} {c : Char} (h : HexDigit d c) :
    hexDigit? c.toNat.toUInt8 = some d := by
  have hall : ∀ d < 16, hexDigit? (Nat.digitChar d).toNat.toUInt8 = some d ∧
      hexDigit? (Nat.digitChar d).toUpper.toNat.toUInt8 = some d := by
    decide
  obtain ⟨hd, rfl | rfl⟩ := h
  · exact (hall d hd).1
  · exact (hall d hd).2

theorem toNat_lt_of_hexDigit {d : Nat} {c : Char} (h : HexDigit d c) : c.toNat < 0x80 := by
  have hall : ∀ d < 16, (Nat.digitChar d).toNat < 0x80 ∧ (Nat.digitChar d).toUpper.toNat < 0x80 := by
    decide
  obtain ⟨hd, rfl | rfl⟩ := h
  · exact (hall d hd).1
  · exact (hall d hd).2

theorem after_spelledChar {c : Char} {part : List Char} (h : SpellsChar c part) (bytes : Bytes)
    (tokens : List Token) :
    (inText bytes tokens).after part = inText ((Utf8.encodeChar c).reverse ++ bytes) tokens := by
  cases h with
  | plain h =>
      simp only [MustEscape, not_or, Nat.not_lt] at h
      obtain ⟨hquote, hslash, hlow⟩ := h
      have hchar : ∀ (b : UInt8) (d : Char), b.toNat = c.toNat → b.toNat = d.toNat → c = d := by
        intro b d hc hd
        exact Char.toNat_inj.mp (hc.symm.trans hd)
      simp only [after, List.flatMap_singleton]
      apply foldl_inText
      intro b hb
      rcases Utf8.mem_encodeChar hb with hsame | hhigh
      · refine ⟨by omega, ?_, ?_⟩
        · rintro rfl
          exact hquote (hchar _ '"' hsame rfl)
        · rintro rfl
          exact hslash (hchar _ '\\' hsame rfl)
      · refine ⟨by omega, ?_, ?_⟩
        · rintro rfl
          simp at hhigh
        · rintro rfl
          simp at hhigh
  | letter l h =>
      simp only [letters, List.mem_cons, Prod.mk.injEq, List.not_mem_nil, or_false] at h
      rcases h with ⟨rfl, rfl⟩ | ⟨rfl, rfl⟩ | ⟨rfl, rfl⟩ | ⟨rfl, rfl⟩ | ⟨rfl, rfl⟩ | ⟨rfl, rfl⟩ |
        ⟨rfl, rfl⟩
      all_goals rfl
  | code h high low x y hx hy hvalue =>
      have hsmall : c.toNat < 0x80 := by
        rcases h with rfl | rfl | h
        · decide
        · decide
        · omega
      have hunit : hexValue? [y.toNat.toUInt8, x.toNat.toUInt8, 0x30, 0x30] = some c.toNat := by
        have hzero : hexDigit? 0x30 = some 0 := rfl
        simp [hexValue?, hzero, hexDigit?_of_hexDigit hx, hexDigit?_of_hexDigit hy, hvalue]
      have htext : (⟨.hex ⟨bytes, false, none⟩ [x.toNat.toUInt8, 0x30, 0x30], tokens⟩ : Lexer).step
          y.toNat.toUInt8 = inText ((Utf8.encodeChar c).reverse ++ bytes) tokens := by
        have hnone : ¬ (0xDC00 ≤ c.toNat ∧ c.toNat ≤ 0xDFFF) := by omega
        have hlead : ¬ (0xD800 ≤ c.toNat ∧ c.toNat ≤ 0xDBFF) := by omega
        simp [step, hunit, OpenText.unit, hnone, hlead, OpenText.push, inText]
      have hbytes : ['\\', 'u', '0', '0', x, y].flatMap Utf8.encodeChar =
          [0x5C, 0x75, 0x30, 0x30, x.toNat.toUInt8, y.toNat.toUInt8] := by
        simp only [List.flatMap_cons, List.flatMap_nil, Utf8.encodeChar_of_lt (toNat_lt_of_hexDigit hx),
          Utf8.encodeChar_of_lt (toNat_lt_of_hexDigit hy)]
        rfl
      rw [after, hbytes]
      exact htext

theorem after_spelledText {cs : List Char} {parts : List (List Char)}
    (h : List.Forall₂ SpellsChar cs parts) (bytes : Bytes) (tokens : List Token) :
    (inText bytes tokens).after parts.flatten =
      inText ((cs.flatMap Utf8.encodeChar).reverse ++ bytes) tokens := by
  induction h generalizing bytes with
  | nil => rfl
  | cons hc _ ih =>
      rw [List.flatten_cons, after_append, after_spelledChar hc, ih]
      simp

theorem after_spelledString {s : String} {parts : List (List Char)}
    (h : List.Forall₂ SpellsChar s.toList parts) (tokens : List Token) :
    (⟨.between, tokens⟩ : Lexer).after ('"' :: (parts.flatten ++ ['"'])) =
      ⟨.between, .str s :: tokens⟩ := by
  have hopen : (⟨.between, tokens⟩ : Lexer).after ['"'] = inText [] tokens := rfl
  have hclose : ∀ bytes, (inText bytes tokens).after ['"'] =
      ⟨.between, .str (Utf8.decode? bytes.reverse) :: tokens⟩ := fun _ => rfl
  have hback := Utf8.decode?_encode s
  rw [Utf8.encode] at hback
  rw [after_cons, hopen, after_append, after_spelledText h, hclose, List.append_nil,
    List.reverse_reverse, hback]

theorem after_digit {d : Nat} (hd : d < 10) (whole : List Nat) (tokens : List Token) :
    (⟨.numeral .whole ⟨false, whole, none, none⟩, tokens⟩ : Lexer).after [Nat.digitChar d] =
      ⟨.numeral .whole ⟨false, d :: whole, none, none⟩, tokens⟩ := by
  have hall : ∀ d < 10, Utf8.encodeChar (Nat.digitChar d) = [(Nat.digitChar d).toNat.toUInt8] ∧
      digit? (Nat.digitChar d).toNat.toUInt8 = some d := by
    decide
  obtain ⟨hbytes, hdigit⟩ := hall d hd
  simp [after, hbytes, step, grow, hdigit]

theorem after_firstDigit {d : Nat} (hpos : 0 < d) (hd : d < 10) (tokens : List Token) :
    (⟨.between, tokens⟩ : Lexer).after [Nat.digitChar d] =
      ⟨.numeral .whole ⟨false, [d], none, none⟩, tokens⟩ := by
  have hcases : d = 1 ∨ d = 2 ∨ d = 3 ∨ d = 4 ∨ d = 5 ∨ d = 6 ∨ d = 7 ∨ d = 8 ∨ d = 9 := by omega
  rcases hcases with rfl | rfl | rfl | rfl | rfl | rfl | rfl | rfl | rfl
  all_goals rfl

theorem after_digits {n : Nat} (hn : 0 < n) (tokens : List Token) :
    (⟨.between, tokens⟩ : Lexer).after (Nat.toDigits 10 n) =
      ⟨.numeral .whole ⟨false, (Numeral.ofNat n).whole.reverse, none, none⟩, tokens⟩ := by
  induction n using Nat.strongRecOn with
  | ind n ih =>
      by_cases hlt : n < 10
      · simp only [Numeral.ofNat, Nat.toDigits_of_lt_base hlt]
        rw [after_firstDigit hn hlt]
        simp [Nat.toNat_digitChar_sub_48_of_lt_ten hlt]
      · have hsplit := Nat.toDigits_of_base_le (b := 10) (n := n) (by omega) (by omega)
        have hmod : n % 10 < 10 := by omega
        simp only [Numeral.ofNat] at ih ⊢
        rw [hsplit, after_append, ih (n / 10) (by omega) (by omega), after_digit hmod]
        simp [Nat.toNat_digitChar_sub_48_of_lt_ten hmod]

theorem finish_after_digits (n : Nat) (tokens : List Token) :
    ((⟨.between, tokens⟩ : Lexer).after (Nat.toDigits 10 n)).finish =
      (tokens.reverse ++ [.num (.ofNat n)], .finished) := by
  cases n with
  | zero =>
      have hzero : (⟨.between, tokens⟩ : Lexer).after (Nat.toDigits 10 0) =
          ⟨.numeral .zero ⟨false, [0], none, none⟩, tokens⟩ := rfl
      rw [hzero]
      simp [finish, settle, Numeral.ofNat]
  | succ n =>
      rw [after_digits (Nat.succ_pos n)]
      simp [finish, settle, Numeral.ofNat]

theorem after_spelled {t : Token} {part : List Char} (h : Spells t part) (hn : ∀ n, t ≠ .num n)
    (tokens : List Token) :
    (⟨.between, tokens⟩ : Lexer).after part = ⟨.between, t :: tokens⟩ := by
  cases h with
  | num n => exact absurd rfl (hn _)
  | str s parts h => exact after_spelledString h tokens
  | _ => rfl

end Lexer

-- What may stand behind a number.
def Token.IsMark (t : Token) : Prop :=
  t = .comma ∨ t = .closeBracket ∨ t = .closeBrace

-- No number runs into what follows it.
def Spaced : List Token → Prop
  | [] => True
  | t :: ts => ((∃ n, t = .num n) → ∀ u ∈ ts.head?, u.IsMark) ∧ Spaced ts

namespace Lexer

-- A mark ends the numeral before it, so that the lexer goes on as from between two tokens.
theorem after_digits_mark (n : Nat) {u : Token} {part : List Char} (hu : u.IsMark)
    (h : Spells u part) (cs : List Char) (tokens : List Token) :
    ((⟨.between, tokens⟩ : Lexer).after (Nat.toDigits 10 n)).after (part ++ cs) =
      (⟨.between, .num (.ofNat n) :: tokens⟩ : Lexer).after (part ++ cs) := by
  have hfinish := finish_after_digits n tokens
  have hok : ((⟨.between, tokens⟩ : Lexer).after (Nat.toDigits 10 n)).state ≠ .broken .finished :=
    foldl_state_ne (by simp) _
  obtain ⟨c, b, rfl, hb, hends⟩ : ∃ c b, part = [c] ∧ Utf8.encodeChar c = [b] ∧ EndsNumeral b := by
    rcases hu with rfl | rfl | rfl
    all_goals
      cases h
      exact ⟨_, _, rfl, rfl, by decide, by decide, by decide⟩
  have hstep := step_of_finish hok hfinish (.inl hends)
  rw [List.reverse_append, List.reverse_reverse] at hstep
  simp only [after, List.flatMap_append, List.flatMap_singleton, hb, List.foldl_append,
    List.foldl_cons, List.foldl_nil] at hstep ⊢
  rw [hstep]
  rfl

theorem finish_after_spelled {ts : List Token} {parts : List (List Char)}
    (h : List.Forall₂ Spells ts parts) (hs : Spaced ts) (tokens : List Token) :
    ((⟨.between, tokens⟩ : Lexer).after parts.flatten).finish =
      (tokens.reverse ++ ts, .finished) := by
  induction h generalizing tokens with
  | nil => simp [after]
  | @cons t part ts parts ht hts ih =>
      obtain ⟨hmark, hs⟩ := hs
      rw [List.flatten_cons, after_append]
      by_cases hn : ∃ n, t = .num n
      · obtain ⟨_, rfl⟩ := hn
        cases ht with
        | num n =>
            cases hts with
            | nil => simpa [after] using finish_after_digits n tokens
            | @cons u part ts parts hu hts =>
                rw [List.flatten_cons, after_digits_mark n (hmark ⟨_, rfl⟩ u rfl) hu]
                simpa using ih hs (.num (.ofNat n) :: tokens)
      · rw [after_spelled ht (fun n heq => hn ⟨n, heq⟩), ih hs]
        simp

end Lexer

theorem tokens_encode_of_spelled {ts : List Token} {parts : List (List Char)} {text : String}
    (h : List.Forall₂ Spells ts parts) (hs : Spaced ts) (htext : text.toList = parts.flatten) :
    tokens (Utf8.encode text) = (ts, .finished) := by
  rw [Utf8.encode, htext]
  exact Lexer.finish_after_spelled h hs []

theorem Numeral.appendDigits_eq (word : Nat) (ds : List Nat)
    (h : ds.foldl (fun n d => n * 10 + d) word ≤ maxWord) :
    appendDigits word ds = (ds.foldl (fun n d => n * 10 + d) word, 0) := by
  have hgrows : ∀ (ds : List Nat) (word : Nat), word ≤ ds.foldl (fun n d => n * 10 + d) word := by
    intro ds
    induction ds with
    | nil => simp
    | cons d ds ih =>
        intro word
        have hle := ih (word * 10 + d)
        rw [List.foldl_cons]
        omega
  induction ds generalizing word with
  | nil => rfl
  | cons d ds ih =>
      rw [List.foldl_cons] at h ⊢
      have hfits : word * 10 + d ≤ maxWord := Nat.le_trans (hgrows ds _) h
      rw [appendDigits, if_pos hfits, ih _ h]

theorem Numeral.ofDigits_ofNat (n : Nat) : ofDigits (Numeral.ofNat n).whole = n := by
  have hread := Nat.ofDigitChars_ten_toDigits (n := n)
  rw [Nat.ofDigitChars_eq_foldl] at hread
  simpa [ofDigits, Numeral.ofNat, List.foldl_map, Nat.mul_comm] using hread

theorem numberOf_ofNat {n : Nat} (h : n ≤ maxWord) :
    numberOf .keep (.ofNat n) = .ok (.natural n) := by
  have hvalue := Numeral.ofDigits_ofNat n
  rw [Numeral.ofDigits] at hvalue
  have hdigits := Numeral.appendDigits_eq 0 (Numeral.ofNat n).whole (by rw [hvalue]; exact h)
  rw [hvalue] at hdigits
  have hnumber : (Numeral.ofNat n).number? = some (.natural n) := by
    unfold Numeral.number?
    rw [hdigits]
    rfl
  simp [numberOf, hnumber]

theorem spellsChar_escapedChar (c : Char) : SpellsChar c (escapedChar c) := by
  have hpad : ∀ n < 0x20, hexPad n = ['0', '0', Nat.digitChar (n / 16), Nat.digitChar (n % 16)] := by
    decide
  unfold escapedChar
  repeat' split
  iterate 7
    subst_vars
    exact .letter _ _ (by decide)
  · rename_i hlow
    rw [hpad _ hlow]
    exact .code c (.inr (.inr hlow)) (c.toNat / 16) (c.toNat % 16) _ _
      ⟨by omega, .inl rfl⟩ ⟨by omega, .inl rfl⟩ (by omega)
  · exact .plain c (by simp_all [MustEscape])

theorem spells_writeString (s : String) : Spells (.str s) (writeString s) := by
  have hparts : List.Forall₂ SpellsChar s.toList (s.toList.map escapedChar) := by
    rw [List.forall₂_map_right_iff, List.forall₂_same]
    exact fun c _ => spellsChar_escapedChar c
  exact .str s _ hparts

end ExternalParser.Json
