import ExternalParser.Report
import ExternalParser.Proofs.Text.Encoding
import ExternalParser.Proofs.Text.Trim
import Mathlib.Algebra.Group.Nat.Defs
import Mathlib.Data.List.TakeWhile

namespace ExternalParser.Report

-- A text as a report of a tool: a message, the digits of a line, and the rest.
structure Parts (tool text message digits rest : String) : Prop where
  text_eq : text = tool ++ " Parse Error: " ++ message ++ " on line " ++ digits ++ rest
  digits_ne : digits ≠ ""
  digits_all : ∀ c ∈ digits.toList, Text.isDecimalDigit c = true
  rest_head : ∀ c ∈ rest.toList.head?, Text.isDecimalDigit c = false

-- No other message of the text is longer.
def LongestParts (tool text message digits rest : String) : Prop :=
  Parts tool text message digits rest ∧ ∀ message' digits' rest',
    Parts tool text message' digits' rest' → message'.length ≤ message.length

-- The text reports a line with a message: the digits of its longest message are those of a number
-- of 32 bits.
def Reports (tool text : String) (line : Nat) (message : String) : Prop :=
  ∃ whole digits rest, LongestParts tool text whole digits rest ∧
    (∀ c ∈ digits.toList, c.isDigit = true) ∧ Nat.ofDigitChars 10 digits.toList 0 = line ∧
    line ≤ 2 ^ 32 - 1 ∧ Text.Trims whole message

theorem lineDigits?_eq_some_iff {cs digits : List Char} :
    lineDigits? cs = some digits ↔ digits ≠ [] ∧ (∀ c ∈ digits, Text.isDecimalDigit c = true) ∧
      ∃ rest, cs = divider ++ digits ++ rest ∧ ∀ c ∈ rest.head?, Text.isDecimalDigit c = false := by
  constructor
  · intro h
    simp only [lineDigits?] at h
    split at h
    · rename_i hdivider
      obtain ⟨tail, rfl⟩ := List.isPrefixOf_iff_prefix.mp hdivider
      rw [List.drop_left] at h
      split at h
      · cases h
      · rename_i hne
        cases h
        refine ⟨hne, fun c hc => List.mem_takeWhile_imp hc,
          tail.dropWhile Text.isDecimalDigit, ?_, fun c hc => Text.not_head?_dropWhile hc⟩
        rw [List.append_assoc, List.takeWhile_append_dropWhile]
    · cases h
  · rintro ⟨hne, hall, rest, rfl, hrest⟩
    have hdivider : divider.isPrefixOf (divider ++ (digits ++ rest)) = true :=
      List.isPrefixOf_iff_prefix.mpr (List.prefix_append _ _)
    simp [lineDigits?, List.append_assoc, hdivider, Text.takeWhile_append_of_stop hall hrest, hne]

-- A line behind a message.
def Line (cs message digits : List Char) : Prop :=
  ∃ tail, cs = message ++ tail ∧ lineDigits? tail = some digits

def LongestLine (cs message digits : List Char) : Prop :=
  Line cs message digits ∧
    ∀ message' digits', Line cs message' digits' → message'.length ≤ message.length

theorem line_cons_iff {c : Char} {cs message digits : List Char} :
    Line (c :: cs) message digits ↔ message = [] ∧ lineDigits? (c :: cs) = some digits ∨
      ∃ message', message = c :: message' ∧ Line cs message' digits := by
  cases message with
  | nil => simp [Line]
  | cons d message =>
      simp only [Line, List.cons_append, List.cons.injEq, reduceCtorEq, false_and, false_or]
      constructor
      · rintro ⟨tail, ⟨rfl, rfl⟩, h⟩
        exact ⟨message, ⟨rfl, rfl⟩, tail, rfl, h⟩
      · rintro ⟨_, ⟨rfl, rfl⟩, tail, rfl, h⟩
        exact ⟨tail, ⟨rfl, rfl⟩, h⟩

theorem not_line_nil {message digits : List Char} : ¬ Line [] message digits := by
  rintro ⟨tail, hnil, h⟩
  obtain ⟨rfl, rfl⟩ := List.nil_eq_append_iff.mp hnil
  cases h

-- The search ends with the longest message, or with what it had before when there is none.
theorem lastLine_cases (passed : List Char) (best : Option (List Char × List Char))
    (cs : List Char) :
    (∀ message digits, ¬ Line cs message digits) ∧ lastLine passed best cs = best ∨
      ∃ message digits, LongestLine cs message digits ∧
        lastLine passed best cs = some (passed.reverse ++ message, digits) := by
  induction cs generalizing passed best with
  | nil => exact .inl ⟨fun _ _ => not_line_nil, rfl⟩
  | cons c cs ih =>
      rw [lastLine]
      rcases ih (c :: passed) (((lineDigits? (c :: cs)).map (passed.reverse, ·)).or best) with
        ⟨hnone, hlast⟩ | ⟨message, digits, ⟨hline, hlongest⟩, hlast⟩
      · have honly : ∀ message digits, Line (c :: cs) message digits →
            message = [] ∧ lineDigits? (c :: cs) = some digits := by
          intro message digits h
          rcases line_cons_iff.mp h with h | ⟨message', -, h⟩
          · exact h
          · exact absurd h (hnone message' digits)
        rw [hlast]
        cases hhere : lineDigits? (c :: cs) with
        | none =>
            refine .inl ⟨fun message digits h => ?_, rfl⟩
            rw [(honly message digits h).2] at hhere
            cases hhere
        | some digits =>
            refine .inr ⟨[], digits, ⟨line_cons_iff.mpr (.inl ⟨rfl, hhere⟩), ?_⟩, by simp⟩
            intro message' digits' h
            simp [(honly message' digits' h).1]
      · refine .inr ⟨c :: message, digits, ⟨?_, ?_⟩, by simp [hlast]⟩
        · exact line_cons_iff.mpr (.inr ⟨message, rfl, hline⟩)
        · intro message' digits' h
          rcases line_cons_iff.mp h with ⟨rfl, -⟩ | ⟨shorter, rfl, hshorter⟩
          · simp
          · simpa using hlongest shorter digits' hshorter

theorem LongestLine.unique {cs message digits message' digits' : List Char}
    (h : LongestLine cs message digits) (h' : LongestLine cs message' digits') :
    message = message' ∧ digits = digits' := by
  obtain ⟨⟨tail, htail, hdigits⟩, hlongest⟩ := h
  obtain ⟨⟨tail', htail', hdigits'⟩, hlongest'⟩ := h'
  have hlength : message.length = message'.length :=
    Nat.le_antisymm (hlongest' _ _ ⟨tail, htail, hdigits⟩) (hlongest _ _ ⟨tail', htail', hdigits'⟩)
  obtain ⟨rfl, rfl⟩ := List.append_inj (htail.symm.trans htail') hlength
  rw [hdigits] at hdigits'
  cases hdigits'
  exact ⟨rfl, rfl⟩

theorem lastLine_eq_some_iff {cs message digits : List Char} :
    lastLine [] none cs = some (message, digits) ↔ LongestLine cs message digits := by
  rcases lastLine_cases [] none cs with ⟨hnone, hlast⟩ | ⟨message', digits', hlongest, hlast⟩
  · rw [hlast]
    constructor
    · intro h
      cases h
    · intro h
      exact absurd h.1 (hnone message digits)
  · rw [hlast]
    constructor
    · intro h
      cases h
      exact hlongest
    · intro h
      obtain ⟨rfl, rfl⟩ := hlongest.unique h
      rfl

theorem foldlM_digits_eq_some_iff (digits : List Char) (start n : Nat) :
    digits.foldlM (fun n d => if d.isDigit then some (n * 10 + (d.toNat - '0'.toNat)) else none)
        start = some n ↔
      (∀ c ∈ digits, c.isDigit = true) ∧ Nat.ofDigitChars 10 digits start = n := by
  induction digits generalizing start with
  | nil => simp
  | cons d digits ih =>
      rw [List.foldlM_cons, List.forall_mem_cons, Nat.ofDigitChars_cons, Nat.mul_comm 10]
      by_cases hd : d.isDigit = true
      · simp only [hd, if_true, Option.bind_eq_bind, Option.bind_some, ih, true_and]
      · simp [hd]

theorem lineNumber?_eq_some_iff {digits : List Char} {n : Nat} :
    lineNumber? digits = some n ↔ (∀ c ∈ digits, c.isDigit = true) ∧
      Nat.ofDigitChars 10 digits 0 = n ∧ n ≤ 2 ^ 32 - 1 := by
  have hlimit : ∀ k, k < Nat.pow 2 32 ↔ k ≤ 2 ^ 32 - 1 := by
    intro k
    have hpow : Nat.pow 2 32 = 4294967296 := rfl
    omega
  simp only [lineNumber?, Option.bind_eq_bind, Option.bind_eq_some_iff, foldlM_digits_eq_some_iff]
  constructor
  · rintro ⟨k, ⟨hall, hk⟩, h⟩
    split at h
    · rename_i hlt
      cases h
      exact ⟨hall, hk, (hlimit n).mp hlt⟩
    · cases h
  · rintro ⟨hall, hn, hle⟩
    exact ⟨n, ⟨hall, hn⟩, if_pos ((hlimit n).mpr hle)⟩

theorem toList_report (tool message digits rest : String) :
    (tool ++ " Parse Error: " ++ message ++ " on line " ++ digits ++ rest).toList =
      opening tool ++ (message.toList ++ (divider ++ digits.toList ++ rest.toList)) := by
  unfold opening divider
  simp only [String.toList_append, List.append_assoc]

section Behind

variable {tool text : String} {cs : List Char}

theorem exists_parts_iff_line (htext : text.toList = opening tool ++ cs) {message digits : String} :
    (∃ rest, Parts tool text message digits rest) ↔ Line cs message.toList digits.toList := by
  constructor
  · rintro ⟨rest, h⟩
    rw [h.text_eq, toList_report] at htext
    have htail := List.append_cancel_left htext
    have hne : digits.toList ≠ [] := fun hnil => h.digits_ne (String.toList_eq_nil_iff.mp hnil)
    exact ⟨_, htail.symm, lineDigits?_eq_some_iff.mpr ⟨hne, h.digits_all, _, rfl, h.rest_head⟩⟩
  · rintro ⟨tail, rfl, h⟩
    obtain ⟨hne, hall, rest, rfl, hrest⟩ := lineDigits?_eq_some_iff.mp h
    have hdigits : digits ≠ "" := fun hnil => hne (String.toList_eq_nil_iff.mpr hnil)
    refine ⟨String.ofList rest, ?_, hdigits, hall, by rwa [String.toList_ofList]⟩
    rw [← String.toList_inj, htext, toList_report, String.toList_ofList]

theorem exists_longestParts_iff (htext : text.toList = opening tool ++ cs)
    {message digits : String} :
    (∃ rest, LongestParts tool text message digits rest) ↔
      LongestLine cs message.toList digits.toList := by
  constructor
  · rintro ⟨rest, h, hlongest⟩
    refine ⟨(exists_parts_iff_line htext).mp ⟨rest, h⟩, ?_⟩
    intro message' digits' hline
    rw [← String.toList_ofList (l := message'), ← String.toList_ofList (l := digits')] at hline
    obtain ⟨rest', h'⟩ := (exists_parts_iff_line htext).mpr hline
    have hle := hlongest _ _ _ h'
    rwa [← String.length_toList, ← String.length_toList, String.toList_ofList] at hle
  · rintro ⟨hline, hlongest⟩
    obtain ⟨rest, h⟩ := (exists_parts_iff_line htext).mpr hline
    refine ⟨rest, h, ?_⟩
    intro message' digits' rest' h'
    rw [← String.length_toList, ← String.length_toList]
    exact hlongest _ _ ((exists_parts_iff_line htext).mp ⟨rest', h'⟩)

end Behind

theorem read?_opening_eq_some_iff {tool : String} {cs message : List Char} {line : Nat} :
    read? tool (opening tool ++ cs) = some (message, line) ↔
      ∃ digits, LongestLine cs message digits ∧ lineNumber? digits = some line := by
  have hopens : (opening tool).isPrefixOf (opening tool ++ cs) = true :=
    List.isPrefixOf_iff_prefix.mpr (List.prefix_append _ _)
  simp only [read?, hopens, if_true, List.drop_left, Option.bind_eq_bind, Option.bind_eq_some_iff]
  constructor
  · rintro ⟨⟨_, digits⟩, hlast, n, hn, h⟩
    cases h
    exact ⟨digits, lastLine_eq_some_iff.mp hlast, hn⟩
  · rintro ⟨digits, hlongest, hn⟩
    exact ⟨_, lastLine_eq_some_iff.mpr hlongest, line, hn, rfl⟩

theorem read?_eq_some_iff {tool text message : String} {line : Nat} :
    read? tool text.toList = some (message.toList, line) ↔
      ∃ digits rest, LongestParts tool text message digits rest ∧
        (∀ c ∈ digits.toList, c.isDigit = true) ∧ Nat.ofDigitChars 10 digits.toList 0 = line ∧
        line ≤ 2 ^ 32 - 1 := by
  by_cases hopens : opening tool <+: text.toList
  · obtain ⟨cs, hcs⟩ := hopens
    rw [← hcs, read?_opening_eq_some_iff]
    constructor
    · rintro ⟨digits, hlongest, hn⟩
      rw [← String.toList_ofList (l := digits)] at hlongest
      obtain ⟨rest, hparts⟩ := (exists_longestParts_iff hcs.symm).mpr hlongest
      exact ⟨_, rest, hparts, lineNumber?_eq_some_iff.mp (by rwa [String.toList_ofList])⟩
    · rintro ⟨digits, rest, hparts, hn⟩
      exact ⟨_, (exists_longestParts_iff hcs.symm).mp ⟨rest, hparts⟩,
        lineNumber?_eq_some_iff.mpr hn⟩
  · constructor
    · intro h
      rw [read?, if_neg (by rwa [List.isPrefixOf_iff_prefix])] at h
      cases h
    · rintro ⟨digits, rest, ⟨hparts, -⟩, -⟩
      rw [hparts.text_eq, toList_report] at hopens
      exact absurd (List.prefix_append _ _) hopens

theorem reports_iff {tool text message : String} {line : Nat} :
    Reports tool text line message ↔
      ∃ whole, read? tool text.toList = some (whole, line) ∧
        message = String.ofList (Text.trim whole) := by
  constructor
  · rintro ⟨whole, digits, rest, hparts, hall, hline, hle, htrims⟩
    exact ⟨whole.toList, read?_eq_some_iff.mpr ⟨digits, rest, hparts, hall, hline, hle⟩,
      Text.trims_iff.mp htrims⟩
  · rintro ⟨whole, hread, hmessage⟩
    rw [← String.toList_ofList (l := whole)] at hread hmessage
    obtain ⟨digits, rest, hparts, hall, hline, hle⟩ := read?_eq_some_iff.mp hread
    exact ⟨_, digits, rest, hparts, hall, hline, hle, Text.trims_iff.mpr hmessage⟩

theorem classify_eq_ok_iff {tool : String} {o : Output} {out : Bytes} :
    classify tool o = .ok out ↔ o.exitCode = some 0 ∧ out = o.stdout := by
  by_cases hzero : o.exitCode = some 0
  · simp [classify, hzero, eq_comm]
  · simp only [classify, hzero, if_false, false_and, iff_false]
    split <;> simp

theorem classify_of_reports {tool message : String} {o : Output} {line : Nat}
    (hone : o.exitCode = some 1) (h : Reports tool o.stderrText line message) :
    classify tool o = .error (.rejected tool line message (Text.trimmed o.stderrText)) := by
  obtain ⟨whole, hread, rfl⟩ := reports_iff.mp h
  simp [classify, hone, hread]

theorem classify_of_not_reports {tool : String} {o : Output} (hzero : o.exitCode ≠ some 0)
    (h : ¬ (o.exitCode = some 1 ∧ ∃ line message, Reports tool o.stderrText line message)) :
    classify tool o = .error (.toolFailed tool o.exitCode o.stderrText) := by
  have hnone : (if o.exitCode = some 1 then read? tool o.stderrText.toList else none) = none := by
    split
    · rename_i hone
      cases hread : read? tool o.stderrText.toList with
      | none => rfl
      | some found => exact absurd ⟨hone, _, _, reports_iff.mpr ⟨found.1, hread, rfl⟩⟩ h
    · rfl
  simp only [classify, hzero, if_false, hnone]

theorem classify_eq_rejected_iff {tool tool' message stderr : String} {o : Output} {line : Nat} :
    classify tool o = .error (.rejected tool' line message stderr) ↔
      tool' = tool ∧ o.exitCode = some 1 ∧ Reports tool o.stderrText line message ∧
        Text.Trims o.stderrText stderr := by
  constructor
  · intro h
    have hzero : o.exitCode ≠ some 0 := by
      intro hzero
      rw [classify_eq_ok_iff.mpr ⟨hzero, rfl⟩] at h
      cases h
    by_cases hreports : o.exitCode = some 1 ∧ ∃ line message, Reports tool o.stderrText line message
    · obtain ⟨hone, line', message', hfound⟩ := hreports
      rw [classify_of_reports hone hfound] at h
      cases h
      exact ⟨rfl, hone, hfound, Text.trims_trimmed _⟩
    · rw [classify_of_not_reports hzero hreports] at h
      cases h
  · rintro ⟨rfl, hone, hreports, htrims⟩
    rw [classify_of_reports hone hreports, htrims.eq_trimmed]

-- A divider that begins behind the start of another one begins behind its end.
theorem divider_behind {front tail rest : List Char} (hfront : front ≠ [])
    (hrest : ∀ c ∈ rest.head?, c ≠ 'o') (h : front ++ (divider ++ tail) = divider ++ rest) :
    ∃ more, rest = more ++ (divider ++ tail) := by
  have hdivider : divider = [' ', 'o', 'n', ' ', 'l', 'i', 'n', 'e', ' '] := rfl
  rw [hdivider] at h ⊢
  rcases front with
    _ | ⟨a, _ | ⟨b, _ | ⟨c, _ | ⟨d, _ | ⟨e, _ | ⟨f, _ | ⟨g, _ | ⟨i, _ | ⟨j, more⟩⟩⟩⟩⟩⟩⟩⟩⟩
  · exact absurd rfl hfront
  all_goals simp only [List.cons_append, List.nil_append, List.cons.injEq, Char.reduceEq, true_and,
    false_and, and_false] at h
  · obtain ⟨-, -, -, -, -, -, -, -, rfl⟩ := h
    exact absurd rfl (hrest 'o' rfl)
  · obtain ⟨-, -, -, -, -, -, -, -, -, h⟩ := h
    exact ⟨more, h.symm⟩

-- A divider behind digits begins behind the last of them.
theorem divider_behind_digits {front tail digits rest : List Char}
    (hall : ∀ c ∈ digits, Text.isDecimalDigit c = true)
    (h : digits ++ rest = front ++ (divider ++ tail)) : divider <:+: rest := by
  rcases List.append_eq_append_iff.mp h with ⟨gap, -, hgap⟩ | ⟨others, hothers, htail⟩
  · exact ⟨gap, tail, by rw [hgap, List.append_assoc]⟩
  · cases others with
    | nil => exact ⟨[], tail, htail⟩
    | cons c others =>
        have hspace : c = ' ' := (List.cons.inj htail).1.symm
        have hdigit := hall c (by simp [hothers])
        rw [hspace] at hdigit
        cases hdigit

theorem longestParts_of_written {tool message digits rest : String} (hne : digits ≠ "")
    (hall : ∀ c ∈ digits.toList, Text.isDecimalDigit c = true)
    (hrest : ∀ c ∈ rest.toList.head?, Text.isDecimalDigit c = false)
    (hlast : ¬ " on line ".toList <:+: rest.toList) :
    LongestParts tool (tool ++ " Parse Error: " ++ message ++ " on line " ++ digits ++ rest) message
      digits rest := by
  refine ⟨⟨rfl, hne, hall, hrest⟩, ?_⟩
  intro message' digits' rest' h
  have htext := congrArg String.toList h.text_eq
  rw [toList_report, toList_report] at htext
  have htails := List.append_cancel_left htext
  rw [← String.length_toList, ← String.length_toList]
  rcases List.append_eq_append_iff.mp htails with ⟨front, hfront, htail⟩ | ⟨front, hfront, -⟩
  · by_cases hnil : front = []
    · rw [hfront, hnil, List.append_nil]
    · -- The other message would be longer by `front`, and its divider would lie in the rest.
      rw [List.append_assoc, List.append_assoc] at htail
      have hdigit : ∀ c ∈ (digits.toList ++ rest.toList).head?, c ≠ 'o' := by
        obtain ⟨d, ds, hds⟩ := List.exists_cons_of_ne_nil (mt String.toList_eq_nil_iff.mp hne)
        rintro c hc rfl
        have hd := hall 'o' (by simp_all)
        cases hd
      obtain ⟨more, hmore⟩ := divider_behind hnil hdigit htail.symm
      exact absurd (divider_behind_digits hall hmore) hlast
  · rw [hfront, List.length_append]
    exact Nat.le_add_right _ _

theorem isDecimalDigit_of_isDigit {c : Char} (h : c.isDigit = true) :
    Text.isDecimalDigit c = true := by
  simp only [Char.isDigit, Bool.and_eq_true, decide_eq_true_eq, UInt32.le_iff_toNat_le] at h
  obtain ⟨hlow, hhigh⟩ : 0x30 ≤ c.toNat ∧ c.toNat ≤ 0x39 := h
  have hrow : Text.decimalDigits = (0x30, 0x39) :: Text.decimalDigits.tail := rfl
  rw [Text.isDecimalDigit, hrow, Text.Ranges.has, if_neg (Nat.not_lt_of_le hlow), if_pos hhigh]

theorem reports_of_written (tool message : String) {rest : String} {line : Nat}
    (hline : line ≤ 2 ^ 32 - 1) (hrest : ∀ c ∈ rest.toList.head?, Text.isDecimalDigit c = false)
    (hlast : ¬ " on line ".toList <:+: rest.toList) :
    Reports tool (tool ++ " Parse Error: " ++ message ++ " on line " ++ toString line ++ rest) line
      (Text.trimmed message) := by
  have hdigits : (toString line).toList = Nat.toDigits 10 line := by simp
  have hall : ∀ c ∈ (toString line).toList, c.isDigit = true := by
    rw [hdigits]
    exact fun c hc => Nat.isDigit_of_mem_toDigits (by decide) (by decide) hc
  have hne : toString line ≠ "" := by
    rw [ne_eq, ← String.toList_eq_nil_iff, hdigits]
    exact Nat.toDigits_ne_nil
  refine ⟨message, toString line, rest, ?_, hall, ?_, hline, Text.trims_trimmed message⟩
  · exact longestParts_of_written hne (fun c hc => isDecimalDigit_of_isDigit (hall c hc)) hrest hlast
  · rw [hdigits, Nat.ofDigitChars_ten_toDigits]

-- Success, rejection and failure are told apart exactly, and a report that was written, whatever
-- its message contains, is a rejection with that message and that line.
theorem classify_exact (tool : String) (o : Output) :
    (∀ out, classify tool o = .ok out ↔ o.exitCode = some 0 ∧ out = o.stdout) ∧
      (∀ tool' line message stderr,
        classify tool o = .error (.rejected tool' line message stderr) ↔
          tool' = tool ∧ o.exitCode = some 1 ∧ Reports tool o.stderrText line message ∧
            Text.Trims o.stderrText stderr) ∧
      (o.exitCode ≠ some 0 →
        ¬ (o.exitCode = some 1 ∧ ∃ line message, Reports tool o.stderrText line message) →
          classify tool o = .error (.toolFailed tool o.exitCode o.stderrText)) ∧
      ∀ message line rest, line ≤ 2 ^ 32 - 1 →
        (∀ c ∈ rest.toList.head?, Text.isDecimalDigit c = false) →
        ¬ " on line ".toList <:+: rest.toList → o.exitCode = some 1 →
        o.stderr = Utf8.encode
          (tool ++ " Parse Error: " ++ message ++ " on line " ++ toString line ++ rest) →
        ∃ message' stderr, Text.Trims message message' ∧
          classify tool o = .error (.rejected tool line message' stderr) := by
  refine ⟨fun _ => classify_eq_ok_iff, fun _ _ _ _ => classify_eq_rejected_iff,
    classify_of_not_reports, ?_⟩
  intro message line rest hline hrest hlast hone hstderr
  have htext : o.stderrText =
      tool ++ " Parse Error: " ++ message ++ " on line " ++ toString line ++ rest := by
    rw [Output.stderrText, hstderr, Utf8.lossy_encode]
  have hreports := reports_of_written tool message hline hrest hlast
  rw [← htext] at hreports
  exact ⟨_, _, Text.trims_trimmed message, classify_of_reports hone hreports⟩

-- A message of two lines that speaks of a line itself.
def talkative : Output :=
  ⟨some 1, [], Utf8.encode ("php++" ++ " Parse Error: " ++ " a on line 9\nb" ++ " on line " ++
    toString 4294967295 ++ "\n")⟩

theorem classify_talkative : ∃ stderr, classify "php++" talkative =
    .error (.rejected "php++" 4294967295 "a on line 9\nb" stderr) := by
  have hend : ∀ c ∈ "\n".toList.head?, Text.isDecimalDigit c = false := by
    rintro c ⟨⟩
    rfl
  obtain ⟨message, stderr, htrims, h⟩ := (classify_exact "php++" talkative).2.2.2 " a on line 9\nb"
    4294967295 "\n" (by decide) hend (by decide) rfl rfl
  have hmessage : message = "a on line 9\nb" := htrims.eq_trimmed.trans (by decide +kernel)
  rw [hmessage] at h
  exact ⟨stderr, h⟩

end ExternalParser.Report
