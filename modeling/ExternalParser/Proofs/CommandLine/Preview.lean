import ExternalParser.CommandLine.Preview
import ExternalParser.Proofs.Text.Slice
import ExternalParser.Proofs.Text.Trim

namespace ExternalParser.CommandLine

open Text

-- A text cut behind its first line. Without a line feed the whole text is the line; a carriage return
-- belongs to the ending if the line feed comes right behind it.
@[ext]
structure FirstLine (text : List Char) where
  line : List Char
  ending : List Char
  rest : List Char
  joined : text = line ++ (ending ++ rest)
  unbroken : '\n' ∉ line
  ends : ending = ['\r', '\n'] ∨ ending = ['\n'] ∧ line.getLast? ≠ some '\r' ∨ ending = [] ∧ rest = []

namespace FirstLine

variable {text : List Char}

-- A carriage return at the end of the run belongs to the ending only if a line feed follows.
theorem firstLine_append {run tail : List Char} (hrun : '\n' ∉ run) (htail : ∀ c ∈ tail.head?, c = '\n') :
    firstLine (run ++ tail) =
      if tail ≠ [] ∧ run.getLast? = some '\r' then run.dropLast else run := by
  have hline : (run ++ tail).takeWhile (· ≠ '\n') = run := by
    apply takeWhile_append_of_stop
    · intro c hc
      simpa using fun heq : c = '\n' => hrun (heq ▸ hc)
    · intro c hc
      simp [htail c hc]
  simp only [firstLine, hline, List.length_append, Nat.lt_add_right_iff_pos, List.length_pos_iff]

theorem line_eq (first : FirstLine text) : first.line = firstLine text := by
  rcases first.ends with hends | ⟨hends, hlast⟩ | ⟨hends, hrest⟩
  · have hcut : text = (first.line ++ ['\r']) ++ '\n' :: first.rest :=
      first.joined.trans (by simp [hends])
    rw [congrArg firstLine hcut, firstLine_append (by simpa using first.unbroken) (by simp)]
    simp
  · have hcut : text = first.line ++ '\n' :: first.rest := first.joined.trans (by simp [hends])
    rw [congrArg firstLine hcut, firstLine_append first.unbroken (by simp), if_neg (by simp [hlast])]
  · have hcut : text = first.line ++ [] := first.joined.trans (by simp [hends, hrest])
    rw [congrArg firstLine hcut, firstLine_append first.unbroken (by simp), if_neg (by simp)]

-- Behind the line there is nothing, or a character that tells the endings apart.
theorem unique (first other : FirstLine text) : first = other := by
  have hline : first.line = other.line := first.line_eq.trans other.line_eq.symm
  have htail : first.ending ++ first.rest = other.ending ++ other.rest := by
    have hboth := first.joined.symm.trans other.joined
    rw [hline] at hboth
    exact List.append_cancel_left hboth
  have hending : first.ending = other.ending := by
    rcases first.ends with hends | ⟨hends, -⟩ | ⟨hends, hrest⟩ <;>
    rcases other.ends with hends' | ⟨hends', -⟩ | ⟨hends', hrest'⟩ <;>
    simp_all
  rw [hending] at htail
  exact FirstLine.ext hline hending (List.append_cancel_left htail)

theorem exists_firstLine (text : List Char) : Nonempty (FirstLine text) := by
  have hjoined := List.takeWhile_append_dropWhile (p := (· ≠ '\n')) (l := text)
  have hrun : '\n' ∉ text.takeWhile (· ≠ '\n') := by
    intro hmem
    simpa using List.mem_takeWhile_imp hmem
  generalize text.takeWhile (· ≠ '\n') = run at hjoined hrun
  cases htail : text.dropWhile (· ≠ '\n') with
  | nil =>
      rw [htail, List.append_nil] at hjoined
      exact ⟨⟨run, [], [], by simp [hjoined], hrun, .inr (.inr ⟨rfl, rfl⟩)⟩⟩
  | cons c rest =>
      obtain rfl : c = '\n' := by
        simpa using not_head?_dropWhile (p := (· ≠ '\n')) (l := text) (by rw [htail]; rfl)
      rw [htail] at hjoined
      by_cases hlast : run.getLast? = some '\r'
      · obtain ⟨line, rfl⟩ := List.getLast?_eq_some_iff.mp hlast
        have hline : '\n' ∉ line := fun hmem => hrun (List.mem_append_left _ hmem)
        exact ⟨⟨line, ['\r', '\n'], rest, by simp [← hjoined], hline, .inl rfl⟩⟩
      · exact ⟨⟨run, ['\n'], rest, by simp [← hjoined], hrun, .inr (.inl ⟨rfl, hlast⟩)⟩⟩

theorem blank_of_mem_ending (first : FirstLine text) {c : Char} (h : c ∈ first.ending) :
    isBlank c = true := by
  have hreturn : isBlank '\r' = true := by decide
  have hfeed : isBlank '\n' = true := by decide
  rcases first.ends with hends | ⟨hends, -⟩ | ⟨hends, -⟩
  · simp only [hends, List.mem_cons, List.not_mem_nil, or_false] at h
    rcases h with rfl | rfl
    · exact hreturn
    · exact hfeed
  · rw [hends, List.mem_singleton] at h
    rw [h, hfeed]
  · rw [hends] at h
    cases h

theorem blank_of_rest_blank (first : FirstLine text) (h : ¬ ∃ c ∈ first.rest, isBlank c = false) :
    ∀ c ∈ first.ending ++ first.rest, isBlank c = true := by
  intro c hc
  rcases List.mem_append.mp hc with hc | hc
  · exact first.blank_of_mem_ending hc
  · simpa using fun hshows => h ⟨c, hc, hshows⟩

-- The lengths in bytes tell whether something shows behind the line: both belong to beginnings of the text,
-- and the ending of the line is blank.
theorem more_iff (first : FirstLine text) :
    byteLength (firstLine text) < byteLength (trimEnd text) ↔ ∃ c ∈ first.rest, isBlank c = false := by
  have hprefix : first.line <+: text := ⟨_, first.joined.symm⟩
  rw [← first.line_eq, byteLength_lt_iff_of_prefix hprefix (trimEnd_isPrefix text)]
  constructor
  · intro hlonger
    by_contra hnone
    have htrim : trimEnd text = trimEnd first.line :=
      (congrArg trimEnd first.joined).trans (trimEnd_append_blanks (first.blank_of_rest_blank hnone))
    have hle := (trimEnd_isPrefix first.line).length_le
    rw [htrim] at hlonger
    omega
  · rintro ⟨c, hc, hshows⟩
    by_contra hshorter
    -- The blanks that are cut off would reach back over all that follows the line.
    obtain ⟨blanks, hblanks, hblank⟩ := exists_trimEnd_append text
    have hsuffix : first.ending ++ first.rest <:+ blanks := by
      apply List.suffix_of_suffix_length_le ⟨_, first.joined.symm⟩ ⟨_, hblanks⟩
      have hlength := congrArg List.length (hblanks.trans first.joined)
      simp only [List.length_append] at hlength ⊢
      omega
    have hmem : c ∈ blanks := hsuffix.subset (List.mem_append_right _ hc)
    rw [hblank c hmem] at hshows
    cases hshows

end FirstLine

-- A preview that hides nothing without saying so.
structure Previews {text : List Char} (first : FirstLine text) (max : Nat) (shown : List Char) :
    Prop where
  unbroken : '\n' ∉ shown
  short : shown.length ≤ max + 1
  whole_or_marked : (∃ blanks, text = shown ++ blanks ∧ ∀ c ∈ blanks, isBlank c = true) ∨
    shown = first.line.take max ++ ['…']
  marked_iff : shown = first.line.take max ++ ['…'] ↔
    max < first.line.length ∨ ∃ c ∈ first.rest, isBlank c = false

theorem preview_of_more {text : List Char} (first : FirstLine text) {max : Nat}
    (h : max < first.line.length ∨ ∃ c ∈ first.rest, isBlank c = false) :
    preview text max = first.line.take max ++ ['…'] := by
  rw [← first.more_iff, first.line_eq] at h
  rw [preview, if_pos h, first.line_eq]

theorem preview_of_not_more {text : List Char} (first : FirstLine text) {max : Nat}
    (h : ¬ (max < first.line.length ∨ ∃ c ∈ first.rest, isBlank c = false)) :
    preview text max = first.line := by
  have hlength : first.line.length ≤ max := Nat.le_of_not_lt fun hlt => h (.inl hlt)
  rw [← first.more_iff, first.line_eq] at h
  rw [preview, if_neg h, ← first.line_eq, List.take_of_length_le hlength]

-- A text has one first line, and its preview hides nothing of it without the mark.
theorem preview_hides_nothing (text : List Char) (max : Nat) :
    ∃ first : FirstLine text, (∀ other : FirstLine text, other = first) ∧
      Previews first max (preview text max) := by
  obtain ⟨first⟩ := FirstLine.exists_firstLine text
  refine ⟨first, fun other => other.unique first, ?_⟩
  by_cases hmore : max < first.line.length ∨ ∃ c ∈ first.rest, isBlank c = false
  · rw [preview_of_more first hmore]
    refine ⟨?_, ?_, .inr rfl, iff_of_true rfl hmore⟩
    · simpa using fun hmem => first.unbroken (List.mem_of_mem_take hmem)
    · rw [List.length_append, List.length_take, List.length_singleton]
      omega
  · rw [preview_of_not_more first hmore]
    have hlength : first.line.length ≤ max := Nat.le_of_not_lt fun hlt => hmore (.inl hlt)
    have hblank := first.blank_of_rest_blank fun hshows => hmore (.inr hshows)
    refine ⟨first.unbroken, by omega, .inl ⟨_, first.joined, hblank⟩, iff_of_false ?_ hmore⟩
    simp [List.take_of_length_le hlength]

-- The wide space is blank. Like the letter with the accent it has more bytes than one.
example : preview "né\r\n\u2003\n".toList 2 = "né".toList ∧
    preview "né\r\n\u2003x".toList 2 = "né…".toList := by
  decide

end ExternalParser.CommandLine
