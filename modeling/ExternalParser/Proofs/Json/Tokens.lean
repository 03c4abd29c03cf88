import ExternalParser.Json.Lexer

namespace ExternalParser.Json

-- Something has begun that is no token yet, or never will be one.
def LexState.Pending (s : LexState) : Prop :=
  s ≠ .between ∧ s ≠ .broken .finished

namespace Lexer

-- A blank does nothing; any other byte is a token or begins something.
theorem begin_cases (tokens : List Token) (b : UInt8) :
    isSpace b = true ∧ begin tokens b = ⟨.between, tokens⟩ ∨
      isSpace b = false ∧
        ((∃ t, begin tokens b = ⟨.between, t :: tokens⟩) ∨
          ∃ s : LexState, s.Pending ∧ begin tokens b = ⟨s, tokens⟩) := by
  cases hb : isSpace b with
  | true => exact .inl ⟨rfl, by simp [begin, hb]⟩
  | false =>
      refine .inr ⟨rfl, ?_⟩
      simp only [begin, hb, Bool.false_eq_true, if_false]
      repeat' split
      all_goals first
        | exact .inl ⟨_, rfl⟩
        | exact .inr ⟨_, by simp [LexState.Pending, nowhere], rfl⟩

-- All that one byte can do: it stands between two tokens, it ends a token that was waiting and stands
-- behind it, it is the last byte of a token, it leaves something unfinished, or it comes too late.
inductive Move (l : Lexer) (b : UInt8) : Lexer → Prop where
  | between (h : l.state = .between) : Move l b (begin l.tokens b)
  | behind (t : Token) : Move l b (begin (t :: l.tokens) b)
  | completes (t : Token) : Move l b ⟨.between, t :: l.tokens⟩
  | waits (s : LexState) (h : s.Pending) : Move l b ⟨s, l.tokens⟩
  | late : Move l b l

theorem move_step (l : Lexer) (b : UInt8) : Move l b (l.step b) := by
  obtain ⟨state, tokens⟩ := l
  cases state with
  | between => exact .between rfl
  | word left token =>
      cases left with
      | nil => exact .behind token
      | cons w left =>
          simp only [step]
          split
          · exact .waits _ (by simp [LexState.Pending, nowhere])
          · split
            · exact .completes token
            · exact .waits _ (by simp [LexState.Pending])
  | numeral part n =>
      simp only [step]
      split
      · exact .waits _ (by simp [LexState.Pending])
      · exact .waits _ (by simp [LexState.Pending, nowhere])
      · exact .behind (settle n)
  | text t =>
      simp only [step]
      repeat' split
      · exact .waits _ (by simp [LexState.Pending])
      · exact .completes t.close
      · exact .waits _ (by simp [LexState.Pending, badText])
      · exact .waits _ (by simp [LexState.Pending])
  | escape t =>
      simp only [step]
      repeat' split
      all_goals exact .waits _ (by simp [LexState.Pending, badText])
  | hex t read =>
      simp only [step]
      repeat' split
      all_goals exact .waits _ (by simp [LexState.Pending, badText])
  | broken ending => exact .late

theorem tokens_suffix_begin (tokens : List Token) (b : UInt8) :
    tokens <:+ (begin tokens b).tokens := by
  obtain ⟨-, h⟩ | ⟨-, ⟨t, h⟩ | ⟨s, -, h⟩⟩ := begin_cases tokens b
  · simp [h]
  · simp [h]
  · simp [h]

theorem Move.tokens_suffix {l l' : Lexer} {b : UInt8} (h : Move l b l') :
    l.tokens <:+ l'.tokens := by
  cases h with
  | between h => exact tokens_suffix_begin l.tokens b
  | behind t => exact (List.suffix_cons t l.tokens).trans (tokens_suffix_begin _ b)
  | completes t => exact List.suffix_cons t l.tokens
  | waits s h => exact List.suffix_refl _
  | late => exact List.suffix_refl _

-- Nothing that is broken passes for a finished text.
theorem Move.state_ne {l l' : Lexer} {b : UInt8} (h : Move l b l')
    (hl : l.state ≠ .broken .finished) : l'.state ≠ .broken .finished := by
  have hbegin : ∀ tokens, (begin tokens b).state ≠ .broken .finished := by
    intro tokens
    obtain ⟨-, h⟩ | ⟨-, ⟨t, h⟩ | ⟨s, hs, h⟩⟩ := begin_cases tokens b
    · simp [h]
    · simp [h]
    · simpa [h] using hs.2
  cases h with
  | between h => exact hbegin _
  | behind t => exact hbegin _
  | completes t => simp
  | waits s h => exact h.2
  | late => exact hl

theorem foldl_state_ne {l : Lexer} (hl : l.state ≠ .broken .finished) (bs : Bytes) :
    (bs.foldl step l).state ≠ .broken .finished := by
  induction bs generalizing l with
  | nil => exact hl
  | cons b bs ih => exact ih ((move_step l b).state_ne hl)

-- The lexer has more than the tokens `past`: another token, or the beginning of something.
def Beyond (past : List Token) (l : Lexer) : Prop :=
  (∃ t, t :: past <:+ l.tokens) ∨ l.tokens = past ∧ l.state.Pending

theorem Beyond.move {past : List Token} {l l' : Lexer} {b : UInt8} (h : Beyond past l)
    (hm : Move l b l') : Beyond past l' := by
  rcases h with ⟨t, ht⟩ | ⟨rfl, hpending⟩
  · exact .inl ⟨t, ht.trans hm.tokens_suffix⟩
  · cases hm with
    | between h => exact absurd h hpending.1
    | behind t => exact .inl ⟨t, tokens_suffix_begin _ b⟩
    | completes t => exact .inl ⟨t, List.suffix_refl _⟩
    | waits s h => exact .inr ⟨rfl, h⟩
    | late => exact .inr ⟨rfl, hpending⟩

theorem Beyond.foldl {past : List Token} {l : Lexer} (h : Beyond past l) (bs : Bytes) :
    Beyond past (bs.foldl step l) := by
  induction bs generalizing l with
  | nil => exact h
  | cons b bs ih => exact ih (h.move (move_step l b))

theorem beyond_begin (tokens : List Token) {b : UInt8} (hb : isSpace b = false) :
    Beyond tokens (begin tokens b) := by
  obtain ⟨hspace, -⟩ | ⟨-, ⟨t, h⟩ | ⟨s, hs, h⟩⟩ := begin_cases tokens b
  · rw [hb] at hspace
    cases hspace
  · exact .inl ⟨t, by simp [h]⟩
  · exact .inr ⟨by simp [h], by simpa [h] using hs⟩

-- From between two tokens blanks lead nowhere, and the first other byte leads on for good.
theorem foldl_between (tokens : List Token) (bs : Bytes) :
    (∀ b ∈ bs, isSpace b = true) ∧ bs.foldl step ⟨.between, tokens⟩ = ⟨.between, tokens⟩ ∨
      (∃ b ∈ bs, isSpace b = false) ∧ Beyond tokens (bs.foldl step ⟨.between, tokens⟩) := by
  induction bs with
  | nil => exact .inl ⟨by simp, rfl⟩
  | cons b bs ih =>
      rw [List.foldl_cons]
      change _ ∧ bs.foldl step (begin tokens b) = _ ∨ _ ∧ Beyond tokens (bs.foldl step (begin tokens b))
      cases hb : isSpace b with
      | true =>
          have hskip : begin tokens b = ⟨.between, tokens⟩ := by simp [begin, hb]
          rw [hskip]
          simpa [hb] using ih
      | false => exact .inr ⟨⟨b, by simp, hb⟩, (beyond_begin tokens hb).foldl bs⟩

@[simp]
theorem finish_between (tokens : List Token) :
    finish ⟨.between, tokens⟩ = (tokens.reverse, .finished) := rfl

-- The last token may have to wait for the end, as only then a numeral is over.
theorem finish_cases (l : Lexer) :
    (∃ t, l.finish = ((t :: l.tokens).reverse, .finished)) ∨
      ∃ e, l.finish = (l.tokens.reverse, e) ∧ (l.state.Pending → e ≠ .finished) := by
  obtain ⟨state, tokens⟩ := l
  cases state with
  | between => exact .inr ⟨.finished, rfl, fun h => absurd rfl h.1⟩
  | word left token =>
      cases left with
      | nil => exact .inl ⟨token, rfl⟩
      | cons w left => exact .inr ⟨_, rfl, by simp⟩
  | numeral part n =>
      cases part
      all_goals first
        | exact .inl ⟨settle n, rfl⟩
        | exact .inr ⟨_, rfl, by simp⟩
  | text t => exact .inr ⟨_, rfl, by simp [cutText]⟩
  | escape t => exact .inr ⟨_, rfl, by simp [cutText]⟩
  | hex t read => exact .inr ⟨_, rfl, by simp [cutText]⟩
  | broken ending => exact .inr ⟨_, rfl, fun h heq => h.2 (by rw [heq])⟩

theorem Beyond.finish {past : List Token} {l : Lexer} (h : Beyond past l) :
    ∃ more e, l.finish = (past.reverse ++ more, e) ∧ (more ≠ [] ∨ e ≠ .finished) := by
  rcases h with ⟨t, new, hnew⟩ | ⟨rfl, hpending⟩
  · obtain ⟨u, hu⟩ | ⟨e, he, -⟩ := finish_cases l
    · exact ⟨t :: (u :: new).reverse, .finished, by simp [hu, ← hnew], .inl (by simp)⟩
    · exact ⟨t :: new.reverse, e, by simp [he, ← hnew], .inl (by simp)⟩
  · obtain ⟨u, hu⟩ | ⟨e, he, hne⟩ := finish_cases l
    · exact ⟨[u], .finished, by simp [hu], .inl (by simp)⟩
    · exact ⟨[], e, by simp [he], .inr (hne hpending)⟩

-- A byte that no numeral goes on with.
def EndsNumeral (b : UInt8) : Prop :=
  digit? b = none ∧ isPoint b = false ∧ isMark b = false

-- A text that is over goes on as if a token had just ended, unless the byte could still belong to a
-- numeral at its end.
theorem step_of_finish {l : Lexer} {ts : List Token} (hok : l.state ≠ .broken .finished)
    (h : l.finish = (ts, .finished)) {b : UInt8}
    (hb : EndsNumeral b ∨ ∀ n, ts.getLast? ≠ some (.num n)) : l.step b = begin ts.reverse b := by
  obtain ⟨state, tokens⟩ := l
  cases state with
  | between =>
      cases h
      simp [step]
  | word left token =>
      cases left with
      | nil =>
          cases h
          simp [step]
      | cons w left => simp [finish] at h
  | numeral part n =>
      have hts : ts.getLast? = some (settle n) → EndsNumeral b :=
        fun hlast => hb.resolve_right fun hno => hno _ hlast
      cases part
      all_goals first
        | (simp [finish] at h; done)
        | (cases h
           obtain ⟨hdigit, hpoint, hmark⟩ := hts (by simp)
           simp [step, grow, hdigit, hpoint, hmark])
  | text t => simp [finish, cutText] at h
  | escape t => simp [finish, cutText] at h
  | hex t read => simp [finish, cutText] at h
  | broken ending =>
      cases h
      exact absurd rfl hok

theorem endsNumeral_of_isSpace {b : UInt8} (h : isSpace b = true) : EndsNumeral b := by
  simp only [isSpace, Bool.or_eq_true, decide_eq_true_eq] at h
  rcases h with ((rfl | rfl) | rfl) | rfl
  all_goals exact ⟨by decide, by decide, by decide⟩

end Lexer

-- The rest of a text is lexed from between two tokens, as if the tokens so far had been given.
theorem tokens_append {bs more : Bytes} {ts : List Token} (h : tokens bs = (ts, .finished))
    (hmore : (∀ b ∈ more.head?, Lexer.EndsNumeral b) ∨ ∀ n, ts.getLast? ≠ some (.num n)) :
    tokens (bs ++ more) = (more.foldl Lexer.step ⟨.between, ts.reverse⟩).finish := by
  have hok := Lexer.foldl_state_ne (l := Lexer.start) (by simp [Lexer.start]) bs
  rw [tokens] at h
  rw [tokens, List.foldl_append]
  cases more with
  | nil => simp [h]
  | cons b more =>
      rw [List.foldl_cons, List.foldl_cons, Lexer.step_of_finish hok h (by simpa using hmore)]
      rfl

theorem tokens_append_spaces {bs spaces : Bytes} {ts : List Token}
    (h : tokens bs = (ts, .finished)) (hs : ∀ b ∈ spaces, isSpace b = true) :
    tokens (bs ++ spaces) = (ts, .finished) := by
  rw [tokens_append h (.inl fun b hb => Lexer.endsNumeral_of_isSpace (hs b (List.mem_of_mem_head? hb)))]
  obtain ⟨-, hsame⟩ | ⟨⟨b, hb, hne⟩, -⟩ := Lexer.foldl_between ts.reverse spaces
  · simp [hsame]
  · rw [hs b hb] at hne
    cases hne

theorem tokens_append_other {bs more : Bytes} {ts : List Token}
    (h : tokens bs = (ts, .finished)) (hlast : ∀ n, ts.getLast? ≠ some (.num n))
    (hmore : ∃ b ∈ more, isSpace b = false) :
    ∃ new e, tokens (bs ++ more) = (ts ++ new, e) ∧ (new ≠ [] ∨ e ≠ .finished) := by
  rw [tokens_append h (.inr hlast)]
  obtain ⟨hall, -⟩ | ⟨-, hbeyond⟩ := Lexer.foldl_between ts.reverse more
  · obtain ⟨b, hb, hne⟩ := hmore
    rw [hall b hb] at hne
    cases hne
  · simpa using hbeyond.finish

end ExternalParser.Json
