import ExternalParser.Proofs.Json.Reading
import ExternalParser.Proofs.Json.Spelling

namespace ExternalParser.Json

def natural (n : Nat) : Token :=
  .num (.ofNat n)

-- Parts with commas between them.
def joined : List (List Token) → List Token
  | [] => []
  | part :: parts => part ++ parts.flatMap (.comma :: ·)

def arrayOf (parts : List (List Token)) : List Token :=
  .openBracket :: (joined parts ++ [.closeBracket])

-- A field of an object: its name and the tokens of its value.
abbrev Entry := String × List Token

def Entry.tokens (x : Entry) : List Token :=
  .str x.1 :: .colon :: x.2

def objectOf (entries : List Entry) : List Token :=
  .openBrace :: (joined (entries.map Entry.tokens) ++ [.closeBrace])

theorem arrayOf_append (parts : List (List Token)) (rest : List Token) :
    arrayOf parts ++ rest = .openBracket :: (joined parts ++ .closeBracket :: rest) := by
  simp [arrayOf]

theorem objectOf_append (entries : List Entry) (rest : List Token) :
    objectOf entries ++ rest =
      .openBrace :: (joined (entries.map Entry.tokens) ++ .closeBrace :: rest) := by
  simp [objectOf]

theorem length_le_commas (parts : List (List Token)) :
    parts.length ≤ (parts.flatMap (Token.comma :: ·)).length := by
  induction parts with
  | nil => simp
  | cons part parts ih =>
      simp only [List.flatMap_cons, List.length_append, List.length_cons]
      omega

-- A part that may stand before any mark, all of whose tokens have a spelling.
structure Tidy (part : List Token) : Prop where
  spaced : ∀ u rest, u.IsMark → Spaced (u :: rest) → Spaced (part ++ u :: rest)
  spelled : ∀ t ∈ part, ∃ cs, Spells t cs

theorem tidy_single {t : Token} {cs : List Char} (h : Spells t cs) : Tidy [t] where
  spaced := by
    intro u rest hu hrest
    exact ⟨fun _ => by simpa using hu, hrest⟩
  spelled := by
    intro t' ht
    obtain rfl := List.mem_singleton.mp ht
    exact ⟨cs, h⟩

theorem tidy_natural (n : Nat) : Tidy [natural n] :=
  tidy_single (.num n)

theorem tidy_str (s : String) : Tidy [.str s] :=
  tidy_single (spells_writeString s)

theorem spaced_commas {parts : List (List Token)} (h : ∀ part ∈ parts, Tidy part) {u : Token}
    {rest : List Token} (hu : u.IsMark) (hrest : Spaced (u :: rest)) :
    ∃ v more, parts.flatMap (.comma :: ·) ++ u :: rest = v :: more ∧ v.IsMark ∧
      Spaced (v :: more) := by
  induction parts with
  | nil => exact ⟨u, rest, rfl, hu, hrest⟩
  | cons part parts ih =>
      obtain ⟨hpart, hparts⟩ := List.forall_mem_cons.mp h
      obtain ⟨v, more, hv, hmark, hspaced⟩ := ih hparts
      refine ⟨.comma, part ++ v :: more, ?_, .inl rfl, ?_⟩
      · rw [← hv]
        simp
      · exact ⟨by simp, hpart.spaced v more hmark hspaced⟩

theorem spaced_joined {parts : List (List Token)} (h : ∀ part ∈ parts, Tidy part) {u : Token}
    {rest : List Token} (hu : u.IsMark) (hrest : Spaced (u :: rest)) :
    Spaced (joined parts ++ u :: rest) := by
  cases parts with
  | nil => exact hrest
  | cons part parts =>
      obtain ⟨hpart, hparts⟩ := List.forall_mem_cons.mp h
      obtain ⟨v, more, hv, hmark, hspaced⟩ := spaced_commas hparts hu hrest
      rw [joined, List.append_assoc, hv]
      exact hpart.spaced v more hmark hspaced

theorem mem_joined {parts : List (List Token)} {t : Token} (h : t ∈ joined parts) :
    t = .comma ∨ ∃ part ∈ parts, t ∈ part := by
  cases parts with
  | nil => simp [joined] at h
  | cons part parts =>
      simp only [joined, List.mem_append, List.mem_flatMap, List.mem_cons] at h ⊢
      grind

theorem tidy_arrayOf {parts : List (List Token)} (h : ∀ part ∈ parts, Tidy part) :
    Tidy (arrayOf parts) where
  spaced := by
    intro u rest _ hrest
    rw [arrayOf_append]
    exact ⟨by simp, spaced_joined h (.inr (.inl rfl)) ⟨by simp, hrest⟩⟩
  spelled := by
    intro t ht
    simp only [arrayOf, List.mem_cons, List.mem_append, List.not_mem_nil, or_false] at ht
    rcases ht with rfl | ht | rfl
    · exact ⟨_, .openBracket⟩
    · rcases mem_joined ht with rfl | ⟨part, hpart, ht⟩
      · exact ⟨_, .comma⟩
      · exact (h part hpart).spelled t ht
    · exact ⟨_, .closeBracket⟩

theorem tidy_entry {x : Entry} (h : Tidy x.2) : Tidy x.tokens where
  spaced := fun u rest hu hrest => ⟨by simp, by simp, h.spaced u rest hu hrest⟩
  spelled := by
    simp only [Entry.tokens, List.forall_mem_cons]
    exact ⟨⟨_, spells_writeString x.1⟩, ⟨_, .colon⟩, h.spelled⟩

theorem tidy_objectOf {entries : List Entry} (h : ∀ x ∈ entries, Tidy x.2) :
    Tidy (objectOf entries) where
  spaced := by
    intro u rest _ hrest
    have hparts : ∀ part ∈ entries.map Entry.tokens, Tidy part := by
      intro part hpart
      obtain ⟨x, hx, rfl⟩ := List.mem_map.mp hpart
      exact tidy_entry (h x hx)
    rw [objectOf_append]
    exact ⟨by simp, spaced_joined hparts (.inr (.inr rfl)) ⟨by simp, hrest⟩⟩
  spelled := by
    intro t ht
    simp only [objectOf, List.mem_cons, List.mem_append, List.not_mem_nil, or_false] at ht
    rcases ht with rfl | ht | rfl
    · exact ⟨_, .openBrace⟩
    · rcases mem_joined ht with rfl | ⟨part, hpart, ht⟩
      · exact ⟨_, .comma⟩
      · obtain ⟨x, hx, rfl⟩ := List.mem_map.mp hpart
        exact (tidy_entry (h x hx)).spelled t ht
    · exact ⟨_, .closeBrace⟩

theorem spaced_of_append {ts more : List Token} (h : Spaced (ts ++ more)) : Spaced ts := by
  induction ts with
  | nil => trivial
  | cons t ts ih =>
      obtain ⟨hnext, hts⟩ := h
      refine ⟨fun hn u hu => hnext hn u ?_, ih hts⟩
      exact List.mem_head?_append_of_mem_head? hu

-- A tidy part is a text of its own.
theorem Tidy.exists_spelling {part : List Token} (h : Tidy part) :
    Spaced part ∧ ∃ texts, List.Forall₂ Spells part texts := by
  refine ⟨spaced_of_append (h.spaced .comma [] (.inl rfl) ⟨by simp, trivial⟩), ?_⟩
  have hspelled := h.spelled
  clear h
  induction part with
  | nil => exact ⟨[], .nil⟩
  | cons t ts ih =>
      obtain ⟨⟨cs, hcs⟩, hts⟩ := List.forall_mem_cons.mp hspelled
      obtain ⟨texts, htexts⟩ := ih hts
      exact ⟨cs :: texts, .cons hcs htexts⟩

-- Goes on after a token.
def resume (m : Mode) (e : Ending) (ts : List Token) : Progress → Except Fault (Value × List Token)
  | .whole v => .ok (v, ts)
  | .more want stack => readFrom m e want stack ts

theorem readFrom_cons {m : Mode} {e : Ending} {want : Want} {stack : List Frame} {t : Token}
    {ts : List Token} {p : Progress} (h : advance m stack want t = .ok p) :
    readFrom m e want stack (t :: ts) = resume m e ts p := by
  rw [readFrom, h]
  cases p with
  | whole v => rfl
  | more want stack => rfl

-- The first item of an array is read like any value.
theorem readFrom_firstItem {m : Mode} {e : Ending} {stack : List Frame} {t : Token}
    {ts : List Token} (ht : t ≠ .closeBracket) :
    readFrom m e .firstItem stack (t :: ts) = readFrom m e .value stack (t :: ts) := by
  cases t with
  | closeBracket => exact absurd rfl ht
  | _ => rfl

-- The part begins with a token that closes nothing.
def Opens (part : List Token) : Prop :=
  ∃ t ts, part = t :: ts ∧ t ≠ .closeBracket

theorem opens_cons {t : Token} {ts : List Token} (ht : t ≠ .closeBracket) : Opens (t :: ts) :=
  ⟨t, ts, rfl, ht⟩

-- The part is read as the value, whatever is open around it and whatever follows it.
structure ReadsValue (e : Ending) (v : Value) (part : List Token) : Prop where
  opens : Opens part
  reads : ∀ stack rest, readFrom .keep e .value stack (part ++ rest) =
    resume .keep e rest (complete v stack)

section Values

variable {e : Ending}

theorem readsValue_natural {n : Nat} (hn : n ≤ maxWord) :
    ReadsValue e (.num (.natural n)) [natural n] where
  opens := opens_cons (by simp [natural])
  reads := by
    intro stack rest
    apply readFrom_cons
    simp only [advance, natural, beginValue, numberOf_ofNat hn]
    rfl

theorem readFrom_moreItems {vs : List Value} {parts : List (List Token)}
    (h : List.Forall₂ (ReadsValue e) vs parts) (done : List Value) (stack : List Frame)
    (rest : List Token) :
    readFrom .keep e .nextItem (.items done :: stack)
        (parts.flatMap (.comma :: ·) ++ .closeBracket :: rest) =
      resume .keep e rest (complete (.arr (done.reverse ++ vs)) stack) := by
  induction h generalizing done with
  | nil =>
      rw [List.append_nil]
      exact readFrom_cons rfl
  | @cons v part vs parts hpart _ ih =>
      have hrest := ih (v :: done)
      rw [List.reverse_cons, List.append_assoc] at hrest
      rw [List.flatMap_cons, List.cons_append, List.cons_append, List.append_assoc]
      exact (hpart.reads (.items done :: stack) _).trans hrest

theorem readsValue_arrayOf {vs : List Value} {parts : List (List Token)}
    (h : List.Forall₂ (ReadsValue e) vs parts) : ReadsValue e (.arr vs) (arrayOf parts) where
  opens := opens_cons (by simp)
  reads := by
    intro stack rest
    rw [arrayOf_append]
    cases h with
    | nil =>
        have hopen : advance .keep stack .value .openBracket =
            .ok (.more .firstItem (.items [] :: stack)) := rfl
        exact (readFrom_cons hopen).trans (readFrom_cons rfl)
    | @cons v part vs parts hpart hparts =>
        have hrest := readFrom_moreItems hparts [v] stack rest
        have hfirst := hpart.reads (.items [] :: stack)
          (parts.flatMap (.comma :: ·) ++ .closeBracket :: rest)
        obtain ⟨t, ts, rfl, ht⟩ := hpart.opens
        rw [joined, List.append_assoc]
        exact (readFrom_firstItem ht).trans (hfirst.trans hrest)

-- Fields that are put at their places one after the other.
def Fields.insertAll (done fields : Fields) : Fields :=
  fields.foldl (fun done x => Fields.insert x.1 x.2 done) done

def ReadsEntry (e : Ending) (f : String × Value) (x : Entry) : Prop :=
  f.1 = x.1 ∧ ReadsValue e f.2 x.2

theorem readFrom_moreFields {fields : Fields} {entries : List Entry}
    (h : List.Forall₂ (ReadsEntry e) fields entries) (done : Fields)
    (name : String) (stack : List Frame) (rest : List Token) :
    readFrom .keep e .nextName (.fields done name :: stack)
        ((entries.map Entry.tokens).flatMap (.comma :: ·) ++ .closeBrace :: rest) =
      resume .keep e rest (complete (.obj (done.insertAll fields)) stack) := by
  induction h generalizing done name with
  | nil => exact readFrom_cons rfl
  | @cons f x fields entries hx _ ih =>
      obtain ⟨hname, hvalue⟩ := hx
      have hrest := ih (done.insert x.1 f.2) x.1
      rw [List.map_cons, List.flatMap_cons, List.cons_append, List.cons_append, List.append_assoc,
        Fields.insertAll, List.foldl_cons, hname]
      exact (hvalue.reads (.fields done x.1 :: stack) _).trans hrest

theorem readsValue_objectOf {fields : Fields} {entries : List Entry}
    (h : List.Forall₂ (ReadsEntry e) fields entries) :
    ReadsValue e (.obj (Fields.insertAll [] fields)) (objectOf entries) where
  opens := opens_cons (by simp)
  reads := by
    intro stack rest
    rw [objectOf_append]
    cases h with
    | nil =>
        have hopen : advance .keep stack .value .openBrace =
            .ok (.more .firstName (.fields [] "" :: stack)) := rfl
        exact (readFrom_cons hopen).trans (readFrom_cons rfl)
    | @cons f x fields entries hx hentries =>
        obtain ⟨hname, hvalue⟩ := hx
        have hrest := readFrom_moreFields hentries (Fields.insert x.1 f.2 []) x.1 stack rest
        rw [List.map_cons, joined, List.append_assoc, Fields.insertAll, List.foldl_cons, hname]
        exact (hvalue.reads (.fields [] x.1 :: stack) _).trans hrest

theorem ReadsValue.readValue_eq {v : Value} {part : List Token} (h : ReadsValue e v part)
    (rest : List Token) : readValue e (part ++ rest) = .ok (v, rest) :=
  h.reads [] rest

end Values

-- The part is read as `x`, whatever follows it.
structure ReadsPart (item : List Token → Except Fault (α × List Token)) (x : α)
    (part : List Token) : Prop where
  opens : Opens part
  reads : ∀ rest, item (part ++ rest) = .ok (x, rest)

section Shapes

variable {item : List Token → Except Fault (α × List Token)}
  {field : σ → String → List Token → Except Fault (σ × List Token)} {x : α} {part : List Token}

theorem ReadsValue.readsPart {e : Ending} {v : Value} (h : ReadsValue e v part) :
    ReadsPart (readValue e) v part :=
  ⟨h.opens, h.readValue_eq⟩

theorem readsPart_natural {limit n : Nat} (hlimit : n ≤ limit) (hn : n ≤ maxWord)
    (wanted : String) (e : Ending) : ReadsPart (readNatural limit wanted e) n [natural n] where
  opens := opens_cons (by simp [natural])
  reads := fun _ => bind_eq_ok_iff.mpr ⟨_, numberOf_ofNat hn, if_pos hlimit⟩

theorem readsPart_str (s : String) (e : Ending) : ReadsPart (readText e) s [.str s] where
  opens := opens_cons (by simp)
  reads := fun _ => rfl

theorem readItems_more {xs : List α} {parts : List (List Token)}
    (h : List.Forall₂ (ReadsPart item) xs parts) (e : Ending) (done : List α) (rest : List Token)
    {fuel : Nat} (hfuel : xs.length < fuel) :
    readItems item e fuel false done (parts.flatMap (.comma :: ·) ++ .closeBracket :: rest) =
      .ok (done.reverse ++ xs, rest) := by
  induction h generalizing done fuel with
  | nil =>
      obtain ⟨fuel, rfl⟩ : ∃ n, fuel = n + 1 := ⟨fuel - 1, by omega⟩
      rw [List.append_nil]
      exact bind_eq_ok_iff.mpr ⟨_, nextItem_close e false rest, rfl⟩
  | @cons x part xs parts hpart _ ih =>
      obtain ⟨fuel, rfl⟩ : ∃ n, fuel = n + 1 := ⟨fuel - 1, by omega⟩
      have hread := hpart.reads
      obtain ⟨t, ts, rfl, ht⟩ := hpart.opens
      rw [List.length_cons] at hfuel
      have hrest := ih (x :: done) (Nat.lt_of_succ_lt_succ hfuel)
      rw [List.reverse_cons, List.append_assoc] at hrest
      rw [List.flatMap_cons, List.cons_append, List.cons_append, List.append_assoc]
      exact bind_eq_ok_iff.mpr ⟨_, nextItem_comma e ht _, bind_eq_ok_iff.mpr ⟨_, hread _, hrest⟩⟩

theorem readsPart_arrayOf {xs : List α} {parts : List (List Token)}
    (h : List.Forall₂ (ReadsPart item) xs parts) (e : Ending) :
    ReadsPart (readArray item e) xs (arrayOf parts) where
  opens := opens_cons (by simp)
  reads := by
    intro rest
    rw [arrayOf_append]
    cases h with
    | nil => rfl
    | @cons x part xs parts hpart hparts =>
        have hread := hpart.reads
        obtain ⟨t, ts, rfl, ht⟩ := hpart.opens
        have hcommas := length_le_commas parts
        have hlength := hparts.length_eq
        rw [joined, List.append_assoc]
        refine bind_eq_ok_iff.mpr ⟨_, nextItem_first e ht _, bind_eq_ok_iff.mpr ⟨_, hread _, ?_⟩⟩
        apply readItems_more hparts e [x] rest
        simp only [List.length_append, List.length_cons]
        omega

theorem readPosition_first (h : ReadsPart item x part) (wanted : String) (e : Ending)
    (rest : List Token) : readPosition item 0 wanted e (part ++ rest) = .ok (x, rest) := by
  have hread := h.reads rest
  obtain ⟨t, ts, rfl, ht⟩ := h.opens
  exact bind_eq_ok_iff.mpr ⟨_, nextItem_first e ht _, hread⟩

theorem readPosition_next (h : ReadsPart item x part) (index : Nat) (wanted : String) (e : Ending)
    (rest : List Token) :
    readPosition item (index + 1) wanted e (.comma :: (part ++ rest)) = .ok (x, rest) := by
  have hread := h.reads rest
  obtain ⟨t, ts, rfl, ht⟩ := h.opens
  exact bind_eq_ok_iff.mpr ⟨_, nextItem_comma e ht _, hread⟩

theorem readOnce_colon (h : ReadsPart item x part) (name : String) (e : Ending)
    (rest : List Token) :
    readOnce none name item e (.colon :: (part ++ rest)) = .ok (some x, rest) :=
  bind_eq_ok_iff.mpr ⟨_, rfl, bind_eq_ok_iff.mpr ⟨_, h.reads rest, rfl⟩⟩

-- The fields take the state from the first to the last, one after the other.
inductive Fills (field : σ → String → List Token → Except Fault (σ × List Token)) :
    σ → List Entry → σ → Prop where
  | nil (s : σ) : Fills field s [] s
  | cons {s middle final : σ} {x : Entry} {entries : List Entry}
      (h : ∀ rest, field s x.1 (.colon :: (x.2 ++ rest)) = .ok (middle, rest))
      (hentries : Fills field middle entries final) : Fills field s (x :: entries) final

theorem readFields_more {s final : σ} {entries : List Entry} (h : Fills field s entries final)
    (e : Ending) (rest : List Token) {fuel : Nat} (hfuel : entries.length < fuel) :
    readFields field e fuel false s
        ((entries.map Entry.tokens).flatMap (.comma :: ·) ++ .closeBrace :: rest) =
      .ok (final, rest) := by
  induction h generalizing fuel with
  | nil s =>
      obtain ⟨fuel, rfl⟩ : ∃ n, fuel = n + 1 := ⟨fuel - 1, by omega⟩
      rfl
  | cons h _ ih =>
      obtain ⟨fuel, rfl⟩ : ∃ n, fuel = n + 1 := ⟨fuel - 1, by omega⟩
      rw [List.map_cons, List.flatMap_cons, List.cons_append, List.cons_append, List.append_assoc]
      refine bind_eq_ok_iff.mpr ⟨_, rfl, bind_eq_ok_iff.mpr ⟨_, h _, ?_⟩⟩
      exact ih (Nat.lt_of_succ_lt_succ hfuel)

theorem readFields_objectOf {s final : σ} {entries : List Entry} (h : Fills field s entries final)
    (e : Ending) {rest ts : List Token}
    (hts : ts = joined (entries.map Entry.tokens) ++ .closeBrace :: rest) :
    readFields field e (ts.length + 1) true s ts = .ok (final, rest) := by
  subst hts
  cases h with
  | nil => rfl
  | @cons _ _ _ x entries h hentries =>
      have hcommas := length_le_commas (entries.map Entry.tokens)
      rw [List.map_cons, joined, List.append_assoc]
      refine bind_eq_ok_iff.mpr ⟨_, rfl, bind_eq_ok_iff.mpr ⟨_, h _, ?_⟩⟩
      apply readFields_more hentries
      rw [List.length_map] at hcommas
      simp only [List.length_append, List.length_cons, Entry.tokens]
      omega

end Shapes

end ExternalParser.Json
