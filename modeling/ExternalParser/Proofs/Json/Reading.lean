import ExternalParser.Json.Reader

namespace ExternalParser.Json

abbrev Reader (α : Type) := Ending → List Token → Except Fault (α × List Token)

-- What a reader makes of a finished list is settled by the list.
def Local (read : Reader α) : Prop :=
  ∀ ts x rest, read .finished ts = .ok (x, rest) →
    rest <:+ ts ∧ ∀ e more, read e (ts ++ more) = .ok (x, rest ++ more)

-- The same of a reader that gives nothing but the tokens after what it passed over.
def LocalSkip (skip : Ending → List Token → Except Fault (List Token)) : Prop :=
  ∀ ts rest, skip .finished ts = .ok rest →
    rest <:+ ts ∧ ∀ e more, skip e (ts ++ more) = .ok (rest ++ more)

theorem bind_eq_ok_iff {x : Except ε α} {f : α → Except ε β} {b : β} :
    x >>= f = .ok b ↔ ∃ a, x = .ok a ∧ f a = .ok b := by
  constructor
  · intro h
    cases x with
    | ok a => exact ⟨a, rfl, h⟩
    | error e => cases h
  · rintro ⟨a, rfl, h⟩
    exact h

theorem Local.pure (x : α) : Local fun _ ts => .ok (x, ts) := by
  intro ts y rest h
  cases h
  exact ⟨List.suffix_refl ts, fun _ _ => rfl⟩

theorem Local.bind {read : Reader α}
    {next : Ending → α × List Token → Except Fault (β × List Token)} (hread : Local read)
    (hnext : ∀ x, Local fun e ts => next e (x, ts)) :
    Local fun e ts => read e ts >>= next e := by
  intro ts y rest h
  obtain ⟨⟨x, middle⟩, hx, hy⟩ := bind_eq_ok_iff.mp h
  obtain ⟨hsuffix, hmore⟩ := hread ts x middle hx
  obtain ⟨hsuffix', hmore'⟩ := hnext x middle y rest hy
  refine ⟨hsuffix'.trans hsuffix, ?_⟩
  exact fun e more => bind_eq_ok_iff.mpr ⟨_, hmore e more, hmore' e more⟩

theorem LocalSkip.bind {skip : Ending → List Token → Except Fault (List Token)} {next : Reader β}
    (hskip : LocalSkip skip) (hnext : Local next) :
    Local fun e ts => skip e ts >>= next e := by
  intro ts y rest h
  obtain ⟨middle, hx, hy⟩ := bind_eq_ok_iff.mp h
  obtain ⟨hsuffix, hmore⟩ := hskip ts middle hx
  obtain ⟨hsuffix', hmore'⟩ := hnext middle y rest hy
  refine ⟨hsuffix'.trans hsuffix, ?_⟩
  exact fun e more => bind_eq_ok_iff.mpr ⟨_, hmore e more, hmore' e more⟩

theorem local_readFrom (m : Mode) (want : Want) (stack : List Frame) :
    Local fun e => readFrom m e want stack := by
  intro ts
  induction ts generalizing want stack with
  | nil =>
      intro x rest h
      cases h
  | cons t ts ih =>
      intro x rest h
      simp only [readFrom, List.cons_append] at h ⊢
      cases hstep : advance m stack want t with
      | error f => simp [hstep] at h
      | ok p =>
          simp only [hstep] at h
          cases p with
          | whole v =>
              cases h
              exact ⟨List.suffix_cons t ts, fun _ _ => rfl⟩
          | more want stack =>
              obtain ⟨hsuffix, hmore⟩ := ih want stack x rest h
              exact ⟨hsuffix.trans (List.suffix_cons t ts), hmore⟩

theorem local_readValue : Local readValue :=
  local_readFrom .keep .value []

theorem localSkip_skipValue : LocalSkip skipValue := by
  intro ts rest h
  obtain ⟨⟨v, middle⟩, hv, hrest⟩ := bind_eq_ok_iff.mp h
  cases hrest
  obtain ⟨hsuffix, hmore⟩ := local_readFrom .skip .value [] ts v rest hv
  exact ⟨hsuffix, fun e more => bind_eq_ok_iff.mpr ⟨_, hmore e more, rfl⟩⟩

theorem local_readNatural (limit : Nat) (wanted : String) : Local (readNatural limit wanted) := by
  intro ts x rest h
  match ts with
  | .num n :: ts =>
      obtain ⟨k, hk, hx⟩ := bind_eq_ok_iff.mp h
      cases k with
      | natural k =>
          by_cases hle : k ≤ limit
          · simp only [hle, if_true] at hx
            cases hx
            refine ⟨List.suffix_cons _ _, fun e more => bind_eq_ok_iff.mpr ⟨_, hk, ?_⟩⟩
            exact if_pos hle
          · simp only [hle, if_false] at hx
            cases hx
      | negative k => cases hx
      | real x => cases hx
  | [] => cases h
  | .null :: _ | .bool _ :: _ | .str _ :: _ | .openBrace :: _ | .closeBrace :: _ | .openBracket :: _
  | .closeBracket :: _ | .comma :: _ | .colon :: _ => cases h

theorem local_readText : Local readText := by
  intro ts x rest h
  match ts with
  | .str text :: ts =>
      obtain ⟨s, hs, hx⟩ := bind_eq_ok_iff.mp h
      cases hx
      exact ⟨List.suffix_cons _ _, fun e more => bind_eq_ok_iff.mpr ⟨_, hs, rfl⟩⟩
  | [] => cases h
  | .null :: _ | .bool _ :: _ | .num _ :: _ | .openBrace :: _ | .closeBrace :: _ | .openBracket :: _
  | .closeBracket :: _ | .comma :: _ | .colon :: _ => cases h

theorem endItems_eq_ok_iff {e : Ending} {ts rest : List Token} :
    endItems e ts = .ok rest ↔ ts = .closeBracket :: rest := by
  match ts with
  | .closeBracket :: ts => simp [endItems]
  | [] => simp [endItems]
  | .null :: _ | .bool _ :: _ | .num _ :: _ | .str _ :: _ | .openBrace :: _ | .closeBrace :: _
  | .openBracket :: _ | .comma :: _ | .colon :: _ => simp [endItems]

theorem readColon_eq_ok_iff {e : Ending} {ts rest : List Token} :
    readColon e ts = .ok rest ↔ ts = .colon :: rest := by
  match ts with
  | .colon :: ts => simp [readColon]
  | [] => simp [readColon]
  | .null :: _ | .bool _ :: _ | .num _ :: _ | .str _ :: _ | .openBrace :: _ | .closeBrace :: _
  | .openBracket :: _ | .closeBracket :: _ | .comma :: _ => simp [readColon]

theorem localSkip_endItems : LocalSkip endItems := by
  intro ts rest h
  obtain rfl := endItems_eq_ok_iff.mp h
  exact ⟨List.suffix_cons _ _, fun _ _ => rfl⟩

theorem localSkip_readColon : LocalSkip readColon := by
  intro ts rest h
  obtain rfl := readColon_eq_ok_iff.mp h
  exact ⟨List.suffix_cons _ _, fun _ _ => rfl⟩

theorem nextItem_close (e : Ending) (first : Bool) (ts : List Token) :
    nextItem e first (.closeBracket :: ts) = .ok (false, .closeBracket :: ts) := by
  simp [nextItem]

theorem nextItem_first (e : Ending) {t : Token} (ht : t ≠ .closeBracket) (ts : List Token) :
    nextItem e true (t :: ts) = .ok (true, t :: ts) := by
  cases t with
  | closeBracket => exact absurd rfl ht
  | _ => rfl

theorem nextItem_comma (e : Ending) {t : Token} (ht : t ≠ .closeBracket) (ts : List Token) :
    nextItem e false (.comma :: t :: ts) = .ok (true, t :: ts) := by
  cases t with
  | closeBracket => exact absurd rfl ht
  | _ => rfl

-- A finished list that goes on shows the token that it goes on with.
theorem nextItem_cases {first goes : Bool} {ts rest : List Token}
    (h : nextItem .finished first ts = .ok (goes, rest)) :
    goes = false ∧ rest = ts ∧ (∃ others, ts = .closeBracket :: others) ∨
      goes = true ∧ ∃ t others, t ≠ .closeBracket ∧ rest = t :: others ∧
        (first = true ∧ ts = rest ∨ first = false ∧ ts = .comma :: rest) := by
  match ts with
  | [] => simp [nextItem] at h
  | t :: ts =>
      by_cases ht : t = .closeBracket
      · subst ht
        rw [nextItem_close] at h
        cases h
        exact .inl ⟨rfl, rfl, ts, rfl⟩
      · cases first with
        | true =>
            rw [nextItem_first _ ht] at h
            cases h
            exact .inr ⟨rfl, t, ts, ht, rfl, .inl ⟨rfl, rfl⟩⟩
        | false =>
            cases t with
            | comma =>
                cases ts with
                | nil => cases h
                | cons u ts =>
                    by_cases hu : u = .closeBracket
                    · subst hu
                      cases h
                    · rw [nextItem_comma _ hu] at h
                      cases h
                      exact .inr ⟨rfl, u, ts, hu, rfl, .inr ⟨rfl, rfl⟩⟩
            | closeBracket => exact absurd rfl ht
            | _ => simp [nextItem] at h

theorem local_nextItem (first : Bool) : Local fun e => nextItem e first := by
  intro ts goes rest h
  rcases nextItem_cases h with ⟨rfl, rfl, others, rfl⟩ |
    ⟨rfl, t, others, ht, rfl, ⟨rfl, rfl⟩ | ⟨rfl, rfl⟩⟩
  · exact ⟨List.suffix_refl _, fun e more => nextItem_close e first _⟩
  · exact ⟨List.suffix_refl _, fun e more => nextItem_first e ht _⟩
  · exact ⟨List.suffix_cons _ _, fun e more => nextItem_comma e ht _⟩

theorem textOf_keep_eq_ok_iff {text : Option String} {s : String} :
    textOf .keep text = .ok s ↔ text = some s := by
  cases text with
  | none => simp [textOf]
  | some s => simp [textOf]

theorem nextName_cases {e : Ending} {first : Bool} {name : Option String} {ts rest : List Token}
    (h : nextName e first ts = .ok (name, rest)) :
    name = none ∧ ts = .closeBrace :: rest ∨
      ∃ s, name = some s ∧
        (first = true ∧ ts = .str (some s) :: rest ∨
          first = false ∧ ts = .comma :: .str (some s) :: rest) := by
  match ts, first with
  | .closeBrace :: ts, _ =>
      cases h
      exact .inl ⟨rfl, rfl⟩
  | .str text :: ts, true =>
      obtain ⟨s, hs, hname⟩ := bind_eq_ok_iff.mp h
      cases hname
      obtain rfl := textOf_keep_eq_ok_iff.mp hs
      exact .inr ⟨s, rfl, .inl ⟨rfl, rfl⟩⟩
  | .comma :: .str text :: ts, false =>
      obtain ⟨s, hs, hname⟩ := bind_eq_ok_iff.mp h
      cases hname
      obtain rfl := textOf_keep_eq_ok_iff.mp hs
      exact .inr ⟨s, rfl, .inr ⟨rfl, rfl⟩⟩
  | .str _ :: _, false | .comma :: _, true | [.comma], false => cases h
  | .comma :: .null :: _, false | .comma :: .bool _ :: _, false | .comma :: .num _ :: _, false
  | .comma :: .openBrace :: _, false | .comma :: .closeBrace :: _, false
  | .comma :: .openBracket :: _, false | .comma :: .closeBracket :: _, false
  | .comma :: .comma :: _, false | .comma :: .colon :: _, false => cases h
  | [], _ | .null :: _, _ | .bool _ :: _, _ | .num _ :: _, _ | .openBrace :: _, _
  | .openBracket :: _, _ | .closeBracket :: _, _ | .colon :: _, _ => cases h

theorem local_nextName (first : Bool) : Local fun e => nextName e first := by
  intro ts name rest h
  rcases nextName_cases h with ⟨rfl, rfl⟩ | ⟨s, rfl, ⟨rfl, rfl⟩ | ⟨rfl, rfl⟩⟩
  · exact ⟨List.suffix_cons _ _, fun _ _ => rfl⟩
  · exact ⟨List.suffix_cons _ _, fun _ _ => rfl⟩
  · exact ⟨(List.suffix_cons _ _).trans (List.suffix_cons _ _), fun _ _ => rfl⟩

section Fuel

variable {item : List Token → Except Fault (α × List Token)}
  {field : σ → String → List Token → Except Fault (σ × List Token)} {e : Ending}

-- Fuel that is enough is enough whatever there is more of it.
theorem readItems_add {fuel : Nat} {first : Bool} {done xs : List α} {ts rest : List Token}
    (h : readItems item e fuel first done ts = .ok (xs, rest)) (extra : Nat) :
    readItems item e (fuel + extra) first done ts = .ok (xs, rest) := by
  induction fuel generalizing first done ts with
  | zero => cases h
  | succ fuel ih =>
      rw [Nat.succ_add]
      obtain ⟨⟨goes, middle⟩, hnext, hrest⟩ := bind_eq_ok_iff.mp h
      refine bind_eq_ok_iff.mpr ⟨_, hnext, ?_⟩
      cases goes with
      | false => exact hrest
      | true =>
          obtain ⟨⟨x, after⟩, hx, hxs⟩ := bind_eq_ok_iff.mp hrest
          exact bind_eq_ok_iff.mpr ⟨_, hx, ih hxs⟩

theorem readFields_add {fuel : Nat} {first : Bool} {s final : σ} {ts rest : List Token}
    (h : readFields field e fuel first s ts = .ok (final, rest)) (extra : Nat) :
    readFields field e (fuel + extra) first s ts = .ok (final, rest) := by
  induction fuel generalizing first s ts with
  | zero => cases h
  | succ fuel ih =>
      rw [Nat.succ_add]
      obtain ⟨⟨name, middle⟩, hnext, hrest⟩ := bind_eq_ok_iff.mp h
      refine bind_eq_ok_iff.mpr ⟨_, hnext, ?_⟩
      cases name with
      | none => exact hrest
      | some name =>
          obtain ⟨⟨s', after⟩, hs, hfinal⟩ := bind_eq_ok_iff.mp hrest
          exact bind_eq_ok_iff.mpr ⟨_, hs, ih hfinal⟩

end Fuel

theorem local_readItems {item : Reader α} (hitem : Local item) (fuel : Nat) (first : Bool)
    (done : List α) : Local fun e => readItems (item e) e fuel first done := by
  induction fuel generalizing first done with
  | zero =>
      intro ts xs rest h
      cases h
  | succ fuel ih =>
      simp +unfoldPartialApp only [readItems]
      refine Local.bind (local_nextItem first) fun goes => ?_
      cases goes with
      | false => exact localSkip_endItems.bind (Local.pure _)
      | true => exact hitem.bind fun x => ih false (x :: done)

theorem local_readFields {field : Ending → σ → String → List Token → Except Fault (σ × List Token)}
    (hfield : ∀ s name, Local fun e => field e s name) (fuel : Nat) (first : Bool) (s : σ) :
    Local fun e => readFields (field e) e fuel first s := by
  induction fuel generalizing first s with
  | zero =>
      intro ts final rest h
      cases h
  | succ fuel ih =>
      simp +unfoldPartialApp only [readFields]
      refine Local.bind (local_nextName first) fun name => ?_
      cases name with
      | none => exact Local.pure s
      | some name => exact (hfield s name).bind fun s => ih false s

-- Every item and every field takes a token, so the number of tokens is fuel enough.
theorem local_allItems {item : Reader α} (hitem : Local item) :
    Local fun e ts => readItems (item e) e (ts.length + 1) true [] ts := by
  intro ts xs rest h
  obtain ⟨hsuffix, hmore⟩ := local_readItems hitem (ts.length + 1) true [] ts xs rest h
  refine ⟨hsuffix, ?_⟩
  intro e more
  have hfuel := readItems_add (hmore e more) more.length
  rw [Nat.add_right_comm, ← List.length_append] at hfuel
  exact hfuel

theorem local_allFields {field : Ending → σ → String → List Token → Except Fault (σ × List Token)}
    (hfield : ∀ s name, Local fun e => field e s name) (s : σ) :
    Local fun e ts => readFields (field e) e (ts.length + 1) true s ts := by
  intro ts final rest h
  obtain ⟨hsuffix, hmore⟩ := local_readFields hfield (ts.length + 1) true s ts final rest h
  refine ⟨hsuffix, ?_⟩
  intro e more
  have hfuel := readFields_add (hmore e more) more.length
  rw [Nat.add_right_comm, ← List.length_append] at hfuel
  exact hfuel

theorem Local.behind {read : Reader α} (hread : Local read) (t : Token) {ts rest : List Token}
    {x : α} (h : read .finished ts = .ok (x, rest)) :
    rest <:+ t :: ts ∧ ∀ e more, read e (ts ++ more) = .ok (x, rest ++ more) :=
  ⟨(hread ts x rest h).1.trans (List.suffix_cons t ts), (hread ts x rest h).2⟩

theorem local_readArray {item : Reader α} (hitem : Local item) :
    Local fun e => readArray (item e) e := by
  intro ts xs rest h
  match ts with
  | .openBracket :: ts => exact (local_allItems hitem).behind .openBracket h
  | [] => cases h
  | .null :: _ | .bool _ :: _ | .num _ :: _ | .str _ :: _ | .openBrace :: _ | .closeBrace :: _
  | .closeBracket :: _ | .comma :: _ | .colon :: _ => cases h

theorem local_readOnce (slot : Option α) (name : String) {value : Reader α} (hvalue : Local value) :
    Local fun e => readOnce slot name (value e) e := by
  cases slot with
  | some x =>
      intro ts y rest h
      cases h
  | none => exact localSkip_readColon.bind (hvalue.bind fun x => Local.pure (some x))

theorem localSkip_skipField : LocalSkip skipField := by
  intro ts rest h
  obtain ⟨middle, hcolon, hskip⟩ := bind_eq_ok_iff.mp h
  obtain ⟨hsuffix, hmore⟩ := localSkip_readColon ts middle hcolon
  obtain ⟨hsuffix', hmore'⟩ := localSkip_skipValue middle rest hskip
  exact ⟨hsuffix'.trans hsuffix,
    fun e more => bind_eq_ok_iff.mpr ⟨_, hmore e more, hmore' e more⟩⟩

theorem local_readPosition {value : Reader α} (hvalue : Local value) (index : Nat)
    (wanted : String) : Local fun e => readPosition (value e) index wanted e := by
  unfold readPosition
  refine Local.bind (local_nextItem _) fun goes => ?_
  cases goes with
  | true => exact hvalue
  | false =>
      intro ts y rest h
      cases h

-- The fields of an object are over at its closing brace.
theorem readFields_closes {field : Ending → σ → String → List Token → Except Fault (σ × List Token)}
    (hfield : ∀ s name, Local fun e => field e s name) {fuel : Nat} {first : Bool} {s final : σ}
    {ts rest : List Token}
    (h : readFields (field .finished) .finished fuel first s ts = .ok (final, rest)) :
    .closeBrace :: rest <:+ ts := by
  induction fuel generalizing first s ts with
  | zero => cases h
  | succ fuel ih =>
      obtain ⟨⟨name, middle⟩, hnext, hrest⟩ := bind_eq_ok_iff.mp h
      cases name with
      | none =>
          cases hrest
          obtain ⟨-, rfl⟩ | ⟨_, hname, -⟩ := nextName_cases hnext
          · exact List.suffix_refl _
          · cases hname
      | some name =>
          obtain ⟨⟨s', after⟩, hs, hfinal⟩ := bind_eq_ok_iff.mp hrest
          have hafter := (hfield s name middle s' after hs).1
          have hmiddle := (local_nextName first ts (some name) middle hnext).1
          exact (ih hfinal).trans (hafter.trans hmiddle)

end ExternalParser.Json
