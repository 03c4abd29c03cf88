import ExternalParser.CommandLine.Run
import ExternalParser.Proofs.Tree.Places

namespace ExternalParser.CommandLine

theorem newline_notMem_toDigits (n : Nat) : '\n' ∉ Nat.toDigits 16 n := by
  have hdigit : ∀ d < 16, Nat.digitChar d ≠ '\n' := by decide
  induction n using Nat.strongRecOn with
  | ind n ih =>
      by_cases hn : n < 16
      · rw [Nat.toDigits_of_lt_base hn, List.mem_singleton]
        exact (hdigit n hn).symm
      · rw [Nat.toDigits_of_base_le (by decide) (Nat.le_of_not_lt hn), List.mem_append,
          List.mem_singleton]
        rintro (hmem | hlast)
        · exact ih (n / 16) (Nat.div_lt_self (by omega) (by decide)) hmem
        · exact hdigit (n % 16) (Nat.mod_lt n (by decide)) hlast.symm

theorem newline_notMem_quotedChar (c : Char) : '\n' ∉ Text.quotedChar c := by
  have hdigits := newline_notMem_toDigits c.toNat
  by_cases hc : c = '\n'
  · subst hc
    decide
  · have hself : '\n' ∉ [c] := by simpa using Ne.symm hc
    unfold Text.quotedChar
    split_ifs
    all_goals simp_all [Text.codePointEscape]

-- A newline in a quoted text is written as an escape.
theorem newline_notMem_quoted (s : String) : '\n' ∉ (Text.quoted s).toList := by
  simp [Text.quoted, newline_notMem_quotedChar]

theorem newline_notMem_toString (n : Nat) : '\n' ∉ (toString n).toList := by
  rw [Nat.toString_eq_ofList_toDigits, String.toList_ofList]
  intro hmem
  have hdigit := Nat.isDigit_of_mem_toDigits (by decide) (by decide) hmem
  cases hdigit

namespace Canvas

variable (c : Canvas) (line : String) (more : Bool)

@[simp]
theorem lines_write : (c.write line).lines.toList = c.lines.toList ++ [line] :=
  Array.toList_push

@[simp]
theorem levels_write : (c.write line).levels = c.levels := rfl

@[simp]
theorem lines_enter : (c.enter more).lines = c.lines := rfl

@[simp]
theorem levels_enter : (c.enter more).levels = c.levels ++ [more] := rfl

@[simp]
theorem lines_leave : c.leave.lines = c.lines := rfl

@[simp]
theorem levels_leave : c.leave.levels = c.levels.dropLast := rfl

end Canvas

section Drawing

variable (t : Tree) (s : Style) (fuel : Nat) (rest : List ChildId) (c : Canvas)

theorem drawChildren_nil : drawChildren t s fuel [] c = c := by
  cases fuel with
  | zero => rfl
  | succ fuel => rfl

theorem drawChildren_token (k : Nat) :
    drawChildren t s (fuel + 1) (.token k :: rest) c =
      drawChildren t s fuel rest
        (c.write (elementLine t s c.levels (!rest.isEmpty) (.token k))) := rfl

theorem drawChildren_node (id : Nat) :
    drawChildren t s (fuel + 1) (.node id :: rest) c =
      drawChildren t s fuel rest (drawChildren t s fuel (t.children id)
        ((c.write (elementLine t s c.levels (!rest.isEmpty) (.node id))).enter
          (!rest.isEmpty))).leave := rfl

-- Every level that is entered is left again.
theorem levels_drawChildren (children : List ChildId) :
    (drawChildren t s fuel children c).levels = c.levels := by
  induction fuel generalizing children c with
  | zero => rfl
  | succ fuel ih =>
      cases children with
      | nil => rfl
      | cons child rest =>
          cases child with
          | token k => rw [drawChildren_token, ih, Canvas.levels_write]
          | node id =>
              rw [drawChildren_node, ih, Canvas.levels_leave, ih, Canvas.levels_enter,
                List.dropLast_concat, Canvas.levels_write]

end Drawing

-- What is asked of connectors so that lines can be read: all segments are equally wide, none ends a line,
-- and the two that can stand in one place are different.
structure Connectors.Regular (c : Connectors) : Prop where
  width : ∀ segment ∈ [c.branch, c.corner, c.pipe, c.blank],
    segment.length = 4 ∧ '\n' ∉ segment.toList
  pipe_ne_blank : c.pipe ≠ c.blank
  branch_ne_corner : c.branch ≠ c.corner

namespace Connectors

theorem regular_boxes : boxes.Regular :=
  ⟨by decide, by decide, by decide⟩

theorem regular_ascii : ascii.Regular :=
  ⟨by decide, by decide, by decide⟩

variable {c : Connectors}

theorem Regular.passing_eq_iff (h : c.Regular) (more : Bool) :
    (c.passing more = c.pipe ↔ more = true) ∧ (c.passing more = c.blank ↔ ¬ more = true) := by
  cases more with
  | true => simp [passing, h.pipe_ne_blank]
  | false => simp [passing, h.pipe_ne_blank.symm]

theorem Regular.leading_eq_iff (h : c.Regular) (more : Bool) :
    (c.leading more = c.corner ↔ ¬ more = true) ∧ (c.leading more = c.branch ↔ more = true) := by
  cases more with
  | true => simp [leading, h.branch_ne_corner]
  | false => simp [leading, h.branch_ne_corner.symm]

theorem mem_of_mem_segments {levels : List Bool} {more : Bool} {segment : String}
    (h : segment ∈ segments c levels more) : segment ∈ [c.branch, c.corner, c.pipe, c.blank] := by
  rcases List.mem_append.mp h with h | h
  · obtain ⟨found, -, rfl⟩ := List.mem_map.mp h
    cases found <;> simp [passing]
  · rw [List.mem_singleton.mp h]
    cases more <;> simp [leading]

end Connectors

-- The levels around the children of a place: whether more follows each element on the way down to it.
structure Open (t : Tree) (q : Place) (levels : List Bool) : Prop where
  length : levels.length = q.length
  more : ∀ (j : Nat) (more : Bool), levels[j]? = some more →
    (more = true ↔ t.Continues (q.take (j + 1)))

-- The segments of a place, the outermost first.
structure Segmented (t : Tree) (c : Connectors) (p : Place) (segments : List String) : Prop where
  length : segments.length = p.length
  width : ∀ segment ∈ segments, segment.length = 4
  passing : ∀ j, j + 1 < p.length →
    (segments[j]? = some c.pipe ↔ t.Continues (p.take (j + 1))) ∧
      (segments[j]? = some c.blank ↔ ¬ t.Continues (p.take (j + 1)))
  leading : ∀ j, j + 1 = p.length →
    (segments[j]? = some c.corner ↔ ¬ t.Continues p) ∧
      (segments[j]? = some c.branch ↔ t.Continues p)

-- The line of what stands at a place.
def DrawnAt (t : Tree) (s : Style) (p : Place) (line : String) : Prop :=
  ∃ e segments, t.at? p = some e ∧ Segmented t s.connectors p segments ∧
    line = String.join segments ++ elementLabel t s e

-- Without colours a text is shown as it is.
theorem map_muted (c : Connectors) (texts : List String) :
    texts.map (⟨c, false⟩ : Style).muted = texts :=
  List.map_id texts

section Lines

variable {t : Tree} {c : Connectors} {q : Place} {levels : List Bool} {more : Bool} {i : Nat}

theorem Open.root (t : Tree) : Open t [] [] :=
  ⟨rfl, by simp⟩

theorem Open.enter (h : Open t q levels) (hmore : more = true ↔ t.Continues (q ++ [i])) :
    Open t (q ++ [i]) (levels ++ [more]) := by
  have hlength := h.length
  refine ⟨by simp [hlength], ?_⟩
  intro j found hfound
  rcases Nat.lt_trichotomy j levels.length with hlt | rfl | hgt
  · rw [List.getElem?_append_left hlt] at hfound
    rw [List.take_append_of_le_length (by omega)]
    exact h.more j found hfound
  · rw [List.getElem?_concat_length] at hfound
    cases hfound
    rwa [List.take_of_length_le (by simp [hlength])]
  · rw [List.getElem?_eq_none (by simp; omega)] at hfound
    cases hfound

-- The segments of a line say what the levels do.
theorem segmented_of_open (hc : c.Regular) (h : Open t (q ++ [i]) (levels ++ [more])) :
    Segmented t c (q ++ [i]) (segments c levels more) := by
  have hlength : levels.length = q.length := by simpa using h.length
  refine ⟨by simp [segments, hlength], ?_, ?_, ?_⟩
  · intro segment hsegment
    exact (hc.width segment (Connectors.mem_of_mem_segments hsegment)).1
  · intro j hj
    rw [List.length_append, List.length_singleton] at hj
    have hlt : j < levels.length := by omega
    have hmore := h.more j levels[j] (by rw [List.getElem?_append_left hlt, List.getElem?_eq_getElem hlt])
    have hsegment : (segments c levels more)[j]? = some (c.passing levels[j]) := by
      rw [segments, List.getElem?_append_left (by simpa using hlt)]
      simp [hlt]
    rw [hsegment, Option.some.injEq, Option.some.injEq, ← hmore]
    exact hc.passing_eq_iff levels[j]
  · intro j hj
    rw [List.length_append, List.length_singleton] at hj
    obtain rfl : j = levels.length := by omega
    have hmore := h.more levels.length more List.getElem?_concat_length
    rw [List.take_of_length_le (by simp [hlength])] at hmore
    have hsegment : (segments c levels more)[levels.length]? = some (c.leading more) := by
      rw [segments, ← List.length_map c.passing, List.getElem?_concat_length]
    rw [hsegment, Option.some.injEq, Option.some.injEq, ← hmore]
    exact hc.leading_eq_iff more

-- What the first of some siblings comes to, of which the others are drawn after it.
structure Headed (t : Tree) (c : Connectors) (q : Place) (i : Nat) (levels : List Bool) (e : ChildId)
    (rest : List ChildId) : Prop where
  place : t.at? (q ++ [i]) = some e
  entered : Open t (q ++ [i]) (levels ++ [!rest.isEmpty])
  line : DrawnAt t ⟨c, false⟩ (q ++ [i]) (elementLine t ⟨c, false⟩ levels (!rest.isEmpty) e)

theorem headed_of_drop {id : Nat} {e : ChildId} {rest : List ChildId} (hc : c.Regular)
    (hq : t.at? q = some (.node id)) (hopen : Open t q levels)
    (hdrop : (t.children id).drop i = e :: rest) : Headed t c q i levels e rest := by
  have hplace : t.at? (q ++ [i]) = some e := by
    have hhead := congrArg List.head? hdrop
    rw [List.head?_drop, List.head?_cons] at hhead
    exact Tree.at?_snoc_eq_some_iff.mpr ⟨id, hq, hhead⟩
  have hmore : (!rest.isEmpty) = true ↔ t.Continues (q ++ [i]) := by
    have hlength := congrArg List.length hdrop
    rw [List.length_drop, List.length_cons] at hlength
    rw [Tree.continues_snoc_iff hq, Bool.not_eq_true', List.isEmpty_eq_false_iff,
      ← List.length_pos_iff]
    omega
  have henter := hopen.enter hmore
  refine ⟨hplace, henter, e, segments c levels (!rest.isEmpty), hplace, segmented_of_open hc henter, ?_⟩
  rw [elementLine, map_muted]

-- A canvas goes on with the lines of some places below `q`, and nothing else.
def Adds (t : Tree) (c : Connectors) (q : Place) (spots : List (Place × ChildRecord))
    (before after : Canvas) : Prop :=
  ∃ lines, after.lines.toList = before.lines.toList ++ lines ∧
    List.Forall₂ (fun spot => DrawnAt t ⟨c, false⟩ (q ++ spot.1)) spots lines

namespace Adds

variable {spots others : List (Place × ChildRecord)} {before between after : Canvas}

theorem nothing (canvas : Canvas) : Adds t c q [] canvas canvas :=
  ⟨[], (List.append_nil _).symm, .nil⟩

theorem append (h : Adds t c q spots before between) (h' : Adds t c q others between after) :
    Adds t c q (spots ++ others) before after := by
  obtain ⟨lines, hlines, hdrawn⟩ := h
  obtain ⟨more, hmore, hdrawn'⟩ := h'
  refine ⟨lines ++ more, ?_, List.rel_append hdrawn hdrawn'⟩
  rw [hmore, hlines, List.append_assoc]

theorem write {p : Place} {line : String} (h : DrawnAt t ⟨c, false⟩ (q ++ p) line) (x : ChildRecord)
    (canvas : Canvas) : Adds t c q [(p, x)] canvas (canvas.write line) :=
  ⟨[line], canvas.lines_write line, .cons h .nil⟩

theorem deeper (h : Adds t c (q ++ [i]) spots before after) :
    Adds t c q (spots.map (deeper i)) before after := by
  obtain ⟨lines, hlines, hdrawn⟩ := h
  refine ⟨lines, hlines, List.forall₂_map_left_iff.mpr (hdrawn.imp ?_)⟩
  intro spot line hline
  rwa [List.append_assoc] at hline

end Adds

-- The siblings from a position on, with all that is below them, are drawn at their places. A node record
-- costs one step and so does a position, and neither is met twice.
theorem drawChildren_adds {spans : Array Span} {parent next : Nat} {cs : List ChildRecord}
    (hc : c.Regular) (hold : t.Holds spans parent next cs) (hodd : odditiesOf cs = []) (q : Place)
    (i fuel : Nat) (canvas : Canvas) (hq : t.at? q = some (.node parent))
    (hdrop : (t.children parent).drop i = childIds next cs) (hopen : Open t q canvas.levels)
    (hfuel : nodeCounts cs + (referencesOf cs).length ≤ fuel) :
    Adds t c q (spotsFrom i cs) canvas
      (drawChildren t ⟨c, false⟩ fuel (childIds next cs) canvas) := by
  induction cs using ChildRecord.forestInduction generalizing parent next q i fuel canvas with
  | nil =>
      rw [childIds, drawChildren_nil]
      exact .nothing canvas
  | token index cs ih =>
      simp only [nodeCounts, ChildRecord.nodeCount, referencesOf, ChildRecord.references,
        List.length_append, List.length_singleton] at hfuel
      obtain ⟨fuel, rfl⟩ : ∃ n, fuel = n + 1 := ⟨fuel - 1, by omega⟩
      have hhead := headed_of_drop hc hq hopen hdrop
      have htail := congrArg List.tail hdrop
      rw [List.tail_drop] at htail
      have hself := Adds.write hhead.line (.token index) canvas
      exact hself.append
        (ih hold.of_token (by simpa using hodd) q (i + 1) fuel _ hq htail hopen (by omega))
  | node kind children cs ihc ih =>
      obtain ⟨hnode, hchildren, hcs⟩ := hold.of_node
      simp only [odditiesOf, ChildRecord.oddities, List.append_eq_nil_iff] at hodd
      simp only [nodeCounts, ChildRecord.nodeCount, referencesOf, ChildRecord.references,
        List.length_append] at hfuel
      obtain ⟨fuel, rfl⟩ : ∃ n, fuel = n + 1 := ⟨fuel - 1, by omega⟩
      rw [Nat.add_assoc] at hcs
      have hhead := headed_of_drop hc hq hopen hdrop
      have htail := congrArg List.tail hdrop
      rw [List.tail_drop] at htail
      have hlisted : t.children next = childIds (next + 1) children := Tree.children_eq hnode
      have hself := Adds.write hhead.line (.node kind children) canvas
      rw [childIds, drawChildren_node, hlisted]
      set more := !(childIds (next + (ChildRecord.node kind children).nodeCount) cs).isEmpty
      set entered := (canvas.write (elementLine t ⟨c, false⟩ canvas.levels more (.node next))).enter more
      have hbelow := ihc hchildren hodd.1 (q ++ [i]) 0 fuel entered hhead.place hlisted hhead.entered
        (by omega)
      set drawn := drawChildren t ⟨c, false⟩ fuel (childIds (next + 1) children) entered with hdrawn
      have hleft : drawn.leave.levels = canvas.levels := by
        rw [Canvas.levels_leave, hdrawn, levels_drawChildren, Canvas.levels_enter,
          List.dropLast_concat, Canvas.levels_write]
      have hrest := ih hcs hodd.2 q (i + 1) fuel drawn.leave hq htail (hleft ▸ hopen) (by omega)
      exact (hself.append hbelow.deeper).append hrest
  | invalid value cs ih => simp at hodd

end Lines

-- No name that a tree shows is broken over lines.
structure Unbroken (t : Tree) : Prop where
  nodeNames : ∀ id < t.nodeCount, '\n' ∉ (t.nodeName id).toList
  tokenNames : ∀ k < t.tokenCount, '\n' ∉ (t.tokenName k).toList

section Texts

variable {t : Tree} {c : Connectors} {p : Place}

theorem nodeLabel_plain (t : Tree) (c : Connectors) (id : Nat) :
    nodeLabel t ⟨c, false⟩ id = t.nodeName id ++ " " ++ ("[" ++ toString (t.nodeSpan id).start ++
      ".." ++ toString (t.nodeSpan id).stop ++ "]") := rfl

theorem tokenLabel_plain (t : Tree) (c : Connectors) (k : Nat) :
    tokenLabel t ⟨c, false⟩ k = t.tokenName k ++ " " ++ Text.quoted (t.tokenValue k) := rfl

theorem Unbroken.newline_notMem_elementLabel (h : Unbroken t) (c : Connectors) {e : ChildId}
    (he : t.Has e) : '\n' ∉ (elementLabel t ⟨c, false⟩ e).toList := by
  cases e with
  | node id =>
      have hname := h.nodeNames id he
      have hstart := newline_notMem_toString (t.nodeSpan id).start
      have hstop := newline_notMem_toString (t.nodeSpan id).stop
      rw [elementLabel, nodeLabel_plain]
      simp only [String.toList_append, List.mem_append, hname, hstart, hstop]
      decide
  | token k =>
      have hname := h.tokenNames k he
      have hvalue := newline_notMem_quoted (t.tokenValue k)
      rw [elementLabel, tokenLabel_plain]
      simp only [String.toList_append, List.mem_append, hname, hvalue]
      decide

theorem Segmented.mem {segments : List String} {segment : String} (h : Segmented t c p segments)
    (hsegment : segment ∈ segments) : segment ∈ [c.branch, c.corner, c.pipe, c.blank] := by
  obtain ⟨j, hj⟩ := List.mem_iff_getElem?.mp hsegment
  have hlt := (List.getElem?_eq_some_iff.mp hj).1
  rw [h.length] at hlt
  rcases Nat.lt_or_eq_of_le (Nat.succ_le_of_lt hlt) with hinner | hlast
  · obtain ⟨hpipe, hblank⟩ := h.passing j hinner
    rw [hj, Option.some.injEq] at hpipe hblank
    by_cases hmore : t.Continues (p.take (j + 1))
    · simp [hpipe.mpr hmore]
    · simp [hblank.mpr hmore]
  · obtain ⟨hcorner, hbranch⟩ := h.leading j hlast
    rw [hj, Option.some.injEq] at hcorner hbranch
    by_cases hmore : t.Continues p
    · simp [hbranch.mpr hmore]
    · simp [hcorner.mpr hmore]

theorem DrawnAt.newline_notMem (hc : c.Regular) (h : Unbroken t) {line : String}
    (hin : ∀ e, t.at? p = some e → t.Has e) (hline : DrawnAt t ⟨c, false⟩ p line) :
    '\n' ∉ line.toList := by
  obtain ⟨e, segments, he, hsegments, rfl⟩ := hline
  have hlabel := h.newline_notMem_elementLabel c (hin e he)
  rw [String.toList_append, List.mem_append, String.toList_join, List.mem_flatMap]
  rintro (⟨segment, hsegment, hnewline⟩ | hnewline)
  · exact (hc.width segment (hsegments.mem hsegment)).2 hnewline
  · exact hlabel hnewline

theorem count_newline_unlines {lines : List String} (h : ∀ line ∈ lines, '\n' ∉ line.toList) :
    (unlines lines).toList.count '\n' = lines.length := by
  induction lines with
  | nil => rfl
  | cons line lines ih =>
      obtain ⟨hline, hlines⟩ := List.forall_mem_cons.mp h
      have hrest := ih hlines
      have hself : (line ++ "\n").toList.count '\n' = 1 := by
        rw [String.toList_append, List.count_append, List.count_eq_zero_of_not_mem hline]
        rfl
      rw [unlines] at hrest ⊢
      rw [List.map_cons, String.join_cons, String.toList_append, List.count_append, hrest, hself,
        List.length_cons, Nat.add_comm]

end Texts

-- A node record costs one step and so does a position, so the fuel lasts for the whole tree.
theorem ofRecord_draw_adds {g : Grammar} {source : String} {r : ParseRecord} {t : Tree}
    (h : Tree.ofRecord g source r = .ok t) {c : Connectors} (hc : c.Regular) :
    Adds t c [] (spotsFrom 0 r.tree.children) (Canvas.blank.write (nodeLabel t ⟨c, false⟩ 0))
      (draw t ⟨c, false⟩) := by
  have hsound := ofRecord_sound h
  have hroot : r.tree.records[0]? = some r.tree := rfl
  obtain ⟨hchildren, hold⟩ := ofRecord_node_at h hroot
  have hnodes := hold.nodeCounts_le
  have htokens := hsound.length_references_le
  rw [← ofRecord_tokenCount h, NodeRecord.references] at htokens
  have hdrawn := drawChildren_adds hc hold hsound.noOddity [] 0 (t.nodeCount + t.tokenCount + 1)
    (Canvas.blank.write (nodeLabel t ⟨c, false⟩ 0)) rfl hchildren (.root t) (by omega)
  rwa [← hchildren] at hdrawn

-- A drawing without colours has a line for the root, and below it one for every place of the tree, in the
-- order of the places. The text has no other lines, and no call leaves a level open or closes one of its
-- caller.
theorem drawing_by_places (g : Grammar) (source : String) (r : ParseRecord) (t : Tree)
    (h : Tree.ofRecord g source r = .ok t) (hnames : Unbroken t) (c : Connectors)
    (hc : c = .boxes ∨ c = .ascii) :
    (∃ places lines, t.Listed places ∧
        drawing t ⟨c, false⟩ = nodeLabel t ⟨c, false⟩ 0 :: lines ∧
        List.Forall₂ (DrawnAt t ⟨c, false⟩) places lines ∧
        (∀ line ∈ drawing t ⟨c, false⟩, '\n' ∉ line.toList) ∧
        (unlines (drawing t ⟨c, false⟩)).toList.count '\n' = 1 + places.length) ∧
      ∀ fuel children canvas,
        (drawChildren t ⟨c, false⟩ fuel children canvas).levels = canvas.levels := by
  refine ⟨?_, fun fuel children canvas => levels_drawChildren t ⟨c, false⟩ fuel canvas children⟩
  have hregular : c.Regular := by
    rcases hc with rfl | rfl
    · exact Connectors.regular_boxes
    · exact Connectors.regular_ascii
  obtain ⟨lines, hlines, hdrawn⟩ := ofRecord_draw_adds h hregular
  have hlisted := ofRecord_listed h
  have hall : drawing t ⟨c, false⟩ = nodeLabel t ⟨c, false⟩ 0 :: lines := hlines
  replace hdrawn : List.Forall₂ (DrawnAt t ⟨c, false⟩)
      ((spotsFrom 0 r.tree.children).map Prod.fst) lines := List.forall₂_map_left_iff.mpr hdrawn
  have hunbroken : ∀ line ∈ drawing t ⟨c, false⟩, '\n' ∉ line.toList := by
    have hroot : t.at? [] = some (.node 0) := rfl
    have hlabel := hnames.newline_notMem_elementLabel c (ofRecord_has_of_at? h hroot)
    have hbelow := hdrawn.flip.imp fun line place hline =>
      And.intro (DrawnAt.newline_notMem hregular hnames (fun e => ofRecord_has_of_at? h) hline) hline
    rw [hall]
    exact List.forall_mem_cons.mpr ⟨hlabel, ((List.forall₂_and_left _ _).mp hbelow).1⟩
  refine ⟨_, lines, hlisted, hall, hdrawn, hunbroken, ?_⟩
  rw [count_newline_unlines hunbroken, hall, List.length_cons, hdrawn.length_eq, Nat.add_comm]

-- Behind the first child of the root more follows, and behind the last none.
theorem nestedSample_drawing :
    ∃ t places lines, Tree.ofRecord sampleGrammar "é bc" nestedSample = .ok t ∧ Unbroken t ∧
      t.Listed places ∧ List.Forall₂ (DrawnAt t ⟨.boxes, false⟩) places lines ∧
      drawing t ⟨.boxes, false⟩ = "ROOT [0..5]" :: lines ∧
      lines = ["├── STATEMENT [0..2]", "│   └── WORD \"é\"", "├── SPACE \" \"",
        "└── STATEMENT [4..5]", "    └── STATEMENT [4..5]", "        └── WORD \"c\""] := by
  have h : Tree.ofRecord sampleGrammar "é bc" nestedSample =
      .ok (Tree.layout sampleGrammar "é bc" nestedSample #[some 1, some 0, none, some 3]) := rfl
  set t := Tree.layout sampleGrammar "é bc" nestedSample #[some 1, some 0, none, some 3] with ht
  have hnames : Unbroken t := ⟨by decide +kernel, by decide +kernel⟩
  obtain ⟨⟨places, lines, hlisted, hlines, hdrawn, -⟩, -⟩ :=
    drawing_by_places sampleGrammar "é bc" nestedSample t h hnames .boxes (.inl rfl)
  have hshown : drawing t ⟨.boxes, false⟩ = ["ROOT [0..5]", "├── STATEMENT [0..2]",
      "│   └── WORD \"é\"", "├── SPACE \" \"", "└── STATEMENT [4..5]", "    └── STATEMENT [4..5]",
      "        └── WORD \"c\""] := by decide +kernel
  rw [hshown] at hlines
  obtain ⟨hroot, hrest⟩ := List.cons.inj hlines
  exact ⟨t, places, lines, h, hnames, hlisted, hdrawn, by rw [hshown, hrest], hrest.symm⟩

end ExternalParser.CommandLine
