import ExternalParser.Path
import Mathlib.Data.List.Induction

namespace ExternalParser.Path

theorem parts_ne_nil (path : List Char) : parts path ≠ [] := by
  unfold parts
  split
  · simp
  · simp
  · split <;> simp

theorem parts_eq_splitOn (path : List Char) : parts path = path.splitOn '/' := by
  fun_induction parts path with
  | case1 => rfl
  | case2 rest ih => rw [List.splitOn_cons_eq_if_modifyHead, if_pos (beq_self_eq_true '/'), ih]
  | case3 c rest hc part others hparts ih =>
      rw [List.splitOn_cons_eq_if_modifyHead, if_neg (by simpa using hc), ← ih, hparts]
      rfl
  | case4 c rest hc hparts => exact absurd hparts (parts_ne_nil rest)

theorem slash_notMem_of_mem_parts {path part : List Char} (h : part ∈ parts path) : '/' ∉ part := by
  fun_induction parts path generalizing part with
  | case1 =>
      obtain rfl := List.mem_singleton.mp h
      simp
  | case2 rest ih =>
      rcases List.mem_cons.mp h with rfl | h
      · simp
      · exact ih h
  | case3 c rest hc first others hparts ih =>
      rw [hparts] at ih
      rcases List.mem_cons.mp h with rfl | h
      · have hfirst := ih List.mem_cons_self
        simpa using ⟨fun heq => hc heq.symm, hfirst⟩
      · exact ih (List.mem_cons_of_mem first h)
  | case4 c rest hc hparts => exact absurd hparts (parts_ne_nil rest)

theorem parts_append_slash (front back : List Char) :
    parts (front ++ '/' :: back) = parts front ++ parts back := by
  simp only [parts_eq_splitOn, List.splitOn_append_cons_self]

theorem intercalate_parts (path : List Char) : ['/'].intercalate (parts path) = path := by
  rw [parts_eq_splitOn, List.intercalate_splitOn]

theorem parts_intercalate {ps : List (List Char)} (hne : ps ≠ []) (h : ∀ part ∈ ps, '/' ∉ part) :
    parts (['/'].intercalate ps) = ps := by
  rw [parts_eq_splitOn, List.splitOn_intercalate '/' h hne]

theorem intercalate_cons (part : List Char) (others : List (List Char)) :
    ['/'].intercalate (part :: others) = part ++ (others.map ('/' :: ·)).flatten := by
  induction others generalizing part with
  | nil => simp
  | cons next others ih => simp [List.intercalate_cons_cons, ih]

-- Unless nothing stands in the path, it is absolute when its first part is empty.
theorem isAbsolute_iff {path : String} (h : parts path.toList ≠ [[]]) :
    isAbsolute path = true ↔ (parts path.toList).head? = some [] := by
  unfold isAbsolute
  generalize path.toList = cs at h ⊢
  unfold parts at h ⊢
  split at h
  · exact absurd rfl h
  · simp
  · rename_i c rest hc
    have hc : c ≠ '/' := fun heq => hc heq
    cases hparts : parts rest <;> simp [hc]

-- Whether a part leads anywhere, unless the path begins with it.
def leads (part : List Char) : Bool :=
  part ≠ [] && part ≠ ['.']

theorem counts_of_pos {i : Nat} (h : 0 < i) (part : List Char) : counts i part = leads part := by
  simp [counts, leads, Nat.ne_of_gt h]

-- The steps among numbered parts.
def stepsAmong (numbered : List (List Char × Nat)) : List (List Char) :=
  (numbered.filter fun x => counts x.2 x.1).map (·.1)

theorem steps_eq (path : String) : steps path = stepsAmong (parts path.toList).zipIdx := rfl

theorem stepsAmong_append (front back : List (List Char × Nat)) :
    stepsAmong (front ++ back) = stepsAmong front ++ stepsAmong back := by
  simp [stepsAmong]

-- From the second part on the position does not matter.
theorem stepsAmong_zipIdx {start : Nat} (h : 0 < start) (ps : List (List Char)) :
    stepsAmong (ps.zipIdx start) = ps.filter leads := by
  induction ps generalizing start with
  | nil => rfl
  | cons part ps ih =>
      have htail := ih (Nat.succ_pos start)
      simp only [stepsAmong] at htail ⊢
      rw [List.zipIdx_cons, List.filter_cons, List.filter_cons, counts_of_pos h]
      split <;> simp [htail]

theorem steps_of_parts_append {path : String} {ps qs : List (List Char)}
    (h : parts path.toList = ps ++ qs) (hps : ps ≠ []) :
    steps path = stepsAmong ps.zipIdx ++ qs.filter leads := by
  have hpos : 0 < 0 + ps.length := by simpa using List.length_pos_iff.mpr hps
  rw [steps_eq, h, List.zipIdx_append, stepsAmong_append, stepsAmong_zipIdx hpos]

theorem steps_of_parts_cons {path : String} {first : List Char} {others : List (List Char)}
    (h : parts path.toList = first :: others) (hfirst : first ≠ []) :
    steps path = first :: others.filter leads := by
  have hcounts : counts 0 first = true := by simp [counts, hfirst]
  have happend : parts path.toList = [first] ++ others := h
  rw [steps_of_parts_append happend (List.cons_ne_nil first [])]
  simp [stepsAmong, hcounts]

-- A dot that a path begins with leads nowhere behind another path.
theorem filter_steps (path : String) :
    (steps path).filter (· ≠ ['.']) = (parts path.toList).filter leads := by
  have hboth : ∀ x : List Char × Nat, (decide (x.1 ≠ ['.']) && counts x.2 x.1) = leads x.1 := by
    intro x
    by_cases hdot : x.1 = ['.'] <;> simp [counts, leads, hdot]
  rw [steps_eq, stepsAmong, List.filter_map, List.filter_filter]
  simp only [Function.comp_def, hboth]
  rw [← Function.comp_def leads Prod.fst, ← List.filter_map, List.zipIdx_map_fst]

-- The last part that leads somewhere, if there is one, what stands before it and the parts behind it.
theorem fromLastStep_cases (numbered : List (List Char × Nat)) :
    fromLastStep numbered.reverse = [] ∧ stepsAmong numbered = [] ∨
      ∃ before last idle, numbered = before ++ last :: idle ∧
        fromLastStep numbered.reverse = last :: before.reverse ∧
        counts last.2 last.1 = true ∧ stepsAmong idle = [] := by
  induction numbered using List.reverseRecOn with
  | nil => exact .inl ⟨rfl, rfl⟩
  | append_singleton numbered x ih =>
      rw [List.reverse_append, List.reverse_singleton, List.singleton_append, fromLastStep]
      by_cases hx : counts x.2 x.1 = true
      · rw [if_pos hx]
        exact .inr ⟨numbered, x, [], rfl, rfl, hx, rfl⟩
      · rw [if_neg hx]
        have hidle : stepsAmong [x] = [] := by simpa [stepsAmong] using hx
        rcases ih with ⟨hnone, hsteps⟩ | ⟨before, last, idle, rfl, hlast, hcounts, hsteps⟩
        · exact .inl ⟨hnone, by rw [stepsAmong_append, hsteps, hidle]; rfl⟩
        · refine .inr ⟨before, last, idle ++ [x], by simp, hlast, hcounts, ?_⟩
          rw [stepsAmong_append, hsteps, hidle]
          rfl

-- The directory of a path without a second step is where the path begins. Otherwise it is made of the first
-- parts of the path, up to its last step but one.
theorem parent?_cases (path : String) :
    parent? path = none ∧ steps path = [] ∨
      (∃ last, parent? path = some (if isAbsolute path then "/" else "") ∧ steps path = [last]) ∨
      ∃ kept dropped last, parts path.toList = kept ++ dropped ∧ kept ≠ [] ∧ kept ≠ [[]] ∧
        parent? path = some (String.ofList (['/'].intercalate kept)) ∧
        steps path = stepsAmong kept.zipIdx ++ [last] := by
  unfold parent?
  rw [steps_eq]
  obtain ⟨hnone, hsteps⟩ | ⟨before, last, idle, hparts, hlast, hcounts, hidle⟩ :=
    fromLastStep_cases (parts path.toList).zipIdx
  · exact .inl ⟨by simp only [hnone], hsteps⟩
  have hsteps : stepsAmong (parts path.toList).zipIdx = stepsAmong before ++ [last.1] := by
    rw [hparts, stepsAmong_append, ← List.singleton_append, stepsAmong_append, hidle]
    simp [stepsAmong, hcounts]
  rw [hsteps]
  right
  obtain ⟨hnone, hbefore⟩ | ⟨front, step, gap, hbefore, hstep, hcounts, hgap⟩ :=
    fromLastStep_cases before
  · exact .inl ⟨last.1, by simp only [hlast, hnone], by rw [hbefore]; rfl⟩
  · have hkept : (parts path.toList).zipIdx = (front ++ [step]) ++ (gap ++ last :: idle) := by
      rw [hparts, hbefore]
      simp
    obtain ⟨kept, dropped, happend, hfront, -⟩ := List.zipIdx_eq_append_iff.mp hkept
    refine .inr ⟨kept, dropped, last.1, happend, ?_, ?_, ?_, ?_⟩
    · rintro rfl
      simp at hfront
    · rintro rfl
      have hlast := congrArg List.getLast? hfront
      obtain rfl : step = ([], 0) := by simpa using hlast
      simp [counts] at hcounts
    · simp only [hlast, hstep]
      rw [← List.zipIdx_map_fst 0 kept, ← hfront]
      simp
    · rw [hbefore, ← hfront, ← List.singleton_append, ← List.append_assoc, stepsAmong_append _ gap,
        hgap, List.append_nil]

-- The directory leads along all steps but the last one.
theorem route_parent? (path : String) :
    (parent? path).map route =
      if steps path = [] then none else some ⟨isAbsolute path, (steps path).dropLast⟩ := by
  obtain ⟨hparent, hsteps⟩ | ⟨last, hparent, hsteps⟩ |
    ⟨kept, dropped, last, hparts, hne, hroot, hparent, hsteps⟩ := parent?_cases path
  · simp [hparent, hsteps]
  · rw [hparent, hsteps, if_neg (List.cons_ne_nil last [])]
    cases isAbsolute path <;> rfl
  · have hslash : ∀ part ∈ kept, '/' ∉ part := by
      intro part hpart
      have hmem : part ∈ parts path.toList := by
        rw [hparts]
        exact List.mem_append_left dropped hpart
      exact slash_notMem_of_mem_parts hmem
    have hkept : parts (String.ofList (['/'].intercalate kept)).toList = kept := by
      rw [String.toList_ofList, parts_intercalate hne hslash]
    have hmore : parts path.toList ≠ [[]] := by
      rw [hparts, Ne, List.append_eq_singleton_iff]
      simp [hne, hroot]
    have habsolute : isAbsolute (String.ofList (['/'].intercalate kept)) = isAbsolute path := by
      rw [Bool.eq_iff_iff, isAbsolute_iff (by rwa [hkept]), isAbsolute_iff hmore, hkept, hparts,
        List.head?_append, List.head?_eq_some_head hne, Option.some_or]
    rw [hparent, hsteps, if_neg (by simp), List.dropLast_concat, Option.map_some, route, habsolute,
      steps_eq, hkept]

-- A path that begins at the root has more components than one, or it is the root and has no directory.
theorem isBareName_iff (path : String) :
    isBareName path = true ↔ isAbsolute path = false ∧ (components path).length = 1 := by
  have hempty : route "" = ⟨false, []⟩ := rfl
  rw [isBareName, Bool.and_eq_true, decide_eq_true_eq, decide_eq_true_eq, route_parent?, hempty]
  cases habsolute : isAbsolute path with
  | true => simp
  | false =>
      have hcomponents : components path = steps path := by simp [components, habsolute]
      rw [hcomponents]
      constructor
      · exact fun h => ⟨rfl, h.1⟩
      · rintro ⟨-, hlength⟩
        obtain ⟨step, hstep⟩ := List.length_eq_one_iff.mp hlength
        simp [hstep]

-- A name with nothing behind it but slashes and single dots. The name may be a dot or two.
def Bare (path : String) : Prop :=
  ∃ (name : List Char) (others : List (List Char)),
    path.toList = name ++ (others.map ('/' :: ·)).flatten ∧ name ≠ [] ∧ '/' ∉ name ∧
      ∀ part ∈ others, part = [] ∨ part = ['.']

theorem leads_eq_false_iff (part : List Char) : leads part = false ↔ part = [] ∨ part = ['.'] := by
  simp [leads, Decidable.or_iff_not_imp_left]

theorem bare_iff (path : String) :
    Bare path ↔ isAbsolute path = false ∧ (components path).length = 1 := by
  constructor
  · rintro ⟨name, others, hpath, hne, hslash, hothers⟩
    have hparts : parts path.toList = name :: others := by
      rw [hpath, ← intercalate_cons]
      apply parts_intercalate (List.cons_ne_nil name others)
      rintro part (_ | ⟨_, hpart⟩)
      · exact hslash
      · rcases hothers part hpart with rfl | rfl <;> simp
    have hidle : others.filter leads = [] := by
      rw [List.filter_eq_nil_iff]
      intro part hpart
      simp [(leads_eq_false_iff part).mpr (hothers part hpart)]
    have habsolute : isAbsolute path = false := by
      rw [← Bool.not_eq_true, isAbsolute_iff (by simp [hparts, hne]), hparts]
      simpa using hne
    refine ⟨habsolute, ?_⟩
    rw [components, habsolute, steps_of_parts_cons hparts hne, hidle]
    rfl
  · rintro ⟨habsolute, hlength⟩
    obtain ⟨first, others, hparts⟩ := List.exists_cons_of_ne_nil (parts_ne_nil path.toList)
    have hne : first ≠ [] := by
      rintro rfl
      by_cases hempty : parts path.toList = [[]]
      · have hsteps : steps path = [] := by rw [steps_eq, hempty]; rfl
        simp [components, habsolute, hsteps] at hlength
      · have hroot := (isAbsolute_iff hempty).mpr (by rw [hparts]; rfl)
        simp [habsolute] at hroot
    rw [components, habsolute, steps_of_parts_cons hparts hne] at hlength
    have hidle : others.filter leads = [] := by simpa using hlength
    refine ⟨first, others, ?_, hne, ?_, ?_⟩
    · rw [← intercalate_cons, ← hparts, intercalate_parts]
    · exact slash_notMem_of_mem_parts (hparts ▸ List.mem_cons_self)
    · intro part hpart
      rw [← leads_eq_false_iff, ← Bool.not_eq_true]
      exact List.filter_eq_nil_iff.mp hidle part hpart

theorem toList_join {base path : String} (hbase : base ≠ "") (hpath : isAbsolute path = false) :
    (join base path).toList =
      if base.toList.getLast? = some '/' then base.toList ++ path.toList
      else base.toList ++ '/' :: path.toList := by
  rw [join, if_neg (by simp [hpath])]
  by_cases hlast : base.toList.getLast? = some '/' <;> simp [hbase, hlast]

theorem ne_empty_of_isAbsolute {path : String} (h : isAbsolute path = true) : path ≠ "" := by
  rintro rfl
  cases h

theorem isAbsolute_join {base path : String} (hbase : isAbsolute base = true)
    (hpath : isAbsolute path = false) : isAbsolute (join base path) = true := by
  rw [isAbsolute, toList_join (ne_empty_of_isAbsolute hbase) hpath]
  rw [isAbsolute, decide_eq_true_eq] at hbase
  split <;> simp [hbase]

-- A joined path leads along the steps of both.
theorem steps_join {base path : String} (hbase : base ≠ "") (hpath : isAbsolute path = false) :
    steps (join base path) = steps base ++ (steps path).filter (· ≠ ['.']) := by
  have hjoined := toList_join hbase hpath
  rw [filter_steps]
  by_cases hlast : base.toList.getLast? = some '/'
  · obtain ⟨front, hfront⟩ := List.getLast?_eq_some_iff.mp hlast
    have hbase : parts base.toList = parts front ++ [[]] := by
      rw [hfront, parts_append_slash]
      rfl
    have hparts : parts (join base path).toList = parts front ++ parts path.toList := by
      rw [hjoined, if_pos hlast, hfront, List.append_assoc, List.singleton_append, parts_append_slash]
    rw [steps_of_parts_append hparts (parts_ne_nil front),
      steps_of_parts_append hbase (parts_ne_nil front)]
    simp [leads]
  · have hparts : parts (join base path).toList = parts base.toList ++ parts path.toList := by
      rw [hjoined, if_neg hlast, parts_append_slash]
    rw [steps_of_parts_append hparts (parts_ne_nil _), steps_eq base]

end ExternalParser.Path
