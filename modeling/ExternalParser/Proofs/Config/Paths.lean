import ExternalParser.Config.Basic
import ExternalParser.Proofs.Path.Components

namespace ExternalParser

namespace Path

-- What a path becomes when it is seen from an absolute directory.
structure Seen (base before after : String) : Prop where
  absolute : isAbsolute before = true → after = before
  single : isAbsolute before = false → (components before).length = 1 → after = before ∧ Bare before
  -- The path that is joined leads from the directory on.
  joined : isAbsolute before = false → (components before).length ≠ 1 →
    after = join base before ∧ ¬ Bare before ∧
      route after = ⟨true, steps base ++ (steps before).filter (· ≠ ['.'])⟩
  settled : isAbsolute after = true ∨
    after = before ∧ isAbsolute before = false ∧ (components before).length = 1

theorem resolve_of_isAbsolute (base : String) {path : String} (h : isAbsolute path = true) :
    resolve base path = path := by
  rw [resolve, h]
  rfl

theorem resolve_of_single (base : String) {path : String} (hpath : isAbsolute path = false)
    (h : (components path).length = 1) : resolve base path = path := by
  rw [resolve, (isBareName_iff path).mpr ⟨hpath, h⟩, Bool.or_true, if_pos rfl]

theorem resolve_of_several (base : String) {path : String} (hpath : isAbsolute path = false)
    (h : (components path).length ≠ 1) : resolve base path = join base path := by
  have hbare : isBareName path = false := by
    rw [← Bool.not_eq_true, isBareName_iff]
    exact fun hboth => h hboth.2
  rw [resolve, hpath, hbare]
  rfl

theorem seen_resolve {base : String} (hbase : isAbsolute base = true) (path : String) :
    Seen base path (resolve base path) where
  absolute := resolve_of_isAbsolute base
  single hpath h := ⟨resolve_of_single base hpath h, (bare_iff path).mpr ⟨hpath, h⟩⟩
  joined hpath h := by
    refine ⟨resolve_of_several base hpath h, fun hbare => h ((bare_iff path).mp hbare).2, ?_⟩
    rw [resolve_of_several base hpath h, route, isAbsolute_join hbase hpath,
      steps_join (ne_empty_of_isAbsolute hbase) hpath]
  settled := by
    by_cases hpath : isAbsolute path = true
    · rw [resolve_of_isAbsolute base hpath]
      exact .inl hpath
    rw [Bool.not_eq_true] at hpath
    by_cases h : (components path).length = 1
    · exact .inr ⟨resolve_of_single base hpath h, hpath, h⟩
    · rw [resolve_of_several base hpath h]
      exact .inl (isAbsolute_join hbase hpath)

-- What has been seen from a directory does not depend on another one any more.
theorem Seen.resolve_eq {base before after : String} (h : Seen base before after) (other : String) :
    resolve other after = after := by
  obtain habsolute | ⟨rfl, hpath, hsingle⟩ := h.settled
  · exact resolve_of_isAbsolute other habsolute
  · exact resolve_of_single other hpath hsingle

end Path

namespace Config

-- Only the binary and the program that builds it are looked at. Both end up absolute or are the bare names
-- that they were, so a second directory changes nothing.
theorem resolvePaths_settles (c : Config) {base : String} (hbase : Path.isAbsolute base = true) :
    (∃ binary command, c.resolvePaths base = { c with binary := binary, buildCommand := command } ∧
      Path.Seen base c.binary binary ∧
      Option.Rel (Path.Seen base) c.buildCommand.head? command.head? ∧
      command.tail = c.buildCommand.tail) ∧
    ∀ other, (c.resolvePaths base).resolvePaths other = c.resolvePaths base := by
  have hbinary := Path.seen_resolve hbase c.binary
  cases hcommand : c.buildCommand with
  | nil =>
      refine ⟨⟨_, [], ?_, hbinary, .none, rfl⟩, ?_⟩
      · rw [resolvePaths, hcommand]
      · intro other
        simp only [resolvePaths, hcommand, hbinary.resolve_eq other]
  | cons program arguments =>
      have hprogram := Path.seen_resolve hbase program
      refine ⟨⟨_, Path.resolve base program :: arguments, ?_, hbinary, .some hprogram, rfl⟩, ?_⟩
      · rw [resolvePaths, hcommand]
      · intro other
        simp only [resolvePaths, hcommand, hbinary.resolve_eq other, hprogram.resolve_eq other]

-- With the dot in front the binary is no bare name. The program is one in spite of what stands behind it.
def nestedConfig : Config :=
  (Config.new "M" "./m" ⟨"g", ⟨[(1, "S")]⟩, ⟨[(2, "W")]⟩, 1, "", ";\n", []⟩).withBuildCommand
    ["make/.//", "./all"]

theorem nestedConfig_settles :
    Path.isAbsolute "/opt/" = true ∧
      nestedConfig.resolvePaths "/opt/" = { nestedConfig with binary := "/opt/./m" } ∧
      Path.Seen "/opt/" "./m" "/opt/./m" ∧ Path.Seen "/opt/" "make/.//" "make/.//" ∧
      (nestedConfig.resolvePaths "/opt/").resolvePaths "/srv" = nestedConfig.resolvePaths "/opt/" := by
  have hbase : Path.isAbsolute "/opt/" = true := rfl
  have hresolved : nestedConfig.resolvePaths "/opt/" = { nestedConfig with binary := "/opt/./m" } := rfl
  obtain ⟨⟨binary, command, hfields, hbinary, hprogram, -⟩, hagain⟩ :=
    resolvePaths_settles nestedConfig hbase
  rw [hresolved] at hfields
  obtain rfl : "/opt/./m" = binary := congrArg Config.binary hfields
  obtain rfl : nestedConfig.buildCommand = command := congrArg Config.buildCommand hfields
  obtain hprogram | - := hprogram
  exact ⟨hbase, hresolved, hbinary, hprogram, hagain "/srv"⟩

end Config

end ExternalParser
