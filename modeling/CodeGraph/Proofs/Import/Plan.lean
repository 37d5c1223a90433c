import CodeGraph.Import.Plan
import CodeGraph.Proofs.Path

/-!
# The places an import may point to

Every place is normalized, so the index of importers, which tells places apart by their spelling,
finds each file under the places that accept it. All places are files but in Go and Java.
-/

namespace CodeGraph

namespace ModulePlan

theorem isPlain_of_mem_files {paths : List Path} {candidate : Candidate}
    (hmem : candidate ∈ files paths) : candidate.path.IsPlain := by
  obtain ⟨path, hpath, rfl⟩ := List.mem_map.1 hmem
  obtain ⟨spelled, -, hnormalize⟩ := List.mem_filterMap.1 hpath
  exact Path.isPlain_of_normalize? hnormalize

/-- Only Go and Java import packages: the places of any other language are listed as files. -/
theorem exists_files_of_mem_all {language : Language} (hgo : language ≠ .go)
    (hjava : language ≠ .java) {importer : Path} {fact : ImportFact} {config : LanguageConfig}
    {candidate : Candidate} (hmem : candidate ∈ (make language importer fact config).all) :
    ∃ paths, candidate ∈ files paths := by
  rw [all, List.mem_append] at hmem
  cases language with
  | python =>
    simp only [make, python] at hmem
    split at hmem
    · simp [unresolved] at hmem
    · rcases hmem with hmem | hmem
      · obtain ⟨directory, -, hmem⟩ := List.mem_flatMap.1 hmem
        exact ⟨_, hmem⟩
      · split at hmem
        · obtain ⟨directory, -, hmem⟩ := List.mem_flatMap.1 hmem
          exact ⟨_, hmem⟩
        · cases hmem
  | javascript | typescript =>
    simp only [make, ecma] at hmem
    split at hmem
    · split at hmem
      · cases hmem.resolve_right List.not_mem_nil
      · exact ⟨_, hmem.resolve_right List.not_mem_nil⟩
    · obtain ⟨root, -, hmem⟩ := List.mem_flatMap.1 (hmem.resolve_right List.not_mem_nil)
      exact ⟨_, hmem⟩
  | rust =>
    simp only [make, rust] at hmem
    split at hmem
    · simp [unresolved] at hmem
    · split at hmem
      · simp at hmem
      · rcases hmem with hmem | hmem
        · exact ⟨_, hmem⟩
        · split at hmem
          · exact ⟨_, hmem⟩
          · cases hmem
  | go => exact absurd rfl hgo
  | java => exact absurd rfl hjava
  | other => simp [make, unresolved] at hmem

theorem isPlain_of_mem_go {fact : ImportFact} {config : LanguageConfig} {candidate : Candidate}
    (hmem : candidate ∈ (go fact config).candidates) : candidate.path.IsPlain := by
  simp only [go] at hmem
  split at hmem <;>
  · obtain ⟨path, hpath, rfl⟩ := List.mem_map.1 hmem
    obtain ⟨root, -, hnormalize⟩ := List.mem_filterMap.1 hpath
    exact Path.isPlain_of_normalize? hnormalize

/-- **Places are normalized**, whatever the language. -/
theorem isPlain_of_mem_all {language : Language} {importer : Path} {fact : ImportFact}
    {config : LanguageConfig} {candidate : Candidate}
    (hmem : candidate ∈ (make language importer fact config).all) : candidate.path.IsPlain := by
  cases language with
  | go =>
    refine isPlain_of_mem_go ((List.mem_append.1 hmem).resolve_right ?_)
    simp only [make, go]
    split <;> exact List.not_mem_nil
  | java =>
    rw [all, List.mem_append] at hmem
    simp only [make, java] at hmem
    rcases hmem with hmem | hmem
    · obtain ⟨directory, -, hmem⟩ := List.mem_flatMap.1 hmem
      rcases List.mem_append.1 hmem with hmem | hmem
      · obtain ⟨path, hpath, rfl⟩ := List.mem_map.1 hmem
        exact Path.isPlain_of_normalize? (Option.mem_toList.1 hpath)
      · exact isPlain_of_mem_files hmem
    · split at hmem
      · obtain ⟨_, -, hmem⟩ := List.mem_flatMap.1 hmem
        obtain ⟨_, -, hmem⟩ := List.mem_flatMap.1 hmem
        exact isPlain_of_mem_files hmem
      · cases hmem
  | python | javascript | typescript | rust | other =>
    obtain ⟨paths, hmem⟩ := exists_files_of_mem_all (by decide) (by decide) hmem
    exact isPlain_of_mem_files hmem

/-! ### What a plan depends on -/

/-- A plan is made from the specifier and the member of an import. -/
theorem make_congr {fact other : ImportFact} (hspecifier : other.specifier = fact.specifier)
    (hmember : other.member = fact.member) (language : Language) (importer : Path)
    (config : LanguageConfig) : make language importer other config =
      make language importer fact config := by
  cases language <;> simp only [make, python, ecma, go, rust, java, hspecifier, hmember]

theorem exists_file_of_mem_all {language : Language} (hgo : language ≠ .go)
    (hjava : language ≠ .java) {importer : Path} {fact : ImportFact} {config : LanguageConfig}
    {candidate : Candidate} (hcandidate : candidate ∈ (make language importer fact config).all) :
    ∃ path, candidate = .file path := by
  obtain ⟨paths, hmem⟩ := exists_files_of_mem_all hgo hjava hcandidate
  obtain ⟨path, -, rfl⟩ := List.mem_map.1 hmem
  exact ⟨path, rfl⟩

/-- Whether an import that finds nothing is taken for one of an outside module depends on how it is
spelled, not on where it stands. -/
theorem exists_unresolved {language : Language} (hgo : language ≠ .go) {importer : Path}
    {fact : ImportFact} {config : LanguageConfig} {reason : String}
    (hfallback : (make language importer fact config).fallback = .unresolved reason)
    (other : Path) :
    ∃ reason', (make language other fact config).fallback = .unresolved reason' := by
  cases language with
  | python =>
    simp only [make, python] at hfallback ⊢
    split
    · exact ⟨_, rfl⟩
    · rename_i bases hbases
      dsimp only
      split
      · exact ⟨_, rfl⟩
      · rename_i hdots
        split at hfallback
        · rename_i hnone
          rw [pythonBases?, Nat.eq_zero_of_not_pos hdots] at hnone
          cases hnone
        · dsimp only at hfallback
          rw [if_neg hdots] at hfallback
          cases hfallback
  | javascript | typescript =>
    simp only [make, ecma] at hfallback ⊢
    split
    · split
      · exact ⟨_, rfl⟩
      · exact ⟨_, rfl⟩
    · rename_i hrelative
      rw [if_neg hrelative] at hfallback
      cases hfallback
  | rust =>
    simp only [make, rust] at hfallback ⊢
    split
    · exact ⟨_, rfl⟩
    · rename_i first rest hsegments
      rw [hsegments] at hfallback
      dsimp only at hfallback
      split
      · rename_i hnone
        have hhere : rustStart? importer first = none := by
          revert hnone
          simp only [rustStart?]
          split <;> simp
        rw [hhere] at hfallback
        cases hfallback
      · exact ⟨_, rfl⟩
  | go => exact absurd rfl hgo
  | java => cases hfallback
  | other => exact ⟨_, rfl⟩

end ModulePlan

end CodeGraph
