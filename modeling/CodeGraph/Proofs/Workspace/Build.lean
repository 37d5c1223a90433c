import CodeGraph.Proofs.Workspace.Converge
import CodeGraph.Workspace.Build

/-!
# Building from sources

A build applies each of the chosen sources once and converges. Whatever the sources, it succeeds, and
it leaves no file out.
-/

namespace CodeGraph.Workspace

theorem sound_empty (environment : Environment) : empty.Sound environment where
  graph := Graph.sound_empty
  ordered := ⟨List.Pairwise.nil, by rintro _ ⟨⟩⟩
  parallel := by rintro _ ⟨⟩
  held := by rintro _ ⟨⟩
  drawn := by rintro _ ⟨⟩
  covered := by rintro _ _ ⟨⟩
  wired := by
    refine ⟨fun _ _ => ?_, fun _ _ => ?_, by rintro _ _ ⟨⟩, by rintro _ ⟨⟩, by rintro _ ⟨⟩⟩
    · exact iff_of_false (by rintro ⟨⟩) (by rintro ⟨_, ⟨⟩, -⟩)
    · exact iff_of_false (by rintro ⟨⟩) (by rintro ⟨_, ⟨⟩, -⟩)
  registered := by
    refine ⟨Table.keyed_empty, fun _ _ _ => ?_, by rintro _ _ ⟨⟩⟩
    exact iff_of_false (by rintro ⟨⟩) (by rintro ⟨⟩)
  bound := by rintro _ ⟨⟩
  indexed := ⟨fun _ => PathSet.sorted_nil, by rintro _ _ ⟨⟩, by rintro _ ⟨⟩⟩

/-- A workspace in which no file was passed over: imports stand for what they resolve to, and the
uses are the ones that the files call for. -/
structure Settled (environment : Environment) (workspace : Workspace) : Prop where
  sound : workspace.Sound environment
  tended : workspace.Tended
  resolved : ∀ file ∈ workspace.files, workspace.Resolved file
  linked : ∀ file ∈ workspace.files, workspace.Linked file

/-- A pass that has every file on its lists settles the workspace. -/
theorem settled_of_converged {environment : Environment} {pass : Pass} {outcome : Pass.Outcome}
    (hconverged : Pass.Converged environment pass outcome)
    (hlisted : ∀ file ∈ pass.workspace.files, file.path ∈ pass.bind ∧ file.path ∈ pass.link) :
    outcome.workspace.Settled environment := by
  refine ⟨hconverged.sound, hconverged.tended, ?_, ?_⟩ <;> rw [hconverged.files]
  · exact fun file hfile => hconverged.resolved hfile (hlisted file hfile).1
  · exact fun file hfile => (hconverged.exact hfile (hlisted file hfile).2).linked

/-! ### The chosen sources -/

theorem mem_of_mem_dedup {source : Source} {sources : List Source}
    (hsource : source ∈ sources.foldr
      (fun head rest => head :: rest.dropWhile fun next => next.path = head.path) []) :
    source ∈ sources := by
  induction sources with
  | nil => exact hsource
  | cons head rest ih =>
    rw [List.foldr_cons, List.mem_cons] at hsource
    rcases hsource with rfl | hsource
    · exact List.mem_cons_self
    · exact List.mem_cons_of_mem head (ih ((List.dropWhile_sublist _).subset hsource))

theorem of_mem_chosenSources {config : Config} {sources : List Source} {source : Source}
    (hsource : source ∈ chosenSources config sources) :
    source.path.IsNormal ∧ (Language.ofPath source.path).isSupported := by
  have hsupported := List.mem_mergeSort.1 (mem_of_mem_dedup hsource)
  obtain ⟨hinside, hsupported⟩ := List.mem_filter.1 hsupported
  obtain ⟨given, -, hgiven⟩ := List.mem_filterMap.1 hinside
  obtain ⟨path, hpath, rfl⟩ := Option.map_eq_some_iff.1 hgiven
  exact ⟨Path.isNormal_of_inProject? hpath, hsupported⟩

/-- **Every build succeeds**, and of several sources at one path the last that was applied stays. -/
theorem exists_ofSources (environment : Environment) (sources : List Source) :
    ∃ workspace, ofSources environment sources = .ok workspace ∧ workspace.Settled environment ∧
      ∀ path, workspace.text? path = ((chosenSources environment.config sources).reverse.find?
        fun source => source.path = path).map Source.text := by
  obtain ⟨pass, hrun, hstands, hlisted, htexts⟩ := exists_foldlM
    (fun pass source => Pass.applyText environment pass source.path source.text [])
    (chosenSources environment.config sources) (Pass.ofWorkspace empty) (fun done pass =>
      pass.workspace.Stands environment (fun _ => False) (· ∈ pass.bind) ∧
      (∀ file ∈ pass.workspace.files, file.path ∈ pass.bind ∧ file.path ∈ pass.link) ∧
      ∀ path, pass.workspace.text? path =
        (done.reverse.find? fun source => source.path = path).map Source.text)
    ⟨Pass.stands_ofWorkspace (sound_empty environment), by rintro _ ⟨⟩, fun _ => rfl⟩ (by
      rintro done source rest pass hitems ⟨hstands, hlisted, htexts⟩
      obtain ⟨hnormal, hsupported⟩ := of_mem_chosenSources
        (hitems ▸ List.mem_append_right done List.mem_cons_self :
          source ∈ chosenSources environment.config sources)
      obtain ⟨put, next, hrun, happlied⟩ :=
        Pass.exists_applyText hstands hnormal hsupported source.text []
      refine ⟨next, hrun, (happlied.stands hstands).mono (fun _ _ h => h.1) fun _ _ h => h,
        fun file hfile => ?_, fun path => ?_⟩
      · rw [happlied.bind, happlied.link, PathSet.mem_insert, PathSet.mem_insert]
        rcases (happlied.swapped.mem_files file).1 hfile with hput | ⟨hold, -⟩
        · have hpath := (happlied.swapped.brought file hput).path_eq
          exact ⟨.inl hpath, .inl hpath⟩
        · exact ⟨.inr (hlisted file hold).1, .inr (hlisted file hold).2⟩
      · rw [happlied.swapped.text? hstands.ordered, List.reverse_append, List.reverse_singleton,
          List.singleton_append, List.find?_cons, Option.map_some, happlied.text_eq]
        by_cases hpath : path = source.path
        · simp [hpath]
        · rw [if_neg hpath, htexts]
          simp [Ne.symm hpath])
  obtain ⟨outcome, hconverge, hconverged⟩ := Pass.exists_converge hstands
  refine ⟨outcome.workspace, ?_, settled_of_converged hconverged hlisted, fun path => ?_⟩
  · rw [ofSources, hrun, ok_bind, hconverge]
    rfl
  · rw [← htexts, text?, file?, hconverged.files, text?, file?]

end CodeGraph.Workspace
