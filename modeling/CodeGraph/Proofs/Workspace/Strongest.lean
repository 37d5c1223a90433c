import CodeGraph.Proofs.Workspace.Link
import CodeGraph.Proofs.Workspace.Reorder

/-!
# The strongest uses

What an edge rests on shows in how sure it is: certain evidence gives certain edges, and all others
are less certain, if more than not at all. So among the edges that a file asks for under one key the
strongest is a single one, in whatever order they are asked for.
-/

namespace CodeGraph

theorem Confidence.eq_of_value {first second : Confidence} (hpositive : 0 < second.value)
    (hvalue : first.value = second.value) : first = second := by
  have hunits : ∀ confidence : Confidence, 0 < confidence.value →
      confidence = ⟨false, confidence.value.toNat⟩ := by
    rintro ⟨negative, units⟩ hpositive
    cases negative with
    | true => simp only [Confidence.value, if_true] at hpositive; omega
    | false => rfl
  rw [hunits first (hvalue ▸ hpositive), hunits second hpositive, hvalue]

namespace Edge

theorem eq_of_same {first second : Edge} (hpositive : 0 < second.confidence.value)
    (hsame : first.same second = true) : first = second := by
  obtain ⟨hvalue, hrest⟩ := Bool.and_eq_true_iff.1 hsame
  have hconfidence := Confidence.eq_of_value hpositive (of_decide_eq_true hvalue)
  rw [← of_decide_eq_true hrest, ← hconfidence]

/-- An edge that is as sure as its evidence makes it. -/
structure Graded (edge : Edge) : Prop where
  positive : 0 < edge.confidence.value
  certain : edge.evidence = .structural → edge.confidence = .certain
  doubtful : edge.evidence = .dynamic → edge.confidence.value < Confidence.certain.value

theorem graded_structural (source target : NodeId) (kind : EdgeKind) :
    (structural source target kind).Graded where
  positive := (by decide +kernel : 0 < Confidence.certain.value)
  certain := fun _ => rfl
  doubtful := nofun

theorem graded_dynamic (source target : NodeId) {confidence : Confidence}
    (hpositive : 0 < confidence.value) (hless : confidence.value < Confidence.certain.value) :
    (dynamic source target confidence).Graded where
  positive := hpositive
  certain := nofun
  doubtful := fun _ => hless

/-- The stronger of two edges is certain if the other is. -/
theorem Graded.structural_of_le {weak strong : Edge} (hweak : weak.Graded) (hstrong : strong.Graded)
    (hle : weak.confidence.value ≤ strong.confidence.value) (hevidence : weak.evidence = .structural) :
    strong.evidence = .structural := by
  cases hother : strong.evidence with
  | structural => rfl
  | dynamic =>
    have hless := hstrong.doubtful hother
    rw [hweak.certain hevidence] at hle
    omega

theorem Graded.eq {first second : Edge} (hfirst : first.Graded) (hsecond : second.Graded)
    (hkey : first.key = second.key)
    (hvalue : first.confidence.value = second.confidence.value) : first = second := by
  have hevidence : first.evidence = second.evidence := by
    cases hother : second.evidence with
    | structural => exact hsecond.structural_of_le hfirst hvalue.ge hother
    | dynamic =>
      cases hsome : first.evidence with
      | structural => rw [hfirst.structural_of_le hsecond hvalue.le hsome] at hother; exact hother
      | dynamic => rfl
  have hconfidence := Confidence.eq_of_value hsecond.positive hvalue
  obtain ⟨hsource, htarget, hkind⟩ := EdgeKey.mk.inj hkey
  cases first
  cases second
  simp_all

end Edge

namespace Workspace

/-! ### The strongest of each key -/

/-- An edge is kept when no wanted edge with its key is surer. -/
theorem Strongest.mem_iff {wanted kept : List Edge} (hstrongest : Strongest wanted kept)
    (hgraded : ∀ edge ∈ wanted, edge.Graded) {edge : Edge} : edge ∈ kept ↔ edge ∈ wanted ∧
      ∀ other ∈ wanted, other.key = edge.key →
        other.confidence.value ≤ edge.confidence.value := by
  constructor
  · refine fun hedge => ⟨hstrongest.among edge hedge, fun other hother hkey => ?_⟩
    obtain ⟨top, htop, htopKey, hle⟩ := hstrongest.most other hother
    rwa [List.inj_on_of_nodup_map hstrongest.keys hedge htop (htopKey.trans hkey).symm]
  · rintro ⟨hedge, hmost⟩
    obtain ⟨top, htop, hkey, hle⟩ := hstrongest.most edge hedge
    have hwanted := hstrongest.among top htop
    rwa [(hgraded edge hedge).eq (hgraded top hwanted) hkey.symm
      (le_antisymm hle (hmost top hwanted hkey))]

variable {workspace : Workspace} {file : SourceFile}

/-- The edges for all references of a file. -/
def referenceEdges (workspace : Workspace) (file : SourceFile) : List Edge :=
  file.facts.references.filterMap (workspace.referenceEdge? file)

theorem graded_of_mem_referenceEdges {edge : Edge}
    (hedge : edge ∈ workspace.referenceEdges file) : edge.Graded ∧ edge.kind = .references := by
  have hguesses : ∀ guess ∈ [Confidence.ownMember, .inheritedMember, .stringLookup],
      0 < guess.value ∧ guess.value < Confidence.certain.value := by decide +kernel
  have hdynamic : ∀ source target, ∀ guess ∈ [Confidence.ownMember, .inheritedMember, .stringLookup],
      (Edge.dynamic source target guess).Graded := fun source target guess hguess =>
    Edge.graded_dynamic source target (hguesses guess hguess).1 (hguesses guess hguess).2
  obtain ⟨reference, -, hedge⟩ := List.mem_filterMap.1 hedge
  rw [referenceEdge?] at hedge
  simp only at hedge
  split at hedge <;> obtain ⟨found, -, rfl⟩ := Option.map_eq_some_iff.1 hedge
  · exact ⟨Edge.graded_structural _ _ _, rfl⟩
  · refine ⟨hdynamic _ _ _ ?_, rfl⟩
    split <;> simp
  · exact ⟨hdynamic _ _ _ (by simp), rfl⟩

theorem inherits_of_mem_inheritanceEdges {edge : Edge}
    (hedge : edge ∈ workspace.inheritanceEdges file) : edge.Graded ∧ edge.kind = .inherits := by
  obtain ⟨id, symbol, base, -, -, -, rfl⟩ := exists_base_of_mem_inheritanceEdges hedge
  exact ⟨Edge.graded_structural _ _ _, rfl⟩

theorem mem_wantedEdges {edge : Edge} : edge ∈ workspace.wantedEdges file ↔
    (edge ∈ workspace.referenceEdges file ∨ edge ∈ workspace.inheritanceEdges file) ∧
      edge.source ≠ edge.target := by
  rw [wantedEdges, List.mem_filter, decide_eq_true_eq, List.mem_append, referenceEdges]

theorem graded_of_mem_wantedEdges {edge : Edge} (hedge : edge ∈ workspace.wantedEdges file) :
    edge.Graded :=
  (mem_wantedEdges.1 hedge).1.elim (fun h => (graded_of_mem_referenceEdges h).1)
    fun h => (inherits_of_mem_inheritanceEdges h).1

theorem mem_desiredEdges {edge : Edge} : edge ∈ workspace.desiredEdges file ↔
    edge ∈ workspace.wantedEdges file ∧ ∀ other ∈ workspace.wantedEdges file,
      other.key = edge.key → other.confidence.value ≤ edge.confidence.value :=
  (workspace.strongest_desiredEdges file).mem_iff fun _ => graded_of_mem_wantedEdges

/-! ### References in another order -/

/-- The same references in another order call for the same edges. -/
theorem mem_desiredEdges_refer {references : SourceFile → List ReferenceFact}
    (hsame : (references file).Perm file.facts.references) {edge : Edge} :
    edge ∈ (workspace.refer references).desiredEdges (file.refer (references file)) ↔
      edge ∈ workspace.desiredEdges file := by
  have hreferences : ∀ edge, edge ∈
      (workspace.refer references).referenceEdges (file.refer (references file)) ↔
        edge ∈ workspace.referenceEdges file := fun edge => by
    rw [referenceEdges, referenceEdge?_refer, SourceFile.references_refer, referenceEdges]
    exact (hsame.filterMap _).mem_iff
  simp only [mem_desiredEdges, mem_wantedEdges, hreferences, inheritanceEdges_refer]

/-! ### The graph of a linked file -/

/-- The uses that leave the file are the desired ones, each as sure as it should be. -/
theorem Relinked.edge?_eq_some {desired : List Edge} {graph : Graph}
    (hrelinked : Relinked workspace file desired graph)
    (hgraded : ∀ edge ∈ desired, edge.Graded) {key : EdgeKey} (hkey : file.Uses key) {edge : Edge} :
    graph.edge? key = some edge ↔ edge ∈ desired ∧ edge.key = key := by
  have hshown : ∀ edge ∈ desired, graph.edge? edge.key = some edge := fun edge hedge => by
    obtain ⟨old, hold, hsame⟩ := hrelinked.shown edge hedge
    rw [hold, Edge.eq_of_same (hgraded edge hedge).positive hsame]
  constructor
  · intro hedge
    have hpresent : graph.hasEdge key = true := by rw [Graph.hasEdge, hedge]; rfl
    obtain ⟨found, hfound, rfl⟩ := List.mem_map.1 ((hrelinked.hasEdge hkey).1 hpresent)
    rw [hshown found hfound] at hedge
    obtain rfl := Option.some.inj hedge
    exact ⟨hfound, rfl⟩
  · rintro ⟨hedge, rfl⟩
    exact hshown edge hedge

/-- The edges for all references of a file that lead from one node to another. -/
def referencesBetween (workspace : Workspace) (file : SourceFile) (source target : NodeId) :
    List Edge :=
  (workspace.referenceEdges file).filter fun edge => edge.source = source && edge.target = target

theorem mem_referencesBetween {source target : NodeId} {edge : Edge} :
    edge ∈ workspace.referencesBetween file source target ↔
      edge ∈ workspace.referenceEdges file ∧ edge.key = ⟨source, target, .references⟩ := by
  rw [referencesBetween, List.mem_filter, Bool.and_eq_true, decide_eq_true_eq, decide_eq_true_eq]
  refine and_congr_right fun hedge => ⟨fun ⟨hsource, htarget⟩ => ?_, fun hkey => ?_⟩
  · rw [Edge.key, hsource, htarget, (graded_of_mem_referenceEdges hedge).2]
  · exact ⟨congrArg EdgeKey.source hkey, congrArg EdgeKey.target hkey⟩

/-- Only references lead from one node to another as a reference. -/
theorem mem_wantedEdges_of_key {source target : NodeId} {edge : Edge}
    (hkey : edge.key = ⟨source, target, .references⟩) : edge ∈ workspace.wantedEdges file ↔
      edge ∈ workspace.referencesBetween file source target ∧ source ≠ target := by
  have hkind : edge.kind = .references := congrArg EdgeKey.kind hkey
  have hends : edge.source ≠ edge.target ↔ source ≠ target := by
    rw [show edge.source = source from congrArg EdgeKey.source hkey,
      show edge.target = target from congrArg EdgeKey.target hkey]
  rw [mem_wantedEdges, mem_referencesBetween, and_iff_left hkey, hends]
  refine and_congr_left' (or_iff_left fun hedge => ?_)
  rw [(inherits_of_mem_inheritanceEdges hedge).2] at hkind
  cases hkind

/-- A graph after a file is linked: the uses that leave the file are the ones it should have, and
nothing else is different. From one node to another leads the surest of all references that do. -/
structure Links (workspace : Workspace) (file : SourceFile) (graph : Graph) : Prop where
  node? : ∀ id, graph.node? id = workspace.graph.node? id
  others : ∀ key, ¬ file.Uses key → graph.edge? key = workspace.graph.edge? key
  uses : ∀ key, file.Uses key → ∀ edge, graph.edge? key = some edge ↔
    edge ∈ workspace.desiredEdges file ∧ edge.key = key
  referenced : ∀ source ∈ file.node :: file.symbols, ∀ target,
    graph.hasEdge ⟨source, target, .references⟩ ↔
      workspace.referencesBetween file source target ≠ [] ∧ source ≠ target
  surest : ∀ source ∈ file.node :: file.symbols, ∀ target edge,
    graph.edge? ⟨source, target, .references⟩ = some edge →
      edge ∈ workspace.referencesBetween file source target ∧
        ∀ other ∈ workspace.referencesBetween file source target,
          other.confidence.value ≤ edge.confidence.value ∧
          (other.evidence = .structural → edge.evidence = .structural)

theorem Relinked.links {graph : Graph}
    (hrelinked : Relinked workspace file (workspace.desiredEdges file) graph) :
    Links workspace file graph := by
  have huses : ∀ key, file.Uses key → ∀ edge, graph.edge? key = some edge ↔
      edge ∈ workspace.desiredEdges file ∧ edge.key = key := fun key hkey edge =>
    hrelinked.edge?_eq_some (fun edge hedge =>
      graded_of_mem_wantedEdges (mem_desiredEdges.1 hedge).1) hkey
  have hown : ∀ source ∈ file.node :: file.symbols, ∀ target,
      file.Uses ⟨source, target, .references⟩ := fun source hsource target =>
    ⟨List.mem_cons.1 hsource, .inl rfl⟩
  refine ⟨hrelinked.rewired.node?, hrelinked.others, huses, fun source hsource target => ?_,
    fun source hsource target edge hedge => ?_⟩
  · rw [hrelinked.hasEdge (hown source hsource target), mem_keys_desiredEdges, List.mem_map]
    constructor
    · rintro ⟨edge, hedge, hkey⟩
      obtain ⟨hbetween, hends⟩ := (mem_wantedEdges_of_key hkey).1 hedge
      exact ⟨List.ne_nil_of_mem hbetween, hends⟩
    · rintro ⟨hsome, hends⟩
      obtain ⟨edge, hedge⟩ := List.exists_mem_of_ne_nil _ hsome
      have hkey := (mem_referencesBetween.1 hedge).2
      exact ⟨edge, (mem_wantedEdges_of_key hkey).2 ⟨hedge, hends⟩, hkey⟩
  · obtain ⟨hdesired, hkey⟩ := (huses _ (hown source hsource target) edge).1 hedge
    obtain ⟨hwanted, hmost⟩ := mem_desiredEdges.1 hdesired
    obtain ⟨hbetween, hends⟩ := (mem_wantedEdges_of_key hkey).1 hwanted
    refine ⟨hbetween, fun other hother => ?_⟩
    have hotherKey := (mem_referencesBetween.1 hother).2
    have hle := hmost other ((mem_wantedEdges_of_key hotherKey).2 ⟨hother, hends⟩)
      (hotherKey.trans hkey.symm)
    exact ⟨hle, (graded_of_mem_referenceEdges (mem_referencesBetween.1 hother).1).1.structural_of_le
      (graded_of_mem_wantedEdges hwanted) hle⟩

section Stands

variable {environment : Environment} {stale pending : Path → Prop}
  (hstands : workspace.Stands environment stale pending) (hfile : file ∈ workspace.files)

include hstands hfile

/-- Linking a file whose references stand in another order comes to the same nodes and edges. -/
theorem Stands.exists_linkFile_refer {references : SourceFile → List ReferenceFact}
    (hsame : (references file).Perm file.facts.references) {graph : Graph}
    (hrelinked : Relinked workspace file (workspace.desiredEdges file) graph) :
    ∃ other, (workspace.refer references).linkFile file.path =
        .ok { workspace.refer references with graph := other } ∧
      (∀ id, other.node? id = graph.node? id) ∧ ∀ key, other.edge? key = graph.edge? key := by
  let desired := (workspace.refer references).desiredEdges (file.refer (references file))
  have hdesired : ∀ edge, edge ∈ desired ↔ edge ∈ workspace.desiredEdges file :=
    fun edge => mem_desiredEdges_refer hsame
  have hgraded : ∀ edge ∈ workspace.desiredEdges file, edge.Graded := fun edge hedge =>
    graded_of_mem_wantedEdges (mem_desiredEdges.1 hedge).1
  obtain ⟨other, hrun, hother⟩ := hstands.exists_relinked hfile
    ((workspace.refer references).strongest_desiredEdges _).keys fun edge hedge =>
      hstands.isUseOf_desiredEdges (List.mem_map_of_mem ((hdesired edge).1 hedge))
  have hfound : (workspace.refer references).file? file.path =
      some (file.refer (references file)) := by
    rw [file?_refer, hstands.ordered.file?_self hfile, Option.map_some]
  refine ⟨other, linkFile_of_relinked hfound hrun, fun id =>
    (hother.rewired.node? id).trans (hrelinked.rewired.node? id).symm, fun key => ?_⟩
  by_cases hkey : file.Uses key
  · refine Option.ext fun edge => ?_
    rw [hother.edge?_eq_some (fun edge hedge => hgraded edge ((hdesired edge).1 hedge)) hkey,
      hrelinked.edge?_eq_some hgraded hkey, hdesired]
  · rw [hother.others key hkey, hrelinked.others key hkey]

end Stands

end Workspace

end CodeGraph
