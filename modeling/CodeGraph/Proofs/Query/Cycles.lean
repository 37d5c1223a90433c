import CodeGraph.Proofs.Workspace.Link
import CodeGraph.Query.Cycles
import Mathlib.Data.List.Cycle

/-!
# The cycles that a search by trails finds

A search from a path goes on through later paths only and never back to its own trail. So what it
closes is an elementary cycle that begins with its smallest path, and each of these is closed by the
search from that path, on the trail that follows the cycle. A cycle has one such beginning, since its
paths are all different.
-/

namespace CodeGraph

/-! ### Lists without repetition of neighbours -/

section Reps

variable {α : Type} [BEq α] [LawfulBEq α]

omit [LawfulBEq α] in
theorem loop_eraseReps (first : α) (rest done : List α) :
    List.eraseRepsBy.loop (· == ·) first rest done = done.reverse ++ (first :: rest).eraseReps := by
  rw [List.eraseReps, List.eraseRepsBy]
  induction rest generalizing first done with
  | nil => simp [List.eraseRepsBy.loop]
  | cons second rest ih =>
    simp only [List.eraseRepsBy.loop]
    split
    · exact ih first done
    · rw [ih second (first :: done), ih second [first]]
      simp

omit [LawfulBEq α] in
theorem eraseReps_cons_cons (first second : α) (rest : List α) :
    (first :: second :: rest).eraseReps =
      if first == second then (first :: rest).eraseReps
      else first :: (second :: rest).eraseReps := by
  have hloop : (first :: second :: rest).eraseReps =
      List.eraseRepsBy.loop (· == ·) first (second :: rest) [] := rfl
  rw [hloop]
  cases hsame : first == second with
  | true =>
    simp only [List.eraseRepsBy.loop, hsame]
    exact loop_eraseReps first rest []
  | false =>
    simp only [List.eraseRepsBy.loop, hsame]
    exact loop_eraseReps second rest [first]

theorem mem_eraseReps {item : α} {items : List α} : item ∈ items.eraseReps ↔ item ∈ items := by
  cases items with
  | nil => rfl
  | cons first rest =>
    induction rest generalizing first with
    | nil => rfl
    | cons second rest ih =>
      rw [eraseReps_cons_cons]
      split
      · rename_i hsame
        rw [ih, eq_of_beq hsame]
        simp
      · rw [List.mem_cons, ih, List.mem_cons (a := item) (b := first)]

/-- What is sorted is sorted strictly when no neighbours are the same. -/
theorem pairwise_eraseReps {compare : α → α → Ordering} [Std.TransCmp compare] {items : List α}
    (hsorted : items.Pairwise fun left right => (compare left right).isLE)
    (hsame : ∀ left ∈ items, ∀ right ∈ items, compare left right = .eq → left = right) :
    items.eraseReps.Pairwise fun left right => compare left right = .lt := by
  cases items with
  | nil => exact List.Pairwise.nil
  | cons first rest =>
    induction rest generalizing first with
    | nil => exact List.pairwise_singleton _ first
    | cons second rest ih =>
      obtain ⟨hfirst, hrest⟩ := List.pairwise_cons.1 hsorted
      rw [eraseReps_cons_cons]
      split
      · rename_i heq
        obtain rfl := eq_of_beq heq
        exact ih first hrest fun left hleft right hright =>
          hsame left (List.mem_cons_of_mem _ hleft) right (List.mem_cons_of_mem _ hright)
      · rename_i hne
        have hlt : compare first second = .lt := by
          cases hcompare : compare first second with
          | lt => rfl
          | eq =>
            have heq := hsame first List.mem_cons_self second
              (List.mem_cons_of_mem _ List.mem_cons_self) hcompare
            exact absurd (beq_iff_eq.2 heq) hne
          | gt =>
            have hle := hfirst second List.mem_cons_self
            rw [hcompare] at hle
            cases hle
        refine List.pairwise_cons.2 ⟨fun other hother => ?_, ih second hrest
          fun left hleft right hright => hsame left (List.mem_cons_of_mem _ hleft) right
            (List.mem_cons_of_mem _ hright)⟩
        obtain rfl | hother := List.mem_cons.1 (mem_eraseReps.1 hother)
        · exact hlt
        · exact Std.TransCmp.lt_of_lt_of_isLE hlt ((List.pairwise_cons.1 hrest).1 other hother)

end Reps

namespace Workspace

/-! ### The order of cycles -/

theorem compareCycles_eq (left right : List Path) :
    compareCycles left right = List.compareLex Path.compare left right := by
  induction left generalizing right with
  | nil => cases right <;> rfl
  | cons head rest ih =>
    cases right with
    | nil => rfl
    | cons other others => rw [compareCycles, List.compareLex_cons_cons, ih]

instance : Std.TransCmp compareCycles where
  eq_swap := by
    intro left right
    rw [compareCycles_eq, compareCycles_eq right]
    exact Std.OrientedCmp.eq_swap
  isLE_trans := by
    intro first second third hfirst hsecond
    rw [compareCycles_eq] at *
    exact Std.TransCmp.isLE_trans hfirst hsecond

theorem eq_of_compareCycles {left right : List Path} (hleft : ∀ path ∈ left, path.IsNormal)
    (hright : ∀ path ∈ right, path.IsNormal) (hequal : compareCycles left right = .eq) :
    left = right := by
  induction left generalizing right with
  | nil =>
    cases right with
    | nil => rfl
    | cons => cases hequal
  | cons head rest ih =>
    cases right with
    | nil => cases hequal
    | cons other others =>
      rw [compareCycles, Ordering.then_eq_eq] at hequal
      obtain ⟨hhead, hrest⟩ := List.forall_mem_cons.1 hleft
      obtain ⟨hother, hothers⟩ := List.forall_mem_cons.1 hright
      rw [hhead.eq_of_compare hother hequal.1, ih hrest hothers hequal.2]

/-! ### The search -/

section Search

variable {next : Path → PathSet} {start current : Path} {trail : List Path}

/-- The trails that the search from a path comes to, each from its last path back to the first. -/
inductive Tries (next : Path → PathSet) (start : Path) : List Path → Prop
  | begin : Tries next start [start]
  | further {current path : Path} {trail : List Path} (htrail : Tries next start (current :: trail))
    (hnext : path ∈ next current) (hlater : start.compare path = .lt)
    (hnew : path ∉ current :: trail) : Tries next start (path :: current :: trail)

/-- A trail has no path twice, and after the first only such as follow on others. -/
theorem Tries.nodup (htries : Tries next start trail) : trail.Nodup := by
  induction htries with
  | begin => exact List.nodup_singleton start
  | further _ _ _ hnew ih => exact List.nodup_cons.2 ⟨hnew, ih⟩

theorem Tries.subset {known : List Path} (hknown : ∀ path, next path ⊆ known) (hstart : start ∈ known)
    (htries : Tries next start trail) : trail ⊆ known := by
  induction htries with
  | begin => simpa using hstart
  | further _ hnext _ _ ih => exact List.cons_subset.2 ⟨hknown _ hnext, ih⟩

/-- **No trail is longer than there are paths.** -/
theorem Tries.length_le {known : List Path} (hknown : ∀ path, next path ⊆ known)
    (hstart : start ∈ known) (htries : Tries next start trail) : trail.length ≤ known.length :=
  (htries.nodup.subperm (htries.subset hknown hstart)).length_le

/-- A search that has more steps than paths can still follow finds nothing else with even more. -/
theorem cyclesFrom_add {known : List Path} (hknown : ∀ path, next path ⊆ known)
    (hstart : start ∈ known) (htries : Tries next start trail) {steps : Nat}
    (hsteps : known.length < steps + trail.length) (more : Nat) :
    cyclesFrom next start (steps + more) trail = cyclesFrom next start steps trail := by
  induction steps generalizing trail with
  | zero => exact absurd (htries.length_le hknown hstart) (by omega)
  | succ steps ih =>
    cases trail with
    | nil => cases htries
    | cons current trail =>
      rw [Nat.add_right_comm, cyclesFrom, cyclesFrom]
      refine List.flatMap_congr fun path hpath => ?_
      by_cases hclosed : path = start
      · rw [if_pos hclosed, if_pos hclosed]
      · rw [if_neg hclosed, if_neg hclosed]
        split
        · rename_i hfurther
          rw [Bool.and_eq_true, decide_eq_true_eq, decide_eq_true_eq] at hfurther
          refine ih (.further htries hpath hfurther.1 hfurther.2) ?_
          simp only [List.length_cons] at hsteps ⊢
          omega
        · rfl

/-- What is found from a trail goes on along edges to later paths that are not on it, and back to the
start at last. -/
theorem mem_cyclesFrom {steps : Nat} {cycle : List Path} :
    cycle ∈ cyclesFrom next start steps (current :: trail) ↔
      ∃ tail, cycle = (current :: trail).reverse ++ tail ∧ tail.length < steps ∧ tail.Nodup ∧
        (∀ path ∈ tail, path ∉ current :: trail ∧ start.compare path = .lt) ∧
        (current :: (tail ++ [start])).IsChain fun path other => other ∈ next path := by
  induction steps generalizing current trail with
  | zero => simp [cyclesFrom]
  | succ steps ih =>
    rw [cyclesFrom, List.mem_flatMap]
    constructor
    · rintro ⟨path, hnext, hcycle⟩
      by_cases hclosed : path = start
      · rw [if_pos hclosed, List.mem_singleton] at hcycle
        refine ⟨[], by simp [hcycle], Nat.succ_pos steps, List.nodup_nil, by simp, ?_⟩
        exact List.isChain_pair.2 (hclosed ▸ hnext)
      · rw [if_neg hclosed] at hcycle
        split at hcycle
        · rename_i hfurther
          rw [Bool.and_eq_true, decide_eq_true_eq, decide_eq_true_eq] at hfurther
          obtain ⟨tail, rfl, hlength, hnodup, hlater, hchain⟩ := ih.1 hcycle
          refine ⟨path :: tail, by simp, Nat.succ_lt_succ hlength, List.nodup_cons.2 ⟨fun hpath =>
            (hlater path hpath).1 List.mem_cons_self, hnodup⟩, List.forall_mem_cons.2
            ⟨hfurther.symm, fun other hother => ?_⟩, List.isChain_cons_cons.2 ⟨hnext, hchain⟩⟩
          obtain ⟨hnew, hlt⟩ := hlater other hother
          exact ⟨fun hold => hnew (List.mem_cons_of_mem _ hold), hlt⟩
        · cases hcycle
    · rintro ⟨tail, rfl, hlength, hnodup, hlater, hchain⟩
      cases tail with
      | nil => exact ⟨start, List.isChain_pair.1 hchain, by simp⟩
      | cons path tail =>
        obtain ⟨⟨hnew, hlt⟩, hrest⟩ := List.forall_mem_cons.1 hlater
        obtain ⟨hnext, hchain⟩ := List.isChain_cons_cons.1 hchain
        obtain ⟨hpath, hnodup⟩ := List.nodup_cons.1 hnodup
        have hopen : path ≠ start := by
          rintro rfl
          rw [@Std.ReflCmp.compare_self _ Path.compare] at hlt
          cases hlt
        refine ⟨path, hnext, ?_⟩
        rw [if_neg hopen, if_pos (by simp [hlt, hnew])]
        refine ih.2 ⟨tail, by simp, Nat.lt_of_succ_lt_succ hlength, hnodup, fun other hother => ?_,
          hchain⟩
        obtain ⟨hother', hlt'⟩ := hrest other hother
        refine ⟨fun hold => ?_, hlt'⟩
        obtain rfl | hold := List.mem_cons.1 hold
        · exact hpath hother
        · exact hother' hold

/-- Cycles that overlap are all found. -/
example : cyclesFrom (fun path => if path = ⟨"a"⟩ then [⟨"b"⟩] else if path = ⟨"b"⟩ then
    [⟨"a"⟩, ⟨"c"⟩] else [⟨"a"⟩, ⟨"c"⟩]) ⟨"a"⟩ 4 [⟨"a"⟩] =
      [[⟨"a"⟩, ⟨"b"⟩], [⟨"a"⟩, ⟨"b"⟩, ⟨"c"⟩]] := by
  decide +kernel

end Search

/-! ### Elementary cycles and where they begin -/

/-- Steps in a circle, none of which comes to a place twice. -/
structure IsElementary {α : Type} (step : α → α → Prop) (cycle : Cycle α) : Prop where
  nonempty : cycle ≠ Cycle.nil
  nodup : cycle.Nodup
  chain : cycle.Chain step

/-- A cycle that is written from its smallest path. -/
inductive FromSmallest : List Path → Prop
  | intro {first : Path} {rest : List Path} (hlater : ∀ path ∈ rest, first.compare path = .lt) :
    FromSmallest (first :: rest)

theorem exists_smallest {paths : List Path} (hpaths : paths ≠ []) :
    ∃ least ∈ paths, ∀ path ∈ paths, (least.compare path).isLE := by
  induction paths with
  | nil => exact absurd rfl hpaths
  | cons first rest ih =>
    by_cases hrest : rest = []
    · refine ⟨first, List.mem_cons_self, fun path hpath => ?_⟩
      obtain rfl : path = first := by simpa [hrest] using hpath
      rw [@Std.ReflCmp.compare_self _ Path.compare]
      rfl
    · obtain ⟨least, hleast, hbelow⟩ := ih hrest
      rcases Path.le_total first least with hle | hle
      · refine ⟨first, List.mem_cons_self, List.forall_mem_cons.2 ⟨?_, fun path hpath => ?_⟩⟩
        · rw [@Std.ReflCmp.compare_self _ Path.compare]
          rfl
        · exact Std.TransCmp.isLE_trans (Path.le_iff.1 hle) (hbelow path hpath)
      · exact ⟨least, List.mem_cons_of_mem _ hleast,
          List.forall_mem_cons.2 ⟨Path.le_iff.1 hle, hbelow⟩⟩

/-- Every cycle of different paths can be written from its smallest, -/
theorem exists_fromSmallest {cycle : Cycle Path} (hne : cycle ≠ Cycle.nil) (hnodup : cycle.Nodup)
    (hnormal : ∀ path ∈ cycle, path.IsNormal) :
    ∃ list : List Path, FromSmallest list ∧ ↑list = cycle := by
  induction cycle using Quotient.inductionOn' with
  | h paths =>
    have hpaths : paths ≠ [] := fun hnil => hne ((Cycle.coe_eq_nil paths).2 hnil)
    obtain ⟨least, hleast, hbelow⟩ := exists_smallest hpaths
    obtain ⟨front, back, rfl⟩ := List.append_of_mem hleast
    have hrotated : (least :: back ++ front) ~r (front ++ least :: back) := List.isRotated_append
    refine ⟨least :: (back ++ front), .intro fun path hpath => ?_, Cycle.coe_eq_coe.2 hrotated⟩
    have hmem : path ∈ front ++ least :: back := by
      simp only [List.mem_append, List.mem_cons] at hpath ⊢
      tauto
    have hother : path ≠ least := by
      rintro rfl
      exact (List.nodup_cons.1 (hrotated.nodup_iff.2 (Cycle.nodup_coe_iff.1 hnodup))).1 hpath
    cases hcompare : least.compare path with
    | lt => rfl
    | eq =>
      exact absurd ((hnormal least hleast).eq_of_compare (hnormal path hmem) hcompare).symm hother
    | gt =>
      have hle := hbelow path hmem
      rw [hcompare] at hle
      cases hle

/-- and in one way only. -/
theorem FromSmallest.eq_of_coe_eq {left right : List Path} (hleft : FromSmallest left)
    (hright : FromSmallest right) (hnodup : left.Nodup) (hsame : (left : Cycle Path) = right) :
    left = right := by
  obtain ⟨hleft⟩ := hleft
  obtain ⟨hright⟩ := hright
  rename_i first rest other others
  have hrotated := Cycle.coe_eq_coe.1 hsame
  have hfirst : first = other := by
    by_contra hne
    have hother : other ∈ first :: rest := hrotated.mem_iff.2 List.mem_cons_self
    have hmem : first ∈ other :: others := hrotated.mem_iff.1 List.mem_cons_self
    have hlt := hleft other ((List.mem_cons.1 hother).resolve_left (Ne.symm hne))
    have hgt := hright first ((List.mem_cons.1 hmem).resolve_left hne)
    rw [@Std.OrientedCmp.eq_swap _ Path.compare, hgt] at hlt
    cases hlt
  subst hfirst
  obtain ⟨turns, hturns, hrotate⟩ := List.isRotated_iff_mod.1 hrotated
  obtain hlt | rfl := Nat.lt_or_eq_of_le hturns
  · have hhead : (first :: rest)[turns]? = (first :: rest)[0]? := by
      rw [← List.head?_rotate hlt, hrotate]
      rfl
    obtain rfl := (List.getElem?_inj hlt hnodup).1 hhead
    rwa [List.rotate_zero] at hrotate
  · rw [← hrotate, List.rotate_length]

/-! ### The cycles of a workspace -/

/-- An import of one file is resolved to the node of another, or to a symbol in it. -/
def Imports (workspace : Workspace) (importer imported : Path) : Prop :=
  ∃ file ∈ workspace.files, ∃ other ∈ workspace.files, file.path = importer ∧ other.path = imported ∧
    ∃ id ∈ file.imports, ∃ target, workspace.bindingAt? id = some (.resolved target) ∧
      (target = other.node ∨ target ∈ other.symbols)

/-- The paths that the search goes on to from a path. -/
def nextOf (workspace : Workspace) (path : Path) : PathSet :=
  (workspace.importGraph.get? path).getD []

theorem Imports.mem_paths {workspace : Workspace} {importer imported : Path}
    (himports : workspace.Imports importer imported) :
    importer ∈ workspace.paths ∧ imported ∈ workspace.paths := by
  obtain ⟨file, hfile, other, hother, rfl, rfl, -⟩ := himports
  exact ⟨List.mem_map_of_mem hfile, List.mem_map_of_mem hother⟩

/-- Imports in a circle lead past files only. -/
theorem subset_paths_of_chain {workspace : Workspace} {cycle : List Path}
    (hchain : (cycle : Cycle Path).Chain workspace.Imports) : cycle ⊆ workspace.paths := by
  have hafter : ∀ (first : Path) (rest : List Path), (first :: rest).IsChain workspace.Imports →
      rest ⊆ workspace.paths := by
    intro first rest hchain
    induction rest generalizing first with
    | nil => exact List.nil_subset _
    | cons second rest ih =>
      obtain ⟨himports, hrest⟩ := List.isChain_cons_cons.1 hchain
      exact List.cons_subset.2 ⟨himports.mem_paths.2, ih second hrest⟩
  cases cycle with
  | nil => exact List.nil_subset _
  | cons first rest =>
    have hall := hafter first _ ((Cycle.chain_coe_cons _ first rest).1 hchain)
    refine List.cons_subset.2 ⟨hall (by simp), fun path hpath => hall ?_⟩
    exact List.mem_append_left _ hpath

section Stands

variable {environment : Environment} {stale pending : Path → Prop} {workspace : Workspace}
  (hstands : workspace.Stands environment stale pending)

include hstands

/-- What imports may land on in a file belongs to the file. -/
theorem Stands.owner?_eq_some {file : SourceFile} (hfile : file ∈ workspace.files) {id : NodeId}
    (hid : id = file.node ∨ id ∈ file.symbols) : workspace.owner? id = some file := by
  have hmem : id ∈ file.nodes := by
    rcases hid with rfl | hid
    · exact SourceFile.node_mem_nodes
    · exact SourceFile.mem_nodes_of_symbol hid
  obtain ⟨node, hnode, hpath, hproject⟩ := hstands.exists_node hfile hmem
  rw [owner?, hnode]
  simp only [Option.bind_eq_bind, Option.bind_some, if_neg hproject, hpath]
  exact hstands.ordered.file?_self hfile

theorem Stands.isTarget_of_bound {file : SourceFile} (hfile : file ∈ workspace.files) {id : NodeId}
    (hid : id ∈ file.imports) {target : NodeId}
    (hbound : workspace.bindingAt? id = some (.resolved target)) : workspace.IsTarget target := by
  obtain ⟨node, binding, language, hnode, hbinding, -, hbinds⟩ := hstands.bound file hfile id hid
  rw [bindingAt?, hnode, Option.bind_some, hbinding] at hbound
  obtain rfl := Option.some.inj hbound
  exact hstands.isTarget_of_binds hbinds

theorem Stands.mem_importedFiles {file : SourceFile} (hfile : file ∈ workspace.files) {path : Path} :
    path ∈ workspace.importedFiles file ↔ workspace.Imports file.path path := by
  rw [importedFiles, PathSet.ofList, PathSet.mem_insertAll, or_iff_left List.not_mem_nil,
    List.mem_filterMap]
  constructor
  · rintro ⟨id, hid, hland⟩
    obtain ⟨node, hnode, hland⟩ := Option.bind_eq_some_iff.1 hland
    obtain ⟨target, htarget, hland⟩ := Option.bind_eq_some_iff.1 hland
    obtain ⟨owner, howner, hpath⟩ := Option.bind_eq_some_iff.1 hland
    obtain ⟨binding, hbinding, htarget⟩ := Option.bind_eq_some_iff.1 htarget
    have hbound : workspace.bindingAt? id = some (.resolved target) := by
      rw [bindingAt?, hnode, Option.bind_some, hbinding]
      cases binding with
      | resolved found => rw [Option.some.inj htarget]
      | unresolved _ | external _ => cases htarget
    obtain ⟨other, hother, hlands⟩ := hstands.isTarget_of_bound hfile hid hbound
    rw [hstands.owner?_eq_some hother hlands] at howner
    obtain rfl := Option.some.inj howner
    exact ⟨file, hfile, other, hother, rfl, Option.some.inj hpath, id, hid, target, hbound, hlands⟩
  · rintro ⟨importer, himporter, other, hother, hpath, rfl, id, hid, target, hbound, htarget⟩
    obtain rfl := hstands.ordered.eq_of_path himporter hfile hpath
    obtain ⟨node, hnode, hbinding⟩ := Option.bind_eq_some_iff.1 hbound
    refine ⟨id, hid, ?_⟩
    simp only [hnode, hbinding, Option.bind_eq_bind, Option.bind_some, Binding.target?,
      hstands.owner?_eq_some hother htarget]
    rfl

omit hstands in
theorem get?_importGraph (path : Path) :
    workspace.importGraph.get? path = (workspace.file? path).map workspace.importedFiles := by
  rw [importGraph, Table.get?, List.find?_map, Option.map_map, file?]
  rfl

/-- The files that follow on a path in the search are those that the file there imports. -/
theorem Stands.mem_nextOf {importer path : Path} :
    path ∈ workspace.nextOf importer ↔ workspace.Imports importer path := by
  rw [nextOf, get?_importGraph]
  cases hfile : workspace.file? importer with
  | none =>
    refine iff_of_false List.not_mem_nil ?_
    rintro ⟨file, hmem, -, -, hpath, -⟩
    exact file?_eq_none_iff.1 hfile file hmem hpath
  | some file =>
    obtain ⟨hmem, rfl⟩ := file?_mem hfile
    exact hstands.mem_importedFiles hmem

theorem Stands.nextOf_subset (path : Path) : workspace.nextOf path ⊆ workspace.paths :=
  fun _ hpath => (hstands.mem_nextOf.1 hpath).mem_paths.2

theorem Stands.isNormal_of_mem_paths {path : Path} (hpath : path ∈ workspace.paths) :
    path.IsNormal := by
  obtain ⟨file, hfile, rfl⟩ := List.mem_map.1 hpath
  exact hstands.ordered.normal file hfile

omit hstands in
theorem mem_importCycles {cycle : List Path} : cycle ∈ workspace.importCycles ↔
    ∃ start ∈ workspace.paths,
      cycle ∈ cyclesFrom workspace.nextOf start (workspace.files.length + 1) [start] := by
  rw [importCycles, mem_eraseReps, List.mem_mergeSort, List.mem_flatMap]
  rfl

/-- **The cycles that are listed are the elementary ones, written from their smallest paths.** -/
theorem Stands.mem_importCycles_iff {cycle : List Path} : cycle ∈ workspace.importCycles ↔
    IsElementary workspace.Imports cycle ∧ FromSmallest cycle := by
  have hstep : (fun path other => other ∈ workspace.nextOf path) = workspace.Imports :=
    funext fun _ => funext fun _ => propext hstands.mem_nextOf
  rw [mem_importCycles]
  constructor
  · rintro ⟨start, -, hcycle⟩
    obtain ⟨tail, rfl, -, hnodup, hlater, hchain⟩ := mem_cyclesFrom.1 hcycle
    rw [hstep] at hchain
    have hstart : start ∉ tail := fun hmem => (hlater start hmem).1 List.mem_cons_self
    exact ⟨⟨(Cycle.coe_eq_nil _).not.2 (List.cons_ne_nil start tail),
      Cycle.nodup_coe_iff.2 (List.nodup_cons.2 ⟨hstart, hnodup⟩),
      (Cycle.chain_coe_cons _ start tail).2 hchain⟩, .intro fun path hpath => (hlater path hpath).2⟩
  · rintro ⟨⟨-, hnodup, hchain⟩, ⟨hlater⟩⟩
    rename_i start tail
    have hpaths := subset_paths_of_chain hchain
    have hnodup := Cycle.nodup_coe_iff.1 hnodup
    have hlength : (start :: tail).length ≤ workspace.files.length := by
      calc (start :: tail).length ≤ workspace.paths.length := (hnodup.subperm hpaths).length_le
        _ = workspace.files.length := List.length_map _
    obtain ⟨hstart, htail⟩ := List.nodup_cons.1 hnodup
    refine ⟨start, hpaths List.mem_cons_self, mem_cyclesFrom.2 ⟨tail, rfl, ?_, htail,
      fun path hpath => ⟨fun hmem => ?_, hlater path hpath⟩, ?_⟩⟩
    · rw [List.length_cons] at hlength
      omega
    · exact hstart (List.mem_singleton.1 hmem ▸ hpath)
    · rw [hstep]
      exact (Cycle.chain_coe_cons _ start tail).1 hchain

/-- **Each elementary cycle is listed in one way.** -/
theorem Stands.existsUnique_importCycles {cycle : Cycle Path}
    (helementary : IsElementary workspace.Imports cycle) :
    ∃! list, list ∈ workspace.importCycles ∧ (list : Cycle Path) = cycle := by
  have hnormal : ∀ path ∈ cycle, path.IsNormal := by
    have hchain := helementary.chain
    induction cycle using Quotient.inductionOn' with
    | h paths => exact fun path hpath =>
        hstands.isNormal_of_mem_paths (subset_paths_of_chain hchain hpath)
  obtain ⟨list, hsmallest, rfl⟩ :=
    exists_fromSmallest helementary.nonempty helementary.nodup hnormal
  refine ⟨list, ⟨hstands.mem_importCycles_iff.2 ⟨helementary, hsmallest⟩, rfl⟩, ?_⟩
  rintro other ⟨hother, hsame⟩
  exact (hsmallest.eq_of_coe_eq (hstands.mem_importCycles_iff.1 hother).2
    (Cycle.nodup_coe_iff.1 helementary.nodup) hsame.symm).symm

/-- **The list is in strict order.** -/
theorem Stands.pairwise_importCycles :
    workspace.importCycles.Pairwise fun left right => compareCycles left right = .lt := by
  have hle : ∀ left right, (compareCycles left right != .gt) = (compareCycles left right).isLE :=
    fun left right => by cases compareCycles left right <;> rfl
  have hnormal : ∀ cycle ∈ workspace.importCycles, ∀ path ∈ cycle, path.IsNormal :=
    fun cycle hcycle path hpath => hstands.isNormal_of_mem_paths
      (subset_paths_of_chain (hstands.mem_importCycles_iff.1 hcycle).1.chain hpath)
  refine pairwise_eraseReps ?_ fun left hleft right hright hequal => ?_
  · simp only [hle]
    refine List.pairwise_mergeSort (fun _ _ _ => Std.TransCmp.isLE_trans) (fun left right => ?_) _
    rw [@Std.OrientedCmp.eq_swap _ compareCycles _ left right]
    cases compareCycles right left <;> rfl
  · exact eq_of_compareCycles (hnormal left (mem_eraseReps.2 hleft))
      (hnormal right (mem_eraseReps.2 hright)) hequal

end Stands

end Workspace

end CodeGraph
