import CodeGraph.Proofs.Disk.Place

/-!
# Where a path leads

A path is read as a walk: into the places it names and back out of them. Inside the project is every
place that a walk comes to without ever stepping above its start. What a path means in a project is
where its walk ends, and it means nothing exactly when there is no such place.
-/

namespace CodeGraph

def Component.isNamed : Component → Bool
  | named _ => true
  | root | current | parent => false

namespace Path

/-- A walk from one place to another, both given by the names that lead there from the start. -/
inductive Leads : List String → List Component → List String → Prop
  | here (place : List String) : Leads place [] place
  | root {place goal : List String} {rest : List Component} (hrest : Leads place rest goal) :
      Leads place (.root :: rest) goal
  | current {place goal : List String} {rest : List Component} (hrest : Leads place rest goal) :
      Leads place (.current :: rest) goal
  | down {place goal : List String} {name : String} {rest : List Component}
      (hrest : Leads (place ++ [name]) rest goal) : Leads place (.named name :: rest) goal
  | up {place goal : List String} {name : String} {rest : List Component}
      (hrest : Leads place rest goal) : Leads (place ++ [name]) (.parent :: rest) goal

/-- At some point the walk has gone up more often than down. -/
def StepsAbove (components : List Component) : Prop :=
  ∃ first, first <+: components ∧ first.countP Component.isNamed < first.count .parent

/-- What is left of a path when the root is taken off its front. Only an absolute path has the root
in front. -/
def Strips (root path : Path) (components : List Component) : Prop :=
  if path.isAbsolute then path.components = root.components ++ components
  else components = path.components

/-! ### Walks -/

/-- The walk is computed along the rule that describes it. -/
theorem foldl_step_eq_some_iff {components : List Component} {place goal : List String} :
    components.foldl step (some place.reverse) = some goal.reverse ↔
      Leads place components goal := by
  induction components generalizing place with
  | nil =>
    rw [List.foldl_nil, Option.some.injEq, List.reverse_inj]
    constructor
    · rintro rfl
      exact .here place
    · rintro ⟨⟩
      rfl
  | cons component rest ih =>
    rw [List.foldl_cons]
    cases component with
    | root => exact ih.trans ⟨.root, fun h => by cases h; assumption⟩
    | current => exact ih.trans ⟨.current, fun h => by cases h; assumption⟩
    | named name =>
      have hstep : step (some place.reverse) (.named name) = some (place ++ [name]).reverse := by
        rw [List.reverse_append]
        rfl
      rw [hstep]
      exact ih.trans ⟨.down, fun h => by cases h; assumption⟩
    | parent =>
      obtain rfl | ⟨outer, name, rfl⟩ := place.eq_nil_or_concat'
      · have hnone : step (some ([] : List String).reverse) .parent = none := rfl
        rw [hnone, foldl_step_none]
        refine iff_of_false (by simp) fun hleads => ?_
        generalize hstart : ([] : List String) = start at hleads
        cases hleads
        simp at hstart
      · have hstep : step (some (outer ++ [name]).reverse) .parent = some outer.reverse := by
          rw [List.reverse_append]
          rfl
        rw [hstep]
        refine ih.trans ⟨.up, fun hleads => ?_⟩
        generalize hstart : outer ++ [name] = start at hleads
        cases hleads with
        | up hrest =>
          obtain ⟨rfl, -⟩ := List.append_inj' hstart rfl
          exact hrest

theorem walk_eq_some_iff {components : List Component} {names : List String} :
    walk components = some names.reverse ↔ Leads [] components names :=
  @foldl_step_eq_some_iff components [] names

/-- From a place so many names deep the walk fails where it goes up once more than that. -/
theorem foldl_step_eq_none_iff {components : List Component} {walked : List String} :
    components.foldl step (some walked) = none ↔ ∃ first, first <+: components ∧
      walked.length + first.countP Component.isNamed < first.count .parent := by
  induction components generalizing walked with
  | nil => simp [List.prefix_nil]
  | cons component rest ih =>
    have hfirst : ∀ holds : List Component → Prop, (∃ first, first <+: component :: rest ∧
        holds first) ↔ holds [] ∨ ∃ first, first <+: rest ∧ holds (component :: first) := by
      intro holds
      simp only [List.prefix_cons_iff]
      constructor
      · rintro ⟨first, rfl | ⟨others, rfl, hothers⟩, hholds⟩
        · exact .inl hholds
        · exact .inr ⟨others, hothers, hholds⟩
      · rintro (hholds | ⟨others, hothers, hholds⟩)
        · exact ⟨[], .inl rfl, hholds⟩
        · exact ⟨component :: others, .inr ⟨others, rfl, hothers⟩, hholds⟩
    rw [List.foldl_cons, hfirst]
    cases component with
    | root => simpa [step, Component.isNamed] using ih
    | current => simpa [step, Component.isNamed] using ih
    | named name =>
      have hstep : step (some walked) (.named name) = some (name :: walked) := rfl
      rw [hstep, ih]
      simp only [List.length_cons, List.countP_nil, List.count_nil, Nat.not_lt_zero, false_or,
        List.countP_cons, List.count_cons, Component.isNamed]
      refine exists_congr fun first => and_congr_right fun _ => ?_
      simp
      omega
    | parent =>
      cases walked with
      | nil =>
        have hnone : step (some ([] : List String)) .parent = none := rfl
        rw [hnone, foldl_step_none]
        refine iff_of_true rfl (.inr ⟨[], List.nil_prefix, ?_⟩)
        simp [Component.isNamed]
      | cons name walked =>
        have hstep : step (some (name :: walked)) .parent = some walked := rfl
        rw [hstep, ih]
        simp only [List.length_cons, List.countP_nil, List.count_nil, Nat.not_lt_zero, false_or,
          List.countP_cons, List.count_cons, Component.isNamed]
        refine exists_congr fun first => and_congr_right fun _ => ?_
        simp
        omega

theorem walk_eq_none_iff {components : List Component} :
    walk components = none ↔ StepsAbove components := by
  rw [walk, foldl_step_eq_none_iff, StepsAbove]
  simp only [List.length_nil, Nat.zero_add]

/-! ### Paths in a project -/

theorem dropComponents?_eq_some_iff {front components rest : List Component} :
    dropComponents? front components = some rest ↔ components = front ++ rest := by
  induction front generalizing components with
  | nil => simp [dropComponents?]
  | cons head front ih =>
    cases components with
    | nil => simp [dropComponents?]
    | cons first components =>
      rw [dropComponents?]
      split
      · rename_i hhead
        simp [ih, hhead]
      · rename_i hhead
        simp [Ne.symm hhead]

/-- What comes last in a path stands as it may stand in a path. -/
theorem Formed.of_ends {components last : List Component} (hformed : Formed components)
    (hends : last <:+ components) : Formed last := by
  obtain ⟨front, rfl⟩ := hends
  refine ⟨fun name hname => hformed.names name (List.mem_append_right _ hname),
    fun component hcomponent => hformed.tail component ?_⟩
  cases front with
  | nil => exact hcomponent
  | cons head front => exact List.mem_append_right _ (List.mem_of_mem_tail hcomponent)

theorem ofNames_text_eq_iff {names : List String} (hall : ∀ name ∈ names, IsName name) :
    (ofNames names).text = "" ↔ names = [] := by
  constructor
  · intro htext
    by_contra hnames
    exact (isNormal_ofNames hnames hall).text_ne (congrArg Path.mk htext)
  · rintro rfl
    rfl

/-- A walk along the components of a path comes to names only. -/
theorem Formed.isName_of_leads {components : List Component} {names : List String}
    (hformed : Formed components) (hleads : Leads [] components names) :
    ∀ name ∈ names, IsName name := fun name hname =>
  hformed.names name ((mem_walk (walk_eq_some_iff.2 hleads)
    (List.mem_reverse.2 hname)).resolve_left List.not_mem_nil)

/-- A path means the place where its walk ends, unless that is the start. -/
theorem place_eq_some_iff {path found : Path} :
    (path.normalize?.bind fun place => if place.text = "" then none else some place) = some found ↔
      ∃ names, Leads [] path.components names ∧ names ≠ [] ∧ found = ofNames names := by
  have hnames : ∀ names, Leads [] path.components names → ∀ name ∈ names, IsName name :=
    fun _ => (formed_components path).isName_of_leads
  rw [normalize?, Option.bind_map, Option.bind_eq_some_iff]
  constructor
  · rintro ⟨walked, hwalk, hfound⟩
    have hleads : Leads [] path.components walked.reverse :=
      walk_eq_some_iff.1 (by rw [List.reverse_reverse, hwalk])
    dsimp only [Function.comp_apply] at hfound
    split at hfound
    · cases hfound
    · rename_i htext
      rw [ofNames_text_eq_iff (hnames _ hleads)] at htext
      exact ⟨walked.reverse, hleads, htext, (Option.some.inj hfound).symm⟩
  · rintro ⟨names, hleads, hsome, rfl⟩
    refine ⟨names.reverse, walk_eq_some_iff.2 hleads, ?_⟩
    have htext := mt (ofNames_text_eq_iff (hnames names hleads)).1 hsome
    rw [Function.comp_apply, List.reverse_reverse, if_neg htext]

/-- A path lies elsewhere, or means in a project what is left of it without the root. -/
theorem exists_strips (root path : Path) :
    (path.isAbsolute ∧ ∀ rest, path.components ≠ root.components ++ rest) ∨
    ∃ components, Strips root path components ∧ Formed components ∧
      ∀ found, inProject? root path = some found ↔
        ∃ names, Leads [] components names ∧ names ≠ [] ∧ found = ofNames names := by
  rw [inProject?]
  by_cases habsolute : path.isAbsolute
  · rw [if_pos habsolute, relativeTo?]
    cases hrest : dropComponents? root.components path.components with
    | none =>
      refine .inl ⟨habsolute, fun rest hunder => ?_⟩
      rw [dropComponents?_eq_some_iff.2 hunder] at hrest
      cases hrest
    | some rest =>
      have hunder := dropComponents?_eq_some_iff.1 hrest
      have hformed : Formed rest :=
        (formed_components path).of_ends (hunder ▸ List.suffix_append _ _)
      refine .inr ⟨rest, by rw [Strips, if_pos habsolute, hunder], hformed, fun found => ?_⟩
      have hplace := @place_eq_some_iff (ofComponents rest) found
      rwa [hformed.components_ofComponents] at hplace
  · rw [if_neg habsolute]
    exact .inr ⟨path.components, by rw [Strips, if_neg habsolute], formed_components path,
      fun _ => place_eq_some_iff⟩

/-- What a path means in a project is where its walk ends, below the start. -/
theorem leads_of_inProject? {root path found : Path} (hfound : inProject? root path = some found) :
    ∃ components names, Strips root path components ∧ ¬ StepsAbove components ∧
      Leads [] components names ∧ names ≠ [] ∧ found.components = names.map .named ∧
      found = ofNames names := by
  obtain ⟨habsolute, helsewhere⟩ | ⟨components, hstrips, hformed, hmeans⟩ := exists_strips root path
  · rw [inProject?, if_pos habsolute, relativeTo?] at hfound
    cases hrest : dropComponents? root.components path.components with
    | none =>
      rw [hrest] at hfound
      cases hfound
    | some rest => exact absurd (dropComponents?_eq_some_iff.1 hrest) (helsewhere rest)
  · obtain ⟨names, hleads, hsome, rfl⟩ := (hmeans found).1 hfound
    refine ⟨components, names, hstrips, fun habove => ?_, hleads, hsome,
      components_ofNames (hformed.isName_of_leads hleads), rfl⟩
    have hwalk := walk_eq_some_iff.2 hleads
    rw [walk_eq_none_iff.2 habove] at hwalk
    cases hwalk

/-- A path that means nothing in a project lies elsewhere, steps above the start or ends there. -/
theorem strays_of_inProject? {root path : Path} (hnone : inProject? root path = none) :
    (path.isAbsolute ∧ ∀ rest, path.components ≠ root.components ++ rest) ∨
      ∃ components, Strips root path components ∧
        (StepsAbove components ∨ Leads [] components []) := by
  refine (exists_strips root path).imp_right ?_
  rintro ⟨components, hstrips, -, hmeans⟩
  refine ⟨components, hstrips, ?_⟩
  cases hwalk : walk components with
  | none => exact .inl (walk_eq_none_iff.1 hwalk)
  | some walked =>
    have hleads : Leads [] components walked.reverse :=
      walk_eq_some_iff.1 (by rw [List.reverse_reverse, hwalk])
    by_cases hempty : walked.reverse = []
    · exact .inr (hempty ▸ hleads)
    · rw [(hmeans _).2 ⟨_, hleads, hempty, rfl⟩] at hnone
      cases hnone

theorem IsPlain.normalize?_eq {path : Path} (hplain : path.IsPlain) :
    path.normalize? = some path := by
  obtain ⟨names, hall, rfl⟩ := hplain
  exact normalize?_ofNames hall

end Path

end CodeGraph
