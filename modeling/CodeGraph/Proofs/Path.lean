import CodeGraph.PathSet
import Mathlib.Data.List.Basic
import Mathlib.Data.List.Nodup
import Mathlib.Data.String.Basic

/-!
# Normal paths and their order

A normal path is a nonempty row of names, none of which is empty, climbs or holds a slash. Every path
that leads into the project is normal, a normal path is its own tidy form, and among normal paths the
order of components is a linear order, so sets of them list each path once.
-/

namespace CodeGraph

/-! ### The order of texts and components -/

namespace Text

instance : Std.TransCmp compare :=
  inferInstanceAs (Std.TransCmp (Ord.compare (α := String)))

instance : Std.LawfulEqCmp compare :=
  inferInstanceAs (Std.LawfulEqCmp (Ord.compare (α := String)))

end Text

namespace Component

def nameOf : Component → String
  | named name => name
  | root | current | parent => ""

theorem compare_eq (left right : Component) :
    left.compare right =
      (Ord.compare left.rank right.rank).then (Text.compare left.nameOf right.nameOf) := by
  cases left <;> cases right <;> rfl

theorem eq_of_rank_eq {left right : Component} (hrank : left.rank = right.rank)
    (hname : left.nameOf = right.nameOf) : left = right := by
  cases left <;> cases right <;> simp_all [rank, nameOf]

instance : Std.TransCmp Component.compare where
  eq_swap := by
    intro left right
    rw [compare_eq, compare_eq right, Ordering.swap_then,
      @Std.OrientedCmp.eq_swap _ Ord.compare _ left.rank,
      @Std.OrientedCmp.eq_swap _ Text.compare _ left.nameOf]
  isLE_trans := by
    intro left middle right hleft hright
    rw [compare_eq] at *
    rw [Ordering.isLE_then_iff_and] at *
    refine ⟨Std.TransCmp.isLE_trans hleft.1 hright.1, ?_⟩
    rcases hleft.2 with hlt | hle
    · exact .inl (Std.TransCmp.lt_of_lt_of_isLE hlt hright.1)
    · rcases hright.2 with hlt | hle'
      · exact .inl (Std.TransCmp.lt_of_isLE_of_lt hleft.1 hlt)
      · exact .inr (Std.TransCmp.isLE_trans hle hle')

instance : Std.LawfulEqCmp Component.compare where
  compare_self := by
    intro component
    rw [compare_eq, @Std.ReflCmp.compare_self _ Ord.compare,
      @Std.ReflCmp.compare_self _ Text.compare]
    rfl
  eq_of_compare := by
    intro left right hequal
    rw [compare_eq, Ordering.then_eq_eq] at hequal
    exact eq_of_rank_eq (Std.LawfulEqCmp.eq_of_compare hequal.1)
      (@Std.LawfulEqCmp.eq_of_compare _ Text.compare _ _ _ hequal.2)

end Component

namespace Path

theorem compareComponents_eq (left right : List Component) :
    compareComponents left right = List.compareLex Component.compare left right := by
  induction left generalizing right with
  | nil => cases right <;> rfl
  | cons head rest ih =>
    cases right with
    | nil => rfl
    | cons other others =>
      rw [compareComponents, List.compareLex_cons_cons, ih]

theorem compare_eq (left right : Path) : left.compare right =
    List.compareLex Component.compare left.components right.components := by
  rw [compare, compareComponents_eq]

instance : Std.TransCmp Path.compare where
  eq_swap := by
    intro left right
    rw [compare_eq, compare_eq right]
    exact Std.OrientedCmp.eq_swap
  isLE_trans := by
    intro first second third hfirst hsecond
    rw [compare_eq] at *
    exact Std.TransCmp.isLE_trans hfirst hsecond

theorem components_eq_of_compare {left right : Path} (hequal : left.compare right = .eq) :
    left.components = right.components := by
  rw [compare_eq] at hequal
  exact @Std.LawfulEqCmp.eq_of_compare _ (List.compareLex Component.compare) _ _ _ hequal

theorem le_iff {left right : Path} : left.le right ↔ (left.compare right).isLE := by
  rw [le]
  cases left.compare right <;> decide

theorem le_trans {first second third : Path} (hfirst : first.le second) (hsecond : second.le third) :
    first.le third := by
  rw [le_iff] at *
  exact Std.TransCmp.isLE_trans hfirst hsecond

theorem le_total (left right : Path) : left.le right ∨ right.le left := by
  simp only [le_iff]
  rw [@Std.OrientedCmp.eq_swap _ Path.compare]
  cases right.compare left <;> decide

theorem components_eq_of_le {left right : Path} (hleft : left.le right) (hright : right.le left) :
    left.components = right.components := by
  rw [le_iff] at *
  exact components_eq_of_compare (Std.OrientedCmp.isLE_antisymm hleft hright)

end Path

/-! ### Splitting and joining -/

namespace Text

theorem splitChars_of_notMem {separator : Char} {part : List Char} (hnotMem : separator ∉ part) :
    splitChars separator part = [part] := by
  induction part with
  | nil => rfl
  | cons char rest ih =>
    rw [List.mem_cons, not_or] at hnotMem
    rw [splitChars, if_neg (Ne.symm hnotMem.1), ih hnotMem.2]

theorem splitChars_append {separator : Char} {part : List Char} (rest : List Char)
    (hnotMem : separator ∉ part) :
    splitChars separator (part ++ separator :: rest) = part :: splitChars separator rest := by
  induction part with
  | nil => simp [splitChars]
  | cons char part ih =>
    rw [List.mem_cons, not_or] at hnotMem
    rw [List.cons_append, splitChars, if_neg (Ne.symm hnotMem.1), ih hnotMem.2]

theorem notMem_of_mem_splitChars {separator : Char} {chars part : List Char}
    (hpart : part ∈ splitChars separator chars) : separator ∉ part := by
  induction chars generalizing part with
  | nil =>
    have hnil : part = [] := by simpa [splitChars] using hpart
    simp [hnil]
  | cons char rest ih =>
    rw [splitChars] at hpart
    split at hpart
    · rcases List.mem_cons.1 hpart with hnil | hrest
      · simp [hnil]
      · exact ih hrest
    · rename_i hne
      split at hpart
      · have hsingle : part = [char] := by simpa using hpart
        simp [hsingle, Ne.symm hne]
      · rename_i first parts hsplit
        rw [hsplit] at ih
        rcases List.mem_cons.1 hpart with hfirst | hrest
        · rw [hfirst, List.mem_cons, not_or]
          exact ⟨Ne.symm hne, ih List.mem_cons_self⟩
        · exact ih (List.mem_cons_of_mem first hrest)

theorem join_cons (separator part : String) {rest : List String} (hrest : rest ≠ []) :
    join separator (part :: rest) = part ++ separator ++ join separator rest := by
  obtain ⟨next, others, rfl⟩ := List.exists_cons_of_ne_nil hrest
  rfl

/-- Parts that are joined in two goes. -/
theorem join_append (separator : String) {first second : List String} (hfirst : first ≠ [])
    (hsecond : second ≠ []) : join separator (first ++ second) =
      join separator first ++ separator ++ join separator second := by
  induction first with
  | nil => exact absurd rfl hfirst
  | cons part rest ih =>
    cases rest with
    | nil => exact join_cons separator part hsecond
    | cons next others =>
      have hrest := List.cons_ne_nil next others
      have happend := List.append_ne_nil_of_left_ne_nil hrest second
      rw [List.cons_append, join_cons separator part happend, ih hrest,
        join_cons separator part hrest]
      simp only [String.append_assoc]

/-- What is added to the last part is added to the whole. -/
theorem join_concat_append (separator : String) (parts : List String) (last more : String) :
    join separator (parts ++ [last ++ more]) = join separator (parts ++ [last]) ++ more := by
  by_cases hparts : parts = []
  · subst hparts
    rfl
  · rw [join_append separator hparts (List.cons_ne_nil _ _),
      join_append separator hparts (List.cons_ne_nil _ _)]
    simp only [join, String.append_assoc]

theorem head?_toList_join (separator : String) {part : String} (rest : List String) (hpart : part ≠ "") :
    (join separator (part :: rest)).toList.head? = part.toList.head? := by
  obtain ⟨first, chars, hchars⟩ : ∃ first chars, part.toList = first :: chars :=
    List.exists_cons_of_ne_nil (by simpa using hpart)
  cases rest with
  | nil => rfl
  | cons next others =>
    rw [join_cons separator part (List.cons_ne_nil next others), String.toList_append,
      String.toList_append, hchars]
    rfl

theorem getLast?_toList_join {separator last : String} (parts : List String) (hlast : last ≠ "") :
    (join separator (parts ++ [last])).toList.getLast? = last.toList.getLast? := by
  have hchars : last.toList ≠ [] := by simpa using hlast
  by_cases hparts : parts = []
  · subst hparts
    rfl
  · rw [join_append separator hparts (List.cons_ne_nil _ _), String.toList_append]
    exact List.getLast?_append_of_ne_nil _ hchars

theorem eq_append_of_dropTail? {head tail text : String} (hdrop : dropTail? tail text = some head) :
    text = head ++ tail := by
  rw [dropTail?] at hdrop
  split at hdrop
  · rename_i hsuffix
    obtain ⟨chars, hchars⟩ := List.isSuffixOf_iff_suffix.1 hsuffix
    rw [← hchars, List.length_append, Nat.add_sub_cancel, List.take_left] at hdrop
    rw [← Option.some.inj hdrop, ← String.toList_inj, String.toList_append, String.toList_ofList]
    exact hchars.symm
  · cases hdrop

/-- Joining undoes splitting wherever the separator stands in no part. -/
theorem splitChars_join {separator : Char} {parts : List String} (hparts : parts ≠ [])
    (hnotMem : ∀ part ∈ parts, separator ∉ part.toList) :
    splitChars separator (join (String.singleton separator) parts).toList =
      parts.map String.toList := by
  induction parts with
  | nil => exact absurd rfl hparts
  | cons part rest ih =>
    cases rest with
    | nil => exact splitChars_of_notMem (hnotMem part List.mem_cons_self)
    | cons next others =>
      have hrest := ih (List.cons_ne_nil next others)
        (fun other hother => hnotMem other (List.mem_cons_of_mem part hother))
      rw [join, String.toList_append, String.toList_append, String.toList_singleton,
        List.append_assoc, List.singleton_append,
        splitChars_append _ (hnotMem part List.mem_cons_self), hrest]
      · rfl
      · simp

end Text

/-! ### Normal paths -/

namespace Path

/-- A name that stands for itself between two slashes. -/
def IsName (name : String) : Prop :=
  name ≠ "" ∧ name ≠ "." ∧ name ≠ ".." ∧ '/' ∉ name.toList

/-- A nonempty row of names. -/
def IsNormal (path : Path) : Prop :=
  ∃ names, names ≠ [] ∧ (∀ name ∈ names, IsName name) ∧ path = ofNames names

theorem isName_of_named_mem {path : Path} {name : String}
    (hmem : Component.named name ∈ path.components) : IsName name := by
  have hpart : ∃ part ∈ Text.splitChars '/' path.text.toList,
      ofPart? (String.ofList part) = some (.named name) := by
    simp only [components, List.mem_append, List.mem_filterMap, List.mem_map] at hmem
    rcases hmem with hlead | ⟨_, ⟨part, hsplit, rfl⟩, hof⟩
    · split at hlead
      · simp at hlead
      · split at hlead <;> simp at hlead
    · exact ⟨part, hsplit, hof⟩
  obtain ⟨part, hsplit, hof⟩ := hpart
  rw [ofPart?] at hof
  split at hof
  · simp at hof
  · rename_i hplain
    rw [not_or] at hplain
    split at hof
    · simp at hof
    · rename_i hclimb
      have hname : String.ofList part = name := by simpa using hof
      rw [← hname]
      refine ⟨hplain.1, hplain.2, hclimb, ?_⟩
      rw [String.toList_ofList]
      exact Text.notMem_of_mem_splitChars hsplit

theorem ofPart?_of_isName {name : String} (hname : IsName name) :
    ofPart? name = some (.named name) := by
  rw [ofPart?, if_neg (by simp [hname.1, hname.2.1]), if_neg hname.2.2.1]

theorem isNormal_ofNames {names : List String} (hnames : names ≠ [])
    (hall : ∀ name ∈ names, IsName name) : (ofNames names).IsNormal :=
  ⟨names, hnames, hall, rfl⟩

theorem IsName.head?_ne {name : String} (hname : IsName name) : name.toList.head? ≠ some '/' :=
  fun h => hname.2.2.2 (List.mem_of_mem_head? h)

theorem head?_toList_ofNames {names : List String} (hall : ∀ name ∈ names, IsName name) :
    (ofNames names).text.toList.head? ≠ some '/' := by
  cases names with
  | nil => simp [ofNames, Text.join]
  | cons name rest =>
    have hname := hall name List.mem_cons_self
    rw [ofNames, Text.head?_toList_join "/" rest hname.1]
    exact hname.head?_ne

/-- The components of a row of parts, whatever these mean. -/
theorem components_ofNames_of_notMem {parts : List String} (hparts : parts ≠ [])
    (hslash : ∀ part ∈ parts, '/' ∉ part.toList) (hhead : parts.head? ≠ some "") :
    (ofNames parts).components =
      (if parts.head? = some "." then [Component.current] else []) ++ parts.filterMap ofPart? := by
  have hsplit : (Text.splitChars '/' (ofNames parts).text.toList).map String.ofList = parts := by
    have hjoin := Text.splitChars_join hparts hslash
    have hsingle : String.singleton '/' = "/" := rfl
    rw [hsingle] at hjoin
    rw [ofNames, hjoin, List.map_map]
    exact (List.map_congr_left fun part _ => String.ofList_toList).trans (List.map_id _)
  have hroot : (ofNames parts).text.toList.head? ≠ some '/' := by
    obtain ⟨part, rest, rfl⟩ := List.exists_cons_of_ne_nil hparts
    rw [ofNames, Text.head?_toList_join "/" rest fun h => hhead (congrArg some h)]
    exact fun h => hslash part List.mem_cons_self (List.mem_of_mem_head? h)
  simp only [components, hsplit, if_neg hroot]

theorem filterMap_ofPart? {names : List String} (hall : ∀ name ∈ names, IsName name) :
    names.filterMap ofPart? = names.map Component.named := by
  rw [← List.filterMap_eq_map]
  exact List.filterMap_congr fun name hname => ofPart?_of_isName (hall name hname)

theorem components_ofNames {names : List String} (hall : ∀ name ∈ names, IsName name) :
    (ofNames names).components = names.map Component.named := by
  cases names with
  | nil => decide
  | cons name rest =>
    have hname := hall name List.mem_cons_self
    have hempty : (name :: rest).head? ≠ some "" := fun h => hname.1 (Option.some.inj h)
    have hdot : (name :: rest).head? ≠ some "." := fun h => hname.2.1 (Option.some.inj h)
    rw [components_ofNames_of_notMem (List.cons_ne_nil name rest)
      (fun other hother => (hall other hother).2.2.2) hempty, if_neg hdot, List.nil_append,
      filterMap_ofPart? hall]

theorem text_named (names : List String) :
    (names.map Component.named).map Component.text = names := by
  rw [List.map_map]
  exact (List.map_congr_left fun _ _ => rfl).trans (List.map_id _)

theorem ofComponents_named (names : List String) :
    ofComponents (names.map Component.named) = ofNames names := by
  cases names with
  | nil => rfl
  | cons name rest =>
    simp only [List.map_cons, ofComponents, Component.text, ofNames]
    rw [text_named]

/-- A normal path is the one chosen among its spellings. -/
theorem IsNormal.tidy_eq {path : Path} (hnormal : path.IsNormal) : path.tidy = path := by
  obtain ⟨names, hnames, hall, rfl⟩ := hnormal
  rw [tidy, components_ofNames hall, ofComponents_named]

theorem IsNormal.eq_of_components_eq {left right : Path} (hleft : left.IsNormal)
    (hright : right.IsNormal) (hcomponents : left.components = right.components) :
    left = right := by
  rw [← hleft.tidy_eq, ← hright.tidy_eq, tidy, tidy, hcomponents]

theorem IsNormal.eq_of_le {left right : Path} (hleft : left.IsNormal) (hright : right.IsNormal)
    (hle : left.le right) (hge : right.le left) : left = right :=
  hleft.eq_of_components_eq hright (components_eq_of_le hle hge)

theorem IsNormal.eq_of_compare {left right : Path} (hleft : left.IsNormal) (hright : right.IsNormal)
    (hequal : left.compare right = .eq) : left = right :=
  hleft.eq_of_components_eq hright (components_eq_of_compare hequal)

theorem IsNormal.text_ne {path : Path} (hnormal : path.IsNormal) : path ≠ ⟨""⟩ := by
  intro hempty
  obtain ⟨names, hnames, hall, rfl⟩ := hnormal
  have hcomponents := components_ofNames hall
  rw [hempty] at hcomponents
  have hnil : (⟨""⟩ : Path).components = [] := by decide
  rw [hnil] at hcomponents
  exact hnames (List.map_eq_nil_iff.1 hcomponents.symm)

/-! ### Paths into the project -/

theorem mem_step {walked : List String} {component : Component} {names : List String}
    {name : String} (hstep : step (some walked) component = some names) (hmem : name ∈ names) :
    name ∈ walked ∨ component = .named name := by
  cases component with
  | root => exact .inl (by simpa [step] using (Option.some.inj hstep) ▸ hmem)
  | current => exact .inl (by simpa [step] using (Option.some.inj hstep) ▸ hmem)
  | parent =>
    cases walked with
    | nil => simp [step] at hstep
    | cons last rest =>
      have hrest : rest = names := Option.some.inj hstep
      exact .inl (List.mem_cons_of_mem last (hrest ▸ hmem))
  | named other =>
    have hcons : other :: walked = names := Option.some.inj hstep
    rw [← hcons, List.mem_cons] at hmem
    rcases hmem with rfl | hold
    · exact .inr rfl
    · exact .inl hold

theorem foldl_step_none (components : List Component) :
    components.foldl step none = none := by
  induction components with
  | nil => rfl
  | cons component rest ih => exact ih

theorem mem_walk {components : List Component} {walked names : List String} {name : String}
    (hwalk : components.foldl step (some walked) = some names) (hmem : name ∈ names) :
    name ∈ walked ∨ Component.named name ∈ components := by
  induction components generalizing walked with
  | nil => exact .inl (Option.some.inj hwalk ▸ hmem)
  | cons component rest ih =>
    rw [List.foldl_cons] at hwalk
    cases hstep : step (some walked) component with
    | none => rw [hstep, foldl_step_none] at hwalk; cases hwalk
    | some next =>
      rw [hstep] at hwalk
      rcases ih hwalk with hnext | hrest
      · rcases mem_step hstep hnext with hold | hnew
        · exact .inl hold
        · exact .inr (by simp [hnew])
      · exact .inr (List.mem_cons_of_mem component hrest)

/-- A row of names, which may be empty. -/
def IsPlain (path : Path) : Prop :=
  ∃ names, (∀ name ∈ names, IsName name) ∧ path = ofNames names

theorem IsNormal.isPlain {path : Path} (hnormal : path.IsNormal) : path.IsPlain := by
  obtain ⟨names, -, hall, rfl⟩ := hnormal
  exact ⟨names, hall, rfl⟩

theorem IsPlain.isNormal {path : Path} (hplain : path.IsPlain) (htext : path.text ≠ "") :
    path.IsNormal := by
  obtain ⟨names, hall, rfl⟩ := hplain
  refine isNormal_ofNames ?_ hall
  rintro rfl
  exact htext rfl

theorem IsPlain.tidy_eq {path : Path} (hplain : path.IsPlain) : path.tidy = path := by
  obtain ⟨names, hall, rfl⟩ := hplain
  rw [tidy, components_ofNames hall, ofComponents_named]

theorem IsPlain.eq_of_same {left right : Path} (hleft : left.IsPlain) (hright : right.IsPlain)
    (hsame : left.same right) : left = right := by
  have hcomponents : left.components = right.components := by simpa [same] using hsame
  rw [← hleft.tidy_eq, ← hright.tidy_eq, tidy, tidy, hcomponents]

theorem isPlain_of_normalize? {path found : Path} (hfound : path.normalize? = some found) :
    found.IsPlain := by
  obtain ⟨walked, hwalk, rfl⟩ := Option.map_eq_some_iff.1 hfound
  refine ⟨walked.reverse, fun name hname => ?_, rfl⟩
  rcases mem_walk hwalk (List.mem_reverse.1 hname) with hnone | hcomponent
  · cases hnone
  · exact isName_of_named_mem hcomponent

theorem IsNormal.parent?_isPlain {path directory : Path} (hnormal : path.IsNormal)
    (hparent : path.parent? = some directory) : directory.IsPlain := by
  obtain ⟨names, hnames, hall, rfl⟩ := hnormal
  rw [parent?, components_ofNames hall] at hparent
  refine ⟨names.dropLast, fun name hname => hall name (List.dropLast_subset names hname), ?_⟩
  rw [← ofComponents_named, List.map_dropLast]
  split at hparent
  · cases hparent
  · cases hparent
  · exact (Option.some.inj hparent).symm

theorem isNormal_of_inProject? {root path found : Path}
    (hfound : inProject? root path = some found) : found.IsNormal := by
  have hrelative : ∃ relative normalized, normalize? relative = some normalized ∧
      (if normalized.text = "" then none else some normalized) = some found := by
    rw [inProject?] at hfound
    split at hfound
    · obtain ⟨relative, _, hrest⟩ := Option.bind_eq_some_iff.1 hfound
      exact ⟨relative, Option.bind_eq_some_iff.1 hrest⟩
    · exact ⟨path, Option.bind_eq_some_iff.1 hfound⟩
  obtain ⟨_, normalized, hnormalize, hanswer⟩ := hrelative
  split at hanswer
  · cases hanswer
  · rename_i htext
    obtain rfl := Option.some.inj hanswer
    exact (isPlain_of_normalize? hnormalize).isNormal htext

theorem walk_named (names walked : List String) :
    (names.map Component.named).foldl step (some walked) = some (names.reverse ++ walked) := by
  induction names generalizing walked with
  | nil => rfl
  | cons name rest ih =>
    have hstep : step (some walked) (.named name) = some (name :: walked) := rfl
    rw [List.map_cons, List.foldl_cons, hstep, ih, List.reverse_cons, List.append_assoc]
    rfl

/-- A row of parts seen from a row of names. -/
theorem join_ofNames {names parts : List String} (hnames : ∀ name ∈ names, IsName name)
    (hparts : parts ≠ []) (hhead : (Text.join "/" parts).toList.head? ≠ some '/') :
    (ofNames names).join (Text.join "/" parts) = ofNames (names ++ parts) := by
  rw [join, if_neg hhead]
  obtain rfl | ⟨init, last, rfl⟩ := names.eq_nil_or_concat'
  · rw [if_pos (.inl rfl), List.nil_append, ofNames, ofNames]
    exact congrArg Path.mk (String.empty_append (s := Text.join "/" parts))
  · obtain ⟨hempty, -, -, hslash⟩ := hnames last (by simp)
    have hlast : (ofNames (init ++ [last])).text.toList.getLast? = last.toList.getLast? :=
      Text.getLast?_toList_join init hempty
    have hsome : last.toList ≠ [] := by simpa using hempty
    rw [if_neg, ofNames, ofNames, Text.join_append "/" (by simp) hparts]
    rintro (htext | hend)
    · rw [htext] at hlast
      exact hsome (List.getLast?_eq_none_iff.1 hlast.symm)
    · rw [hlast] at hend
      exact hslash (List.mem_of_getLast? hend)

theorem foldl_step_parent {ups : Nat} {walked : List String} (hups : ups ≤ walked.length) :
    (List.replicate ups Component.parent).foldl step (some walked) = some (walked.drop ups) := by
  induction ups generalizing walked with
  | zero => rfl
  | succ ups ih =>
    cases walked with
    | nil => cases hups
    | cons last rest => exact ih (Nat.le_of_succ_le_succ hups)

/-- A way down along names, up again, and down along others. -/
theorem walk_detour {down names : List String} {ups : Nat} (hups : ups ≤ down.length) :
    walk (down.map .named ++ (List.replicate ups .parent ++ names.map .named)) =
      some (down.take (down.length - ups) ++ names).reverse := by
  rw [walk, List.foldl_append, walk_named, List.foldl_append, List.append_nil,
    foldl_step_parent (by simpa using hups), walk_named, List.reverse_append, List.drop_reverse]

/-- A path that goes up again on its way means the place where it ends. -/
theorem normalize?_detour {down names dot : List String} {ups : Nat}
    (hdown : ∀ name ∈ down, IsName name) (hnames : ∀ name ∈ names, IsName name)
    (hdot : dot = [] ∨ dot = ["."]) (hups : ups ≤ down.length) :
    (ofNames (down ++ dot ++ (List.replicate ups ".." ++ names))).normalize? =
      some (ofNames (down.take (down.length - ups) ++ names)) := by
  have hups' : (List.replicate ups "..").filterMap ofPart? =
      List.replicate ups Component.parent := by
    have hup : ofPart? ".." = some Component.parent := by decide
    rw [List.filterMap_replicate_of_some hup]
  have hnone : dot.filterMap ofPart? = [] := by
    rcases hdot with rfl | rfl
    · rfl
    · decide
  by_cases hempty : down ++ dot ++ (List.replicate ups ".." ++ names) = []
  · simp only [List.append_eq_nil_iff, List.replicate_eq_nil_iff] at hempty
    obtain ⟨⟨rfl, -⟩, rfl, rfl⟩ := hempty
    rcases hdot with rfl | rfl <;> decide
  · have hslash : ∀ part ∈ down ++ dot ++ (List.replicate ups ".." ++ names),
        '/' ∉ part.toList := by
      simp only [List.mem_append, List.mem_replicate]
      rintro part ((hpart | hpart) | ⟨-, rfl⟩ | hpart)
      · exact (hdown part hpart).2.2.2
      · rcases hdot with rfl | rfl
        · cases hpart
        · rw [List.mem_singleton.1 hpart]
          decide
      · decide
      · exact (hnames part hpart).2.2.2
    have hhead : (down ++ dot ++ (List.replicate ups ".." ++ names)).head? ≠ some "" := by
      intro hhead
      have hmem := List.mem_of_mem_head? hhead
      simp only [List.mem_append, List.mem_replicate] at hmem
      rcases hmem with (hmem | hmem) | ⟨-, hmem⟩ | hmem
      · exact (hdown _ hmem).1 rfl
      · rcases hdot with rfl | rfl <;> simp at hmem
      · exact absurd hmem (by decide)
      · exact (hnames _ hmem).1 rfl
    have hlead : ∀ lead rest, lead = [] ∨ lead = [Component.current] →
        walk (lead ++ rest) = walk rest := by
      rintro lead rest (rfl | rfl) <;> rfl
    rw [normalize?, components_ofNames_of_notMem hempty hslash hhead, hlead _ _ (by
      split
      · exact .inr rfl
      · exact .inl rfl), List.filterMap_append, List.filterMap_append, List.filterMap_append,
      filterMap_ofPart? hdown, hnone, List.append_nil, hups', filterMap_ofPart? hnames, walk_detour hups,
      Option.map_some, List.reverse_reverse]

/-- A row of names means itself. -/
theorem normalize?_ofNames {names : List String} (hall : ∀ name ∈ names, IsName name) :
    (ofNames names).normalize? = some (ofNames names) := by
  have h : (ofNames (names ++ [] ++ (List.replicate 0 ".." ++ []))).normalize? =
      some (ofNames (names.take (names.length - 0) ++ [])) :=
    normalize?_detour hall (by simp) (.inl rfl) (Nat.zero_le _)
  simpa using h

theorem parent?_ofNames {names : List String} {last : String}
    (hall : ∀ name ∈ names ++ [last], IsName name) :
    (ofNames (names ++ [last])).parent? = some (ofNames names) := by
  rw [parent?, components_ofNames hall, List.map_append, List.map_singleton,
    List.getLast?_concat, List.dropLast_concat]
  exact congrArg some (ofComponents_named names)

theorem fileName?_ofNames {names : List String} {last : String}
    (hall : ∀ name ∈ names ++ [last], IsName name) :
    (ofNames (names ++ [last])).fileName? = some last := by
  rw [fileName?, components_ofNames hall, List.map_append, List.map_singleton,
    List.getLast?_concat]

/-- A normal path means itself, whatever the root. -/
theorem IsNormal.inProject?_eq {path : Path} (hnormal : path.IsNormal) (root : Path) :
    inProject? root path = some path := by
  have hempty := hnormal.text_ne
  obtain ⟨names, hnames, hall, rfl⟩ := hnormal
  have habsolute : (ofNames names).isAbsolute = false :=
    decide_eq_false (head?_toList_ofNames hall)
  have htext : (ofNames names).text ≠ "" := fun h => hempty (congrArg Path.mk h)
  simp only [inProject?, habsolute, Bool.false_eq_true, if_false, Option.bind_eq_bind,
    Option.bind_some, normalize?_ofNames hall, if_neg htext]

end Path

/-! ### Sets of paths -/

namespace PathSet

/-- In strict path order, so that no path stands twice. -/
def Sorted (set : PathSet) : Prop :=
  set.Pairwise fun left right => left.le right ∧ left ≠ right

theorem sorted_nil : Sorted [] := List.Pairwise.nil

theorem Sorted.nodup {set : PathSet} (hsorted : set.Sorted) : set.Nodup :=
  hsorted.imp fun h => h.2

/-- Sets of normalized paths are determined by their members. -/
theorem Sorted.eq_of_mem_iff {left right : PathSet} (hleft : left.Sorted) (hright : right.Sorted)
    (hnormal : ∀ path ∈ left, path.IsNormal) (hmem : ∀ path, path ∈ left ↔ path ∈ right) :
    left = right := by
  refine List.Perm.eq_of_pairwise (fun first second hfirst hsecond hle hge => ?_) hleft hright
    ((List.perm_ext_iff_of_nodup hleft.nodup hright.nodup).2 hmem)
  exact (hnormal first hfirst).eq_of_le (hnormal second ((hmem second).2 hsecond)) hle.1 hge.1

theorem Sorted.filter {set : PathSet} (hsorted : set.Sorted) (keep : Path → Bool) :
    Sorted (set.filter keep) :=
  List.Pairwise.filter keep hsorted

theorem Sorted.insert {set : PathSet} {path : Path} (hsorted : set.Sorted)
    (hnormal : path.IsNormal) (hall : ∀ other ∈ set, other.IsNormal) :
    Sorted (PathSet.insert path set) := by
  induction set with
  | nil => exact List.pairwise_singleton _ path
  | cons first rest ih =>
    obtain ⟨hfirst, hrest⟩ := List.pairwise_cons.1 hsorted
    have hfirstNormal := hall first List.mem_cons_self
    have hrestNormal := fun other hother => hall other (List.mem_cons_of_mem first hother)
    unfold PathSet.insert
    split
    · exact hsorted
    · rename_i hne
      split
      · rename_i hle
        refine List.pairwise_cons.2 ⟨?_, ih hrest hrestNormal⟩
        intro other hother
        rcases mem_insert.1 hother with rfl | hold
        · exact ⟨hle, hne⟩
        · exact hfirst other hold
      · rename_i hnle
        have hle : path.le first := (Path.le_total path first).resolve_right hnle
        refine List.pairwise_cons.2 ⟨?_, hsorted⟩
        intro other hother
        rcases List.mem_cons.1 hother with rfl | hold
        · exact ⟨hle, Ne.symm hne⟩
        · refine ⟨Path.le_trans hle (hfirst other hold).1, ?_⟩
          rintro rfl
          exact hnle (hfirst path hold).1

theorem Sorted.insertAll {paths : List Path} {set : PathSet} (hsorted : set.Sorted)
    (hpaths : ∀ path ∈ paths, path.IsNormal) (hall : ∀ other ∈ set, other.IsNormal) :
    Sorted (PathSet.insertAll paths set) := by
  induction paths generalizing set with
  | nil => exact hsorted
  | cons path rest ih =>
    have hpath := hpaths path List.mem_cons_self
    refine ih (hsorted.insert hpath hall)
      (fun other hother => hpaths other (List.mem_cons_of_mem path hother)) ?_
    intro other hother
    rcases mem_insert.1 hother with rfl | hold
    · exact hpath
    · exact hall other hold

/-- A set that was built of normalized paths. -/
structure Proper (set : PathSet) : Prop where
  sorted : set.Sorted
  normal : ∀ path ∈ set, path.IsNormal

theorem proper_nil : Proper [] := ⟨sorted_nil, nofun⟩

theorem Proper.nodup {set : PathSet} (hproper : set.Proper) : set.Nodup :=
  hproper.sorted.nodup

theorem Proper.insert {set : PathSet} {path : Path} (hproper : set.Proper)
    (hnormal : path.IsNormal) : Proper (PathSet.insert path set) where
  sorted := hproper.sorted.insert hnormal hproper.normal
  normal := by
    intro other hother
    rcases mem_insert.1 hother with rfl | hold
    · exact hnormal
    · exact hproper.normal other hold

theorem Proper.insertAll {set : PathSet} {paths : List Path} (hproper : set.Proper)
    (hpaths : ∀ path ∈ paths, path.IsNormal) : Proper (PathSet.insertAll paths set) where
  sorted := hproper.sorted.insertAll hpaths hproper.normal
  normal := by
    intro other hother
    rcases mem_insertAll.1 hother with hother | hold
    · exact hpaths other hother
    · exact hproper.normal other hold

theorem Proper.remove {set : PathSet} (hproper : set.Proper) (path : Path) :
    Proper (PathSet.remove path set) where
  sorted := hproper.sorted.filter _
  normal := fun other hother => hproper.normal other (mem_remove.1 hother).1

end PathSet

end CodeGraph
