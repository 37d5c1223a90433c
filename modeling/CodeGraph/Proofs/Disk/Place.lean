import CodeGraph.Disk.Basic
import CodeGraph.Proofs.Text

/-!
# Places under a root

The components of a path that is joined to a root are those of the root, followed by the names of
the path. So the directory around it is the root with all names but the last, and its spelling is
part of that of the path.
-/

namespace CodeGraph

/-! ### Parts of what is joined -/

namespace Text

/-- What some of the parts join to is found, in order, in what all of them join to. -/
theorem join_sublist (separator : String) {parts others : List String}
    (hparts : parts.Sublist others) :
    (join separator parts).toList.Sublist (join separator others).toList := by
  have hadd : ∀ (part : String) (rest : List String),
      (join separator rest).toList.Sublist (join separator (part :: rest)).toList := by
    intro part rest
    cases rest with
    | nil => exact List.nil_sublist _
    | cons next others =>
      rw [join_cons separator part (List.cons_ne_nil next others), String.toList_append]
      exact List.sublist_append_right _ _
  induction hparts with
  | slnil => exact List.Sublist.refl _
  | cons part _ ih => exact ih.trans (hadd part _)
  | @cons_cons rest others part hrest ih =>
    by_cases hempty : rest = []
    · subst hempty
      cases others with
      | nil => exact List.Sublist.refl _
      | cons next others =>
        rw [join_cons separator part (List.cons_ne_nil next others), String.toList_append,
          String.toList_append, List.append_assoc]
        exact List.sublist_append_left _ _
    · have hothers : others ≠ [] := fun h => hempty (List.sublist_nil.1 (h ▸ hrest))
      simp only [join_cons separator part hempty, join_cons separator part hothers,
        String.toList_append]
      exact (List.Sublist.refl _).append ih

theorem byteLength_le_of_sublist {chars others : List Char} (hchars : chars.Sublist others) :
    byteLength chars ≤ byteLength others := by
  induction hchars with
  | slnil => exact Nat.le_refl _
  | cons char _ ih => exact ih.trans (Nat.le_add_left _ _)
  | cons_cons char _ ih => exact Nat.add_le_add_left ih _

end Text

/-! ### Components -/

namespace Path

/-- How the components of a path stand: only the first may be the root or a `.`. -/
structure Formed (components : List Component) : Prop where
  names : ∀ name, Component.named name ∈ components → IsName name
  tail : ∀ component ∈ components.tail, component ≠ .root ∧ component ≠ .current

theorem ofPart?_ne {part : String} {component : Component} (hpart : ofPart? part = some component) :
    component ≠ .root ∧ component ≠ .current := by
  rw [ofPart?] at hpart
  split at hpart
  · cases hpart
  · split at hpart <;> cases hpart <;> simp

theorem formed_components (path : Path) : Formed path.components := by
  refine ⟨fun name hname => isName_of_named_mem hname, fun component hcomponent => ?_⟩
  have hparts : ∀ parts : List String, ∀ component ∈ parts.filterMap ofPart?,
      component ≠ .root ∧ component ≠ .current := fun parts component hcomponent => by
    obtain ⟨part, -, hpart⟩ := List.mem_filterMap.1 hcomponent
    exact ofPart?_ne hpart
  unfold components at hcomponent
  dsimp only at hcomponent
  split at hcomponent
  · exact hparts _ component hcomponent
  · split at hcomponent
    · exact hparts _ component hcomponent
    · exact hparts _ component (List.mem_of_mem_tail hcomponent)

theorem Formed.of_begins {components first : List Component} (hformed : Formed components)
    (hbegins : first <+: components) : Formed first := by
  obtain ⟨rest, rfl⟩ := hbegins
  refine ⟨fun name hname => hformed.names name (List.mem_append_left _ hname),
    fun component hcomponent => hformed.tail component ?_⟩
  cases first with
  | nil => cases hcomponent
  | cons head others => exact List.mem_append_left _ hcomponent

/-- A component that may stand inside a path is read back from its text. -/
theorem ofPart?_text {component : Component} (hname : ∀ name, component = .named name → IsName name)
    (hroot : component ≠ .root) (hcurrent : component ≠ .current) :
    ofPart? component.text = some component ∧ '/' ∉ component.text.toList ∧
      component.text ≠ "" ∧ component.text ≠ "." := by
  cases component with
  | root => exact absurd rfl hroot
  | current => exact absurd rfl hcurrent
  | parent => decide
  | named name =>
    have hname := hname name rfl
    exact ⟨ofPart?_of_isName hname, hname.2.2.2, hname.1, hname.2.1⟩

/-- The components of an absolute path, whatever its parts mean. -/
theorem components_absolute {parts : List String} (hslash : ∀ part ∈ parts, '/' ∉ part.toList) :
    (⟨"/" ++ Text.join "/" parts⟩ : Path).components = .root :: parts.filterMap ofPart? := by
  have hchars : ("/" ++ Text.join "/" parts).toList = '/' :: (Text.join "/" parts).toList := by
    rw [String.toList_append]
    rfl
  have hparts : ((Text.splitChars '/' (Text.join "/" parts).toList).map String.ofList).filterMap
      ofPart? = parts.filterMap ofPart? := by
    by_cases hempty : parts = []
    · subst hempty
      decide
    · have hsplit := Text.splitChars_join hempty hslash
      have hsingle : String.singleton '/' = "/" := rfl
      rw [hsingle] at hsplit
      rw [hsplit, List.map_map]
      exact congrArg _ ((List.map_congr_left fun part _ => String.ofList_toList).trans
        (List.map_id _))
  have hnothing : ofPart? (String.ofList []) = none := by decide
  rw [components, hchars, if_pos (by rfl), Text.splitChars, if_pos rfl, List.map_cons,
    List.filterMap_cons, hnothing, hparts]
  rfl

theorem ofComponents_of_ne_root {head : Component} (hroot : head ≠ .root) (rest : List Component) :
    ofComponents (head :: rest) = ofNames ((head :: rest).map Component.text) := by
  cases head with
  | root => exact absurd rfl hroot
  | current => rfl
  | parent => rfl
  | named name => rfl

/-- The components that a spelling is made from are the components of that spelling. -/
theorem Formed.components_ofComponents {components : List Component}
    (hformed : Formed components) : (ofComponents components).components = components := by
  cases components with
  | nil => decide
  | cons head rest =>
    have hrest : ∀ component ∈ rest, ofPart? component.text = some component ∧
        '/' ∉ component.text.toList ∧ component.text ≠ "" ∧ component.text ≠ "." :=
      fun component hcomponent => by
        obtain ⟨hroot, hcurrent⟩ := hformed.tail component hcomponent
        refine ofPart?_text (fun name hname => ?_) hroot hcurrent
        exact hformed.names name (List.mem_cons_of_mem _ (hname ▸ hcomponent))
    have hread : (rest.map Component.text).filterMap ofPart? = rest := by
      rw [List.filterMap_map]
      exact (List.filterMap_congr fun component hcomponent => (hrest component hcomponent).1).trans
        List.filterMap_some
    have hslash : ∀ part ∈ rest.map Component.text, '/' ∉ part.toList := fun part hpart => by
      obtain ⟨component, hcomponent, rfl⟩ := List.mem_map.1 hpart
      exact (hrest component hcomponent).2.1
    by_cases hroot : head = .root
    · subst hroot
      rw [ofComponents, components_absolute hslash, hread]
    · have hhead : head.text ≠ "" ∧ '/' ∉ head.text.toList ∧
          (if head.text = "." then [Component.current] else []) ++ (ofPart? head.text).toList =
            [head] := by
        by_cases hcurrent : head = .current
        · subst hcurrent
          decide
        · obtain ⟨hpart, hslash, hempty, hdot⟩ := ofPart?_text
            (fun name hname => hformed.names name (hname ▸ List.mem_cons_self)) hroot hcurrent
          refine ⟨hempty, hslash, ?_⟩
          rw [hpart, if_neg hdot]
          rfl
      obtain ⟨hempty, hhead, hlead⟩ := hhead
      have hparts : (head.text :: rest.map Component.text).filterMap ofPart? =
          (ofPart? head.text).toList ++ rest := by
        rw [List.filterMap_cons, hread]
        cases ofPart? head.text <;> rfl
      rw [ofComponents_of_ne_root hroot, List.map_cons,
        components_ofNames_of_notMem (List.cons_ne_nil _ _)
          (fun part hpart => (List.mem_cons.1 hpart).elim (fun h => h ▸ hhead) (hslash part))
        (fun h => hempty (Option.some.inj h)), hparts, ← List.append_assoc]
      simp only [List.head?_cons, Option.some.injEq]
      rw [hlead, List.singleton_append]

/-- The one spelling tells apart what the components tell apart. -/
theorem tidy_eq_tidy_iff {left right : Path} : left.tidy = right.tidy ↔ left.same right := by
  rw [same, decide_eq_true_eq]
  refine ⟨fun htidy => ?_, congrArg ofComponents⟩
  calc left.components = left.tidy.components :=
        (formed_components left).components_ofComponents.symm
    _ = right.tidy.components := by rw [htidy]
    _ = right.components := (formed_components right).components_ofComponents

theorem tidy_tidy (path : Path) : path.tidy.tidy = path.tidy := by
  rw [tidy, tidy, (formed_components path).components_ofComponents]

theorem IsPlain.eq_tidy_iff {place path : Path} (hplain : place.IsPlain) :
    place = path.tidy ↔ place.same path := by
  rw [← tidy_eq_tidy_iff, hplain.tidy_eq]

theorem parent?_tidy (path : Path) : path.tidy.parent? = path.parent? := by
  rw [parent?, parent?, tidy, (formed_components path).components_ofComponents]

/-- The directory around a path is spelled in the one way, however the path is. -/
theorem tidy_of_parent? {path directory : Path} (hparent : path.parent? = some directory) :
    directory.tidy = directory := by
  rw [parent?] at hparent
  split at hparent
  · cases hparent
  · cases hparent
  · obtain rfl := Option.some.inj hparent
    have hformed := (formed_components path).of_begins (List.dropLast_prefix _)
    rw [tidy, hformed.components_ofComponents]

/-- What a part means is spelled as the part. -/
theorem text_of_ofPart? {part : String} {component : Component}
    (hpart : ofPart? part = some component) : component.text = part := by
  rw [ofPart?] at hpart
  split at hpart
  · cases hpart
  · split at hpart
    · rename_i hclimb
      cases hpart
      exact hclimb.symm
    · cases hpart
      rfl

theorem text_filterMap_sublist (parts : List String) :
    ((parts.filterMap ofPart?).map Component.text).Sublist parts := by
  induction parts with
  | nil => exact List.Sublist.refl []
  | cons part parts ih =>
    cases hpart : ofPart? part with
    | none => exact (List.filterMap_cons_none hpart ▸ ih).cons part
    | some component =>
      rw [List.filterMap_cons_some hpart, List.map_cons, text_of_ofPart? hpart]
      exact ih.cons_cons part

/-- A spelling made from the first components of a path is part of the spelling of the path. -/
theorem ofComponents_sublist {path : Path} {first : List Component}
    (hbegins : first <+: path.components) :
    (ofComponents first).text.toList.Sublist path.text.toList := by
  cases first with
  | nil => exact List.nil_sublist _
  | cons head first =>
    have hsingle : String.singleton '/' = "/" := rfl
    rw [components] at hbegins
    by_cases habsolute : path.text.toList.head? = some '/'
    · obtain ⟨rest, hchars⟩ : ∃ rest, path.text.toList = '/' :: rest := by
        obtain ⟨rest, hrest⟩ := List.head?_eq_some_iff.1 habsolute
        exact ⟨rest, hrest⟩
      have hnothing : ofPart? (String.ofList []) = none := by decide
      rw [if_pos habsolute, hchars, Text.splitChars, if_pos rfl, List.map_cons,
        List.filterMap_cons, hnothing] at hbegins
      obtain ⟨rfl, hfirst⟩ := List.cons_prefix_cons.1 hbegins
      have hjoin := Text.join_sublist "/"
        ((hfirst.sublist.map Component.text).trans (text_filterMap_sublist _))
      rw [← hsingle, Text.join_splitChars, hsingle] at hjoin
      rw [ofComponents, String.toList_append, hchars]
      exact hjoin.cons_cons '/'
    · rw [if_neg habsolute] at hbegins
      have hparts : ((head :: first).map Component.text).Sublist
          ((Text.splitChars '/' path.text.toList).map String.ofList) ∧ head ≠ .root := by
        split at hbegins
        · rename_i hdot
          obtain ⟨parts, hsplit⟩ := List.head?_eq_some_iff.1 hdot
          have hnothing : ofPart? "." = none := by decide
          rw [hsplit, List.filterMap_cons, hnothing] at hbegins
          obtain ⟨rfl, hfirst⟩ := List.cons_prefix_cons.1 hbegins
          rw [hsplit]
          have hlead := (hfirst.sublist.map Component.text).trans (text_filterMap_sublist _)
          exact ⟨hlead.cons_cons ".", by simp⟩
        · refine ⟨(hbegins.sublist.map Component.text).trans (text_filterMap_sublist _), ?_⟩
          obtain ⟨part, -, hpart⟩ := List.mem_filterMap.1 (hbegins.subset List.mem_cons_self)
          exact (ofPart?_ne hpart).1
      obtain ⟨hparts, hroot⟩ := hparts
      have hjoin := Text.join_sublist "/" hparts
      rw [← hsingle, Text.join_splitChars, hsingle] at hjoin
      rw [ofComponents_of_ne_root hroot]
      exact hjoin

/-! ### Paths under a root -/

/-- The component that only stands in front. -/
def lead (chars : List Char) : List Component :=
  if chars.head? = some '/' then [.root]
  else if ((Text.splitChars '/' chars).map String.ofList).head? = some "." then [.current] else []

/-- The components that may stand anywhere. -/
def inner (chars : List Char) : List Component :=
  ((Text.splitChars '/' chars).map String.ofList).filterMap ofPart?

theorem components_eq (path : Path) :
    path.components = lead path.text.toList ++ inner path.text.toList := rfl

theorem inner_nil : inner [] = [] := by decide

/-- A slash parts the components in front of it from those behind. -/
theorem inner_append_slash (init more : List Char) :
    inner (init ++ '/' :: more) = inner init ++ inner more := by
  rw [inner, Text.splitChars_append_cons, List.map_append, List.filterMap_append]
  rfl

theorem lead_append_slash {init : List Char} (hinit : init ≠ []) (more : List Char) :
    lead (init ++ '/' :: more) = lead init := by
  obtain ⟨part, parts, hsplit⟩ := List.exists_cons_of_ne_nil (Text.splitChars_ne_nil '/' init)
  rw [lead, lead, Text.splitChars_append_cons, hsplit, List.head?_append_of_ne_nil init hinit]
  rfl

theorem lead_slash (more : List Char) : lead ('/' :: more) = [.root] :=
  if_pos rfl

/-- A row of names has no component that only stands in front. -/
theorem inner_ofNames {names : List String} (hall : ∀ name ∈ names, IsName name) :
    inner (ofNames names).text.toList = names.map Component.named := by
  have hcomponents := components_ofNames hall
  rw [components_eq] at hcomponents
  have hlead : lead (ofNames names).text.toList = [] := by
    have hnamed : ∀ component ∈ lead (ofNames names).text.toList,
        ∃ name, component = .named name := fun component hcomponent => by
      have hmem : component ∈ names.map Component.named :=
        hcomponents ▸ List.mem_append_left _ hcomponent
      obtain ⟨name, -, rfl⟩ := List.mem_map.1 hmem
      exact ⟨name, rfl⟩
    rw [lead] at hnamed ⊢
    split at hnamed
    · obtain ⟨name, hname⟩ := hnamed _ List.mem_cons_self
      cases hname
    · rename_i hslash
      split at hnamed
      · obtain ⟨name, hname⟩ := hnamed _ List.mem_cons_self
        cases hname
      · rename_i hdot
        rw [if_neg hslash, if_neg hdot]
  rwa [hlead, List.nil_append] at hcomponents

/-- **The components of a path under a root** are those of the root and then its names. -/
theorem components_join (root : Path) {names : List String} (hall : ∀ name ∈ names, IsName name) :
    (root.join (ofNames names).text).components = root.components ++ names.map Component.named := by
  rw [join, if_neg (head?_toList_ofNames hall)]
  split
  · rename_i hroot
    by_cases hempty : root.text = ""
    · have hnone : root.components = [] := by
        rw [components_eq, hempty]
        decide
      rw [hnone, List.nil_append, hempty, String.empty_append]
      exact components_ofNames hall
    · obtain ⟨init, hinit⟩ := List.getLast?_eq_some_iff.1 (hroot.resolve_left hempty)
      have hlead : ∀ more, lead (init ++ '/' :: more) = lead (init ++ ['/']) := fun more => by
        by_cases hnil : init = []
        · subst hnil
          exact lead_slash more
        · rw [lead_append_slash hnil, lead_append_slash hnil]
      rw [components_eq, components_eq, String.toList_append, hinit, List.append_assoc,
        List.singleton_append, hlead, inner_append_slash, inner_append_slash, inner_nil,
        List.append_nil, inner_ofNames hall, List.append_assoc]
  · rename_i hroot
    have hempty : root.text.toList ≠ [] := by simpa using fun h => hroot (.inl h)
    rw [components_eq, components_eq, String.toList_append, String.toList_append, List.append_assoc]
    have hslash : "/".toList = ['/'] := rfl
    rw [hslash, List.singleton_append, lead_append_slash hempty, inner_append_slash,
      inner_ofNames hall, List.append_assoc]

/-- The directory around a path. -/
theorem exists_parent? {path : Path} {first : List Component} {last : Component}
    (hcomponents : path.components = first ++ [last]) (hlast : last ≠ .root) :
    ∃ directory, path.parent? = some directory ∧ directory.components = first ∧
      directory.text.toList.Sublist path.text.toList := by
  have hbegins : first <+: path.components := hcomponents ▸ List.prefix_append _ _
  refine ⟨ofComponents first, ?_, ?_, ofComponents_sublist hbegins⟩
  · rw [parent?, hcomponents, List.getLast?_concat, List.dropLast_concat]
    cases last with
    | root => exact absurd rfl hlast
    | _ => rfl
  · exact ((formed_components path).of_begins hbegins).components_ofComponents

/-- A path with a directory around it has one component more than the directory. -/
theorem exists_of_parent? {path directory : Path} (hparent : path.parent? = some directory) :
    ∃ last, path.components = path.components.dropLast ++ [last] ∧
      directory.components = path.components.dropLast ∧
      directory.text.toList.Sublist path.text.toList := by
  obtain hnil | ⟨first, last, hcomponents⟩ := path.components.eq_nil_or_concat'
  · rw [parent?, hnil] at hparent
    cases hparent
  · have hroot : last ≠ .root := by
      rintro rfl
      rw [parent?, hcomponents, List.getLast?_concat] at hparent
      cases hparent
    obtain ⟨found, hfound, hfirst, hsublist⟩ := exists_parent? hcomponents hroot
    obtain rfl := Option.some.inj (hfound.symm.trans hparent)
    rw [hcomponents, List.dropLast_concat]
    exact ⟨last, rfl, hfirst, hsublist⟩

/-- Only at the very start is there no directory around a path. -/
theorem dropLast_of_parent?_eq_none {path : Path} (hparent : path.parent? = none) :
    path.components.dropLast = [] := by
  obtain hnil | ⟨first, last, hcomponents⟩ := path.components.eq_nil_or_concat'
  · rw [hnil, List.dropLast_nil]
  · by_cases hlast : last = .root
    · rw [hcomponents, List.dropLast_concat]
      cases first with
      | nil => rfl
      | cons head rest =>
        have htail := (formed_components path).tail last (by rw [hcomponents]; simp)
        exact absurd hlast htail.1
    · obtain ⟨directory, hsome, -⟩ := exists_parent? hcomponents hlast
      cases hparent.symm.trans hsome

end Path

namespace Disk

/-- A spelling that is part of a usable one is usable. -/
theorem isUsable_of_sublist {path other : Path} (husable : isUsable path)
    (hsublist : other.text.toList.Sublist path.text.toList) : isUsable other := by
  simp only [isUsable, Bool.and_eq_true, Bool.not_eq_true', List.contains_eq_mem,
    decide_eq_false_iff_not] at husable ⊢
  exact ⟨fun h => husable.1 (hsublist.subset h), decide_eq_true
    ((Text.byteLength_le_of_sublist hsublist).trans (of_decide_eq_true husable.2))⟩

end Disk

end CodeGraph
