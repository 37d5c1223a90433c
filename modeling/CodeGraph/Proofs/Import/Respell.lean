import CodeGraph.Import.Respell
import CodeGraph.Proofs.Path
import CodeGraph.Proofs.Text
import CodeGraph.Text.Quoted
import Mathlib.Data.List.TakeWhile

/-!
# Respelled imports lead to the new path

What a respelled import is read as is worked out from the directories of importer and file, and
where such an import leads is worked out again when it is planned. The two agree: among the places
of the new specifier is the path that it was spelled for.
-/

namespace CodeGraph

namespace Respell

open ModulePlan CodeGraph.Path

/-! ### Rows of names -/

/-- What two rows of names begin with alike. -/
theorem exists_commonPart (left right : List String) : ∃ count, count ≤ left.length ∧
    commonPart (left.map .named) (right.map .named) = (left.take count).map .named ∧
    left.take count = right.take count := by
  induction left generalizing right with
  | nil => exact ⟨0, Nat.le_refl _, by cases right <;> rfl, rfl⟩
  | cons name rest ih =>
    cases right with
    | nil => exact ⟨0, Nat.zero_le _, rfl, rfl⟩
    | cons other others =>
      by_cases heq : name = other
      · subst heq
        obtain ⟨count, hle, hcommon, htake⟩ := ih others
        refine ⟨count + 1, Nat.succ_le_succ hle, ?_, ?_⟩
        · rw [List.map_cons, List.map_cons, commonPart, if_pos rfl, hcommon]
          rfl
        · rw [List.take_succ_cons, List.take_succ_cons, htake]
      · refine ⟨0, Nat.zero_le _, ?_, rfl⟩
        rw [List.map_cons, List.map_cons, commonPart, if_neg fun h => heq (Component.named.inj h)]
        rfl

theorem dropComponents?_named {base names : List String} {rest : List Component}
    (hrest : dropComponents? (base.map .named) (names.map .named) = some rest) :
    ∃ others, names = base ++ others ∧ rest = others.map .named := by
  induction base generalizing names with
  | nil => exact ⟨names, rfl, (Option.some.inj hrest).symm⟩
  | cons name base ih =>
    cases names with
    | nil => cases hrest
    | cons other names =>
      rw [List.map_cons, List.map_cons, dropComponents?] at hrest
      split at hrest
      · rename_i heq
        obtain ⟨others, rfl, hothers⟩ := ih hrest
        exact ⟨others, by rw [Component.named.inj heq]; rfl, hothers⟩
      · cases hrest

/-- The directory of a file is the row of names before it. -/
theorem exists_directory {path : Path} (hnormal : path.IsNormal) : ∃ names last,
    path = ofNames (names ++ [last]) ∧ (∀ name ∈ names ++ [last], IsName name) ∧
      parentDir path = ofNames names := by
  obtain ⟨names, hnames, hall, rfl⟩ := hnormal
  obtain rfl | ⟨init, last, rfl⟩ := names.eq_nil_or_concat'
  · exact absurd rfl hnames
  · exact ⟨init, last, rfl, hall, by rw [parentDir, parent?_ofNames hall]; rfl⟩

theorem parentDir_isPlain {path : Path} (hnormal : path.IsNormal) : (parentDir path).IsPlain := by
  obtain ⟨names, last, -, hall, hdirectory⟩ := exists_directory hnormal
  exact ⟨names, fun name hname => hall name (List.mem_append_left _ hname), hdirectory⟩

/-- Going down along names, one by one. -/
theorem joinAll_ofNames {base names : List String} (hbase : ∀ name ∈ base, IsName name)
    (hnames : ∀ name ∈ names, IsName name) :
    joinAll (ofNames base) names = ofNames (base ++ names) := by
  induction names generalizing base with
  | nil => rw [joinAll, List.foldl_nil, List.append_nil]
  | cons name rest ih =>
    have hname := hnames name List.mem_cons_self
    have hjoin : (ofNames base).join name = ofNames (base ++ [name]) :=
      join_ofNames hbase (List.cons_ne_nil name []) hname.head?_ne
    have hmore : ∀ other ∈ base ++ [name], IsName other := by
      simp only [List.mem_append, List.mem_singleton]
      rintro other (hother | rfl)
      · exact hbase other hother
      · exact hname
    have hrest := ih hmore fun other hother => hnames other (List.mem_cons_of_mem name hother)
    rw [joinAll, List.foldl_cons, hjoin]
    exact hrest.trans (by rw [List.append_assoc, List.singleton_append])

theorem mem_files {path : Path} {paths : List Path} (hnormal : path.IsNormal)
    (hmem : path ∈ paths) : .file path ∈ files paths := by
  obtain ⟨names, -, hall, rfl⟩ := hnormal
  exact List.mem_map_of_mem (List.mem_filterMap.2 ⟨_, hmem, normalize?_ofNames hall⟩)

/-! ### Python -/

/-- The names of the module that a respelled import of Python gives. -/
def pythonNames? (importer : Path) (fact : ImportFact) (newPath : Path) (config : LanguageConfig) :
    Option (List String) :=
  if Text.startsWith "." fact.specifier then
    pythonModule? newPath
      (ofComponents (commonPart (parentDir importer).components newPath.components))
  else (searchDirs importer config).findSome? fun base =>
    (pythonModule? newPath base).filter fun names => !names.isEmpty

/-- A part of a dotted name. -/
def IsPart (name : String) : Prop :=
  name ≠ "" ∧ '.' ∉ name.toList

theorem exists_of_pythonModule {base names module : List String}
    (hbase : ∀ name ∈ base, IsName name) (hnames : ∀ name ∈ names, IsName name)
    (hmodule : pythonModule? (ofNames names) (ofNames base) = some module) :
    ∃ packages stem, names = base ++ packages ++ [stem ++ ".py"] ∧
      module = if stem = "__init__" then packages else packages ++ [stem] := by
  rw [pythonModule?, components_ofNames hbase, components_ofNames hnames] at hmodule
  obtain ⟨rest, hrest, hfound⟩ := Option.bind_eq_some_iff.1 hmodule
  obtain ⟨others, rfl, rfl⟩ := dropComponents?_named hrest
  obtain ⟨file, hfile, hnamed⟩ := Option.bind_eq_some_iff.1 hfound
  obtain ⟨stem, hstem, hanswer⟩ := Option.bind_eq_some_iff.1 hnamed
  obtain rfl | ⟨packages, last, rfl⟩ := others.eq_nil_or_concat'
  · cases hfile
  · rw [List.map_append, List.map_singleton, List.getLast?_concat] at hfile
    obtain rfl := Option.some.inj hfile
    have hname : last = stem ++ ".py" := Text.eq_append_of_dropTail? hstem
    rw [List.map_append, List.map_singleton, List.dropLast_concat, text_named] at hanswer
    exact ⟨packages, stem, by rw [hname, List.append_assoc], (Option.some.inj hanswer).symm⟩

theorem IsPart.isName {name : String} (hpart : IsPart name) (hslash : '/' ∉ name.toList) :
    IsName name := by
  refine ⟨hpart.1, ?_, ?_, hslash⟩ <;>
  · rintro rfl
    exact hpart.2 (by decide)

theorem eq_nil_of_text {names : List String} (hall : ∀ name ∈ names, IsName name)
    (htext : (ofNames names).text = "") : names = [] := by
  by_contra hnames
  exact (isNormal_ofNames hnames hall).text_ne (congrArg Path.mk htext)

/-- A module is found again under its names. -/
theorem mem_pythonFiles {base module names : List String} (hbase : ∀ name ∈ base, IsName name)
    (hnames : ∀ name ∈ names, IsName name)
    (hmodule : pythonModule? (ofNames names) (ofNames base) = some module)
    (hparts : ∀ name ∈ module, IsPart name) :
    ofNames names ∈ pythonFiles (joinAll (ofNames base) module) := by
  obtain ⟨packages, stem, rfl, hform⟩ := exists_of_pythonModule hbase hnames hmodule
  have hpackages : ∀ name ∈ packages, IsName name := fun name hname => hnames name (by simp [hname])
  split at hform
  · rename_i hinit
    subst hinit hform
    have hall : ∀ name ∈ base ++ module, IsName name := fun name hname =>
      (List.mem_append.1 hname).elim (hbase name) (hpackages name)
    rw [joinAll_ofNames hbase hpackages, pythonFiles]
    split
    · rename_i htext
      rw [eq_nil_of_text hall htext]
      exact List.mem_singleton.2 rfl
    · have hjoin : (ofNames (base ++ module)).join "__init__.py" =
          ofNames (base ++ module ++ ["__init__.py"]) :=
        join_ofNames hall (List.cons_ne_nil _ []) (by decide)
      rw [hjoin]
      exact List.mem_cons_of_mem _ (List.mem_singleton.2 rfl)
  · subst hform
    have hstem : IsName stem := by
      refine (hparts stem (by simp)).isName fun hslash => ?_
      exact (hnames (stem ++ ".py") (by simp)).2.2.2 (by simp [hslash])
    have hbelow : ∀ name ∈ packages ++ [stem], IsName name := by
      simp only [List.mem_append, List.mem_singleton]
      rintro name (hname | rfl)
      · exact hpackages name hname
      · exact hstem
    have hall : ∀ name ∈ base ++ (packages ++ [stem]), IsName name := fun name hname =>
      (List.mem_append.1 hname).elim (hbase name) (hbelow name)
    rw [joinAll_ofNames hbase hbelow, pythonFiles,
      if_neg fun h => by simpa using eq_nil_of_text hall h]
    refine List.mem_cons.2 (.inl ?_)
    rw [withSuffix, ofNames, ofNames, Text.join_concat_append, List.append_assoc]

theorem climb?_ofNames {levels : Nat} {names : List String} (hall : ∀ name ∈ names, IsName name)
    (hlevels : levels ≤ names.length) :
    climb? levels (ofNames names) = some (ofNames (names.take (names.length - levels))) := by
  induction levels generalizing names with
  | zero => rw [climb?, Nat.sub_zero, List.take_length]
  | succ levels ih =>
    obtain rfl | ⟨init, last, rfl⟩ := names.eq_nil_or_concat'
    · cases hlevels
    · rw [List.length_append, List.length_singleton] at hlevels ⊢
      have hinit := ih (fun name hname => hall name (List.mem_append_left _ hname))
        (Nat.le_of_succ_le_succ hlevels)
      rw [climb?, if_neg fun h => by simpa using eq_nil_of_text hall h, parent?_ofNames hall]
      refine hinit.trans ?_
      rw [Nat.add_sub_add_right, List.take_append_of_le_length (Nat.sub_le _ _)]

/-- Dots and names are told apart again. -/
theorem dotted {names : List String} (hparts : ∀ name ∈ names, IsPart name) (count : Nat) :
    leadingDots (String.ofList (List.replicate count '.') ++ Text.join "." names) = count ∧
      afterDots (String.ofList (List.replicate count '.') ++ Text.join "." names) = names := by
  have hhead : (Text.join "." names).toList.head? ≠ some '.' := by
    cases names with
    | nil => simp [Text.join]
    | cons name rest =>
      obtain ⟨hempty, hdot⟩ := hparts name List.mem_cons_self
      rw [Text.head?_toList_join _ rest hempty]
      exact fun h => hdot (List.mem_of_mem_head? h)
  have hchars : (String.ofList (List.replicate count '.') ++ Text.join "." names).toList =
      List.replicate count '.' ++ (Text.join "." names).toList := by
    rw [String.toList_append, String.toList_ofList]
  have hdots : ∀ char ∈ List.replicate count '.', decide (char = '.') = true := fun char hchar =>
    decide_eq_true (List.eq_of_mem_replicate hchar)
  have hnone : ∀ chars : List Char, chars.head? ≠ some '.' →
      chars.takeWhile (· = '.') = [] ∧ chars.dropWhile (· = '.') = chars := by
    intro chars hchars
    cases chars with
    | nil => exact ⟨rfl, rfl⟩
    | cons char chars =>
      have hne : char ≠ '.' := fun h => hchars (congrArg some h)
      simp [hne]
  obtain ⟨htake, hdrop⟩ := hnone _ hhead
  constructor
  · rw [leadingDots, hchars, List.takeWhile_append_of_pos hdots, htake, List.append_nil,
      List.length_replicate]
  · rw [afterDots, hchars, List.dropWhile_append_of_pos hdots, hdrop, String.ofList_toList]
    by_cases hnames : names = []
    · subst hnames
      decide
    · have hjoin := Text.splitChars_join hnames fun name hname => (hparts name hname).2
      have hsingle : String.singleton '.' = "." := rfl
      rw [hsingle] at hjoin
      rw [Text.split, hjoin, List.map_map]
      have hback : names.map (String.ofList ∘ String.toList) = names :=
        (List.map_congr_left fun name _ => String.ofList_toList).trans (List.map_id _)
      rw [hback]
      exact List.filter_eq_self.2 fun name hname => decide_eq_true (hparts name hname).1

/-- A relative import of Python that was respelled leads to the new path. -/
theorem mem_pythonRelative {importer newPath : Path} (himporter : importer.IsNormal)
    (hnew : newPath.IsNormal) {name : String}
    (hname : pythonRelative? importer newPath = some name)
    (hparts : ∀ names, pythonModule? newPath (ofComponents (commonPart
      (parentDir importer).components newPath.components)) = some names →
      ∀ name ∈ names, IsPart name) (fact : ImportFact) (config : LanguageConfig) :
    .file newPath ∈ (python importer { fact with specifier := name } config).candidates := by
  obtain ⟨dirs, last, rfl, himporterNames, hdirectory⟩ := exists_directory himporter
  have hdirs : ∀ name ∈ dirs, IsName name := fun name h => himporterNames name (by simp [h])
  obtain ⟨names, -, hnames, rfl⟩ := id hnew
  obtain ⟨count, hcount, hcommon, -⟩ := exists_commonPart dirs names
  have hbase : ∀ name ∈ dirs.take count, IsName name := fun name h =>
    hdirs name (List.mem_of_mem_take h)
  rw [hdirectory, components_ofNames hdirs, components_ofNames hnames, hcommon,
    ofComponents_named] at hparts
  rw [pythonRelative?, hdirectory, components_ofNames hdirs, components_ofNames hnames, hcommon,
    ofComponents_named] at hname
  obtain ⟨module, hmodule, hanswer⟩ := Option.bind_eq_some_iff.1 hname
  have hlength : ((dirs.map Component.named).length - ((dirs.take count).map Component.named).length
      + 1) = dirs.length - count + 1 := by
    simp [Nat.min_eq_left hcount]
  obtain rfl := Option.some.inj hanswer
  rw [hlength]
  obtain ⟨hdots, hafter⟩ := dotted (hparts module hmodule) (dirs.length - count + 1)
  have hclimb : climb? (dirs.length - count) (ofNames dirs) = some (ofNames (dirs.take count)) := by
    rw [climb?_ofNames hdirs (Nat.sub_le _ _), Nat.sub_sub_self hcount]
  have hbases : ∀ specifier, leadingDots specifier = dirs.length - count + 1 →
      pythonBases? (ofNames (dirs ++ [last])) specifier config =
        some [ofNames (dirs.take count)] := by
    intro specifier hspecifier
    rw [pythonBases?, hspecifier]
    simp only [hdirectory, hclimb, Option.map_some]
  simp only [python, hbases _ hdots, hafter]
  refine List.mem_flatMap.2 ⟨_, List.mem_map_of_mem (List.mem_singleton.2 rfl), mem_files hnew ?_⟩
  exact mem_pythonFiles hbase hnames hmodule (hparts module hmodule)

/-- An absolute import of Python that was respelled leads to the new path. -/
theorem mem_pythonAbsolute {importer newPath : Path} (hnew : newPath.IsNormal)
    {config : LanguageConfig} {names : List String}
    (hfound : ((searchDirs importer config).findSome? fun base =>
      (pythonModule? newPath base).filter fun names => !names.isEmpty) = some names)
    (hparts : ∀ name ∈ names, IsPart name) (fact : ImportFact) :
    .file newPath ∈
      (python importer { fact with specifier := Text.join "." names } config).candidates := by
  obtain ⟨base, hbase, hfilter⟩ := List.exists_of_findSome?_eq_some hfound
  obtain ⟨hmodule, hnonempty⟩ := Option.filter_eq_some_iff.1 hfilter
  obtain ⟨dirs, hdirs, rfl⟩ : base.IsPlain := by
    rw [searchDirs, List.mem_eraseDups] at hbase
    obtain ⟨_, -, hnormalize⟩ := List.mem_filterMap.1 hbase
    exact isPlain_of_normalize? hnormalize
  obtain ⟨path, -, hpath, rfl⟩ := id hnew
  obtain ⟨hdots, hafter⟩ := dotted hparts 0
  rw [List.replicate_zero, String.ofList_nil, String.empty_append] at hdots hafter
  have hbases : pythonBases? importer (Text.join "." names) config =
      some (searchDirs importer config) := by
    rw [pythonBases?, hdots]
  simp only [python, hbases, hafter]
  refine List.mem_flatMap.2 ⟨_, List.mem_map_of_mem hbase, mem_files hnew ?_⟩
  exact mem_pythonFiles hdirs hpath hmodule hparts

/-! ### JavaScript and TypeScript -/

/-- The way from a directory to a path, as parts between slashes. -/
theorem exists_relativePath (dirs names : List String) :
    ∃ ups rest, ups ≤ dirs.length ∧ dirs.take (dirs.length - ups) ++ rest = names ∧
      relativePath (dirs.map .named) (names.map .named) =
        Text.join "/" (List.replicate ups ".." ++ rest) := by
  obtain ⟨count, hcount, hcommon, htake⟩ := exists_commonPart dirs names
  refine ⟨dirs.length - count, names.drop count, Nat.sub_le _ _, ?_, ?_⟩
  · rw [Nat.sub_sub_self hcount, htake, List.take_append_drop]
  · have hlength : ((dirs.take count).map Component.named).length = count := by
      simp [Nat.min_eq_left hcount]
    rw [relativePath]
    simp only [hcommon, hlength, List.length_map, ← List.map_drop]
    congr 2
    exact List.filterMap_map.trans List.filterMap_some

/-- What is written before a way, so that it is read as one from the directory of the importer. -/
theorem exists_shown {parts : List String} (hparts : ∀ part ∈ parts, part ≠ "") {shown : String}
    (hshown : shown = if Text.startsWith "../" (Text.join "/" parts) then Text.join "/" parts
      else if Text.join "/" parts = "" then "." else "./" ++ Text.join "/" parts) :
    ∃ dot : List String, (dot = [] ∨ dot = ["."]) ∧ dot ++ parts ≠ [] ∧
      shown = Text.join "/" (dot ++ parts) ∧ isRelative shown ∧ shown.toList.head? = some '.' := by
  split at hshown
  · rename_i hup
    obtain ⟨rest, hrest⟩ := List.isPrefixOf_iff_prefix.1 hup
    refine ⟨[], .inl rfl, ?_, hshown, ?_, ?_⟩
    · rintro rfl
      cases hrest
    · simp only [isRelative, hshown, hup, Bool.or_true, Bool.true_or]
    · rw [hshown, ← hrest]
      rfl
  · split at hshown
    · rename_i hempty
      have hnil : parts = [] := by
        cases parts with
        | nil => rfl
        | cons part rest =>
          have hpart := hparts part List.mem_cons_self
          have hhead := Text.head?_toList_join "/" rest hpart
          rw [hempty] at hhead
          exact absurd (String.toList_eq_nil_iff.1 (List.head?_eq_none_iff.1 hhead.symm)) hpart
      subst hnil hshown
      exact ⟨["."], .inr rfl, by simp, rfl, by decide, rfl⟩
    · rename_i hne
      have hnonempty : parts ≠ [] := fun h => hne (by rw [h]; rfl)
      refine ⟨["."], .inr rfl, by simp, ?_, ?_, ?_⟩
      · rw [hshown, List.singleton_append, Text.join_cons "/" "." hnonempty]
        rfl
      · have hhere : Text.startsWith "./" shown = true :=
          List.isPrefixOf_iff_prefix.2 ⟨(Text.join "/" parts).toList, by
            rw [hshown, String.toList_append]⟩
        simp only [isRelative, hhere, Bool.or_true, Bool.true_or]
      · rw [hshown, String.toList_append]
        rfl

/-- A text between quotes is what is read out of them. -/
theorem unquote_quoted {quote : Char} (hquote : quote ∈ ['"', '\'', '\x60']) (text : String) :
    Text.unquote (String.ofList (quote :: text.toList ++ [quote])) = text := by
  have hblank : Text.isBlank quote = false := by
    simp only [List.mem_cons, List.not_mem_nil, or_false] at hquote
    rcases hquote with rfl | rfl | rfl <;> decide
  have htrim :
      Text.trimChars (quote :: text.toList ++ [quote]) = quote :: text.toList ++ [quote] := by
    rw [Text.trimChars, List.cons_append, List.dropWhile_cons_of_neg (by simp [hblank]),
      ← List.cons_append, List.reverse_append, List.reverse_singleton, List.singleton_append,
      List.dropWhile_cons_of_neg (by simp [hblank])]
    simp
  have hinner : ∀ other, Text.inner? other (quote :: text.toList ++ [quote]) =
      if quote = other then some text.toList else none := by
    intro other
    rw [List.cons_append, Text.inner?, List.getLast?_concat, List.dropLast_concat]
    by_cases heq : quote = other <;> simp [heq]
  rw [Text.unquote, String.toList_ofList, htrim, hinner, hinner, hinner]
  simp only [List.mem_cons, List.not_mem_nil, or_false] at hquote
  rcases hquote with rfl | rfl | rfl <;> simp

theorem exists_splitName {name stem suffix : String}
    (hsplit : splitName name = (stem, some suffix)) : name = stem ++ "." ++ suffix ∧ stem ≠ "" := by
  rw [splitName] at hsplit
  split at hsplit
  · cases (Prod.mk.inj hsplit).2
  · rename_i first last hlast
    split at hsplit
    · cases (Prod.mk.inj hsplit).2
    · rename_i hne
      obtain ⟨rfl, hsuffix⟩ := Prod.mk.inj hsplit
      obtain rfl := Option.some.inj hsuffix
      refine ⟨?_, hne⟩
      rw [Text.splitLast?] at hlast
      split at hlast
      · rename_i hmem
        obtain ⟨rfl, rfl⟩ := Prod.mk.inj (Option.some.inj hlast)
        have hreverse := List.takeWhile_append_dropWhile (p := fun char => char ≠ '.')
          (l := name.toList.reverse)
        have hrest :
            ∃ rest, name.toList.reverse.dropWhile (fun char => char ≠ '.') = '.' :: rest := by
          cases hdrop : name.toList.reverse.dropWhile (fun char => char ≠ '.') with
          | nil =>
            rw [hdrop, List.append_nil] at hreverse
            have hmem' : '.' ∈ name.toList.reverse.takeWhile fun char => char ≠ '.' := by
              rw [hreverse]
              exact List.mem_reverse.2 hmem
            exact absurd (List.mem_takeWhile_imp hmem') (by simp)
          | cons char rest =>
            have hchar := List.head?_dropWhile_not (fun char => char ≠ '.') name.toList.reverse
            rw [hdrop] at hchar
            simp only [List.head?_cons] at hchar
            exact ⟨rest, by simpa using hchar⟩
        obtain ⟨rest, hrest⟩ := hrest
        rw [hrest] at hreverse ⊢
        rw [← String.toList_inj]
        have hback := congrArg List.reverse hreverse
        rw [List.reverse_reverse, List.reverse_append, List.reverse_cons] at hback
        simp only [String.toList_append, String.toList_ofList, List.drop_succ_cons, List.drop_zero]
        exact hback.symm
      · cases hlast

/-- Names of files that are not taken for a directory once their extension is gone. -/
def hasPlainStem (path : Path) : Bool :=
  path.stem? ≠ some "." && path.stem? ≠ some ".."

/-- The path that a specifier is to name leads to the file, whichever way it is named. -/
theorem exists_ecmaTarget {newPath : Path} (hnew : newPath.IsNormal)
    (hknown : hasKnownExtension newPath) {specifier : String}
    (hstem : hasKnownExtension ⟨specifier⟩ ∨ hasPlainStem newPath) :
    ∃ names, (∀ name ∈ names, IsName name) ∧ ecmaTarget specifier newPath = ofNames names ∧
      ∀ extensions, javascriptExtensions ⊆ extensions →
        newPath ∈ withExtensions (ofNames names) extensions := by
  obtain ⟨dirs, last, rfl, hall, hdirectory⟩ := exists_directory hnew
  have hdirs : ∀ name ∈ dirs, IsName name := fun name h => hall name (by simp [h])
  have hlast := hall last (by simp)
  obtain ⟨stem, suffix, hsplit, hsuffix⟩ : ∃ stem suffix, splitName last = (stem, some suffix) ∧
      suffix ∈ javascriptExtensions := by
    rw [hasKnownExtension, extension?, fileName?_ofNames hall, Option.bind_some] at hknown
    obtain ⟨suffix, hsplit, hsuffix⟩ := (Option.any_eq_true _ _).1 hknown
    exact ⟨(splitName last).1, suffix, Prod.ext rfl hsplit, by simpa using hsuffix⟩
  obtain ⟨hname, hempty⟩ := exists_splitName hsplit
  have hstemName : (ofNames (dirs ++ [last])).stem? = some stem := by
    rw [stem?, fileName?_ofNames hall, Option.map_some, hsplit]
  rw [ecmaTarget]
  split
  · refine ⟨dirs ++ [last], hall, rfl, fun extensions _ => ?_⟩
    rw [withExtensions, if_pos hknown]
    exact List.mem_append_left _ (List.mem_append_left _ List.mem_cons_self)
  · rename_i hunknown
    split
    · rename_i hindex
      rw [hstemName] at hindex
      obtain rfl := Option.some.inj hindex.1
      refine ⟨dirs, hdirs, hdirectory, fun extensions hextensions => ?_⟩
      have hdot : "index" ++ "." = "index." := by decide
      have hjoin : (ofNames dirs).join ("index." ++ suffix) = ofNames (dirs ++ [last]) := by
        rw [← hdot, ← hname]
        exact join_ofNames hdirs (List.cons_ne_nil last []) hlast.head?_ne
      rw [withExtensions, ← hjoin]
      exact List.mem_append_right _ (List.mem_map_of_mem (hextensions hsuffix))
    · have hstemIs : IsName stem := by
        have hstem := hstem.resolve_left hunknown
        simp only [hasPlainStem, hstemName, Bool.and_eq_true, decide_eq_true_eq, ne_eq,
          Option.some.injEq] at hstem
        refine ⟨hempty, hstem.1, hstem.2, fun hslash => hlast.2.2.2 ?_⟩
        rw [hname]
        simp [hslash]
      have hnames : ∀ name ∈ dirs ++ [stem], IsName name := by
        simp only [List.mem_append, List.mem_singleton]
        rintro name (hname | rfl)
        · exact hdirs name hname
        · exact hstemIs
      refine ⟨dirs ++ [stem], hnames, ?_, fun extensions hextensions => ?_⟩
      · rw [withExtension, hstemName, components_ofNames hall, List.map_append, List.map_singleton,
          List.dropLast_concat]
        simp only [if_true]
        rw [← ofComponents_named, List.map_append, List.map_singleton]
      · have hwhole : withSuffix (ofNames (dirs ++ [stem])) ("." ++ suffix) =
            ofNames (dirs ++ [last]) := by
          rw [withSuffix, ofNames, ofNames, ← Text.join_concat_append, hname, String.append_assoc]
        rw [withExtensions, ← hwhole]
        exact List.mem_append_left _ (List.mem_append_right _
          (List.mem_map_of_mem (hextensions hsuffix)))

/-- A relative specifier that was respelled leads to the new path. -/
theorem mem_ecma {importer newPath : Path} (himporter : (parentDir importer).IsPlain)
    (hnew : newPath.IsNormal) (hknown : hasKnownExtension newPath) {fact : ImportFact}
    (hstem : hasKnownExtension ⟨fact.specifier⟩ ∨ hasPlainStem newPath) {spelled text : String}
    (htext : ecma? importer fact spelled newPath = some text) (language : Language)
    (config : LanguageConfig) : .file newPath ∈
      (ecma language importer { fact with specifier := Text.unquote text } config).candidates := by
  obtain ⟨dirs, hdirs, hdirectory⟩ := himporter
  obtain ⟨names, hnames, htarget, hmem⟩ := exists_ecmaTarget hnew hknown hstem
  obtain ⟨ups, rest, hups, rfl, hrelative⟩ := exists_relativePath dirs names
  have hrest : ∀ name ∈ rest, IsName name := fun name h => hnames name (by simp [h])
  have hparts : ∀ part ∈ List.replicate ups ".." ++ rest, part ≠ "" := by
    simp only [List.mem_append, List.mem_replicate]
    rintro part (⟨-, rfl⟩ | hpart)
    · decide
    · exact (hrest part hpart).1
  obtain ⟨quote, hquote, shown, hshown, hanswer⟩ : ∃ quote, quote ∈ ['"', '\'', '\x60'] ∧
      ∃ shown, (shown = if Text.startsWith "../" (Text.join "/" (List.replicate ups ".." ++ rest))
        then Text.join "/" (List.replicate ups ".." ++ rest)
        else if Text.join "/" (List.replicate ups ".." ++ rest) = "" then "."
        else "./" ++ Text.join "/" (List.replicate ups ".." ++ rest)) ∧
      text = String.ofList (quote :: shown.toList ++ [quote]) := by
    rw [ecma?, hdirectory, htarget, components_ofNames hdirs, components_ofNames hnames,
      hrelative] at htext
    split at htext
    · cases htext
    · obtain ⟨quote, -, hrest⟩ := Option.bind_eq_some_iff.1 htext
      dsimp only at hrest
      split at hrest
      · cases hrest
      · rename_i hquote
        exact ⟨quote, not_not.1 hquote, _, rfl, (Option.some.inj hrest).symm⟩
  subst hanswer
  rw [unquote_quoted hquote]
  obtain ⟨dot, hdot, hnonempty, rfl, hisRelative, hhead⟩ := exists_shown hparts hshown
  have hslash : (Text.join "/" (dot ++ (List.replicate ups ".." ++ rest))).toList.head? ≠
      some '/' := by
    rw [hhead]
    decide
  have hbase : (ofNames dirs).join (Text.join "/" (dot ++ (List.replicate ups ".." ++ rest))) =
      ofNames (dirs ++ dot ++ (List.replicate ups ".." ++ rest)) :=
    (join_ofNames hdirs hnonempty hslash).trans (by rw [List.append_assoc])
  have hhere : Text.dropHead? "/" (Text.join "/" (dot ++ (List.replicate ups ".." ++ rest))) =
      none := by
    rw [Text.dropHead?, if_neg]
    intro hprefix
    obtain ⟨chars, hchars⟩ := List.isPrefixOf_iff_prefix.1 hprefix
    exact hslash (by rw [← hchars]; rfl)
  simp only [ecma, if_pos hisRelative, hhere, hdirectory, hbase,
    normalize?_detour hdirs hrest hdot hups]
  refine mem_files hnew (hmem _ ?_)
  split
  · decide
  · exact List.Subset.refl _

/-! ### The new specifier -/

end Respell

/-- The module that a specifier names, as it is read off what stands at its place. -/
def Language.readSpecifier (language : Language) (written : String) : String :=
  match language with
  | .javascript | .typescript => Text.unquote written
  | .python | .go | .rust | .java | .other => written

namespace Respell

open ModulePlan CodeGraph.Path

/-- Whether a language spells an import by place: Python any, JavaScript and TypeScript those whose
specifier is relative. -/
def isPlaced (language : Language) (specifier : String) : Bool :=
  match language with
  | .python => true
  | .javascript | .typescript => isRelative specifier
  | .go | .rust | .java | .other => false

/-- Whether a specifier may begin with a character: with a quote in JavaScript and TypeScript. -/
def begins (language : Language) (char : Char) : Bool :=
  match language with
  | .javascript | .typescript => char ∈ ['"', '\'', '\x60']
  | .python | .go | .rust | .java | .other => true

/-- What stands for the module in a respelled import: its new name, in quotes where it had some. -/
def core? (language : Language) (importer : Path) (fact : ImportFact) (spelled : String)
    (newPath : Path) (config : LanguageConfig) : Option String :=
  match language with
  | .python =>
    if Text.startsWith "." fact.specifier then pythonRelative? importer newPath
    else (pythonNames? importer fact newPath config).map (Text.join ".")
  | .javascript | .typescript => ecma? importer fact spelled newPath
  | .go | .rust | .java | .other => none

/-- The new text of an import: in Python `import a` becomes `import b as a`. -/
def withName (language : Language) (fact : ImportFact) (core : String) : String :=
  if language = .python ∧ ¬ Text.startsWith "." fact.specifier ∧ bindsModulePath fact ∧
      '.' ∉ fact.specifier.toList ∧ core ≠ fact.specifier then core ++ " as " ++ fact.specifier
  else core

/-- Whether a path can be spelled in an import: its names are parts of a dotted name, or it is left
with a name when its extension is dropped. -/
def canSpell (language : Language) (importer : Path) (fact : ImportFact) (newPath : Path)
    (config : LanguageConfig) : Bool :=
  match language with
  | .python => (pythonNames? importer fact newPath config).any fun names =>
      names.all fun name => name ≠ "" && '.' ∉ name.toList
  | .javascript | .typescript => hasKnownExtension newPath && hasPlainStem newPath
  | .go | .rust | .java | .other => false

section Core

variable {language : Language} {importer newPath : Path} {fact : ImportFact} {spelled : String}
  {config : LanguageConfig}

/-- The new text of an import is made from what stands for the module. -/
theorem specifier?_eq : specifier? language importer fact spelled newPath config =
    (core? language importer fact spelled newPath config).map (withName language fact) := by
  cases language with
  | python =>
    rw [specifier?, python?, core?, pythonNames?]
    by_cases hrelative : Text.startsWith "." fact.specifier
    · simp only [if_pos hrelative]
      cases pythonRelative? importer newPath with
      | none => rfl
      | some core => simp [withName, hrelative]
    · simp only [if_neg hrelative, Option.map_map]
      cases (searchDirs importer config).findSome? fun base =>
        (pythonModule? newPath base).filter fun names => !names.isEmpty with
      | none => rfl
      | some names =>
        rw [Option.map_some, Function.comp_apply, withName]
        simp only [Option.bind_eq_bind, Option.bind_some, Option.pure_def]
        split <;> simp_all
  | javascript | typescript =>
    rw [specifier?, core?]
    have hname : ∀ core, withName .javascript fact core = core ∧ withName .typescript fact core = core :=
      fun core => ⟨if_neg (by simp), if_neg (by simp)⟩
    cases ecma? importer fact spelled newPath with
    | none => rfl
    | some core => simp [hname]
  | go | rust | java | other => rfl

/-- What stands for the module comes first. -/
theorem exists_withName (language : Language) (fact : ImportFact) (core : String) :
    ∃ rest, withName language fact core = core ++ rest := by
  rw [withName]
  split
  · exact ⟨" as " ++ fact.specifier, String.append_assoc⟩
  · exact ⟨"", String.append_empty.symm⟩

/-- An import that stays as it was has no name put behind its specifier. -/
theorem eq_of_withName {core written : String} (hsame : withName language fact core = written)
    (hread : language = .python → fact.specifier = written) : core = written := by
  rw [withName] at hsame
  split at hsame
  · rename_i hnamed
    have hsize := congrArg Text.size hsame
    rw [hread hnamed.1, Text.size_append, Text.size_append, show Text.size " as " = 4 from rfl]
      at hsize
    omega
  · exact hsame

/-- The specifier decides what an import becomes. -/
theorem core?_congr {other : ImportFact} (hspecifier : other.specifier = fact.specifier) :
    core? language importer other spelled newPath config =
      core? language importer fact spelled newPath config := by
  cases language with
  | python => simp only [core?, pythonNames?, hspecifier]
  | javascript | typescript => simp only [core?, ecma?, hspecifier]
  | go | rust | java | other => rfl

theorem isPlaced_of_core? {core : String}
    (hcore : core? language importer fact spelled newPath config = some core) :
    isPlaced language fact.specifier := by
  cases language with
  | python => rfl
  | javascript | typescript =>
    rw [core?, ecma?] at hcore
    by_contra hplaced
    simp only [isPlaced, Bool.not_eq_true] at hplaced
    simp [hplaced] at hcore
  | go | rust | java | other => cases hcore

/-- An import that is spelled by place gets a new name for every path that can be spelled. -/
theorem exists_core? (hplaced : isPlaced language fact.specifier)
    (hspell : canSpell language importer fact newPath config)
    (hbegins : spelled.toList.head?.any (begins language)) :
    ∃ core, core? language importer fact spelled newPath config = some core := by
  cases language with
  | python =>
    obtain ⟨names, hnames, -⟩ := (Option.any_eq_true _ _).1 hspell
    rw [core?, hnames]
    split
    · rename_i hrelative
      rw [pythonNames?, if_pos hrelative] at hnames
      exact ⟨_, by rw [pythonRelative?, hnames]; rfl⟩
    · exact ⟨_, rfl⟩
  | javascript | typescript =>
    obtain ⟨quote, hquote, hbegins⟩ := (Option.any_eq_true _ _).1 hbegins
    rw [begins, decide_eq_true_eq] at hbegins
    rw [isPlaced] at hplaced
    rw [core?, ecma?, hplaced, hquote]
    simp only [Option.bind_eq_bind, Option.bind_some]
    rw [if_neg (not_not.2 hbegins)]
    exact ⟨_, rfl⟩
  | go | rust | java | other => cases hplaced

/-- **A respelled import leads to the new path**: that is among the places where the module it names
may live. -/
theorem mem_candidates_of_core? (himporter : importer.IsNormal) (hnew : newPath.IsNormal)
    (hspell : canSpell language importer fact newPath config) {core : String}
    (hcore : core? language importer fact spelled newPath config = some core) :
    .file newPath ∈ (make language importer
      { fact with specifier := language.readSpecifier core } config).candidates := by
  cases language with
  | python =>
    have hparts : ∀ names, pythonNames? importer fact newPath config = some names →
        ∀ name ∈ names, IsPart name := by
      intro names hnames name hname
      rw [canSpell, hnames, Option.any_some, List.all_eq_true] at hspell
      simpa [IsPart] using hspell name hname
    rw [core?] at hcore
    split at hcore
    · rename_i hrelative
      rw [pythonNames?, if_pos hrelative] at hparts
      exact mem_pythonRelative himporter hnew hcore hparts fact config
    · rename_i hrelative
      obtain ⟨names, hnames, rfl⟩ := Option.map_eq_some_iff.1 hcore
      have hparts := hparts names hnames
      rw [pythonNames?, if_neg hrelative] at hnames
      exact mem_pythonAbsolute hnew hnames hparts fact
  | javascript | typescript =>
    rw [canSpell, Bool.and_eq_true] at hspell
    have hmem := mem_ecma (parentDir_isPlain himporter) hnew hspell.1 (.inr hspell.2) hcore
    rw [make]
    exact hmem _ config
  | go | rust | java | other => cases hcore

end Core

end Respell

end CodeGraph
