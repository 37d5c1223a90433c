import CodeGraph.Proofs.Facts.Spots
import CodeGraph.Proofs.Text
import CodeGraph.Workspace.Move
import Mathlib.Data.List.TakeWhile

/-!
# Replacements in a text

Replacements that lie apart can be made from the back to the front of a text: each finds its range as it
was, so that what comes out is the old text with all of them in place at once.
-/

namespace CodeGraph.Replacement

/-! ### In order -/

/-- After the first of those that begin at one place, the others all begin later. -/
theorem lt_of_mem_dropWhile {place : Nat} {replacements : List Replacement}
    (hordered : replacements.Pairwise fun left right => left.range.start < right.range.start)
    (hle : ∀ replacement ∈ replacements, place ≤ replacement.range.start) {replacement : Replacement}
    (hmem : replacement ∈ replacements.dropWhile fun next => next.range.start = place) :
    place < replacement.range.start := by
  cases replacements with
  | nil => cases hmem
  | cons head rest =>
    obtain ⟨hhead, -⟩ := List.pairwise_cons.1 hordered
    have hplace := hle head List.mem_cons_self
    by_cases heq : head.range.start = place
    · rw [List.dropWhile_cons_of_pos (by simpa using heq)] at hmem
      exact heq ▸ hhead replacement ((List.dropWhile_sublist _).subset hmem)
    · rw [List.dropWhile_cons_of_neg (by simpa using heq)] at hmem
      obtain rfl | hrest := List.mem_cons.1 hmem
      · exact hplace.lt_of_ne (Ne.symm heq)
      · exact hplace.trans_lt (hhead replacement hrest)

/-- Of sorted replacements, those that are the first at their places. -/
theorem firsts_spec {sorted : List Replacement}
    (hsorted : sorted.Pairwise fun left right => left.range.start ≤ right.range.start) :
    let firsts := sorted.foldr (fun head rest =>
      head :: rest.dropWhile fun next => next.range.start = head.range.start) []
    firsts.Sublist sorted ∧
      firsts.Pairwise fun left right => left.range.start < right.range.start := by
  intro firsts
  induction sorted with
  | nil => exact ⟨List.Sublist.refl _, .nil⟩
  | cons head rest ih =>
    obtain ⟨hhead, hrest⟩ := List.pairwise_cons.1 hsorted
    obtain ⟨hsublist, hordered⟩ := ih hrest
    have hdrop := List.dropWhile_sublist (l := rest.foldr (fun head rest =>
      head :: rest.dropWhile fun next => next.range.start = head.range.start) [])
      fun next => next.range.start = head.range.start
    refine ⟨(hdrop.trans hsublist).cons_cons head, List.pairwise_cons.2 ⟨?_, hordered.sublist hdrop⟩⟩
    intro replacement hmem
    exact lt_of_mem_dropWhile hordered
      (fun other hother => hhead other (hsublist.subset hother)) hmem

/-- Some of the replacements, at places that grow. -/
theorem inOrder_spec (replacements : List Replacement) :
    inOrder replacements ⊆ replacements ∧ (inOrder replacements).Pairwise fun left right =>
      left.range.start < right.range.start := by
  have hsorted : (replacements.mergeSort fun left right =>
      left.range.start ≤ right.range.start).Pairwise fun left right =>
      decide (left.range.start ≤ right.range.start) = true := List.pairwise_mergeSort
    (fun _ _ _ hleft hright => by simp only [decide_eq_true_eq] at *; omega)
    (fun _ _ => by simp only [Bool.or_eq_true, decide_eq_true_eq]; omega) replacements
  obtain ⟨hsublist, hordered⟩ := firsts_spec (hsorted.imp of_decide_eq_true)
  exact ⟨fun replacement hmem => List.mem_mergeSort.1 (hsublist.subset hmem), hordered⟩

theorem mem_dropWhile {place : Nat} {replacements : List Replacement} {replacement : Replacement}
    (hmem : replacement ∈ replacements) (hne : replacement.range.start ≠ place) :
    replacement ∈ replacements.dropWhile fun next => next.range.start = place := by
  rw [← List.takeWhile_append_dropWhile (p := fun next : Replacement =>
    decide (next.range.start = place)) (l := replacements), List.mem_append] at hmem
  exact hmem.resolve_left fun htaken => hne (by simpa using List.mem_takeWhile_imp htaken)

/-- Of the replacements that begin at one place the first is kept. -/
theorem exists_mem_firsts {replacements : List Replacement} {replacement : Replacement}
    (hmem : replacement ∈ replacements) :
    ∃ kept ∈ replacements.foldr (fun head rest =>
        head :: rest.dropWhile fun next => next.range.start = head.range.start) [],
      kept.range.start = replacement.range.start := by
  induction replacements with
  | nil => cases hmem
  | cons head rest ih =>
    rw [List.foldr_cons]
    obtain rfl | hrest := List.mem_cons.1 hmem
    · exact ⟨_, List.mem_cons_self, rfl⟩
    · obtain ⟨kept, hkept, hstart⟩ := ih hrest
      by_cases hsame : kept.range.start = head.range.start
      · exact ⟨head, List.mem_cons_self, hsame.symm.trans hstart⟩
      · exact ⟨kept, List.mem_cons_of_mem _ (mem_dropWhile hkept hsame), hstart⟩

theorem exists_mem_inOrder {replacements : List Replacement} {replacement : Replacement}
    (hmem : replacement ∈ replacements) :
    ∃ kept ∈ inOrder replacements, kept.range.start = replacement.range.start :=
  exists_mem_firsts (List.mem_mergeSort.2 hmem)

/-! ### All at once -/

/-- The text from a place on, with the replacements put in for their ranges. There is none if the ranges
overlap, are not in order or part a character. -/
def weave (text : String) : Nat → List Replacement → Option String
  | place, [] => Text.slice? text place (Text.size text)
  | place, replacement :: rest => do
    let before ← Text.slice? text place replacement.range.start
    let _ ← Text.slice? text replacement.range.start replacement.range.stop
    let after ← weave text replacement.range.stop rest
    return before ++ replacement.text ++ after

/-- The replacements put in all at once are the ones made one by one, none of which fails. The induction
is on the replacements; the text before the place stays as it is. -/
theorem applyAll_of_weave {text head tail woven : String} {replacements : List Replacement}
    (htext : text = head ++ tail)
    (hwoven : weave text (Text.size head) replacements = some woven) :
    applyAll text replacements = (head ++ woven, replacements.reverse.map fun replacement =>
      TextEdit.replace replacement.range (Text.size replacement.text)) := by
  induction replacements generalizing head tail woven with
  | nil =>
    have htail := Text.slice?_of_parts head tail ""
    rw [String.append_empty, ← Text.size_append, ← htext] at htail
    rw [weave, htail] at hwoven
    rw [← Option.some.inj hwoven, ← htext]
    rfl
  | cons replacement rest ih =>
    obtain ⟨before, hbefore, hmore⟩ := Option.bind_eq_some_iff.1 hwoven
    obtain ⟨removed, hremoved, hmore⟩ := Option.bind_eq_some_iff.1 hmore
    obtain ⟨after, hafter, hmore⟩ := Option.bind_eq_some_iff.1 hmore
    obtain ⟨first, middle, hfirst, hsize, hstart⟩ := Text.exists_parts_of_slice? hbefore
    obtain ⟨front, back, hfront, hsize', hstop⟩ := Text.exists_parts_of_slice? hremoved
    obtain ⟨rfl, rfl⟩ : first = head ∧ before ++ middle = tail := by
      refine Text.append_inj_of_size ?_ hsize
      rw [← String.append_assoc, ← hfirst, htext]
    obtain ⟨rfl, -⟩ : front = first ++ before ∧ removed ++ back = middle := by
      refine Text.append_inj_of_size ?_ (by rw [hsize', Text.size_append, hstart])
      rw [← String.append_assoc, ← hfront, hfirst]
    have hplace : Text.size (first ++ before ++ removed) = replacement.range.stop := by
      rw [Text.size_append, hsize', hstop]
    have hrest := ih hfront (hplace ▸ hafter)
    have hsplice : Text.splice? (first ++ before ++ removed ++ after) replacement.range.start
        replacement.range.stop replacement.text =
          some (first ++ before ++ replacement.text ++ after) := by
      rw [← hsize', ← hstop, ← hsize']
      exact Text.splice?_of_parts _ removed after replacement.text
    rw [applyAll] at hrest
    rw [applyAll, List.reverse_cons, List.foldl_append, hrest, List.foldl_cons, List.foldl_nil,
      apply]
    rw [hsplice, ← Option.some.inj hmore, List.map_append]
    simp only [String.append_assoc]
    rfl

/-- Replacements in order, each of a range of the text, can be put in all at once. -/
theorem exists_weave {text : String} {place : Nat} {replacements : List Replacement}
    (hplace : Text.isBoundary text place)
    (hordered : replacements.Pairwise fun left right => left.range.stop ≤ right.range.start)
    (hstart : ∀ replacement ∈ replacements, place ≤ replacement.range.start)
    (hranges : ∀ replacement ∈ replacements,
      ∃ removed, Text.slice? text replacement.range.start replacement.range.stop = some removed) :
    ∃ woven, weave text place replacements = some woven := by
  induction replacements generalizing place with
  | nil =>
    have hsize := Text.isBoundary_of_append text ""
    rw [String.append_empty] at hsize
    exact Text.exists_slice? hplace hsize (Text.le_size_of_isBoundary hplace)
  | cons replacement rest ih =>
    obtain ⟨hhead, hrest⟩ := List.pairwise_cons.1 hordered
    obtain ⟨removed, hremoved⟩ := hranges replacement List.mem_cons_self
    obtain ⟨hboundary, hboundary'⟩ := Text.boundaries_of_slice? hremoved
    obtain ⟨before, hbefore⟩ := Text.exists_slice? hplace hboundary
      (hstart replacement List.mem_cons_self)
    obtain ⟨after, hafter⟩ := ih hboundary' hrest hhead fun other hother =>
      hranges other (List.mem_cons_of_mem replacement hother)
    exact ⟨_, by rw [weave, hbefore, hremoved, hafter]; rfl⟩

/-! ### Places in what comes out -/

/-- Where a place of the old text lies in what is woven from another place on, unless the text there
is replaced. -/
def carry : Nat → List Replacement → Nat → Nat
  | place, [], offset => offset - place
  | place, replacement :: rest, offset =>
    if offset ≤ replacement.range.start then offset - place
    else replacement.range.start - place + Text.size replacement.text +
      carry replacement.range.stop rest offset

/-- Replacements that each take some text out, one after the other. -/
structure Separate (replacements : List Replacement) : Prop where
  apart : replacements.Pairwise fun left right => left.range.stop ≤ right.range.start
  proper : ∀ replacement ∈ replacements, replacement.range.start < replacement.range.stop

theorem Separate.tail {replacement : Replacement} {rest : List Replacement}
    (hseparate : Separate (replacement :: rest)) : Separate rest :=
  ⟨(List.pairwise_cons.1 hseparate.apart).2, fun other hother =>
    hseparate.proper other (List.mem_cons_of_mem _ hother)⟩

section Places

variable {text : String} {place : Nat} {replacements : List Replacement} {woven : String}
  (hwoven : weave text place replacements = some woven) (hseparate : Separate replacements)

include hwoven hseparate

/-- A replacement stands where the place at which it begins has come to. -/
theorem exists_parts_of_replacement {replacement : Replacement}
    (hmem : replacement ∈ replacements) : ∃ head tail, woven = head ++ replacement.text ++ tail ∧
      Text.size head = carry place replacements replacement.range.start := by
  induction replacements generalizing place woven with
  | nil => cases hmem
  | cons first rest ih =>
    obtain ⟨before, hbefore, hmore⟩ := Option.bind_eq_some_iff.1 hwoven
    obtain ⟨removed, -, hmore⟩ := Option.bind_eq_some_iff.1 hmore
    obtain ⟨after, hafter, hmore⟩ := Option.bind_eq_some_iff.1 hmore
    obtain rfl := Option.some.inj hmore
    have hsize := Text.add_size_of_slice? hbefore
    obtain rfl | hrest := List.mem_cons.1 hmem
    · refine ⟨before, after, rfl, ?_⟩
      rw [carry, if_pos le_rfl]
      omega
    · obtain ⟨head, tail, rfl, hhead⟩ := ih hafter hseparate.tail hrest
      have hproper := hseparate.proper first List.mem_cons_self
      have hapart := (List.pairwise_cons.1 hseparate.apart).1 replacement hrest
      refine ⟨before ++ first.text ++ head, tail, by simp only [String.append_assoc], ?_⟩
      rw [carry, if_neg (by omega), Text.size_append, Text.size_append, hhead]
      omega

/-- What lies apart from all replacements is kept, where its place has come to. -/
theorem exists_parts_of_kept {range : ByteRange} {piece : String}
    (hpiece : Text.slice? text range.start range.stop = some piece) (hplace : place ≤ range.start)
    (hapart : ∀ replacement ∈ replacements, replacement.range.Apart range) :
    ∃ head tail, woven = head ++ piece ++ tail ∧
      Text.size head = carry place replacements range.start := by
  induction replacements generalizing place woven with
  | nil =>
    have hstop := Text.le_size_of_isBoundary (Text.boundaries_of_slice? hpiece).2
    obtain ⟨head, tail, rfl, hhead⟩ := Text.exists_parts_of_inside hwoven hpiece hplace hstop
    refine ⟨head, tail, rfl, ?_⟩
    rw [carry]
    omega
  | cons first rest ih =>
    obtain ⟨before, hbefore, hmore⟩ := Option.bind_eq_some_iff.1 hwoven
    obtain ⟨removed, -, hmore⟩ := Option.bind_eq_some_iff.1 hmore
    obtain ⟨after, hafter, hmore⟩ := Option.bind_eq_some_iff.1 hmore
    obtain rfl := Option.some.inj hmore
    have hsize := Text.add_size_of_slice? hbefore
    obtain hleft | hright := hapart first List.mem_cons_self
    · obtain ⟨head, tail, rfl, hhead⟩ := ih hafter hseparate.tail hleft fun other hother =>
        hapart other (List.mem_cons_of_mem _ hother)
      have hproper := hseparate.proper first List.mem_cons_self
      refine ⟨before ++ first.text ++ head, tail, by simp only [String.append_assoc], ?_⟩
      rw [carry, if_neg (by omega), Text.size_append, Text.size_append, hhead]
      omega
    · obtain ⟨head, tail, rfl, hhead⟩ :=
        Text.exists_parts_of_inside hbefore hpiece hplace hright
      have hlength := Text.add_size_of_slice? hpiece
      refine ⟨head, tail ++ first.text ++ after, by simp only [String.append_assoc], ?_⟩
      rw [carry, if_pos (by omega)]
      omega

end Places

/-- Replacements of a text that do not get in each other's way, with what comes out: their ranges lie
apart and part no character, all of them are made, and all at once they give the same text. -/
structure Splices (text : String) (replacements : List Replacement) (after : String) : Prop where
  apart : replacements.Pairwise fun left right => left.range.stop ≤ right.range.start
  whole : ∀ replacement ∈ replacements, replacement.range.start ≤ replacement.range.stop ∧
    Text.isBoundary text replacement.range.start ∧ Text.isBoundary text replacement.range.stop
  woven : weave text 0 replacements = some after
  applied : applyAll text replacements = (after, replacements.reverse.map fun replacement =>
    TextEdit.replace replacement.range (Text.size replacement.text))

theorem exists_splices {text : String} {replacements : List Replacement}
    (hordered : replacements.Pairwise fun left right => left.range.stop ≤ right.range.start)
    (hranges : ∀ replacement ∈ replacements,
      ∃ removed, Text.slice? text replacement.range.start replacement.range.stop = some removed) :
    ∃ after, Splices text replacements after := by
  have hzero : Text.isBoundary text 0 := by rw [Text.isBoundary, Text.cut?_zero]; rfl
  obtain ⟨after, hwoven⟩ := exists_weave hzero hordered (fun _ _ => Nat.zero_le _) hranges
  have happlied := applyAll_of_weave (String.empty_append (s := text)).symm hwoven
  rw [String.empty_append] at happlied
  refine ⟨after, hordered, fun replacement hmem => ?_, hwoven, happlied⟩
  obtain ⟨removed, hremoved⟩ := hranges replacement hmem
  obtain ⟨-, -, -, -, hstop⟩ := Text.exists_parts_of_slice? hremoved
  exact ⟨hstop ▸ Nat.le_add_right _ _, Text.boundaries_of_slice? hremoved⟩

end CodeGraph.Replacement
