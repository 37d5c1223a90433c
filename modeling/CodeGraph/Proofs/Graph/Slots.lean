import CodeGraph.Graph.Slots
import Mathlib.Data.List.Nodup

/-!
# Places that are taken again

What is read at each place after every operation on slots, and what the operations keep: the vacant
places are the empty ones, each of them once.
-/

namespace CodeGraph.Slots

variable {α β : Type} {slots : Slots α} {value other : α} {place found : Nat}

/-! ### Reading -/

theorem get?_eq_some_iff :
    slots.get? place = some value ↔ slots.places[place]? = some (some value) := by
  rw [get?, Option.join_eq_some_iff]

theorem mem_toList_iff : value ∈ slots.toList ↔ ∃ place, slots.get? place = some value := by
  simp only [get?_eq_some_iff]
  rw [mem_toList, List.mem_iff_getElem?]

/-- Where no two places hold values with the same mark, the marks are listed once each. -/
theorem nodup_map_toList {mark : α → β}
    (honce : ∀ first second value other, slots.get? first = some value →
      slots.get? second = some other → mark value = mark other → first = second) :
    (slots.toList.map mark).Nodup := by
  rw [toList, List.map_filterMap, List.Nodup, List.pairwise_filterMap, List.pairwise_iff_getElem]
  intro first second hfirst hsecond hlt left hleft right hright heq
  obtain ⟨value, hvalue, rfl⟩ := Option.map_eq_some_iff.1 hleft
  obtain ⟨other, hother, rfl⟩ := Option.map_eq_some_iff.1 hright
  have hread : ∀ (index : Nat) (hindex : index < slots.places.length) (held : α),
      id slots.places[index] = some held → slots.get? index = some held := by
    intro index hindex held hheld
    rw [get?_eq_some_iff, List.getElem?_eq_getElem hindex]
    exact congrArg some hheld
  exact absurd (honce first second value other (hread _ hfirst _ hvalue) (hread _ hsecond _ hother)
    heq) (Nat.ne_of_lt hlt)

/-! ### Changes in place -/

theorem get?_modify (slots : Slots α) (place : Nat) (change : α → α) (other : Nat) :
    (slots.modify place change).get? other =
      if other = place then (slots.get? other).map change else slots.get? other := by
  rw [get?, modify, List.getElem?_modify, get?]
  by_cases heq : other = place
  · cases slots.places[other]? <;> simp [heq]
  · cases slots.places[other]? <;> simp [heq, Ne.symm heq]

/-! ### Account of the vacant places -/

/-- The vacant places are the empty ones, each of them once. -/
structure Accounted (slots : Slots α) : Prop where
  vacant : slots.vacant.Nodup
  mem_vacant : ∀ place, place ∈ slots.vacant ↔ slots.places[place]? = some none

theorem accounted_empty : ({} : Slots α).Accounted where
  vacant := List.nodup_nil
  mem_vacant := by simp

theorem Accounted.get?_next (haccounted : slots.Accounted) : slots.get? slots.next = none := by
  rw [get?, next]
  cases hvacant : slots.vacant with
  | nil => simp
  | cons free rest =>
    rw [List.headD_cons, (haccounted.mem_vacant free).1 (hvacant ▸ List.mem_cons_self)]
    rfl

theorem Accounted.ne_next (haccounted : slots.Accounted) (hheld : slots.get? place = some value) :
    place ≠ slots.next := by
  rintro rfl
  cases haccounted.get?_next.symm.trans hheld

/-- One more value takes the next place, which was empty or is new. -/
theorem Accounted.places_insert (haccounted : slots.Accounted) (value : α) (place : Nat) :
    (slots.insert value).places[place]? =
      if place = slots.next then some (some value) else slots.places[place]? := by
  rw [insert, next]
  cases hvacant : slots.vacant with
  | nil =>
    rw [List.headD_nil, List.getElem?_append]
    by_cases hplace : place = slots.places.length
    · simp [hplace]
    · rw [if_neg hplace]
      split
      · rfl
      · have hlong : slots.places.length < place := by omega
        rw [List.getElem?_eq_none (by simp; omega), List.getElem?_eq_none (Nat.le_of_lt hlong)]
  | cons free rest =>
    have hempty : slots.places[free]? = some none :=
      (haccounted.mem_vacant free).1 (hvacant ▸ List.mem_cons_self)
    obtain ⟨hlength, -⟩ := List.getElem?_eq_some_iff.1 hempty
    rw [List.headD_cons, List.getElem?_set]
    by_cases hplace : place = free
    · simp [hplace, hlength]
    · rw [if_neg (Ne.symm hplace), if_neg hplace]

theorem Accounted.get?_insert (haccounted : slots.Accounted) (value : α) (place : Nat) :
    (slots.insert value).get? place =
      if place = slots.next then some value else slots.get? place := by
  rw [get?, haccounted.places_insert, get?]
  split <;> rfl

theorem Accounted.insert (haccounted : slots.Accounted) (value : α) :
    (slots.insert value).Accounted := by
  have hplaces := haccounted.places_insert value
  have hnodup := haccounted.vacant
  have hvacant : (slots.insert value).vacant.Nodup ∧
      ∀ place, place ∈ (slots.insert value).vacant ↔ place ∈ slots.vacant ∧ place ≠ slots.next := by
    rw [Slots.insert, next]
    cases hvacant : slots.vacant with
    | nil => simp
    | cons free rest =>
      rw [hvacant] at hnodup
      obtain ⟨hfree, hrest⟩ := List.nodup_cons.1 hnodup
      refine ⟨hrest, fun place => ?_⟩
      rw [List.headD_cons, List.mem_cons]
      constructor
      · intro hmem
        exact ⟨.inr hmem, fun heq => hfree (heq ▸ hmem)⟩
      · rintro ⟨hmem, hne⟩
        exact hmem.resolve_left hne
  refine ⟨hvacant.1, fun place => ?_⟩
  rw [hvacant.2, hplaces, haccounted.mem_vacant]
  by_cases hplace : place = slots.next <;> simp [hplace]

theorem Accounted.modify (haccounted : slots.Accounted) (place : Nat) (change : α → α) :
    (slots.modify place change).Accounted := by
  refine ⟨haccounted.vacant, fun found => (haccounted.mem_vacant found).trans ?_⟩
  rw [Slots.modify, List.getElem?_modify]
  split
  · cases hheld : slots.places[found]? with
    | none => simp
    | some held => cases held <;> simp
  · cases slots.places[found]? <;> simp

/-- A place that holds a value is left empty, and is the next to be taken. -/
theorem vacate_eq (hheld : slots.get? place = some value) :
    slots.vacate place = ⟨slots.places.set place none, place :: slots.vacant⟩ := by
  rw [vacate, hheld]

theorem get?_vacate (slots : Slots α) (place other : Nat) :
    (slots.vacate place).get? other = if other = place then none else slots.get? other := by
  cases hheld : slots.get? place with
  | none =>
    have hkept : slots.vacate place = slots := by rw [vacate, hheld]
    rw [hkept]
    split
    · rename_i heq
      rw [heq, hheld]
    · rfl
  | some value =>
    rw [vacate_eq hheld, get?, List.getElem?_set]
    by_cases heq : other = place
    · obtain ⟨hlength, -⟩ := List.getElem?_eq_some_iff.1 (get?_eq_some_iff.1 hheld)
      rw [if_pos heq.symm, if_pos heq, if_pos (heq ▸ hlength)]
      rfl
    · rw [if_neg (Ne.symm heq), if_neg heq, get?]

theorem Accounted.vacate (haccounted : slots.Accounted) (place : Nat) :
    (slots.vacate place).Accounted := by
  cases hheld : slots.get? place with
  | none =>
    rw [Slots.vacate, hheld]
    exact haccounted
  | some value =>
    have hplace := get?_eq_some_iff.1 hheld
    obtain ⟨hlength, -⟩ := List.getElem?_eq_some_iff.1 hplace
    rw [vacate_eq hheld]
    refine ⟨List.nodup_cons.2 ⟨fun hvacant => ?_, haccounted.vacant⟩, fun found => ?_⟩
    · cases hplace.symm.trans ((haccounted.mem_vacant place).1 hvacant)
    · rw [List.mem_cons, List.getElem?_set, haccounted.mem_vacant]
      by_cases heq : place = found
      · simp [heq, heq ▸ hlength]
      · simp [heq, Ne.symm heq]

/-! ### Values with one place each -/

/-- The vacant places are accounted for, and no value has two places. -/
structure Sound (slots : Slots α) : Prop extends slots.Accounted where
  once : ∀ first second value, slots.get? first = some value → slots.get? second = some value →
    first = second

theorem sound_empty : ({} : Slots α).Sound where
  toAccounted := accounted_empty
  once := fun _ _ _ hfirst => by cases hfirst

theorem Sound.nodup (hsound : slots.Sound) : slots.toList.Nodup := by
  rw [← List.map_id slots.toList]
  refine nodup_map_toList fun first second value other hfirst hsecond heq => ?_
  exact hsound.once first second value hfirst (hsecond.trans (congrArg some heq.symm))

theorem Sound.insert (hsound : slots.Sound) (hnew : value ∉ slots.toList) :
    (slots.insert value).Sound := by
  have hget := hsound.get?_insert value
  have hnowhere : ∀ place, slots.get? place ≠ some value := fun place hplace =>
    hnew (mem_toList_iff.2 ⟨place, hplace⟩)
  refine ⟨hsound.toAccounted.insert value, fun first second found hfirst hsecond => ?_⟩
  rw [hget] at hfirst hsecond
  split at hfirst <;> split at hsecond
  · rename_i hold hold'
    exact hold.trans hold'.symm
  · obtain rfl := Option.some.inj hfirst
    exact absurd hsecond (hnowhere second)
  · obtain rfl := Option.some.inj hsecond
    exact absurd hfirst (hnowhere first)
  · exact hsound.once first second found hfirst hsecond

theorem Accounted.mem_insert (haccounted : slots.Accounted) :
    other ∈ (slots.insert value).toList ↔ other = value ∨ other ∈ slots.toList := by
  refine ⟨mem_of_mem_insert, fun hmem => ?_⟩
  simp only [mem_toList_iff, haccounted.get?_insert] at hmem ⊢
  obtain rfl | ⟨place, hplace⟩ := hmem
  · exact ⟨slots.next, if_pos rfl⟩
  · exact ⟨place, (if_neg (haccounted.ne_next hplace)).trans hplace⟩

section Erase

variable [DecidableEq α]

/-- The place of a value is vacant once the value goes. -/
theorem Sound.erase_eq_vacate (hsound : slots.Sound) (hheld : slots.get? place = some value) :
    slots.erase value = slots.vacate place := by
  have hmem : some value ∈ slots.places := List.mem_of_getElem? (get?_eq_some_iff.1 hheld)
  rw [erase, vacate_eq hheld]
  cases hfirst : slots.places.idxOf? (some value) with
  | none => exact absurd hmem (List.idxOf?_eq_none_iff.1 hfirst)
  | some first =>
    obtain ⟨hlength, hvalue, -⟩ := List.findIdx?_eq_some_iff_getElem.1 hfirst
    have hfound : slots.get? first = some value := by
      rw [get?_eq_some_iff, List.getElem?_eq_getElem hlength, eq_of_beq hvalue]
    rw [hsound.once first place value hfound hheld]

theorem erase_of_notMem (hnot : value ∉ slots.toList) : slots.erase value = slots := by
  rw [erase, List.idxOf?_eq_none_iff.2 fun hmem => hnot (mem_toList.2 hmem)]

theorem Sound.mem_erase (hsound : slots.Sound) :
    other ∈ (slots.erase value).toList ↔ other ∈ slots.toList ∧ other ≠ value := by
  by_cases hmem : value ∈ slots.toList
  · obtain ⟨place, hplace⟩ := mem_toList_iff.1 hmem
    simp only [hsound.erase_eq_vacate hplace, mem_toList_iff, get?_vacate]
    constructor
    · rintro ⟨found, hfound⟩
      split at hfound
      · cases hfound
      · rename_i hne
        refine ⟨⟨found, hfound⟩, ?_⟩
        rintro rfl
        exact hne (hsound.once found place other hfound hplace)
    · rintro ⟨⟨found, hfound⟩, hne⟩
      refine ⟨found, (if_neg ?_).trans hfound⟩
      rintro rfl
      exact hne (Option.some.inj (hfound.symm.trans hplace))
  · rw [erase_of_notMem hmem]
    exact ⟨fun hother => ⟨hother, fun heq => hmem (heq ▸ hother)⟩, And.left⟩

theorem Sound.erase (hsound : slots.Sound) (value : α) : (slots.erase value).Sound := by
  by_cases hmem : value ∈ slots.toList
  · obtain ⟨place, hplace⟩ := mem_toList_iff.1 hmem
    rw [hsound.erase_eq_vacate hplace]
    refine ⟨hsound.toAccounted.vacate place, fun first second held hfirst hsecond => ?_⟩
    rw [get?_vacate] at hfirst hsecond
    split at hfirst
    · cases hfirst
    · split at hsecond
      · cases hsecond
      · exact hsound.once first second held hfirst hsecond
  · rw [erase_of_notMem hmem]
    exact hsound

end Erase

/-! ### Marks of the values -/

/-- The slots with a mark of each value in its place. -/
def map (mark : α → β) (slots : Slots α) : Slots β :=
  ⟨slots.places.map (Option.map mark), slots.vacant⟩

section Map

variable {mark : α → β}

theorem get?_map (mark : α → β) (slots : Slots α) (place : Nat) :
    (slots.map mark).get? place = (slots.get? place).map mark := by
  rw [get?, map, List.getElem?_map, get?]
  cases slots.places[place]? <;> rfl

theorem toList_map (mark : α → β) (slots : Slots α) :
    (slots.map mark).toList = slots.toList.map mark := by
  rw [toList, map, List.filterMap_map, toList, List.map_filterMap]
  rfl

theorem map_insert (mark : α → β) (slots : Slots α) (value : α) :
    (slots.insert value).map mark = (slots.map mark).insert (mark value) := by
  rw [insert, insert, map, map]
  cases slots.vacant with
  | nil => simp
  | cons free rest => simp [List.map_set]

theorem map_modify {place : Nat} {change : α → α} (hkeeps : ∀ value,
    slots.get? place = some value → mark (change value) = mark value) :
    (slots.modify place change).map mark = slots.map mark := by
  rw [map, modify, map]
  congr 1
  refine List.ext_getElem? fun index => ?_
  rw [List.getElem?_map, List.getElem?_modify, List.getElem?_map]
  split
  · rename_i heq
    subst heq
    cases hheld : slots.places[place]? with
    | none => rfl
    | some held =>
      cases held with
      | none => rfl
      | some value => simp [hkeeps value (get?_eq_some_iff.2 hheld)]
  · cases slots.places[index]? <;> rfl

theorem map_vacate (mark : α → β) (slots : Slots α) (place : Nat) :
    (slots.vacate place).map mark = (slots.map mark).vacate place := by
  rw [vacate, vacate, get?_map]
  cases slots.get? place with
  | none => rfl
  | some value => simp [map, List.map_set]

end Map

end CodeGraph.Slots
