import CodeGraph.Facts.Pairing
import Mathlib.Data.List.Nodup

/-!
# Matchings are one to one

A sweep gives each new item at most one old item, never one that is taken, and only one that fits.
So pairing hands no old id to two new facts, and every pair has what it was made for in common.
-/

namespace CodeGraph

namespace Matching

variable {α β : Type}

/-- Every pair is one of an old and a new item that belong together, and no old item is in two. -/
structure Sound (belong : α → α → Prop) (olds news : List α) (matching : Matching) : Prop where
  length : matching.length = news.length
  fits : ∀ index old, matching.partner? index = some old →
    ∃ before after, olds[old]? = some before ∧ news[index]? = some after ∧ belong before after
  injective : ∀ first second old, matching.partner? first = some old →
    matching.partner? second = some old → first = second

theorem partner?_empty (count index : Nat) : (empty count).partner? index = none := by
  rw [partner?, empty, List.getElem?_replicate]
  split <;> rfl

theorem sound_empty (belong : α → α → Prop) (olds news : List α) :
    Sound belong olds news (empty news.length) where
  length := List.length_replicate
  fits := by
    intro index old hpartner
    rw [partner?_empty] at hpartner
    cases hpartner
  injective := by
    intro first second old hfirst
    rw [partner?_empty] at hfirst
    cases hfirst

theorem isTaken_iff {matching : Matching} {old : Nat} :
    matching.isTaken old = true ↔ ∃ index, matching.partner? index = some old := by
  rw [isTaken, List.contains_iff_mem, List.mem_iff_getElem?]
  simp only [partner?, Option.join_eq_some_iff]

theorem partner?_set {matching : Matching} {index old : Nat} (hindex : index < matching.length)
    (other : Nat) :
    partner? (matching.set index (some old)) other =
      if other = index then some old else matching.partner? other := by
  rw [partner?, partner?, List.getElem?_set]
  split
  · rename_i heq
    subst heq
    simp
  · rename_i hne
    rw [if_neg (Ne.symm hne)]

theorem exists_of_firstFree? {matching : Matching} {olds : List α} {fits : α → Bool} {old : Nat}
    (hfree : matching.firstFree? olds fits = some old) :
    matching.isTaken old = false ∧ ∃ before, olds[old]? = some before ∧ fits before = true := by
  obtain ⟨⟨before, index⟩, hfind, rfl⟩ := Option.map_eq_some_iff.1 hfree
  have hwanted := List.find?_some hfind
  rw [Bool.and_eq_true, Bool.not_eq_true'] at hwanted
  exact ⟨hwanted.1, before, List.mem_zipIdx_iff_getElem?.1 (List.mem_of_find?_eq_some hfind),
    hwanted.2⟩

theorem Sound.claim {belong : α → α → Prop} {olds news : List α} {matching : Matching}
    {fits : Matching → α → α → Bool} (hsound : Sound belong olds news matching)
    (hfits : ∀ matching before after, fits matching before after = true → belong before after)
    {entry : α × Nat} (hentry : news[entry.2]? = some entry.1) :
    Sound belong olds news (matching.claim olds fits entry) := by
  obtain ⟨new, index⟩ := entry
  rw [Matching.claim]
  split
  · exact hsound
  · split
    · rename_i old hfree
      obtain ⟨huntaken, before, hbefore, hfit⟩ := exists_of_firstFree? hfree
      have hindex : index < matching.length := by
        rw [hsound.length]
        exact (List.getElem?_eq_some_iff.1 hentry).1
      have hunused : ∀ other, matching.partner? other ≠ some old := by
        intro other hother
        rw [isTaken_iff.2 ⟨other, hother⟩] at huntaken
        cases huntaken
      refine ⟨by rw [List.length_set, hsound.length], ?_, ?_⟩
      · intro other found hfound
        rw [partner?_set hindex] at hfound
        split at hfound
        · rename_i heq
          obtain rfl := Option.some.inj hfound
          exact ⟨before, new, hbefore, heq ▸ hentry, hfits _ _ _ hfit⟩
        · exact hsound.fits other found hfound
      · intro first second found hfirst hsecond
        rw [partner?_set hindex] at hfirst hsecond
        split at hfirst <;> split at hsecond
        · rename_i hone htwo
          rw [hone, htwo]
        · exact absurd (Option.some.inj hfirst ▸ hsecond) (hunused second)
        · exact absurd (Option.some.inj hsecond ▸ hfirst) (hunused first)
        · exact hsound.injective first second found hfirst hsecond
    · exact hsound

theorem Sound.sweep {belong : α → α → Prop} {olds news : List α} {matching : Matching}
    {fits : Matching → α → α → Bool} (hsound : Sound belong olds news matching)
    (hfits : ∀ matching before after, fits matching before after = true → belong before after) :
    Sound belong olds news (matching.sweep olds news fits) := by
  rw [Matching.sweep]
  refine List.foldlRecOn news.zipIdx _ hsound ?_
  intro matching hsound entry hentry
  exact hsound.claim hfits (List.mem_zipIdx_iff_getElem?.1 hentry)

/-! ### What the old items carry -/

theorem getElem?_carried {matching : Matching} {carriers : List β} {index : Nat} {carrier : β} :
    (matching.carried carriers)[index]? = some (some carrier) ↔
      ∃ old, matching.partner? index = some old ∧ carriers[old]? = some carrier := by
  simp only [carried, List.getElem?_map, Option.map_eq_some_iff, partner?,
    Option.join_eq_some_iff]
  constructor
  · rintro ⟨partner, hpartner, hbind⟩
    obtain ⟨old, rfl, hcarrier⟩ := Option.bind_eq_some_iff.1 hbind
    exact ⟨old, hpartner, hcarrier⟩
  · rintro ⟨old, hpartner, hcarrier⟩
    exact ⟨some old, hpartner, hcarrier⟩

theorem length_carried (matching : Matching) (carriers : List β) :
    (matching.carried carriers).length = matching.length :=
  List.length_map _

theorem mem_free {matching : Matching} {carriers : List β} {carrier : β} :
    carrier ∈ matching.free carriers ↔
      ∃ old, carriers[old]? = some carrier ∧ ∀ index, matching.partner? index ≠ some old := by
  simp only [free, List.mem_map, List.mem_filter, Prod.exists, exists_and_right, exists_eq_right]
  refine exists_congr fun old => ?_
  rw [List.mem_zipIdx_iff_getElem?, Bool.not_eq_true', ← Bool.not_eq_true, isTaken_iff,
    not_exists]

/-- What an old item carries goes to a new item or is left over. -/
theorem exists_carried_or_mem_free (matching : Matching) {carriers : List β} {carrier : β}
    (hmem : carrier ∈ carriers) :
    (∃ index : Nat, (matching.carried carriers)[index]? = some (some carrier)) ∨
      carrier ∈ matching.free carriers := by
  obtain ⟨old, hold⟩ := List.mem_iff_getElem?.1 hmem
  by_cases htaken : ∃ index, matching.partner? index = some old
  · obtain ⟨index, hindex⟩ := htaken
    exact .inl ⟨index, getElem?_carried.2 ⟨old, hindex, hold⟩⟩
  · exact .inr (mem_free.2 ⟨old, hold, not_exists.1 htaken⟩)

theorem getElem?_inj_of_nodup {carriers : List β} (hnodup : carriers.Nodup) {first second : Nat}
    {carrier : β} (hfirst : carriers[first]? = some carrier)
    (hsecond : carriers[second]? = some carrier) : first = second := by
  obtain ⟨hlt, _⟩ := List.getElem?_eq_some_iff.1 hfirst
  exact (List.getElem?_inj hlt hnodup).1 (hfirst.trans hsecond.symm)

theorem Sound.carried_injective {belong : α → α → Prop} {olds news : List α}
    {matching : Matching} (hsound : Sound belong olds news matching) {carriers : List β}
    (hnodup : carriers.Nodup) {first second : Nat} {carrier : β}
    (hfirst : (matching.carried carriers)[first]? = some (some carrier))
    (hsecond : (matching.carried carriers)[second]? = some (some carrier)) : first = second := by
  obtain ⟨old, hpartner, hcarrier⟩ := getElem?_carried.1 hfirst
  obtain ⟨other, hother, hsame⟩ := getElem?_carried.1 hsecond
  obtain rfl := getElem?_inj_of_nodup hnodup hcarrier hsame
  exact hsound.injective first second old hpartner hother

theorem carried_ne_of_mem_free {matching : Matching} {carriers : List β}
    (hnodup : carriers.Nodup) {carrier : β} (hfree : carrier ∈ matching.free carriers)
    (index : Nat) : (matching.carried carriers)[index]? ≠ some (some carrier) := by
  intro hcarried
  obtain ⟨old, hpartner, hcarrier⟩ := getElem?_carried.1 hcarried
  obtain ⟨other, hother, hunused⟩ := mem_free.1 hfree
  obtain rfl := getElem?_inj_of_nodup hnodup hcarrier hother
  exact hunused index hpartner

end Matching

/-- Paired symbols are of one kind. -/
theorem SymbolFact.sound_pair (olds news : List SymbolFact) :
    Matching.Sound (fun old new => old.kind = new.kind) olds news (pair olds news) := by
  refine (((Matching.sound_empty _ olds news).sweep ?_).sweep ?_).sweep ?_
  · intro _ old new hfits
    exact (by simpa [sameKey] using hfits : _ ∧ _).1
  · intro _ old new hfits
    rw [Bool.and_eq_true] at hfits
    exact (by simpa [sameShape] using hfits.2 : _ ∧ _).1
  · intro _ old new hfits
    rw [Bool.and_eq_true] at hfits
    exact (by simpa [sameName] using hfits.2 : _ ∧ _).1

theorem ImportFact.sound_pair (olds news : List ImportFact) :
    Matching.Sound (fun old new => old.sameKey new = true) olds news (pair olds news) :=
  (Matching.sound_empty _ olds news).sweep fun _ _ _ hfits => hfits

end CodeGraph
