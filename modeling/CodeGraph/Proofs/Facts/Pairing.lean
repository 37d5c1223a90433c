import CodeGraph.Proofs.Matching
import Mathlib.Data.List.TakeDrop

/-!
# Pairing in order of appearance

A sweep that pairs by a key gives the first new item with a key the first old one with it, the second
the second, and so on. Later sweeps only pair what is left, so symbols that are the same in kind,
qualified name and order of appearance are paired whatever else has changed.
-/

namespace CodeGraph

/-! ### Occurrences -/

section Occurrences

variable {α : Type} {wanted : α → Bool}

/-- An item that is filtered out of a list stands there after as many that are wanted as before. -/
theorem getElem?_filter_iff {items : List α} {rank : Nat} {item : α} :
    (items.filter wanted)[rank]? = some item ↔ ∃ index : Nat, items[index]? = some item ∧
      wanted item = true ∧ (items.take index).countP wanted = rank := by
  induction items generalizing rank with
  | nil => simp
  | cons head items ih =>
    rw [← Nat.or_exists_add_one]
    simp only [List.getElem?_cons_zero, List.take_zero, List.countP_nil, List.getElem?_cons_succ,
      List.take_succ_cons, List.countP_cons]
    by_cases hhead : wanted head = true
    · rw [List.filter_cons_of_pos hhead]
      cases rank with
      | zero =>
        simp only [List.getElem?_cons_zero, Option.some.injEq, hhead, if_true]
        refine ⟨?_, ?_⟩
        · rintro rfl
          exact .inl ⟨rfl, hhead, trivial⟩
        · rintro (⟨hsame, -⟩ | ⟨_, _, _, hcount⟩)
          · exact hsame
          · cases hcount
      | succ rank => simp [hhead, ih]
    · rw [List.filter_cons_of_neg hhead, ih]
      simp only [hhead]
      constructor
      · exact fun h => .inr (by simpa using h)
      · rintro (⟨heq, hwanted, -⟩ | h)
        · exact absurd (Option.some.inj heq ▸ hwanted) hhead
        · simpa using h

/-- One that is wanted counts for all that come after it. -/
theorem countP_take_lt {items : List α} {first second : Nat} {item : α}
    (hitem : items[first]? = some item) (hwanted : wanted item = true) (hlt : first < second) :
    (items.take first).countP wanted < (items.take second).countP wanted := by
  have hnext : (items.take (first + 1)).countP wanted = (items.take first).countP wanted + 1 := by
    rw [List.take_add_one, hitem, List.countP_append]
    simp [hwanted]
  have hsub : (items.take (first + 1)).Sublist (items.take second) :=
    List.take_sublist_take_left hlt
  have hle := hsub.countP_le (p := wanted)
  omega

theorem eq_of_countP_take_eq {items : List α} {first second : Nat} {left right : α}
    (hleft : items[first]? = some left) (hright : items[second]? = some right)
    (hwantedLeft : wanted left = true) (hwantedRight : wanted right = true)
    (hrank : (items.take first).countP wanted = (items.take second).countP wanted) :
    first = second := by
  by_contra hne
  rcases Nat.lt_or_gt_of_ne hne with hlt | hlt
  · have h := countP_take_lt hleft hwantedLeft hlt
    omega
  · have h := countP_take_lt hright hwantedRight hlt
    omega

/-- Among the first items there is one of every rank below their number. -/
theorem exists_of_lt_countP_take {items : List α} {bound rank : Nat}
    (hrank : rank < (items.take bound).countP wanted) : ∃ (index : Nat) (item : α), index < bound ∧
      items[index]? = some item ∧ wanted item = true ∧
      (items.take index).countP wanted = rank := by
  rw [List.countP_eq_length_filter] at hrank
  obtain ⟨index, hitem, hwanted, hcount⟩ :=
    getElem?_filter_iff.1 (List.getElem?_eq_getElem hrank)
  rw [List.getElem?_take] at hitem
  split at hitem
  · rename_i hlt
    rw [List.take_take, Nat.min_eq_left (Nat.le_of_lt hlt)] at hcount
    exact ⟨index, _, hlt, hitem, hwanted, hcount⟩
  · cases hitem

end Occurrences

namespace Matching

variable {α κ : Type} [DecidableEq κ] {key : α → κ} {olds news : List α}

/-- An old and a new item with one key that are preceded by equally many items with it. -/
def Ranked (key : α → κ) (olds news : List α) (index old : Nat) : Prop :=
  ∃ before after, olds[old]? = some before ∧ news[index]? = some after ∧
    key before = key after ∧ (olds.take old).countP (fun item => key item = key after) =
      (news.take index).countP fun item => key item = key after

theorem Ranked.unique {index first second : Nat} (hfirst : Ranked key olds news index first)
    (hsecond : Ranked key olds news index second) : first = second := by
  obtain ⟨left, after, hleft, hafter, hkeyLeft, hrankLeft⟩ := hfirst
  obtain ⟨right, _, hright, hsame, hkeyRight, hrankRight⟩ := hsecond
  obtain rfl := Option.some.inj (hafter.symm.trans hsame)
  exact eq_of_countP_take_eq hleft hright (by simpa using hkeyLeft) (by simpa using hkeyRight)
    (hrankLeft.trans hrankRight.symm)

theorem firstFree?_eq_some_iff {matching : Matching} {fits : α → Bool} {old : Nat} :
    matching.firstFree? olds fits = some old ↔
      (∃ before, olds[old]? = some before ∧ fits before = true) ∧ ¬ matching.isTaken old ∧
        ∀ other before, other < old → olds[other]? = some before → fits before = true →
          matching.isTaken other := by
  rw [firstFree?, Option.map_eq_some_iff]
  constructor
  · rintro ⟨⟨before, place⟩, hfind, rfl⟩
    obtain ⟨hwanted, place', hlt, hentry, hfirst⟩ := List.find?_eq_some_iff_getElem.1 hfind
    rw [List.getElem_zipIdx, Prod.mk.injEq, Nat.zero_add] at hentry
    obtain ⟨hbefore, rfl⟩ := hentry
    rw [List.length_zipIdx] at hlt
    rw [Bool.and_eq_true, Bool.not_eq_true'] at hwanted
    refine ⟨⟨before, List.getElem?_eq_some_iff.2 ⟨hlt, hbefore⟩, hwanted.2⟩, by simp [hwanted.1],
      fun other earlier hother hearlier hfits => ?_⟩
    have hpassed := hfirst other hother
    rw [List.getElem_zipIdx] at hpassed
    obtain ⟨_, rfl⟩ := List.getElem?_eq_some_iff.1 hearlier
    simpa [hfits] using hpassed
  · rintro ⟨⟨before, hbefore, hfits⟩, hfree, hfirst⟩
    obtain ⟨hlt, rfl⟩ := List.getElem?_eq_some_iff.1 hbefore
    refine ⟨(olds[old], old), List.find?_eq_some_iff_getElem.2 ⟨by simp [hfree, hfits], old,
      by rwa [List.length_zipIdx], by simp, fun other hother => ?_⟩, rfl⟩
    have hbound : other < olds.length := Nat.lt_trans hother hlt
    rw [List.getElem_zipIdx, Nat.zero_add]
    by_cases hwanted : fits olds[other] = true
    · simp [hfirst other olds[other] hother (List.getElem?_eq_getElem hbound) hwanted]
    · simp [hwanted]

/-- The first new items have their partners in order of appearance, and the others have none. -/
structure RankedTo (key : α → κ) (olds news : List α) (done : Nat) (matching : Matching) : Prop where
  length : matching.length = news.length
  partner : ∀ index old, matching.partner? index = some old ↔
    index < done ∧ Ranked key olds news index old

/-- An old item is taken when its turn came before. -/
theorem isTaken_iff_lt {matching : Matching} {index old : Nat} {before new : α}
    (hbefore : olds[old]? = some before) (hkey : key before = key new)
    (hearlier : RankedTo key olds news index matching) :
    matching.isTaken old ↔ (olds.take old).countP (fun item => key item = key new) <
      (news.take index).countP fun item => key item = key new := by
  rw [isTaken_iff]
  constructor
  · rintro ⟨other, hpartner⟩
    obtain ⟨hlt, found, after, hfound, hafter, hsame, hrank⟩ := (hearlier.partner other old).1 hpartner
    obtain rfl := Option.some.inj (hbefore.symm.trans hfound)
    rw [← hkey, hsame, hrank]
    exact countP_take_lt hafter (by simp) hlt
  · intro hrank
    obtain ⟨other, after, hlt, hafter, hwanted, hcount⟩ := exists_of_lt_countP_take hrank
    have hsame : key after = key new := of_decide_eq_true hwanted
    exact ⟨other, (hearlier.partner other old).2 ⟨hlt, before, after, hbefore, hafter,
      hkey.trans hsame.symm, by rw [hsame, hcount]⟩⟩

/-- When all new items before one have their partners in order of appearance, the first old item that
is free and fits is the one whose turn it is. -/
theorem firstFree?_iff_ranked {matching : Matching} {index : Nat} {new : α}
    (hnew : news[index]? = some new) (hearlier : RankedTo key olds news index matching) {old : Nat} :
    matching.firstFree? olds (fun before => key before = key new) = some old ↔
      Ranked key olds news index old := by
  rw [firstFree?_eq_some_iff]
  constructor
  · rintro ⟨⟨before, hbefore, hfits⟩, hfree, hfirst⟩
    have hkey : key before = key new := of_decide_eq_true hfits
    refine ⟨before, new, hbefore, hnew, hkey, ?_⟩
    rw [isTaken_iff_lt hbefore hkey hearlier, Nat.not_lt] at hfree
    refine Nat.le_antisymm (Nat.not_lt.1 fun hlate => ?_) hfree
    -- otherwise one of the same rank as the new item comes before it, and is free as well
    obtain ⟨other, earlier, hlt, hother, hwanted, hcount⟩ := exists_of_lt_countP_take hlate
    have htaken := hfirst other earlier hlt hother hwanted
    rw [isTaken_iff_lt hother (of_decide_eq_true hwanted) hearlier, hcount] at htaken
    exact Nat.lt_irrefl _ htaken
  · rintro ⟨before, after, hbefore, hafter, hkey, hrank⟩
    obtain rfl := Option.some.inj (hnew.symm.trans hafter)
    refine ⟨⟨before, hbefore, by simpa using hkey⟩, ?_, fun other earlier hlt hother hfits => ?_⟩
    · rw [isTaken_iff_lt hbefore hkey hearlier, hrank]
      exact Nat.lt_irrefl _
    · rw [isTaken_iff_lt hother (of_decide_eq_true hfits) hearlier, ← hrank]
      exact countP_take_lt hother hfits hlt

theorem rankedTo_empty : RankedTo key olds news 0 (empty news.length) where
  length := List.length_replicate
  partner := by
    intro index old
    rw [partner?_empty]
    simp

/-- The next new item is given the old one whose turn it is, if there is one. -/
theorem RankedTo.claim {matching : Matching} {done : Nat} {new : α}
    (hearlier : RankedTo key olds news done matching) (hnew : news[done]? = some new) :
    RankedTo key olds news (done + 1)
      (matching.claim olds (fun _ before after => key before = key after) (new, done)) := by
  have hlt : done < matching.length := hearlier.length ▸ (List.getElem?_eq_some_iff.1 hnew).1
  have hunpaired : matching.partner? done = none := by
    rw [Option.eq_none_iff_forall_ne_some]
    exact fun old hold => Nat.lt_irrefl _ ((hearlier.partner _ old).1 hold).1
  have hturn : ∀ old, matching.firstFree? olds (fun before => key before = key new) = some old ↔
      Ranked key olds news done old := fun old => firstFree?_iff_ranked hnew hearlier
  rw [Matching.claim]
  simp only [hunpaired, Option.isSome_none, Bool.false_eq_true, if_false]
  split
  · rename_i found hfound
    have hranked := (hturn found).1 hfound
    refine ⟨by rw [List.length_set, hearlier.length], fun index old => ?_⟩
    rw [partner?_set hlt]
    split
    · rename_i hindex
      subst hindex
      constructor
      · intro hsame
        exact ⟨Nat.lt_succ_self _, Option.some.inj hsame ▸ hranked⟩
      · exact fun h => congrArg some (hranked.unique h.2)
    · rename_i hindex
      rw [hearlier.partner]
      exact and_congr_left fun _ => by omega
  · rename_i hnone
    refine ⟨hearlier.length, fun index old => ?_⟩
    rw [hearlier.partner]
    refine and_congr_left fun hranked => ⟨fun h => by omega, fun h => ?_⟩
    by_contra hge
    obtain rfl : index = done := by omega
    rw [(hturn old).2 hranked] at hnone
    cases hnone

theorem RankedTo.foldl {matching : Matching} {done rest : List α} (hnews : news = done ++ rest)
    (hearlier : RankedTo key olds news done.length matching) :
    RankedTo key olds news news.length ((rest.zipIdx done.length).foldl
      (Matching.claim olds fun _ before after => key before = key after) matching) := by
  induction rest generalizing done matching with
  | nil =>
    rw [List.append_nil] at hnews
    exact hnews ▸ hearlier
  | cons new rest ih =>
    have hdone : (done ++ [new]).length = done.length + 1 := by simp
    rw [List.zipIdx_cons, List.foldl_cons, ← hdone]
    refine ih (by simp [hnews]) ?_
    rw [hdone]
    exact hearlier.claim (by simp [hnews])

/-- **A sweep by key pairs in order of appearance.** -/
theorem partner?_sweep_key {index old : Nat} :
    ((empty news.length).sweep olds news fun _ before after => key before = key after).partner?
      index = some old ↔ Ranked key olds news index old := by
  rw [sweep]
  refine ((rankedTo_empty.foldl (List.nil_append news).symm).partner index old).trans
    (and_iff_right_of_imp ?_)
  rintro ⟨_, _, -, hafter, -⟩
  exact (List.getElem?_eq_some_iff.1 hafter).1

/-- Only items without a partner are given one. -/
theorem partner?_foldl_claim_of_some {matching : Matching} {fits : Matching → α → α → Bool}
    {entries : List (α × Nat)} {index old : Nat} (hpartner : matching.partner? index = some old) :
    (entries.foldl (claim olds fits) matching).partner? index = some old := by
  refine List.foldlRecOn (motive := fun state : Matching => state.partner? index = some old) _ _
    hpartner ?_
  rintro state hstate ⟨new, other⟩ -
  rw [claim]
  split
  · exact hstate
  · rename_i hnone
    split
    · have hne : other ≠ index := by
        rintro rfl
        simp [hstate] at hnone
      rwa [partner?, List.getElem?_set_ne hne]
    · exact hstate

theorem partner?_sweep_of_some {matching : Matching} {fits : Matching → α → α → Bool}
    {index old : Nat} (hpartner : matching.partner? index = some old) :
    (matching.sweep olds news fits).partner? index = some old :=
  partner?_foldl_claim_of_some hpartner

/-! ### Items that stay -/

theorem ranked_self {items : List α} {index : Nat} (hindex : index < items.length) :
    Ranked key items items index index :=
  ⟨items[index], items[index], List.getElem?_eq_getElem hindex, List.getElem?_eq_getElem hindex,
    rfl, rfl⟩

section Self

variable {β : Type} {matching : Matching} {carriers : List β}
  (hself : ∀ index, index < carriers.length → matching.partner? index = some index)

include hself

/-- Items that are paired with themselves carry what they carried, -/
theorem carried_eq_self (hlength : matching.length = carriers.length) :
    matching.carried carriers = carriers.map some := by
  refine List.ext_getElem? fun index => ?_
  by_cases hindex : index < carriers.length
  · rw [getElem?_carried.2 ⟨index, hself index hindex, List.getElem?_eq_getElem hindex⟩,
      List.getElem?_map, List.getElem?_eq_getElem hindex, Option.map_some]
  · rw [List.getElem?_eq_none (by rw [length_carried, hlength]; omega),
      List.getElem?_eq_none (by rw [List.length_map]; omega)]

/-- and nothing is left over. -/
theorem free_eq_nil : matching.free carriers = [] := by
  refine List.eq_nil_iff_forall_not_mem.2 fun carrier hcarrier => ?_
  obtain ⟨old, hold, hunused⟩ := mem_free.1 hcarrier
  exact hunused old (hself old (List.getElem?_eq_some_iff.1 hold).1)

end Self

end Matching

namespace SymbolFact

/-- The symbols paired by what they are called. -/
def byKey (olds news : List SymbolFact) : Matching :=
  (Matching.empty news.length).sweep olds news fun _ old new => old.sameKey new

theorem partner?_byKey {olds news : List SymbolFact} {index old : Nat} :
    (byKey olds news).partner? index = some old ↔ Matching.Ranked key olds news index old := by
  have hfits : (fun (_ : Matching) (before after : SymbolFact) => before.sameKey after) =
      fun _ before after => decide (key before = key after) := by
    funext _ before after
    simp [sameKey, key]
  rw [byKey, hfits, Matching.partner?_sweep_key]

/-- **Symbols of one key are paired in order of appearance**, whatever the later sweeps pair. -/
theorem partner?_pair_of_ranked {olds news : List SymbolFact} {index old : Nat}
    (hranked : Matching.Ranked key olds news index old) :
    (pair olds news).partner? index = some old :=
  Matching.partner?_sweep_of_some (Matching.partner?_sweep_of_some (partner?_byKey.2 hranked))

theorem partner?_pair_self {facts : List SymbolFact} {index : Nat} (hindex : index < facts.length) :
    (pair facts facts).partner? index = some index :=
  partner?_pair_of_ranked (Matching.ranked_self hindex)

end SymbolFact

namespace ImportFact

/-- What an import says. -/
def key (fact : ImportFact) : String × Option String × Option String × Bool :=
  (fact.specifier, fact.member, fact.localName, fact.wildcard)

theorem partner?_pair_self {facts : List ImportFact} {index : Nat} (hindex : index < facts.length) :
    (pair facts facts).partner? index = some index := by
  have hfits : (fun (_ : Matching) (before after : ImportFact) => before.sameKey after) =
      fun _ before after => decide (key before = key after) := by
    funext _ before after
    simp [sameKey, key, Bool.and_assoc]
  rw [pair, hfits]
  exact Matching.partner?_sweep_key.2 (Matching.ranked_self hindex)

end ImportFact

end CodeGraph
