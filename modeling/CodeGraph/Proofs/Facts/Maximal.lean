import CodeGraph.Proofs.Facts.Handout

/-!
# Pairings are maximal

What a sweep gives an item is decided at its turn, from what the items before it got, and never taken
back. So whatever two symbols had in common when they were paired they have in common at the end, and
no two symbols of one kind and one name are left whose parents are paired. The parent of a new symbol
has its turn before the symbol has its own, which is why nothing comes too late. In terms of ids this
is how they are handed on.
-/

namespace CodeGraph

namespace Matching

variable {α : Type} {olds news : List α} {matching : Matching} {fits : Matching → α → α → Bool}

/-! ### Turns -/

theorem lt_of_partner? {index old : Nat} (hpartner : matching.partner? index = some old) :
    index < matching.length :=
  (List.getElem?_eq_some_iff.1 (Option.join_eq_some_iff.1 hpartner)).1

theorem firstFree?_eq_none_iff {wanted : α → Bool} : matching.firstFree? olds wanted = none ↔
    ∀ (old : Nat) before, olds[old]? = some before → wanted before = true →
      matching.isTaken old = true := by
  rw [firstFree?, Option.map_eq_none_iff, List.find?_eq_none]
  constructor
  · intro hnone old before hbefore hwanted
    have hpassed := hnone (before, old) (List.mem_zipIdx_iff_getElem?.2 hbefore)
    simpa [hwanted] using hpassed
  · rintro htaken ⟨before, old⟩ hentry
    have hbefore := List.mem_zipIdx_iff_getElem?.1 hentry
    by_cases hwanted : wanted before = true
    · simp [htaken old before hbefore hwanted]
    · simp [hwanted]

/-- All that is paired stays so. -/
def Extends (before after : Matching) : Prop :=
  ∀ index old, before.partner? index = some old → after.partner? index = some old

theorem extends_sweep (matching : Matching) (olds news : List α)
    (fits : Matching → α → α → Bool) : matching.Extends (matching.sweep olds news fits) :=
  fun _ _ => partner?_sweep_of_some

theorem Extends.isTaken {before after : Matching} (hextends : before.Extends after) {old : Nat}
    (htaken : before.isTaken old = true) : after.isTaken old = true := by
  obtain ⟨index, hindex⟩ := isTaken_iff.1 htaken
  exact isTaken_iff.2 ⟨index, hextends index old hindex⟩

theorem length_claim (entry : α × Nat) :
    (matching.claim olds fits entry).length = matching.length := by
  rw [claim]
  split
  · rfl
  · split
    · exact List.length_set
    · rfl

theorem partner?_claim {new : α} {index : Nat} (hindex : index < matching.length) (other : Nat) :
    (matching.claim olds fits (new, index)).partner? other =
      if other = index then
        (matching.partner? index).or (matching.firstFree? olds fun old => fits matching old new)
      else matching.partner? other := by
  rw [claim]
  cases hpartner : matching.partner? index with
  | some old =>
    rw [Option.isSome_some, if_pos rfl, Option.some_or]
    split
    · rename_i heq
      rw [heq, hpartner]
    · rfl
  | none =>
    rw [Option.isSome_none, if_neg Bool.false_ne_true, Option.none_or]
    split
    · rename_i old hfree
      rw [partner?_set hindex, hfree]
    · rename_i hfree
      split
      · rename_i heq
        rw [heq, hpartner, hfree]
      · rfl

theorem length_foldl_claim (entries : List (α × Nat)) :
    (entries.foldl (claim olds fits) matching).length = matching.length := by
  induction entries generalizing matching with
  | nil => rfl
  | cons entry rest ih => rw [List.foldl_cons, ih, length_claim]

/-- Items without a turn keep what they have. -/
theorem partner?_foldl_claim {entries : List (α × Nat)} {other : Nat}
    (hother : ∀ entry ∈ entries, entry.2 ≠ other ∧ entry.2 < matching.length) :
    (entries.foldl (claim olds fits) matching).partner? other = matching.partner? other := by
  induction entries generalizing matching with
  | nil => rfl
  | cons entry rest ih =>
    obtain ⟨new, index⟩ := entry
    obtain ⟨hne, hindex⟩ := hother (new, index) List.mem_cons_self
    rw [List.foldl_cons, ih, partner?_claim hindex, if_neg hne.symm]
    intro entry hentry
    rw [length_claim]
    exact hother entry (List.mem_cons_of_mem _ hentry)

theorem length_sweep : (matching.sweep olds news fits).length = matching.length :=
  length_foldl_claim _

/-- A sweep goes on from one over the first items. -/
theorem sweep_eq_foldl (bound : Nat) (hbound : bound ≤ news.length) :
    matching.sweep olds news fits = ((news.drop bound).zipIdx bound).foldl (claim olds fits)
      (matching.sweep olds (news.take bound) fits) := by
  have hsplit : news.zipIdx = (news.take bound).zipIdx ++ (news.drop bound).zipIdx bound := by
    conv_lhs => rw [← List.take_append_drop bound news, List.zipIdx_append]
    rw [List.length_take, Nat.min_eq_left hbound, Nat.zero_add]
  rw [sweep, hsplit, List.foldl_append, ← sweep]

variable (hlength : matching.length = news.length)

include hlength

/-- The items before a bound have what they get once a sweep has come to the bound. -/
theorem partner?_sweep_take {bound index : Nat} (hbound : bound ≤ news.length)
    (hindex : index < bound) :
    (matching.sweep olds news fits).partner? index =
      (matching.sweep olds (news.take bound) fits).partner? index := by
  rw [sweep_eq_foldl bound hbound]
  apply partner?_foldl_claim
  rintro ⟨new, place⟩ hentry
  obtain ⟨hle, hlt, -⟩ := List.mem_zipIdx hentry
  rw [List.length_drop] at hlt
  rw [length_sweep, hlength]
  dsimp only
  omega

omit hlength in
theorem extends_sweep_take {bound : Nat} (hbound : bound ≤ news.length) :
    (matching.sweep olds (news.take bound) fits).Extends (matching.sweep olds news fits) := by
  intro index old hpartner
  rw [sweep_eq_foldl bound hbound]
  exact partner?_foldl_claim_of_some hpartner

/-- **What a sweep gives an item is decided at its turn**: it keeps what it has, or gets the first old
item that is free then and fits. -/
theorem partner?_sweep {index : Nat} {new : α} (hnew : news[index]? = some new) :
    (matching.sweep olds news fits).partner? index = (matching.partner? index).or
      ((matching.sweep olds (news.take index) fits).firstFree? olds fun old =>
        fits (matching.sweep olds (news.take index) fits) old new) := by
  obtain ⟨hindex, hget⟩ := List.getElem?_eq_some_iff.1 hnew
  have hturn : matching.sweep olds (news.take (index + 1)) fits =
      claim olds fits (matching.sweep olds (news.take index) fits) (new, index) := by
    have htake : (news.take (index + 1)).take index = news.take index := by
      rw [List.take_take, Nat.min_eq_left (Nat.le_succ index)]
    have hdrop : (news.take (index + 1)).drop index = [new] := by
      rw [List.drop_take, Nat.add_sub_cancel_left, List.drop_eq_getElem_cons hindex, hget]
      rfl
    rw [sweep_eq_foldl index (by rw [List.length_take]; omega), htake, hdrop]
    rfl
  have hbefore : (matching.sweep olds (news.take index) fits).partner? index =
      matching.partner? index := by
    apply partner?_foldl_claim
    rintro ⟨other, place⟩ hentry
    obtain ⟨-, hlt, -⟩ := List.mem_zipIdx hentry
    rw [List.length_take] at hlt
    dsimp only
    omega
  rw [partner?_sweep_take hlength hindex (Nat.lt_succ_self index), hturn,
    partner?_claim (by rw [length_sweep]; omega), if_pos rfl, hbefore]

end Matching

namespace SymbolFact

/-! ### Symbols under paired parents -/

/-- Every parent stands before its children. -/
def ParentsFirst (facts : List SymbolFact) : Prop :=
  ∀ (index : Nat) fact parent, facts[index]? = some fact → fact.parent = some parent →
    parent < index

theorem ParentsFirst.lt_length {facts : List SymbolFact} (hordered : ParentsFirst facts) :
    ∀ fact ∈ facts, ∀ parent, fact.parent = some parent → parent < facts.length := by
  intro fact hfact parent hparent
  obtain ⟨index, hindex⟩ := List.mem_iff_getElem?.1 hfact
  have hlt : index < facts.length := (List.getElem?_eq_some_iff.1 hindex).1
  exact Nat.lt_trans (hordered index fact parent hindex hparent) hlt

/-- The symbols paired after the sweep by shape. -/
def byShape (olds news : List SymbolFact) : Matching :=
  (byKey olds news).sweep olds news (kindred sameShape)

theorem pair_eq (olds news : List SymbolFact) :
    pair olds news = (byShape olds news).sweep olds news (kindred sameName) :=
  rfl

theorem sameParent_of_extends {before after : Matching} (hextends : before.Extends after)
    {old new : SymbolFact} (hparent : sameParent before old new = true) :
    sameParent after old new = true := by
  rw [sameParent] at hparent ⊢
  split at hparent
  · rfl
  · exact decide_eq_true (hextends _ _ (of_decide_eq_true hparent))
  · cases hparent

/-- Only what the parent of the new symbol got matters. -/
theorem sameParent_congr {first second : Matching} {old new : SymbolFact}
    (hparent : ∀ parent, new.parent = some parent → first.partner? parent = second.partner? parent) :
    sameParent first old new = sameParent second old new := by
  rw [sameParent, sameParent]
  split
  · rfl
  · rename_i hnew
    rw [hparent _ hnew]
  · rfl

section Sweep

variable {olds news : List SymbolFact} {matching : Matching}
  {same : SymbolFact → SymbolFact → Bool} (hlength : matching.length = news.length) {index old : Nat}

include hlength

/-- The pairs that a sweep makes are under parents that are paired at its end, -/
theorem exists_kindred_of_sweep
    (hpartner : (matching.sweep olds news (kindred same)).partner? index = some old) :
    matching.partner? index = some old ∨ ∃ before after, olds[old]? = some before ∧
      news[index]? = some after ∧
      kindred same (matching.sweep olds news (kindred same)) before after = true := by
  have hindex : index < news.length := by
    have hlt := Matching.lt_of_partner? hpartner
    rwa [Matching.length_sweep, hlength] at hlt
  have hnew : news[index]? = some news[index] := List.getElem?_eq_getElem hindex
  have hturn := hpartner
  rw [Matching.partner?_sweep hlength hnew] at hturn
  obtain hkept | ⟨-, hfree⟩ := Option.or_eq_some_iff.1 hturn
  · exact .inl hkept
  · obtain ⟨-, before, hbefore, hfits⟩ := Matching.exists_of_firstFree? hfree
    rw [kindred, Bool.and_eq_true] at hfits
    refine .inr ⟨before, news[index], hbefore, hnew, ?_⟩
    rw [kindred, Bool.and_eq_true]
    exact ⟨sameParent_of_extends (Matching.extends_sweep_take (Nat.le_of_lt hindex)) hfits.1, hfits.2⟩

/-- and it leaves none under paired parents that are the same. -/
theorem kindred_eq_false_of_sweep (hordered : ParentsFirst news) {before after : SymbolFact}
    (hbefore : olds[old]? = some before) (hafter : news[index]? = some after)
    (hnone : (matching.sweep olds news (kindred same)).partner? index = none)
    (hfree : (matching.sweep olds news (kindred same)).isTaken old = false) :
    kindred same (matching.sweep olds news (kindred same)) before after = false := by
  have hindex : index < news.length := (List.getElem?_eq_some_iff.1 hafter).1
  have hturn := hnone
  rw [Matching.partner?_sweep hlength hafter] at hturn
  have hpassed := Matching.firstFree?_eq_none_iff.1 (Option.or_eq_none_iff.1 hturn).2
  -- the parent has had its turn, so nothing changes for it any more
  have hparent : sameParent (matching.sweep olds news (kindred same)) before after =
      sameParent (matching.sweep olds (news.take index) (kindred same)) before after :=
    sameParent_congr fun parent h =>
      Matching.partner?_sweep_take hlength (Nat.le_of_lt hindex) (hordered index after parent hafter h)
  rw [Bool.eq_false_iff]
  intro hkindred
  rw [kindred, hparent, ← kindred] at hkindred
  have htaken := (Matching.extends_sweep_take (Nat.le_of_lt hindex)).isTaken
    (hpassed old before hbefore hkindred)
  rw [hfree] at htaken
  cases htaken

end Sweep

variable {olds news : List SymbolFact}

theorem length_byKey (olds news : List SymbolFact) : (byKey olds news).length = news.length :=
  Matching.length_sweep.trans List.length_replicate

theorem length_byShape (olds news : List SymbolFact) : (byShape olds news).length = news.length :=
  Matching.length_sweep.trans (length_byKey olds news)

/-- A pair that is not one by its key has a reason that holds at the end. -/
theorem exists_reason_of_pair {index old : Nat}
    (hpartner : (pair olds news).partner? index = some old) :
    Matching.Ranked key olds news index old ∨ ∃ before after, olds[old]? = some before ∧
      news[index]? = some after ∧ sameParent (pair olds news) before after = true ∧
      (before.shape = after.shape ∨ before.name = after.name) := by
  obtain hshaped | ⟨before, after, hbefore, hafter, hkindred⟩ :=
    exists_kindred_of_sweep (length_byShape olds news) hpartner
  · obtain hkeyed | ⟨before, after, hbefore, hafter, hkindred⟩ :=
      exists_kindred_of_sweep (length_byKey olds news) hshaped
    · exact .inl (partner?_byKey.1 hkeyed)
    · rw [kindred, Bool.and_eq_true, sameShape, Bool.and_eq_true, decide_eq_true_eq,
        decide_eq_true_eq] at hkindred
      exact .inr ⟨before, after, hbefore, hafter,
        sameParent_of_extends (Matching.extends_sweep _ _ _ _) hkindred.1, .inl hkindred.2.2⟩
  · rw [kindred, Bool.and_eq_true, sameName, Bool.and_eq_true, decide_eq_true_eq,
      decide_eq_true_eq] at hkindred
    exact .inr ⟨before, after, hbefore, hafter, hkindred.1, .inr hkindred.2.2⟩

/-! ### Ids -/

/-- Both stand at the top, or the new parent was given the id of the old one. -/
def Akin (ids : List NodeId) (given : List (Option NodeId)) (old new : SymbolFact) : Prop :=
  match old.parent, new.parent with
  | none, none => True
  | some oldParent, some newParent =>
    ∃ id, ids[oldParent]? = some id ∧ given[newParent]? = some (some id)
  | _, _ => False

/-- How the ids of old symbols are to be handed on: each new symbol is given one or none, and the ids
that were given are marked as taken. -/
structure HandedOn (olds news : List SymbolFact) (ids : List NodeId) (given : List (Option NodeId))
    (taken : Nat → Bool) : Prop where
  length : given.length = news.length
  once : ∀ (first second : Nat) id, given[first]? = some (some id) →
    given[second]? = some (some id) → first = second
  marked : ∀ (old : Nat) id, ids[old]? = some id →
    (taken old = true ↔ ∃ index : Nat, given[index]? = some (some id))
  ranked : ∀ (index old : Nat), Matching.Ranked key olds news index old →
    ∃ id, ids[old]? = some id ∧ given[index]? = some (some id)
  reason : ∀ (index : Nat) id, given[index]? = some (some id) →
    ∃ (old : Nat) (before after : SymbolFact), ids[old]? = some id ∧ olds[old]? = some before ∧
      news[index]? = some after ∧ before.kind = after.kind ∧
      (Matching.Ranked key olds news index old ∨
        Akin ids given before after ∧ (before.shape = after.shape ∨ before.name = after.name))
  spent : ∀ (index old : Nat) before after, given[index]? = some none → taken old = false →
    olds[old]? = some before → news[index]? = some after → before.kind = after.kind →
    before.name = after.name → ¬ Akin ids given before after

section Ids

variable {ids : List NodeId} (hlength : ids.length = olds.length) (hnodup : ids.Nodup)

include hlength hnodup

theorem akin_iff (before after : SymbolFact) :
    Akin ids ((pair olds news).carried ids) before after ↔
      sameParent (pair olds news) before after = true := by
  rw [Akin, sameParent]
  cases before.parent with
  | none => cases after.parent <;> simp
  | some oldParent =>
    cases after.parent with
    | none => simp
    | some newParent =>
      rw [decide_eq_true_eq]
      constructor
      · rintro ⟨id, hid, hgiven⟩
        obtain ⟨old, hpartner, hold⟩ := Matching.getElem?_carried.1 hgiven
        rwa [Matching.getElem?_inj_of_nodup hnodup hid hold]
      · intro hpartner
        obtain ⟨fact, -, hfact, -⟩ := (sound_pair olds news).fits newParent oldParent hpartner
        have hold : oldParent < ids.length := hlength ▸ (List.getElem?_eq_some_iff.1 hfact).1
        exact ⟨ids[oldParent], List.getElem?_eq_getElem hold,
          Matching.getElem?_carried.2 ⟨oldParent, hpartner, List.getElem?_eq_getElem hold⟩⟩

/-- The pairing in terms of ids. -/
theorem handedOn_pair (hordered : ParentsFirst news) :
    HandedOn olds news ids ((pair olds news).carried ids) (pair olds news).isTaken where
  length := (Matching.length_carried _ _).trans (sound_pair olds news).length
  once := fun _ _ _ => (sound_pair olds news).carried_injective hnodup
  marked := by
    intro old id hid
    rw [Matching.isTaken_iff]
    refine exists_congr fun index => ?_
    rw [Matching.getElem?_carried]
    constructor
    · exact fun hpartner => ⟨old, hpartner, hid⟩
    · rintro ⟨other, hpartner, hother⟩
      rwa [Matching.getElem?_inj_of_nodup hnodup hid hother]
  ranked := by
    intro index old hranked
    have hpartner := partner?_pair_of_ranked hranked
    obtain ⟨before, -, hbefore, -⟩ := hranked
    have hold : old < ids.length := hlength ▸ (List.getElem?_eq_some_iff.1 hbefore).1
    exact ⟨ids[old], List.getElem?_eq_getElem hold,
      Matching.getElem?_carried.2 ⟨old, hpartner, List.getElem?_eq_getElem hold⟩⟩
  reason := by
    intro index id hgiven
    obtain ⟨old, hpartner, hid⟩ := Matching.getElem?_carried.1 hgiven
    obtain ⟨before, after, hbefore, hafter, hkind⟩ := (sound_pair olds news).fits index old hpartner
    refine ⟨old, before, after, hid, hbefore, hafter, hkind, ?_⟩
    refine (exists_reason_of_pair hpartner).imp_right ?_
    rintro ⟨before', after', hbefore', hafter', hparent, hsame⟩
    obtain rfl := Option.some.inj (hbefore.symm.trans hbefore')
    obtain rfl := Option.some.inj (hafter.symm.trans hafter')
    exact ⟨(akin_iff hlength hnodup before after).2 hparent, hsame⟩
  spent := by
    intro index old before after hgiven hfree hbefore hafter hkind hname hakin
    have hnone : (pair olds news).partner? index = none := by
      rw [Option.eq_none_iff_forall_ne_some]
      intro other hother
      obtain ⟨fact, -, hfact, -⟩ := (sound_pair olds news).fits index other hother
      have hlt : other < ids.length := hlength ▸ (List.getElem?_eq_some_iff.1 hfact).1
      have hsome := Matching.getElem?_carried.2
        ⟨other, hother, List.getElem?_eq_getElem hlt⟩
      rw [hgiven] at hsome
      cases hsome
    have hleft := kindred_eq_false_of_sweep (length_byShape olds news) hordered hbefore hafter
      hnone hfree
    have hparent := (akin_iff hlength hnodup before after).1 hakin
    rw [← pair_eq, kindred, hparent, Bool.true_and, sameName, hkind, hname] at hleft
    simp at hleft

/-- **Pairing symbols hands their ids on**: each id goes to one new symbol at most, of the same kind,
and is marked as taken if it goes to one; symbols of one key get theirs in order of appearance; all
others get theirs under paired parents, for the same shape or the same name; and none is left that
could still be given for a name. Handing the ids on one by one comes to the same, with the marks that
were set on the way. -/
theorem pair_hands_on (hordered : ParentsFirst news) :
    HandedOn olds news ids ((pair olds news).carried ids) (pair olds news).isTaken ∧
      (ParentsFirst olds → handOn olds news ids =
        ⟨(pair olds news).carried ids, (List.range olds.length).map (pair olds news).isTaken⟩) :=
  ⟨handedOn_pair hlength hnodup hordered,
    fun hparents => handOn_eq hlength hnodup hparents.lt_length⟩

end Ids

/-- A class with a method, under names and with a body of the method that are given. -/
def classWith (name qualified body : String) : List SymbolFact :=
  [⟨.classDef, name, name, default, default, none, 0, false, "", ("class ", ":"), []⟩,
    ⟨.functionDef, "f", qualified, default, default, some 0, 0, false, body, ("def ", body), []⟩]

theorem parentsFirst_classWith (name qualified body : String) :
    ParentsFirst (classWith name qualified body) := by
  intro index fact parent hfact hparent
  match index with
  | 0 => cases hfact; cases hparent
  | 1 => cases hfact; cases hparent; exact Nat.zero_lt_one
  | _ + 2 => cases hfact

/-- A class that was renamed and whose method was edited: the class is known by its shape, and under
it the method by its name. -/
theorem pair_hands_on_renamed :
    let olds := classWith "A" "A.f" "1"
    let news := classWith "B" "B.f" "2"
    ParentsFirst news ∧ (pair olds news).carried [5, 8] = [some 5, some 8] ∧
      HandedOn olds news [5, 8] ((pair olds news).carried [5, 8]) (pair olds news).isTaken ∧
      (handOn olds news [5, 8]).given = [some 5, some 8] := by
  intro olds news
  have hordered : ParentsFirst news := parentsFirst_classWith "B" "B.f" "2"
  have hgiven : (pair olds news).carried [5, 8] = [some 5, some 8] := by decide +kernel
  have hnodup : ([5, 8] : List NodeId).Nodup := by decide
  have hlength : ([5, 8] : List NodeId).length = olds.length := rfl
  obtain ⟨hhanded, hsame⟩ := pair_hands_on hlength hnodup hordered
  refine ⟨hordered, hgiven, hhanded, ?_⟩
  rw [hsame (parentsFirst_classWith "A" "A.f" "1"), hgiven]

end SymbolFact

end CodeGraph
