import CodeGraph.Facts.Handout
import CodeGraph.Proofs.Facts.Pairing
import CodeGraph.Proofs.Table
import Mathlib.Data.List.Find

/-!
# What is handed on is what is paired

A matching tells by itself which old symbols are taken: those that are somebody's partner. Handing ids
on notes them one by one instead, and finds the first of a key in its queue. Both go over the new
symbols in the same order, and after each of them the notes and the queues are the ones that the
matching calls for.
-/

namespace CodeGraph

namespace Matching

variable {matching : Matching} {index old : Nat}

theorem isTaken_set (hindex : index < matching.length) (hnone : matching.partner? index = none)
    (other : Nat) :
    isTaken (matching.set index (some old)) other =
      (decide (other = old) || matching.isTaken other) := by
  rw [Bool.eq_iff_iff, Bool.or_eq_true, decide_eq_true_eq, isTaken_iff, isTaken_iff]
  constructor
  · rintro ⟨place, hplace⟩
    rw [partner?_set hindex] at hplace
    split at hplace
    · exact .inl (Option.some.inj hplace).symm
    · exact .inr ⟨place, hplace⟩
  · rintro (rfl | ⟨place, hplace⟩)
    · exact ⟨index, by rw [partner?_set hindex, if_pos rfl]⟩
    · refine ⟨place, ?_⟩
      rw [partner?_set hindex, if_neg, hplace]
      rintro rfl
      rw [hnone] at hplace
      cases hplace

theorem isTaken_empty (count other : Nat) : (empty count).isTaken other = false := by
  rw [← Bool.not_eq_true, isTaken_iff, not_exists]
  intro place
  rw [partner?_empty]
  exact Option.some_ne_none other ∘ Eq.symm

end Matching

namespace SymbolFact

/-- Fit to be paired: under paired parents, and the same in some way. -/
def kindred (same : SymbolFact → SymbolFact → Bool) (matching : Matching)
    (old new : SymbolFact) : Bool :=
  sameParent matching old new && same old new

end SymbolFact

namespace Handout

/-- What is given and taken when symbols are matched in this way. -/
def ofMatching (olds : List SymbolFact) (ids : List NodeId) (matching : Matching) : Handout :=
  ⟨matching.carried ids, (List.range olds.length).map matching.isTaken⟩

section OfMatching

variable {olds news : List SymbolFact} {ids : List NodeId} {matching : Matching}
  (hlength : ids.length = olds.length)

theorem isTaken_ofMatching {old : Nat} (hold : old < olds.length) :
    (ofMatching olds ids matching).isTaken old = matching.isTaken old := by
  rw [isTaken, ofMatching, List.getD_eq_getElem?_getD, List.getElem?_map,
    List.getElem?_range hold, Option.map_some, Option.getD_some]

theorem given?_ofMatching (index : Nat) :
    (ofMatching olds ids matching).given? index = (matching.partner? index).bind (ids[·]?) := by
  rw [given?, ofMatching, Matching.carried, List.getElem?_map, Matching.partner?]
  cases matching[index]? with
  | none => rfl
  | some partner => rfl

/-- Giving an id to a symbol that has none is matching it. -/
theorem give_ofMatching {index old : Nat} (hindex : index < matching.length)
    (hnone : matching.partner? index = none) (hold : old < olds.length) :
    (ofMatching olds ids matching).give ids old index =
      ofMatching olds ids (matching.set index (some old)) := by
  rw [give, ofMatching, ofMatching, Handout.mk.injEq]
  refine ⟨by rw [Matching.carried, Matching.carried, List.map_set]; rfl, ?_⟩
  apply List.ext_getElem?
  intro place
  rw [List.getElem?_set, List.length_map, List.length_range, List.getElem?_map, List.getElem?_map]
  by_cases hplace : place < olds.length
  · rw [List.getElem?_range hplace, Option.map_some, Option.map_some,
      Matching.isTaken_set hindex hnone]
    by_cases heq : old = place
    · simp [heq, hplace]
    · simp [heq, Ne.symm heq]
  · have hout : (List.range olds.length)[place]? = none :=
      List.getElem?_eq_none (by rw [List.length_range]; omega)
    have hne : old ≠ place := fun heq => hplace (heq ▸ hold)
    rw [if_neg hne, hout]
    rfl

theorem start_eq : start olds news = ofMatching olds ids (Matching.empty news.length) := by
  rw [start, ofMatching, Handout.mk.injEq]
  constructor
  · rw [Matching.carried, Matching.empty, List.map_replicate]
    rfl
  · rw [funext (Matching.isTaken_empty news.length), List.map_const', List.length_range]

include hlength

/-- Parents share an id exactly if they are partners. -/
theorem sameParent_ofMatching (hnodup : ids.Nodup) {old new : SymbolFact}
    (hparent : ∀ parent, old.parent = some parent → parent < olds.length) :
    (ofMatching olds ids matching).sameParent ids old new = old.sameParent matching new := by
  rw [sameParent, SymbolFact.sameParent]
  cases hold : old.parent with
  | none => cases new.parent <;> simp
  | some oldParent =>
    cases new.parent with
    | none => simp
    | some newParent =>
      have hlt : oldParent < ids.length := hlength ▸ hparent oldParent hold
      rw [Option.map_some, Option.map_some, given?_ofMatching, decide_eq_decide, Option.some.injEq]
      constructor
      · intro hsame
        rw [List.getElem?_eq_getElem hlt] at hsame
        obtain ⟨other, hother, hid⟩ := Option.bind_eq_some_iff.1 hsame.symm
        rwa [Matching.getElem?_inj_of_nodup hnodup (List.getElem?_eq_getElem hlt) hid]
      · intro hpartner
        rw [hpartner, Option.bind_some]

variable {belong : SymbolFact → SymbolFact → Prop} (hsound : Matching.Sound belong olds news matching)

include hsound

theorem isSome_given?_ofMatching (index : Nat) :
    ((ofMatching olds ids matching).given? index).isSome = (matching.partner? index).isSome := by
  rw [given?_ofMatching]
  cases hpartner : matching.partner? index with
  | none => rfl
  | some old =>
    obtain ⟨before, -, hbefore, -⟩ := hsound.fits index old hpartner
    have hold : old < ids.length := hlength ▸ (List.getElem?_eq_some_iff.1 hbefore).1
    rw [Option.bind_some, List.getElem?_eq_getElem hold]
    rfl

/-! ### Offers -/

/-- An offer to a new symbol is its turn in a sweep. -/
theorem offer_ofMatching (hnodup : ids.Nodup)
    (hparents : ∀ old ∈ olds, ∀ parent, old.parent = some parent → parent < olds.length)
    (same : SymbolFact → SymbolFact → Bool) {entry : SymbolFact × Nat}
    (hentry : news[entry.2]? = some entry.1) :
    (ofMatching olds ids matching).offer olds ids same entry =
      ofMatching olds ids (matching.claim olds (SymbolFact.kindred same) entry) := by
  obtain ⟨new, index⟩ := entry
  have hindex : index < matching.length :=
    hsound.length ▸ (List.getElem?_eq_some_iff.1 hentry).1
  have hwanted : ∀ place ∈ olds.zipIdx,
      (!(ofMatching olds ids matching).isTaken place.2 &&
        ((ofMatching olds ids matching).sameParent ids place.1 new && same place.1 new)) =
      (!matching.isTaken place.2 && SymbolFact.kindred same matching place.1 new) := by
    rintro ⟨old, place⟩ hplace
    have hold := List.mem_zipIdx_iff_getElem?.1 hplace
    rw [isTaken_ofMatching (List.getElem?_eq_some_iff.1 hold).1,
      sameParent_ofMatching hlength hnodup (hparents old (List.mem_of_getElem? hold)),
      SymbolFact.kindred]
  rw [offer, Matching.claim, Matching.firstFree?]
  simp only [isSome_given?_ofMatching hlength hsound, List.find?_congr hwanted]
  split
  · rfl
  · rename_i hfree
    have hnone : matching.partner? index = none := by simpa using hfree
    cases hfind : olds.zipIdx.find? fun place =>
        !matching.isTaken place.2 && SymbolFact.kindred same matching place.1 new with
    | none => rfl
    | some found =>
      have hold := List.mem_zipIdx_iff_getElem?.1 (List.mem_of_find?_eq_some hfind)
      exact give_ofMatching hindex hnone (List.getElem?_eq_some_iff.1 hold).1

/-- By induction on the new symbols that are left. -/
theorem offerAll_ofMatching (hnodup : ids.Nodup)
    (hparents : ∀ old ∈ olds, ∀ parent, old.parent = some parent → parent < olds.length)
    {same : SymbolFact → SymbolFact → Bool}
    (hsame : ∀ before after, same before after = true → belong before after) :
    (ofMatching olds ids matching).offerAll olds news ids same =
      ofMatching olds ids (matching.sweep olds news (SymbolFact.kindred same)) := by
  have hentries : ∀ entry ∈ news.zipIdx, news[entry.2]? = some entry.1 :=
    fun entry hentry => List.mem_zipIdx_iff_getElem?.1 hentry
  rw [offerAll, Matching.sweep]
  generalize news.zipIdx = entries at hentries
  induction entries generalizing matching with
  | nil => rfl
  | cons entry entries ih =>
    have hentry := hentries entry List.mem_cons_self
    rw [List.foldl_cons, List.foldl_cons, offer_ofMatching hlength hsound hnodup hparents same hentry]
    refine ih (hsound.claim (fun _ before after hfits => ?_) hentry)
      fun other hother => hentries other (List.mem_cons_of_mem _ hother)
    rw [SymbolFact.kindred, Bool.and_eq_true] at hfits
    exact hsame before after hfits.2

end OfMatching

/-! ### Queues -/

/-- The old symbols of a key that are free, in order of appearance. -/
def waiting (olds : List SymbolFact) (matching : Matching) (key : NodeKind × String) : List Nat :=
  (olds.zipIdx.filter fun (old, place) =>
    !matching.isTaken place && decide (old.key = key)).map Prod.snd

/-- Each queue holds the old symbols of its key that are free. -/
def Queued (olds : List SymbolFact) (matching : Matching) (queues : Queues) : Prop :=
  ∀ key, (queues.get? key).getD [] = waiting olds matching key

variable {olds news : List SymbolFact} {matching : Matching} {queues : Queues}

theorem mem_waiting {key : NodeKind × String} {old : Nat} (hold : old ∈ waiting olds matching key) :
    ∃ fact, olds[old]? = some fact ∧ fact.key = key := by
  obtain ⟨⟨fact, place⟩, hentry, rfl⟩ := List.mem_map.1 hold
  obtain ⟨hentry, hwanted⟩ := List.mem_filter.1 hentry
  rw [Bool.and_eq_true, decide_eq_true_eq] at hwanted
  exact ⟨fact, List.mem_zipIdx_iff_getElem?.1 hentry, hwanted.2⟩

theorem nodup_waiting (olds : List SymbolFact) (matching : Matching) (key : NodeKind × String) :
    (waiting olds matching key).Nodup := by
  have hplaces : (olds.zipIdx.map Prod.snd).Nodup := by
    rw [List.zipIdx_map_snd]
    exact List.nodup_range'
  exact hplaces.sublist (List.filter_sublist.map Prod.snd)

/-- The first in the queue of a new symbol is the first that is free and fits. -/
theorem firstFree?_key (olds : List SymbolFact) (matching : Matching) (new : SymbolFact) :
    matching.firstFree? olds (fun old => decide (old.key = new.key)) =
      (waiting olds matching new.key).head? := by
  rw [Matching.firstFree?, waiting, List.head?_map, List.head?_filter]

/-- Who is matched does not wait any more. -/
theorem waiting_set {index old : Nat} (hindex : index < matching.length)
    (hnone : matching.partner? index = none) (key : NodeKind × String) :
    waiting olds (matching.set index (some old)) key =
      (waiting olds matching key).filter (· ≠ old) := by
  rw [waiting, waiting, List.filter_map, List.filter_filter]
  congr 2
  funext ⟨fact, place⟩
  simp only [Matching.isTaken_set hindex hnone, Bool.not_or, Bool.and_assoc, Function.comp_apply,
    decide_not]

theorem get?_foldl_enqueue (entries : List (SymbolFact × Nat)) (queues : Queues)
    (key : NodeKind × String) :
    ((entries.foldl enqueue queues).get? key).getD [] = (queues.get? key).getD [] ++
      (entries.filter fun entry => decide (entry.1.key = key)).map Prod.snd := by
  induction entries generalizing queues with
  | nil => simp
  | cons entry entries ih =>
    rw [List.foldl_cons, ih, enqueue, Table.get?_put]
    by_cases hkey : entry.1.key = key
    · subst hkey
      simp
    · rw [if_neg (Ne.symm hkey), List.filter_cons_of_neg (by simpa using hkey)]

theorem queued_queuesOf (olds : List SymbolFact) (count : Nat) :
    Queued olds (Matching.empty count) (queuesOf olds) := by
  intro key
  rw [queuesOf, get?_foldl_enqueue, Table.get?_empty, Option.getD_none, List.nil_append, waiting]
  simp only [Matching.isTaken_empty, Bool.not_false, Bool.true_and]

/-- Serving a new symbol is its turn in a sweep by key. -/
theorem serve_ofMatching (ids : List NodeId) (new : SymbolFact)
    (hqueued : Queued olds matching queues) {index : Nat} (hindex : index < matching.length)
    (hnone : matching.partner? index = none) :
    let claimed := matching.claim olds (fun _ before after => decide (before.key = after.key))
      (new, index)
    ∃ queues', serve ids (ofMatching olds ids matching, queues) (new, index) =
      (ofMatching olds ids claimed, queues') ∧ Queued olds claimed queues' := by
  intro claimed
  have hclaimed : claimed = (waiting olds matching new.key).head?.elim matching fun old =>
      matching.set index (some old) := by
    cases hhead : (waiting olds matching new.key).head? <;>
      simp only [claimed, Matching.claim, hnone, Option.isSome_none, Bool.false_eq_true, if_false,
        firstFree?_key, hhead, Option.elim_none, Option.elim_some]
  have hqueue := hqueued new.key
  rw [serve]
  simp only
  split
  · rename_i old rest hget
    rw [hget, Option.getD_some] at hqueue
    rw [← hqueue, List.head?_cons, Option.elim_some] at hclaimed
    obtain ⟨fact, hfact, hkey⟩ := mem_waiting (hqueue ▸ List.mem_cons_self)
    refine ⟨queues.put new.key rest, ?_, fun key => ?_⟩
    · rw [give_ofMatching hindex hnone (List.getElem?_eq_some_iff.1 hfact).1, hclaimed]
    · rw [hclaimed, waiting_set hindex hnone, Table.get?_put]
      by_cases hsame : key = new.key
      · -- nobody waits twice
        have hnodup := hqueue ▸ nodup_waiting olds matching new.key
        rw [if_pos hsame, Option.getD_some, hsame, ← hqueue, List.filter_cons_of_neg (by simp),
          List.filter_eq_self.2 fun other hother => ?_]
        exact decide_eq_true fun heq => (List.nodup_cons.1 hnodup).1 (heq ▸ hother)
      · rw [if_neg hsame, hqueued key, List.filter_eq_self.2 fun other hother => ?_]
        obtain ⟨other', hother', hkey'⟩ := mem_waiting hother
        refine decide_eq_true fun heq => hsame ?_
        rw [heq, hfact] at hother'
        rw [← hkey', ← Option.some.inj hother', hkey]
  · rename_i hget
    have hempty : waiting olds matching new.key = [] := by
      rw [← hqueue]
      cases hqueues : queues.get? new.key with
      | none => rfl
      | some queue =>
        cases queue with
        | nil => rfl
        | cons old rest => exact absurd hqueues (hget old rest)
    rw [hempty, List.head?_nil, Option.elim_none] at hclaimed
    exact ⟨queues, by rw [hclaimed], hclaimed ▸ hqueued⟩

/-- By induction on the new symbols that are left. None of them has had its turn. -/
theorem serveAll_ofMatching (ids : List NodeId) {done rest : List SymbolFact}
    (hnews : news = done ++ rest)
    (hearlier : Matching.RankedTo SymbolFact.key olds news done.length matching)
    (hqueued : Queued olds matching queues) :
    ((rest.zipIdx done.length).foldl (serve ids) (ofMatching olds ids matching, queues)).1 =
      ofMatching olds ids ((rest.zipIdx done.length).foldl
        (Matching.claim olds fun _ before after => decide (before.key = after.key)) matching) := by
  induction rest generalizing done matching queues with
  | nil => rfl
  | cons new rest ih =>
    have hnew : news[done.length]? = some new := by simp [hnews]
    have hindex : done.length < matching.length :=
      hearlier.length ▸ (List.getElem?_eq_some_iff.1 hnew).1
    have hnone : matching.partner? done.length = none := by
      rw [Option.eq_none_iff_forall_ne_some]
      exact fun old hold => Nat.lt_irrefl _ ((hearlier.partner _ old).1 hold).1
    have hdone : (done ++ [new]).length = done.length + 1 := by simp
    obtain ⟨queues', hserve, hqueued'⟩ := serve_ofMatching ids new hqueued hindex hnone
    rw [List.zipIdx_cons, List.foldl_cons, List.foldl_cons, hserve, ← hdone]
    refine ih (by simp [hnews]) ?_ hqueued'
    rw [hdone]
    exact hearlier.claim hnew

end Handout

namespace SymbolFact

/-- **What is handed on is what is paired**: the new symbols are given the ids of their partners, and
the old ones that are noted as taken are those that are somebody's partner. -/
theorem handOn_eq {olds news : List SymbolFact} {ids : List NodeId}
    (hlength : ids.length = olds.length) (hnodup : ids.Nodup)
    (hparents : ∀ old ∈ olds, ∀ parent, old.parent = some parent → parent < olds.length) :
    handOn olds news ids = .ofMatching olds ids (pair olds news) := by
  have hkey : (fun (_ : Matching) (before after : SymbolFact) => before.sameKey after) =
      fun _ before after => decide (before.key = after.key) := by
    funext _ before after
    simp [sameKey, key]
  have hserved := Handout.serveAll_ofMatching ids (List.nil_append news).symm
    Matching.rankedTo_empty (Handout.queued_queuesOf olds news.length)
  rw [List.length_nil, ← Matching.sweep, ← hkey, ← byKey, ← Handout.start_eq] at hserved
  have hsound : Matching.Sound (fun _ _ => True) olds news (byKey olds news) :=
    (Matching.sound_empty _ olds news).sweep fun _ _ _ _ => trivial
  rw [handOn, hserved, Handout.offerAll_ofMatching hlength hsound hnodup hparents fun _ _ _ => trivial,
    Handout.offerAll_ofMatching hlength (hsound.sweep fun _ _ _ _ => trivial) hnodup hparents
      fun _ _ _ => trivial]
  rfl

end SymbolFact

end CodeGraph
