import CodeGraph.Facts.Signature
import CodeGraph.Proofs.Facts.Descent

/-!
# Where a walk leaves its marks

Imports and names that are used are recorded with their place in the text. The walk comes to each part
of a tree once, or leaves the same marks there again. So in a well-nested tree any two marks are the same
or lie apart, and none reaches out of the tree.
-/

namespace CodeGraph

/-! ### Ranges -/

namespace ByteRange

def Inside (inner outer : ByteRange) : Prop :=
  outer.start ≤ inner.start ∧ inner.stop ≤ outer.stop

def Apart (left right : ByteRange) : Prop :=
  left.stop ≤ right.start ∨ right.stop ≤ left.start

instance (inner outer : ByteRange) : Decidable (inner.Inside outer) :=
  inferInstanceAs (Decidable (_ ∧ _))

/-- What stands in a range of a text. -/
def read (range : ByteRange) (text : String) : String :=
  (Text.slice? text range.start range.stop).getD ""

theorem Inside.refl (range : ByteRange) : range.Inside range :=
  ⟨Nat.le_refl _, Nat.le_refl _⟩

theorem Inside.trans {inner middle outer : ByteRange} (hinner : inner.Inside middle)
    (hmiddle : middle.Inside outer) : inner.Inside outer :=
  ⟨hmiddle.1.trans hinner.1, hinner.2.trans hmiddle.2⟩

theorem Apart.mono {left right inner other : ByteRange} (hapart : left.Apart right)
    (hinner : inner.Inside left) (hother : other.Inside right) : inner.Apart other := by
  rcases hapart with hbefore | hafter
  · exact .inl (hinner.2.trans (hbefore.trans hother.1))
  · exact .inr (hother.2.trans (hafter.trans hinner.1))

end ByteRange

/-- What a walk leaves of the text: the place of a name that is used, or that of a specifier with
the module that is read there. -/
inductive Mark
  | use (range : ByteRange)
  | module (range : ByteRange) (specifier : String)

def Mark.range : Mark → ByteRange
  | .use range | .module range _ => range

/-- The module is read off what stands at the place of the specifier. -/
def Mark.Reads (text : String) (read : String → String) : Mark → Prop
  | .use _ => True
  | .module range specifier => specifier = read (range.read text)

/-- Marks inside a range, of which any two are the same or apart. -/
structure Scattered (range : ByteRange) (spots : Mark → Prop) : Prop where
  inside : ∀ spot, spots spot → spot.range.Inside range
  apart : ∀ left right, spots left → spots right → left = right ∨ left.range.Apart right.range

theorem Scattered.mono {range : ByteRange} {spots fewer : Mark → Prop}
    (hspots : Scattered range spots) (hfewer : fewer ≤ spots) : Scattered range fewer where
  inside spot hspot := hspots.inside spot (hfewer spot hspot)
  apart left right hleft hright := hspots.apart left right (hfewer left hleft) (hfewer right hright)

theorem Scattered.widen {range outer : ByteRange} {spots : Mark → Prop}
    (hspots : Scattered range spots) (hinside : range.Inside outer) : Scattered outer spots where
  inside spot hspot := (hspots.inside spot hspot).trans hinside
  apart := hspots.apart

theorem scattered_none (range : ByteRange) : Scattered range fun _ => False where
  inside _ hspot := hspot.elim
  apart _ _ hspot _ := hspot.elim

theorem scattered_one {range : ByteRange} (spot : Mark) (hinside : spot.range.Inside range) :
    Scattered range (· = spot) where
  inside _ hother := hother ▸ hinside
  apart _ _ hleft hright := .inl (hleft.trans hright.symm)

namespace Tree

/-- Children lie inside their parent, in order and apart. -/
structure Nested (node : Tree) : Prop where
  inside : ∀ child ∈ node.children, child.range.Inside node.range
  ordered : node.children.Pairwise fun left right => left.range.stop ≤ right.range.start

instance (node : Tree) : Decidable node.Nested :=
  decidable_of_iff ((∀ child ∈ node.children, child.range.Inside node.range) ∧
    node.children.Pairwise fun left right => left.range.stop ≤ right.range.start)
    ⟨fun h => ⟨h.1, h.2⟩, fun h => ⟨h.inside, h.ordered⟩⟩

theorem Nested.eq_or_apart {node left right : Tree} (hnested : node.Nested)
    (hleft : left ∈ node.children) (hright : right ∈ node.children) :
    left = right ∨ left.range.Apart right.range :=
  have hordered := hnested.ordered
  (hordered.imp fun hbefore => .inr (.inl hbefore)).forall_of_forall_of_flip
    (R := fun left right => left = right ∨ left.range.Apart right.range)
    (fun _ _ => .inl rfl) (hordered.imp fun hbefore => .inr (.inr hbefore)) hleft hright

theorem field_of_child? {node child : Tree} {field : String}
    (hchild : node.child? field = some child) : child.field = some field := by
  simpa using List.find?_some hchild

theorem Everywhere.inside {node inner : Tree} (hnested : node.Everywhere Nested)
    (hencloses : node.Encloses inner) : inner.range.Inside node.range := by
  induction hencloses with
  | single hchild => exact hnested.here.inside _ hchild
  | tail hmiddle hchild ih => exact ((hnested.below hmiddle).here.inside _ hchild).trans ih

/-- What is scattered over each child is scattered over the node. -/
theorem Nested.scattered {node : Tree} (hnested : node.Nested) {part : Tree → Mark → Prop}
    (hparts : ∀ child ∈ node.children, Scattered child.range (part child)) :
    Scattered node.range fun spot => ∃ child ∈ node.children, part child spot where
  inside := by
    rintro spot ⟨child, hchild, hspot⟩
    exact ((hparts child hchild).inside spot hspot).trans (hnested.inside child hchild)
  apart := by
    rintro left right ⟨child, hchild, hleft⟩ ⟨other, hother, hright⟩
    obtain rfl | hapart := hnested.eq_or_apart hchild hother
    · exact (hparts child hchild).apart left right hleft hright
    · exact .inr (hapart.mono ((hparts child hchild).inside left hleft)
        ((hparts other hother).inside right hright))

end Tree

/-- The spots of a tree: a node has some of its own, and those of the nodes where a walk goes on. -/
inductive Spots (own : Tree → Mark → Prop) (onward : Tree → Tree → Prop) :
    Tree → Mark → Prop
  | own {node : Tree} {spot : Mark} (hown : own node spot) : Spots own onward node spot
  | onward {node inner : Tree} {spot : Mark} (honward : onward node inner)
    (hspot : Spots own onward inner spot) : Spots own onward node spot

/-- What holds of the spots of each node holds of those of a tree. -/
theorem Spots.forall_own {own : Tree → Mark → Prop} {onward : Tree → Tree → Prop} {holds : Mark → Prop}
    (hown : ∀ node spot, own node spot → holds spot) {tree : Tree} {spot : Mark}
    (hspot : Spots own onward tree spot) : holds spot := by
  induction hspot with
  | own hspot => exact hown _ _ hspot
  | onward _ _ ih => exact ih

/-- What one node and the nodes after it have together is scattered if each of them keeps to itself; so
is what a whole tree has. The induction is on the levels of the tree. -/
theorem Spots.scattered {own : Tree → Mark → Prop} {onward : Tree → Tree → Prop}
    {holds : Tree → Prop} (hencloses : ∀ node inner, onward node inner → node.Encloses inner)
    (hnode : ∀ (node : Tree) (spots : Tree → Mark → Prop), node.Everywhere holds →
      (∀ inner, onward node inner → Scattered inner.range (spots inner)) →
      Scattered node.range fun spot => own node spot ∨ ∃ inner, onward node inner ∧ spots inner spot)
    {tree : Tree} (hholds : tree.Everywhere holds) :
    Scattered tree.range (Spots own onward tree) := by
  induction hheight : tree.height using Nat.strong_induction_on generalizing tree with
  | _ height ih =>
    subst hheight
    refine (hnode tree (Spots own onward) hholds fun inner honward => ?_).mono ?_
    · have hinner := hencloses tree inner honward
      exact ih inner.height hinner.height_lt (hholds.below hinner) rfl
    · rintro spot (hown | ⟨honward, hspot⟩)
      · exact .inl hown
      · exact .inr ⟨_, honward, hspot⟩

/-! ### Marks -/

/-- As much text as a dotted name takes, from where the use begins. -/
def NameRef.spot (target : NameRef) : ByteRange :=
  ⟨target.range.start, target.range.start + Text.size target.dotted⟩

/-- The mark of an import. -/
def ImportFact.mark (fact : ImportFact) : Mark :=
  .module fact.specifierRange fact.specifier

/-- The marks that facts record: of specifiers, and of the names that are used if these count. -/
def FileFacts.Marked (names : Bool) (facts : FileFacts) (spot : Mark) : Prop :=
  (∃ fact ∈ facts.imports, fact.mark = spot) ∨
    names = true ∧ ∃ reference ∈ facts.references, reference.kind = .name ∧
      .use reference.target.spot = spot

namespace Walk

variable {α β : Type}

/-- Over the text, the walk marks some of the spots at most. -/
def Marks (names : Bool) (text : String) (spots : Mark → Prop) (walk : Walk α) : Prop :=
  ∀ (place : Place) (facts : FileFacts), place.text = text →
    ∀ spot, (walk place facts).2.Marked names spot → facts.Marked names spot ∨ spots spot

section Marks

variable {names : Bool} {text : String} {spots more : Mark → Prop}

theorem Marks.mono {walk : Walk α} (hwalk : Marks names text spots walk) (hmore : spots ≤ more) :
    Marks names text more walk :=
  fun place facts htext spot hspot => (hwalk place facts htext spot hspot).imp_right (hmore spot)

theorem Marks.bind {walk : Walk α} {next : α → Walk β} (hwalk : Marks names text spots walk)
    (hnext : ∀ answer, Marks names text spots (next answer)) :
    Marks names text spots (walk >>= next) := by
  intro place facts htext spot hspot
  obtain hmiddle | hnew := hnext (walk place facts).1 place (walk place facts).2 htext spot hspot
  · exact hwalk place facts htext spot hmiddle
  · exact .inr hnew

/-- A walk that records neither imports nor uses. -/
theorem marks_of_same {walk : Walk α} (hsame : ∀ place facts,
      (walk place facts).2.imports = facts.imports ∧
        (walk place facts).2.references = facts.references) : Marks names text spots walk := by
  intro place facts _ spot hspot
  obtain ⟨himports, hreferences⟩ := hsame place facts
  rw [FileFacts.Marked, himports, hreferences] at hspot
  exact .inl hspot

theorem marks_pure (answer : α) : Marks names text spots (pure answer : Walk α) :=
  marks_of_same fun _ _ => ⟨rfl, rfl⟩

theorem marks_read : Marks names text spots (read : Walk Place) :=
  marks_of_same fun _ _ => ⟨rfl, rfl⟩

theorem marks_get : Marks names text spots (get : Walk FileFacts) :=
  marks_of_same fun _ _ => ⟨rfl, rfl⟩

theorem marks_modify {change : FileFacts → FileFacts} (hchange : ∀ facts,
      (change facts).imports = facts.imports ∧ (change facts).references = facts.references) :
    Marks names text spots (modify change : Walk Unit) :=
  marks_of_same fun _ facts => hchange facts

/-- What is read of the text is what it says. -/
theorem marks_textOf_bind {node : Tree} {next : String → Walk α}
    (hnext : Marks names text spots (next (node.range.read text))) :
    Marks names text spots (textOf node >>= next) := by
  rintro place facts rfl
  exact hnext place facts rfl

theorem marks_memberChain?_bind {shape : MemberShape} {node : Tree}
    {next : Option NameRef → Walk α}
    (hnext : Marks names text spots
      (next (memberChainWithin text shape node.range node.height node []))) :
    Marks names text spots (memberChain? shape node >>= next) := by
  rintro place facts rfl
  exact hnext place facts rfl

theorem marks_forM {items : List α} {walk : α → Walk Unit}
    (hwalk : ∀ item ∈ items, Marks names text spots (walk item)) :
    Marks names text spots (items.forM walk) := by
  induction items with
  | nil => exact marks_pure ()
  | cons item rest ih =>
    exact (hwalk item List.mem_cons_self).bind fun _ =>
      ih fun other hother => hwalk other (List.mem_cons_of_mem item hother)

theorem marks_optionForM {item : Option α} {walk : α → Walk Unit}
    (hwalk : ∀ found, item = some found → Marks names text spots (walk found)) :
    Marks names text spots (item.forM walk) := by
  cases item with
  | none => exact marks_pure ()
  | some found => exact hwalk found rfl

theorem marks_mapM {items : List α} {walk : α → Walk β}
    (hwalk : ∀ item ∈ items, Marks names text spots (walk item)) :
    Marks names text spots (items.mapM walk) := by
  induction items with
  | nil => exact marks_pure []
  | cons item rest ih =>
    rw [List.mapM_cons]
    exact (hwalk item List.mem_cons_self).bind fun _ =>
      (ih fun other hother => hwalk other (List.mem_cons_of_mem item hother)).bind fun _ =>
      marks_pure _

theorem marks_optionMapM {item : Option α} {walk : α → Walk β}
    (hwalk : ∀ found, Marks names text spots (walk found)) :
    Marks names text spots (item.mapM walk) := by
  cases item with
  | none => exact marks_pure none
  | some found => exact (hwalk found).bind fun _ => marks_pure _

theorem marks_foldlM {items : List β} {walk : α → β → Walk α} {start : α}
    (hwalk : ∀ state, ∀ item ∈ items, Marks names text spots (walk state item)) :
    Marks names text spots (items.foldlM walk start) := by
  induction items generalizing start with
  | nil => exact marks_pure start
  | cons item rest ih =>
    rw [List.foldlM_cons]
    exact (hwalk start item List.mem_cons_self).bind fun _ =>
      ih fun state other hother => hwalk state other (List.mem_cons_of_mem item hother)

theorem marks_withReader {move : Place → Place} {walk : Walk Unit}
    (hmove : ∀ place, (move place).text = place.text) (hwalk : Marks names text spots walk) :
    Marks names text spots (withReader move walk) :=
  fun place facts htext => hwalk (move place) facts ((hmove place).trans htext)

/-! ### Walks that leave no marks -/

theorem marks_textOf (node : Tree) : Marks names text spots (textOf node) :=
  marks_of_same fun _ _ => ⟨rfl, rfl⟩

theorem marks_sourceRange (node : Tree) : Marks names text spots (sourceRange node) :=
  marks_of_same fun _ _ => ⟨rfl, rfl⟩

theorem marks_inFunction : Marks names text spots inFunction :=
  marks_of_same fun _ _ => ⟨rfl, rfl⟩

theorem marks_isSelf (name : String) : Marks names text spots (isSelf name) :=
  marks_of_same fun _ _ => ⟨rfl, rfl⟩

theorem marks_declaredHere (name : String) : Marks names text spots (declaredHere name) := by
  have hscope : Marks names text spots scope? := marks_of_same fun _ _ => ⟨rfl, rfl⟩
  refine hscope.bind fun scope => ?_
  split
  · exact marks_pure _
  · exact marks_pure _

theorem marks_memberChain? (shape : MemberShape) (node : Tree) :
    Marks names text spots (memberChain? shape node) :=
  marks_of_same fun _ _ => ⟨rfl, rfl⟩

theorem marks_define (kind : NodeKind) (name definition : Tree) (exported : Bool) :
    Marks names text spots (define kind name definition exported) :=
  marks_of_same fun _ _ => ⟨rfl, rfl⟩

theorem marks_bindLocal (name : String) : Marks names text spots (bindLocal name) := by
  refine marks_read.bind fun place => ?_
  split
  · exact marks_modify fun _ => ⟨rfl, rfl⟩
  · exact marks_pure ()

theorem marks_bindPattern (identifiers : List String) (node : Tree) :
    Marks names text spots (bindPattern identifiers node) :=
  marks_forM fun name _ => (marks_textOf name).bind fun _ => marks_bindLocal _

theorem marks_addBase (symbol : Nat) (base : NameRef) :
    Marks names text spots (addBase symbol base) := by
  rw [addBase]
  split
  · exact marks_pure ()
  · exact marks_modify fun _ => ⟨rfl, rfl⟩

theorem marks_markExported (name : String) : Marks names text spots (markExported name) := by
  refine marks_modify fun facts => ?_
  split
  · exact ⟨rfl, rfl⟩
  · exact ⟨rfl, rfl⟩

theorem marks_setDefaultExport (name : String) :
    Marks names text spots (setDefaultExport name) :=
  (marks_of_same fun _ _ => ⟨rfl, rfl⟩ : Marks names text spots _).bind fun _ =>
    marks_markExported name

/-- A use that does not count as one of a name. -/
theorem marks_pushReference {target : NameRef} {kind : RefKind} (hkind : kind ≠ .name) :
    Marks names text spots (pushReference target kind) := by
  intro place facts _ spot hspot
  rcases hspot with himport | ⟨hnames, reference, hreference, hname, hspot⟩
  · exact .inl (.inl himport)
  · rcases List.mem_append.1 hreference with hold | hnew
    · exact .inl (.inr ⟨hnames, reference, hold, hname, hspot⟩)
    · obtain rfl := List.mem_singleton.1 hnew
      exact absurd hname hkind

theorem marks_selfMember (member : String) (range : ByteRange) :
    Marks names text spots (selfMember member range) :=
  marks_pushReference (by decide)

theorem marks_stringLookup (name : String) (range : ByteRange) :
    Marks names text spots (stringLookup name range) := by
  rw [stringLookup]
  split
  · exact marks_pushReference (by decide)
  · exact marks_pure ()

/-! ### Walks that leave a mark -/

theorem marks_referencePath {target : NameRef}
    (hspot : names = true → target.name ≠ "" → spots (.use target.spot)) :
    Marks names text spots (referencePath target) := by
  rw [referencePath]
  split
  · exact marks_pure ()
  · rename_i hne
    intro place facts _ spot hmarked
    rcases hmarked with himport | ⟨hnames, reference, hreference, hname, rfl⟩
    · exact .inl (.inl himport)
    · rcases List.mem_append.1 hreference with hold | hnew
      · exact .inl (.inr ⟨hnames, reference, hold, hname, rfl⟩)
      · obtain rfl := List.mem_singleton.1 hnew
        exact .inr (hspot hnames hne)

theorem marks_importing {fact : ImportFact} (hspot : spots fact.mark) :
    Marks names text spots (importing fact) := by
  intro place facts _ spot hmarked
  rcases hmarked with ⟨found, hfound, rfl⟩ | hname
  · rcases List.mem_append.1 hfound with hold | hnew
    · exact .inl (.inl ⟨found, hold, rfl⟩)
    · obtain rfl := List.mem_singleton.1 hnew
      exact .inr hspot
  · exact .inl (.inr hname)

/-! ### Walks in a place of their own -/

theorem marks_openScope (kind : ScopeKind) (range : ByteRange) (owner : Option Nat)
    {walk : ScopeId → Walk Unit} (hwalk : ∀ scope, Marks names text spots (walk scope)) :
    Marks names text spots (openScope kind range owner >>= walk) :=
  (marks_of_same fun _ _ => ⟨rfl, rfl⟩ : Marks names text spots _).bind hwalk

theorem marks_inSymbol (symbol : Nat) (kind : ScopeKind) (node : Tree) {walk : Walk Unit}
    (hwalk : Marks names text spots walk) :
    Marks names text spots (inSymbol symbol kind node walk) :=
  marks_openScope kind node.range (some symbol) fun _ => marks_withReader (fun _ => rfl) hwalk

theorem marks_inAnonymous (kind : ScopeKind) (node : Tree) {walk : Walk Unit}
    (hwalk : Marks names text spots walk) :
    Marks names text spots (inAnonymous kind node walk) :=
  marks_openScope kind node.range none fun _ => marks_withReader (fun _ => rfl) hwalk

theorem marks_withOwner (symbol : Nat) {walk : Walk Unit} (hwalk : Marks names text spots walk) :
    Marks names text spots (withOwner symbol walk) :=
  marks_withReader (fun _ => rfl) hwalk

end Marks

/-! ### Going on below a node -/

section Visit

variable {names : Bool} {text : String} {spots : Tree → Mark → Prop} {here : Mark → Prop}
  {visit : Visit} (hvisit : ∀ node, Marks names text (spots node) (visit node)) {node : Tree}

include hvisit

theorem marks_visit (hpass : spots node ≤ here) : Marks names text here (visit node) :=
  (hvisit node).mono hpass

theorem marks_visitChildren (hpass : ∀ child ∈ node.children, spots child ≤ here) :
    Marks names text here (visitChildren visit node) :=
  marks_forM fun child hchild => marks_visit hvisit (hpass child (Tree.mem_children_of_named hchild))

theorem marks_visitField {field : String}
    (hpass : ∀ child, node.child? field = some child → spots child ≤ here) :
    Marks names text here (visitField visit node field) := by
  rw [visitField]
  split
  · rename_i child hchild
    exact marks_visit hvisit (hpass child hchild)
  · exact marks_pure ()

end Visit

/-- What every node marks, a whole tree marks. -/
theorem marks_unroll {names : Bool} {text : String} {spots : Tree → Mark → Prop}
    {step : Visit → Visit} (hstep : ∀ visit, (∀ node, Marks names text (spots node) (visit node)) →
      ∀ node, Marks names text (spots node) (step visit node)) (fuel : Nat) (node : Tree) :
    Marks names text (spots node) (unroll step fuel node) := by
  induction fuel generalizing node with
  | zero => exact marks_pure ()
  | succ fuel ih => exact hstep _ ih node

end Walk

end CodeGraph
