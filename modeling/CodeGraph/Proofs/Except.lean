import Mathlib.Init

/-!
# Steps that may fail

A chain of steps that succeeded gave each step the value of the one before, and a loop that succeeded
made every one of its steps.
-/

namespace CodeGraph

variable {ε α β : Type}

@[simp] theorem ok_bind (value : α) (next : α → Except ε β) :
    ((Except.ok value : Except ε α) >>= next) = next value := rfl

/-- A loop meets no error when every step keeps an invariant of the part that is done. -/
theorem exists_foldlM (step : β → α → Except ε β) (items : List α) (start : β)
    (invariant : List α → β → Prop) (hstart : invariant [] start)
    (hstep : ∀ done item rest state, items = done ++ item :: rest → invariant done state →
      ∃ next, step state item = .ok next ∧ invariant (done ++ [item]) next) :
    ∃ last, items.foldlM step start = .ok last ∧ invariant items last := by
  suffices h : ∀ rest done state, items = done ++ rest → invariant done state →
      ∃ last, rest.foldlM step state = .ok last ∧ invariant items last from
    h items [] start rfl hstart
  intro rest
  induction rest with
  | nil =>
    intro done state hitems hinvariant
    rw [List.append_nil] at hitems
    exact ⟨state, rfl, hitems ▸ hinvariant⟩
  | cons item rest ih =>
    intro done state hitems hinvariant
    obtain ⟨next, hnext, hinvariant'⟩ := hstep done item rest state hitems hinvariant
    obtain ⟨last, hlast, hfinal⟩ := ih (done ++ [item]) next (by simp [hitems]) hinvariant'
    exact ⟨last, by rw [List.foldlM_cons, hnext]; exact hlast, hfinal⟩

/-- In a list without repetition the item of a step is none of those that are done. -/
theorem notMem_of_split {items done rest : List α} {item : α} (hnodup : items.Nodup)
    (hitems : items = done ++ item :: rest) : item ∉ done := by
  rw [hitems] at hnodup
  exact fun h => (List.nodup_append.1 hnodup).2.2 item h item List.mem_cons_self rfl

/-- A step that succeeded gave the next one its value. -/
theorem exists_of_bind_eq_ok {first : Except ε α} {next : α → Except ε β} {last : β}
    (hbind : (first >>= next) = .ok last) : ∃ value, first = .ok value ∧ next value = .ok last := by
  cases first with
  | error error => cases hbind
  | ok value => exact ⟨value, rfl, hbind⟩

/-- Errors of another kind make no difference to a success. -/
theorem eq_ok_of_mapError_eq_ok {ε' : Type} {first : Except ε α} {convert : ε → ε'} {value : α}
    (hmapped : first.mapError convert = .ok value) : first = .ok value := by
  cases first with
  | error error => cases hmapped
  | ok found => rw [Except.ok.inj hmapped]

/-- What every step of a loop keeps to, from state to state, holds between its start and its end. -/
theorem rel_of_foldlM_eq_ok {step : β → α → Except ε β} (rel : β → β → Prop)
    (hrefl : ∀ state, rel state state)
    (htrans : ∀ {first second third}, rel first second → rel second third → rel first third)
    {items : List α} (hstep : ∀ item ∈ items, ∀ state next, step state item = .ok next →
      rel state next) {start last : β} (hloop : items.foldlM step start = .ok last) :
    rel start last := by
  induction items generalizing start with
  | nil => exact Except.ok.inj hloop ▸ hrefl start
  | cons item items ih =>
    rw [List.foldlM_cons] at hloop
    obtain ⟨next, hnext, hrest⟩ := exists_of_bind_eq_ok hloop
    exact htrans (hstep item List.mem_cons_self start next hnext)
      (ih (fun item hitem => hstep item (List.mem_cons_of_mem _ hitem)) hrest)

theorem forM_eq_ok {step : α → Except ε Unit} {items : List α}
    (hstep : ∀ item ∈ items, step item = .ok ()) : items.forM step = .ok () := by
  induction items with
  | nil => rfl
  | cons item rest ih =>
    have hrest := ih fun other hother => hstep other (List.mem_cons_of_mem item hother)
    rw [List.forM, hstep item List.mem_cons_self]
    exact hrest

/-- A loop that succeeded met no step that fails. -/
theorem forall_of_forM_eq_ok {step : α → Except ε Unit} {items : List α}
    (hloop : items.forM step = .ok ()) : ∀ item ∈ items, step item = .ok () := by
  induction items with
  | nil => exact fun _ hitem => by cases hitem
  | cons first rest ih =>
    rw [List.forM] at hloop
    obtain ⟨_, hfirst, hrest⟩ := exists_of_bind_eq_ok hloop
    intro item hitem
    obtain rfl | hitem := List.mem_cons.1 hitem
    · exact hfirst
    · exact ih hrest item hitem

/-- A loop whose steps all lead back to the state ends where it began. -/
theorem foldlM_eq_self {step : β → α → Except ε β} {items : List α} {state : β}
    (hstep : ∀ item ∈ items, step state item = .ok state) :
    items.foldlM step state = .ok state := by
  induction items with
  | nil => rfl
  | cons item items ih =>
    rw [List.foldlM_cons, hstep item List.mem_cons_self, ok_bind]
    exact ih fun other hother => hstep other (List.mem_cons_of_mem item hother)

end CodeGraph
