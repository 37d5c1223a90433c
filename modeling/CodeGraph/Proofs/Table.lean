import CodeGraph.Table
import Mathlib.Data.List.Nodup

/-!
# Tables as finite maps

What the operations do to the view of a table, and the invariant under which its entries are the
graph of that view: no key stands twice.
-/

namespace CodeGraph

/-- Where no key stands twice, looking up a key finds the one item that has it. -/
theorem find?_key_iff {κ α : Type} [DecidableEq κ] {key : α → κ} {items : List α}
    (hnodup : (items.map key).Nodup) {wanted : κ} {item : α} :
    items.find? (fun other => key other = wanted) = some item ↔
      item ∈ items ∧ key item = wanted := by
  refine ⟨fun hfind => ⟨List.mem_of_find?_eq_some hfind, by simpa using List.find?_some hfind⟩, ?_⟩
  rintro ⟨hmem, rfl⟩
  cases hfind : items.find? (fun other => key other = key item) with
  | none => simpa using List.find?_eq_none.1 hfind item hmem
  | some other =>
    have hsame : key other = key item := by simpa using List.find?_some hfind
    rw [List.inj_on_of_nodup_map hnodup (List.mem_of_find?_eq_some hfind) hmem hsame]

namespace Table

variable {κ α : Type} [DecidableEq κ]

theorem get?_put (table : Table κ α) (key other : κ) (value : α) :
    (table.put key value).get? other = if other = key then some value else table.get? other := by
  split
  · rename_i heq
    rw [heq, get?_put_self]
  · rename_i hne
    exact get?_put_of_ne table value hne

theorem get?_erase (table : Table κ α) (key other : κ) :
    (table.erase key).get? other = if other = key then none else table.get? other := by
  split
  · rename_i heq
    rw [heq, get?_erase_self]
  · rename_i hne
    exact get?_erase_of_ne table hne

theorem contains_eq_false_iff {table : Table κ α} {key : κ} :
    table.contains key = false ↔ table.get? key = none := by
  rw [contains, Option.isSome_eq_false_iff, Option.isNone_iff_eq_none]

omit [DecidableEq κ] in
/-- No key stands twice. -/
def Keyed (table : Table κ α) : Prop :=
  table.keys.Nodup

omit [DecidableEq κ] in
theorem keyed_empty : (empty : Table κ α).Keyed :=
  List.nodup_nil

theorem Keyed.erase {table : Table κ α} (hkeyed : table.Keyed) (key : κ) :
    (table.erase key).Keyed :=
  (List.Sublist.map Prod.fst List.filter_sublist).nodup hkeyed

theorem notMem_keys_erase (table : Table κ α) (key : κ) : key ∉ (table.erase key).keys := by
  intro hmem
  obtain ⟨entry, hentry, heq⟩ := List.mem_map.1 hmem
  have hkept := (List.mem_filter.1 hentry).2
  simp [heq] at hkept

theorem Keyed.put {table : Table κ α} (hkeyed : table.Keyed) (key : κ) (value : α) :
    (table.put key value).Keyed := by
  have hkeys : (table.put key value).keys = (table.erase key).keys ++ [key] := by
    simp [keys, Table.put]
  rw [Keyed, hkeys]
  refine List.Nodup.append (hkeyed.erase key) (List.nodup_singleton key) ?_
  intro other hother hsingle
  rw [List.mem_singleton.1 hsingle] at hother
  exact notMem_keys_erase table key hother

theorem mem_entries_of_get? {table : Table κ α} {key : κ} {value : α}
    (hget : table.get? key = some value) : (key, value) ∈ table.entries := by
  obtain ⟨entry, hfind, hvalue⟩ := Option.map_eq_some_iff.1 hget
  have hkey : entry.1 = key := by simpa using List.find?_some hfind
  have hentry : entry = (key, value) := Prod.ext hkey hvalue
  exact hentry ▸ List.mem_of_find?_eq_some hfind

theorem Keyed.mem_entries_iff {table : Table κ α} (hkeyed : table.Keyed) {key : κ} {value : α} :
    (key, value) ∈ table.entries ↔ table.get? key = some value := by
  refine ⟨?_, mem_entries_of_get?⟩
  intro hmem
  rw [get?, (find?_key_iff hkeyed).2 ⟨hmem, rfl⟩, Option.map_some]

end Table

end CodeGraph
