import CodeGraph.Proofs.Path

/-!
# Parts of texts

A slice parts its text in three, and a splice replaces the middle one. Splitting and joining undo each
other, and lengths of texts add up.
-/

namespace CodeGraph.Text

/-! ### Lengths -/

theorem byteLength_append (left right : List Char) :
    byteLength (left ++ right) = byteLength left + byteLength right := by
  induction left with
  | nil => simp [byteLength]
  | cons char chars ih => simp [byteLength, ih, Nat.add_assoc]

theorem size_append (left right : String) : size (left ++ right) = size left + size right := by
  rw [size, String.toList_append, byteLength_append]
  rfl

theorem size_pos {text : String} (hne : text ≠ "") : 0 < size text := by
  rw [size]
  cases hchars : text.toList with
  | nil => exact absurd (String.toList_eq_nil_iff.1 hchars) hne
  | cons char chars => exact Nat.add_pos_left (Char.utf8Size_pos char) _

theorem size_join_concat (separator : String) {parts : List String} (hparts : parts ≠ [])
    (last : String) : size (join separator (parts ++ [last])) =
      size (join separator parts) + size separator + size last := by
  rw [join_append separator hparts (List.cons_ne_nil last []), size_append, size_append]
  rfl

theorem size_join_le_append (separator : String) (first second : List String) :
    size (join separator first) ≤ size (join separator (first ++ second)) := by
  by_cases hfirst : first = []
  · subst hfirst
    exact Nat.zero_le _
  · by_cases hsecond : second = []
    · rw [hsecond, List.append_nil]
    · rw [join_append separator hfirst hsecond, String.append_assoc, size_append]
      exact Nat.le_add_right _ _

/-! ### Slices and splices -/

/-- Two cuts, one in what is left by the other, part a text in three. -/
theorem parts_of_cuts {text : String} {start stop : Nat} (hle : start ≤ stop)
    {head rest middle tail : List Char} (hstart : cut? text.toList start = some (head, rest))
    (hstop : cut? rest (stop - start) = some (middle, tail)) :
    text = String.ofList head ++ String.ofList middle ++ String.ofList tail ∧
      size (String.ofList head) = start ∧ start + size (String.ofList middle) = stop := by
  obtain ⟨htext, hhead⟩ := append_eq_of_cut? hstart
  obtain ⟨rfl, hmiddle⟩ := append_eq_of_cut? hstop
  refine ⟨?_, ?_, ?_⟩
  · rw [← String.ofList_append, ← String.ofList_append, List.append_assoc, htext,
      String.ofList_toList]
  · rw [size, String.toList_ofList, hhead]
  · rw [size, String.toList_ofList, hmiddle]
    exact Nat.add_sub_of_le hle

theorem exists_parts_of_slice? {text middle : String} {start stop : Nat}
    (hslice : slice? text start stop = some middle) : ∃ head tail, text = head ++ middle ++ tail ∧
      size head = start ∧ start + size middle = stop := by
  rw [slice?] at hslice
  split at hslice
  · rename_i hle
    obtain ⟨⟨head, rest⟩, hstart, hslice⟩ := Option.bind_eq_some_iff.1 hslice
    obtain ⟨⟨chars, tail⟩, hstop, hmiddle⟩ := Option.bind_eq_some_iff.1 hslice
    obtain rfl := Option.some.inj hmiddle
    exact ⟨String.ofList head, String.ofList tail, parts_of_cuts hle hstart hstop⟩
  · cases hslice

theorem exists_parts_of_splice? {text now replacement : String} {start stop : Nat}
    (hsplice : splice? text start stop replacement = some now) : ∃ head middle tail,
      text = head ++ middle ++ tail ∧ size head = start ∧ start + size middle = stop ∧
      now = head ++ replacement ++ tail := by
  rw [splice?] at hsplice
  split at hsplice
  · rename_i hle
    obtain ⟨⟨head, rest⟩, hstart, hsplice⟩ := Option.bind_eq_some_iff.1 hsplice
    obtain ⟨⟨middle, tail⟩, hstop, hnow⟩ := Option.bind_eq_some_iff.1 hsplice
    obtain rfl := Option.some.inj hnow
    obtain ⟨htext, hhead, hmiddle⟩ := parts_of_cuts hle hstart hstop
    refine ⟨String.ofList head, String.ofList middle, String.ofList tail, htext, hhead, hmiddle, ?_⟩
    rw [String.ofList_append, String.ofList_append, String.ofList_toList]
  · cases hsplice

theorem slice?_of_parts (head middle tail : String) :
    slice? (head ++ middle ++ tail) (size head) (size head + size middle) = some middle := by
  simp [slice?, size, String.toList_append, List.append_assoc, cut?_append]

theorem splice?_of_parts (head middle tail replacement : String) :
    splice? (head ++ middle ++ tail) (size head) (size head + size middle) replacement =
      some (head ++ replacement ++ tail) := by
  simp [splice?, size, String.toList_append, List.append_assoc, cut?_append, String.ofList_append,
    String.append_assoc]

theorem add_size_of_slice? {text middle : String} {start stop : Nat}
    (hslice : slice? text start stop = some middle) : start + size middle = stop := by
  obtain ⟨-, -, -, -, hstop⟩ := exists_parts_of_slice? hslice
  exact hstop

/-- A text is parted in one way after so many bytes. -/
theorem append_inj_of_size {head tail front back : String} (happend : head ++ tail = front ++ back)
    (hsize : size head = size front) : head = front ∧ tail = back := by
  have hhead := cut?_append head.toList tail.toList
  have hfront := cut?_append front.toList back.toList
  rw [← String.toList_append, happend, String.toList_append,
    show byteLength head.toList = byteLength front.toList from hsize, hfront] at hhead
  obtain ⟨hchars, hchars'⟩ := Prod.mk.inj (Option.some.inj hhead)
  exact ⟨(String.toList_inj.1 hchars).symm, (String.toList_inj.1 hchars').symm⟩

theorem isBoundary_of_append (head tail : String) : isBoundary (head ++ tail) (size head) := by
  simp [isBoundary, size, String.toList_append, cut?_append]

theorem boundaries_of_slice? {text middle : String} {start stop : Nat}
    (hslice : slice? text start stop = some middle) :
    isBoundary text start ∧ isBoundary text stop := by
  obtain ⟨head, tail, rfl, rfl, rfl⟩ := exists_parts_of_slice? hslice
  refine ⟨?_, ?_⟩
  · rw [String.append_assoc]
    exact isBoundary_of_append _ _
  · rw [← size_append]
    exact isBoundary_of_append _ _

theorem le_size_of_isBoundary {text : String} {offset : Nat} (hoffset : isBoundary text offset) :
    offset ≤ size text := by
  obtain ⟨⟨head, tail⟩, hcut⟩ := Option.isSome_iff_exists.1 hoffset
  obtain ⟨htext, hhead⟩ := append_eq_of_cut? hcut
  rw [size, ← htext, byteLength_append, hhead]
  exact Nat.le_add_right _ _

/-- What lies between two characters' ends is a slice. -/
theorem exists_slice? {text : String} {start stop : Nat} (hstart : isBoundary text start)
    (hstop : isBoundary text stop) (hle : start ≤ stop) :
    ∃ middle, slice? text start stop = some middle := by
  obtain ⟨⟨head, rest⟩, hstart⟩ := Option.isSome_iff_exists.1 hstart
  obtain ⟨⟨front, tail⟩, hstop⟩ := Option.isSome_iff_exists.1 hstop
  obtain ⟨happend, hhead⟩ := append_eq_of_cut? hstart
  obtain ⟨happend', hfront⟩ := append_eq_of_cut? hstop
  -- the front up to the end of the range goes on where its head ends
  have hlength : head.length ≤ front.length := by
    by_contra hlt
    have hprefix : front <+: head := List.prefix_of_prefix_length_le
      ⟨tail, happend'⟩ ⟨rest, happend⟩ (Nat.le_of_lt (Nat.lt_of_not_le hlt))
    obtain ⟨more, rfl⟩ := hprefix
    rw [byteLength_append, hfront] at hhead
    have hmore : more = [] := by
      cases more with
      | nil => rfl
      | cons char chars =>
        have hpos := char.utf8Size_pos
        rw [byteLength] at hhead
        omega
    rw [hmore, List.append_nil] at hlt
    exact hlt (Nat.le_refl _)
  obtain ⟨middle, rfl⟩ := List.prefix_of_prefix_length_le ⟨rest, happend⟩ ⟨tail, happend'⟩ hlength
  obtain rfl : middle ++ tail = rest := by
    rw [← happend', List.append_assoc] at happend
    exact (List.append_cancel_left happend).symm
  rw [byteLength_append, hhead] at hfront
  refine ⟨String.ofList middle, ?_⟩
  rw [slice?, if_pos hle, hstart]
  simp only [Option.bind_eq_bind, Option.bind_some]
  rw [show stop - start = byteLength middle by omega, cut?_append]
  rfl

/-- Two stretches of a text, one after the other. -/
theorem slice?_append {text left right : String} {start middle stop : Nat}
    (hleft : slice? text start middle = some left)
    (hright : slice? text middle stop = some right) :
    slice? text start stop = some (left ++ right) := by
  obtain ⟨head, rest, hfirst, rfl, rfl⟩ := exists_parts_of_slice? hleft
  obtain ⟨front, tail, hsecond, hsize, rfl⟩ := exists_parts_of_slice? hright
  obtain ⟨-, rfl⟩ : head ++ left = front ∧ rest = right ++ tail := by
    refine append_inj_of_size ?_ (by rw [size_append, hsize])
    rw [← hfirst, hsecond, String.append_assoc]
  have hslice := slice?_of_parts head (left ++ right) tail
  rw [size_append, ← Nat.add_assoc] at hslice
  simpa only [hfirst, String.append_assoc] using hslice

/-- A stretch of a text within another. -/
theorem exists_parts_of_inside {text outer inner : String} {start stop first last : Nat}
    (houter : slice? text start stop = some outer) (hinner : slice? text first last = some inner)
    (hstart : start ≤ first) (hstop : last ≤ stop) :
    ∃ head tail, outer = head ++ inner ++ tail ∧ start + size head = first := by
  obtain ⟨hboundary, hboundary'⟩ := boundaries_of_slice? houter
  obtain ⟨hfirst, hlast⟩ := boundaries_of_slice? hinner
  obtain ⟨head, hhead⟩ := exists_slice? hboundary hfirst hstart
  obtain ⟨tail, htail⟩ := exists_slice? hlast hboundary' hstop
  have hwhole := slice?_append (slice?_append hhead hinner) htail
  exact ⟨head, tail, Option.some.inj (houter.symm.trans hwhole), add_size_of_slice? hhead⟩

/-! ### Bytes -/

theorem length_bytes_ofList (chars : List Char) :
    (bytes (String.ofList chars)).length = byteLength chars := by
  rw [bytes, String.toList_ofList]
  induction chars with
  | nil => rfl
  | cons char chars ih =>
    rw [List.flatMap_cons, List.length_append, String.length_utf8EncodeChar, ih, byteLength]

theorem length_bytes (text : String) : (bytes text).length = size text := by
  rw [size, ← length_bytes_ofList, String.ofList_toList]

theorem bytes_inj {left right : String} : bytes left = bytes right ↔ left = right := by
  refine ⟨fun hbytes => ?_, congrArg bytes⟩
  rw [← String.toByteArray_inj, ← String.utf8Encode_toList, ← String.utf8Encode_toList]
  exact congrArg List.toByteArray hbytes

theorem bytes_append (left right : String) : bytes (left ++ right) = bytes left ++ bytes right := by
  rw [bytes, String.toList_append, List.flatMap_append]
  rfl

/-- A splice replaces the bytes of its range. -/
theorem bytes_of_splice? {text now replacement : String} {start stop : Nat}
    (hsplice : splice? text start stop replacement = some now) :
    bytes now = (bytes text).take start ++ bytes replacement ++ (bytes text).drop stop := by
  obtain ⟨head, middle, tail, rfl, rfl, rfl, rfl⟩ := exists_parts_of_splice? hsplice
  have hfront : (bytes head ++ bytes middle).length = size head + size middle := by
    rw [List.length_append, length_bytes, length_bytes]
  simp only [bytes_append]
  rw [List.drop_left' hfront, List.append_assoc (bytes head) (bytes middle),
    List.take_left' (length_bytes head)]

/-- A splice leaves the bytes before it. -/
theorem take_bytes_of_splice? {text now replacement : String} {start stop bound : Nat}
    (hsplice : splice? text start stop replacement = some now) (hbound : bound ≤ start) :
    (bytes now).take bound = (bytes text).take bound := by
  obtain ⟨head, middle, tail, rfl, rfl, rfl, rfl⟩ := exists_parts_of_splice? hsplice
  have hhead : bound ≤ (bytes head).length := by rwa [length_bytes]
  simp only [bytes_append, List.append_assoc]
  rw [List.take_append_of_le_length hhead, List.take_append_of_le_length hhead]

/-! ### Splitting and joining -/

theorem splitChars_ne_nil (separator : Char) (chars : List Char) :
    splitChars separator chars ≠ [] := by
  cases chars with
  | nil => exact List.cons_ne_nil _ _
  | cons char rest =>
    rw [splitChars]
    split
    · exact List.cons_ne_nil _ _
    · split <;> exact List.cons_ne_nil _ _

/-- A separator splits a text in two, each of which is split on. -/
theorem splitChars_append_cons (separator : Char) (head tail : List Char) :
    splitChars separator (head ++ separator :: tail) =
      splitChars separator head ++ splitChars separator tail := by
  induction head with
  | nil => simp [splitChars]
  | cons char head ih =>
    rw [List.cons_append, splitChars, splitChars, ih]
    split
    · rfl
    · obtain ⟨first, parts, hsplit⟩ :=
        List.exists_cons_of_ne_nil (splitChars_ne_nil separator head)
      rw [hsplit]
      rfl

/-- Joining undoes splitting. -/
theorem join_splitChars (separator : Char) (chars : List Char) :
    (join (String.singleton separator) ((splitChars separator chars).map String.ofList)).toList =
      chars := by
  induction chars with
  | nil => rfl
  | cons char rest ih =>
    obtain ⟨first, parts, hsplit⟩ := List.exists_cons_of_ne_nil (splitChars_ne_nil separator rest)
    rw [hsplit] at ih
    rw [splitChars, hsplit]
    split
    · rename_i hseparator
      rw [List.map_cons, join_cons _ _ (by simp), String.toList_append, String.toList_append, ih,
        hseparator]
      simp
    · rw [← ih]
      cases parts with
      | nil => simp [join]
      | cons next others => simp [join, String.toList_append]

end CodeGraph.Text
