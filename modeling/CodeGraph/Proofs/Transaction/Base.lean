import CodeGraph.Proofs.Transaction.Run

/-!
# Edits and their bases

The range of an edit was chosen against some snapshot. An edit that is accepted has everything before
the end of its range in common with the snapshot that its range is checked against: the one it names,
or else the one it was queued after, unless the file came to its path later than that.
-/

namespace CodeGraph

theorem Change.rangeIsCurrent_of_checkCurrent {file : SourceFile} {range : ByteRange} {base : Nat}
    (hcurrent : checkCurrent file range base = .ok ()) : file.rangeIsCurrent base range := by
  rw [checkCurrent] at hcurrent
  split at hcurrent
  · assumption
  · cases hcurrent

/-- A range is current when it ends before all edits since its base, and none was forgotten. -/
theorem SourceFile.rangeIsCurrent_iff {file : SourceFile} {range : ByteRange} {base : Nat} :
    file.rangeIsCurrent base range ↔ file.created ≤ base ∧ file.historyFloor ≤ base ∧
      ∀ applied ∈ file.history, base < applied.sequence →
        range.stop ≤ applied.edit.start ∧ range.start < applied.edit.start := by
  simp [rangeIsCurrent, AppliedEdit.invalidates, and_assoc, or_iff_not_imp_left]

theorem Change.stop_le_size {range : ByteRange} {text : String} (hrange : isRangeOf range text) :
    range.stop ≤ Text.size text := by
  simp only [isRangeOf, Bool.and_eq_true, decide_eq_true_eq] at hrange
  exact hrange.1.1.2

namespace Store

variable {environment : Environment} {earlier : List Store} {current : Store}

/-- What an edit leaves as it is: its path was there, and everything before the end of its range was
the same. -/
def Reads (store : Store) (target : Path) (range : ByteRange) (now : String) : Prop :=
  ∃ old, store.workspace.text? target = some old ∧ range.stop ≤ Text.size old ∧
    (Text.bytes old).take range.stop = (Text.bytes now).take range.stop

/-- An edit that is accepted reads the same in the snapshot that its range was checked against, and
the run went through that snapshot unless it is still to come. -/
theorem Run.reads_of_validate (hrun : Run environment earlier current) {path : Path}
    {range : ByteRange} {text : String} {base : Option Nat} {queuedAt : Nat} {checked : Change}
    (hvalid : (Change.edit path range text base).validate environment.config current.workspace
      queuedAt = .ok checked) :
    ∃ target file, Path.inProject? environment.config.root path = some target ∧
      checked = .edit target range text base ∧ current.workspace.file? target = some file ∧
      range.stop ≤ Text.size file.text ∧ file.created ≤ current.workspace.sequence ∧
      (base.getD (max queuedAt file.created) ≤ current.workspace.sequence →
        ∃ store ∈ current :: earlier,
          store.workspace.sequence = base.getD (max queuedAt file.created)) ∧
      ∀ store ∈ current :: earlier,
        store.workspace.sequence = base.getD (max queuedAt file.created) →
        store.Reads target range file.text := by
  obtain ⟨target, htarget, hrest⟩ := exists_of_bind_eq_ok hvalid
  obtain ⟨file, hpresent, hrest⟩ := exists_of_bind_eq_ok hrest
  obtain ⟨⟨⟩, hrange, hrest⟩ := exists_of_bind_eq_ok hrest
  obtain ⟨⟨⟩, hcurrent, hrest⟩ := exists_of_bind_eq_ok hrest
  have hfile := Change.file?_of_checkPresent hpresent
  obtain ⟨hmem, hpath⟩ := Workspace.file?_mem hfile
  have hstop := Change.stop_le_size (Change.isRangeOf_of_checkRange hrange)
  obtain ⟨hcreated, hfloor, hlater⟩ :=
    SourceFile.rangeIsCurrent_iff.1 (Change.rangeIsCurrent_of_checkCurrent hcurrent)
  obtain ⟨hcreatedLe, first, hfirst, hbegun⟩ := hrun.traced.created file hmem
  refine ⟨target, file, ?_, (Except.ok.inj hrest).symm, hfile, hstop, hcreatedLe,
    hrun.traced.numbered first hfirst _ (hbegun.trans hcreated), fun store hstore hnumber => ?_⟩
  · rw [Change.checkPath] at htarget
    split at htarget
    · rename_i found hinside
      rw [hinside, Except.ok.inj htarget]
    · cases htarget
  · rw [← hnumber] at hcreated hfloor hlater
    obtain ⟨old, hold, hsame, hbytes⟩ := hrun.traced.traced store hstore file hmem hcreated hfloor
    have htake := hbytes range.stop fun applied happlied h => (hlater applied happlied h).1
    have hsize := congrArg List.length htake
    rw [List.length_take, List.length_take, Text.length_bytes, Text.length_bytes] at hsize
    have hordered := (hrun.reachable store hstore).kept.sound.ordered
    refine ⟨old.text, ?_, by omega, htake⟩
    rw [Workspace.text?, hordered.file?_iff.2 ⟨hold, hsame.trans hpath⟩]
    rfl

/-- **An edit with a base of its own lands on text that its author saw**: the path was there in the
snapshot with that number, and everything before the end of the range was the same. -/
theorem edit_reads_base (hrun : Run environment earlier current) {path : Path} {range : ByteRange}
    {text : String} {base queuedAt : Nat} {checked : Change}
    (hbase : base ≤ current.workspace.sequence)
    (hvalid : (Change.edit path range text (some base)).validate environment.config
      current.workspace queuedAt = .ok checked) :
    ∃ target now, Path.inProject? environment.config.root path = some target ∧
      checked = .edit target range text (some base) ∧
      current.workspace.text? target = some now ∧ range.stop ≤ Text.size now ∧
      (∃ store ∈ current :: earlier, store.workspace.sequence = base) ∧
      ∀ store ∈ current :: earlier, store.workspace.sequence = base →
        store.Reads target range now := by
  obtain ⟨target, file, htarget, hchecked, hfile, hstop, -, hnumbered, hreads⟩ :=
    hrun.reads_of_validate hvalid
  refine ⟨target, file.text, htarget, hchecked, ?_, hstop, hnumbered hbase, hreads⟩
  rw [Workspace.text?, hfile]
  rfl

namespace Revised

def plain : Environment := ⟨{}, fun _ _ => default⟩

/-- A file with an import, before and after it is given another line. -/
def seen : Store :=
  (process plain {} 0 (.add ⟨"b.py"⟩ "from a import f\n")).1

def lengthened : Store :=
  (process plain seen 1 (.edit ⟨"b.py"⟩ ⟨16, 16⟩ "f\n" none)).1

/-- After that it takes in another name. -/
def edited : Store :=
  (process plain lengthened 2 (.edit ⟨"b.py"⟩ ⟨14, 15⟩ "g" (some 1))).1

theorem run_edited : Run plain [lengthened, seen, {}] edited :=
  .step (.step (.step (.empty {}) (.process 0 _)) (.process 1 _)) (.process 2 _)

end Revised

open Revised

/-- An edit of the module that is based on the first snapshot, after two edits behind its range. -/
theorem edit_reads_base_behind :
    seen.workspace.sequence = 1 ∧ edited.workspace.sequence = 3 ∧
      edited.workspace.text? ⟨"b.py"⟩ = some "from a import g\nf\n" ∧
      seen.Reads ⟨"b.py"⟩ ⟨5, 6⟩ "from a import g\nf\n" := by
  obtain ⟨hfirst, hlast, htext, hvalid⟩ : seen.workspace.sequence = 1 ∧
      edited.workspace.sequence = 3 ∧
      edited.workspace.text? ⟨"b.py"⟩ = some "from a import g\nf\n" ∧
      (Change.edit ⟨"b.py"⟩ ⟨5, 6⟩ "m" (some 1)).validate plain.config edited.workspace 3 =
        .ok (.edit ⟨"b.py"⟩ ⟨5, 6⟩ "m" (some 1)) := by decide +kernel
  obtain ⟨target, now, -, hchecked, hnow, -, -, hreads⟩ :=
    edit_reads_base run_edited (by rw [hlast]; decide) hvalid
  obtain ⟨rfl, -⟩ := Change.edit.inj hchecked
  obtain rfl := Option.some.inj (htext.symm.trans hnow)
  exact ⟨hfirst, hlast, htext, hreads seen (by simp) hfirst⟩

/-- **An edit without a base lands on the text it was queued for, or on a file that came later**: its
range is checked against the snapshot it was queued after, or against the one that the file was created
with when that is the later of the two. -/
theorem edit_reads_queued (hrun : Run environment earlier current) {queued : Store}
    (hqueued : queued ∈ current :: earlier) {path : Path} {range : ByteRange} {text : String}
    {checked : Change}
    (hvalid : (Change.edit path range text none).validate environment.config current.workspace
      queued.workspace.sequence = .ok checked) :
    ∃ target file, Path.inProject? environment.config.root path = some target ∧
      checked = .edit target range text none ∧ current.workspace.file? target = some file ∧
      range.stop ≤ Text.size file.text ∧
      (file.created ≤ queued.workspace.sequence → queued.Reads target range file.text) ∧
      (∃ store ∈ current :: earlier,
        store.workspace.sequence = max queued.workspace.sequence file.created) ∧
      ∀ store ∈ current :: earlier,
        store.workspace.sequence = max queued.workspace.sequence file.created →
        store.Reads target range file.text := by
  obtain ⟨target, file, htarget, hchecked, hfile, hstop, hcreated, hnumbered, hreads⟩ :=
    hrun.reads_of_validate hvalid
  refine ⟨target, file, htarget, hchecked, hfile, hstop, fun hearlier => ?_,
    hnumbered (max_le (hrun.traced.le queued hqueued) hcreated), hreads⟩
  exact hreads queued hqueued (max_eq_left hearlier).symm

/-- An edit of the module that was queued before two others behind its range. -/
theorem edit_reads_queued_behind :
    edited.workspace.text? ⟨"b.py"⟩ = some "from a import g\nf\n" ∧
      seen.Reads ⟨"b.py"⟩ ⟨5, 6⟩ "from a import g\nf\n" := by
  obtain ⟨hcreated, htext, hearlier, hvalid⟩ :
      (edited.workspace.file? ⟨"b.py"⟩).map SourceFile.created = some 1 ∧
      (edited.workspace.file? ⟨"b.py"⟩).map SourceFile.text = some "from a import g\nf\n" ∧
      1 ≤ seen.workspace.sequence ∧
      (Change.edit ⟨"b.py"⟩ ⟨5, 6⟩ "m" none).validate plain.config edited.workspace
        seen.workspace.sequence = .ok (.edit ⟨"b.py"⟩ ⟨5, 6⟩ "m" none) := by decide +kernel
  obtain ⟨target, file, -, hchecked, hfile, -, hreads, -⟩ :=
    edit_reads_queued run_edited (by simp : seen ∈ [edited, lengthened, seen, {}]) hvalid
  obtain ⟨rfl, -⟩ := Change.edit.inj hchecked
  refine ⟨htext, ?_⟩
  rw [hfile, Option.map_some, Option.some.injEq] at hcreated htext
  exact htext ▸ hreads (hcreated ▸ hearlier)

/-- A file that was removed and added again since the edit was queued came later, so the edit is
accepted on a text that nobody had seen when it was queued. -/
theorem edit_reads_added_again :
    let environment : Environment := ⟨{}, fun _ _ => default⟩
    let queued := (process environment {} 0 (.add ⟨"a.py"⟩ "x = 1\n")).1
    let removed := (process environment queued 1 (.remove ⟨"a.py"⟩)).1
    let current := (process environment removed 1 (.add ⟨"a.py"⟩ "y = 1\n")).1
    queued.workspace.text? ⟨"a.py"⟩ = some "x = 1\n" ∧ queued.workspace.sequence = 1 ∧
      (process environment current 1 (.edit ⟨"a.py"⟩ ⟨4, 5⟩ "3" none)).2.isCommitted ∧
      ¬ queued.Reads ⟨"a.py"⟩ ⟨4, 5⟩ "y = 1\n" := by
  intro environment queued removed current
  have htext : queued.workspace.text? ⟨"a.py"⟩ = some "x = 1\n" := by decide +kernel
  refine ⟨htext, by decide +kernel, by decide +kernel, ?_⟩
  rintro ⟨old, hold, -, hbytes⟩
  obtain rfl := Option.some.inj (htext.symm.trans hold)
  exact absurd hbytes (by decide +kernel)

end Store

end CodeGraph
