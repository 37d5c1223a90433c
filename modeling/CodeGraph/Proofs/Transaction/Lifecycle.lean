import CodeGraph.Proofs.Table
import CodeGraph.Transaction.Queue

/-!
# The life of a transaction

Any number of clients queue transactions, cancel them and work on them. Each of these steps is
atomic, and they come in any order. What a manager holds about a transaction is the phase that it is
in: the queue, the running transaction, the state that is told and the result all agree on it. A
step takes one transaction at most to its next phase and leaves the others where they are.
-/

namespace CodeGraph

/-- Where a transaction is on its way. -/
inductive Phase where
  | absent
  | queued (pending : Pending)
  | validating (pending : Pending)
  | applying (pending : Pending) (change : Change)
  | finished (result : TransactionResult)
  deriving DecidableEq

namespace Phase

def state? : Phase → Option TransactionState
  | absent => none
  | queued _ => some .queued
  | validating _ => some .validating
  | applying .. => some .applying
  | finished result => some result.state

def waiting : Phase → List Pending
  | queued pending => [pending]
  | _ => []

def running? : Phase → Option Running
  | validating pending => some { pending }
  | applying pending change => some ⟨pending, some change⟩
  | _ => none

def result? : Phase → Option TransactionResult
  | finished result => some result
  | _ => none

theorem state?_eq_queued_iff {phase : Phase} :
    phase.state? = some .queued ↔ ∃ pending, phase = .queued pending := by
  cases phase with
  | finished result => cases result <;> simp [state?, TransactionResult.state]
  | _ => simp [state?]

end Phase

/-- A transaction is in a phase: each part of the manager tells so. -/
structure Manager.Holds (manager : Manager) (id : TransactionId) (phase : Phase) : Prop where
  state : manager.status id = phase.state?
  waiting : manager.queue.filter (·.id = id) = phase.waiting
  running : manager.running.filter (·.pending.id = id) = phase.running?
  result : manager.results.get? id = phase.result?

/-- One atomic step of a client. -/
inductive Move where
  | enqueue (transaction : Transaction)
  | cancel (id : TransactionId)
  | take
  | validate
  | apply
  deriving DecidableEq

/-- The steps that take a transaction to its next phase, and where they take it. -/
inductive Phase.Next (environment : Environment) (store : Store) : Move → Phase → Phase → Prop
  | enqueue (pending : Pending) :
    Next environment store (.enqueue pending.transaction) .absent (.queued pending)
  | cancel (pending : Pending) :
    Next environment store (.cancel pending.id) (.queued pending) (.finished (.rejected .cancelled))
  | take (pending : Pending) : Next environment store .take (.queued pending) (.validating pending)
  | accept {pending : Pending} {change : Change}
    (hvalid : pending.transaction.change.validate environment.config store.workspace
      pending.queuedAt = .ok change) :
    Next environment store .validate (.validating pending) (.applying pending change)
  | refuse {pending : Pending} {rejection : Rejection}
    (hvalid : pending.transaction.change.validate environment.config store.workspace
      pending.queuedAt = .error rejection) :
    Next environment store .validate (.validating pending) (.finished (.rejected rejection))
  | apply (pending : Pending) (change : Change) :
    Next environment store .apply (.applying pending change)
      (.finished (store.apply environment change).2)

/-- Phases are passed in this order. -/
def Phase.rank : Phase → Nat
  | absent => 0
  | queued _ => 1
  | validating _ => 2
  | applying .. => 3
  | finished _ => 4

theorem Phase.Next.rank_lt {environment : Environment} {store : Store} {move : Move}
    {phase next : Phase} (hnext : phase.Next environment store move next) :
    phase.rank < next.rank := by
  cases hnext <;> simp [Phase.rank]

/-- How the state of a transaction that is told may change, and by which step. -/
inductive StateStep (id : TransactionId) :
    Move → Option TransactionState → Option TransactionState → Prop
  | enqueue (transaction : Transaction) : StateStep id (.enqueue transaction) none (some .queued)
  | cancel : StateStep id (.cancel id) (some .queued) (some .rejected)
  | take : StateStep id .take (some .queued) (some .validating)
  | accept : StateStep id .validate (some .validating) (some .applying)
  | refuse : StateStep id .validate (some .validating) (some .rejected)
  | commit : StateStep id .apply (some .applying) (some .committed)
  | fail : StateStep id .apply (some .applying) (some .rejected)

/-- A change that is not committed leaves the workspace as it was. -/
theorem Store.workspace_apply (environment : Environment) (store : Store) (change : Change) :
    (store.apply environment change).1.workspace = store.workspace ∨
      ∃ commit, (store.apply environment change).2 = .committed commit := by
  rw [apply]
  split
  · exact .inl rfl
  · simp only
    split
    · split
      · exact .inl rfl
      · exact .inr ⟨_, rfl⟩
    · exact .inr ⟨_, rfl⟩

namespace Manager

variable {environment : Environment} {manager : Manager} {id : TransactionId} {phase next : Phase}
  {move : Move}

def perform (environment : Environment) (manager : Manager) : Move → Manager
  | .enqueue transaction => (manager.enqueue transaction).2
  | .cancel id => (manager.cancel id).2
  | .take => manager.take
  | .validate => manager.validateRunning environment
  | .apply => manager.applyRunning environment

def performAll (environment : Environment) (manager : Manager) (moves : List Move) : Manager :=
  moves.foldl (perform environment) manager

/-- The numbers that were given out. -/
def Issued (manager : Manager) (id : TransactionId) : Prop :=
  0 < id ∧ id < manager.nextId

/-! ### Phases -/

theorem Holds.unique (hholds : manager.Holds id phase) (hnext : manager.Holds id next) :
    next = phase := by
  have hstate := hholds.state.symm.trans hnext.state
  have hwaiting := hholds.waiting.symm.trans hnext.waiting
  have hrunning := hholds.running.symm.trans hnext.running
  have hresult := hholds.result.symm.trans hnext.result
  cases phase <;> cases next <;>
    simp_all [Phase.state?, Phase.waiting, Phase.running?, Phase.result?]

theorem Holds.id_of_queued {pending : Pending} (hholds : manager.Holds id (.queued pending)) :
    pending.id = id ∧ pending ∈ manager.queue := by
  have hmem : pending ∈ manager.queue.filter (·.id = id) := by
    rw [hholds.waiting]
    exact List.mem_singleton_self pending
  simpa [and_comm] using List.mem_filter.1 hmem

/-- What stands in the queue is there once, and is queued. -/
theorem Holds.queued_of_mem {pending : Pending} (hholds : manager.Holds pending.id phase)
    (hmem : pending ∈ manager.queue) : phase = .queued pending := by
  have hwaiting : pending ∈ phase.waiting := by
    rw [← hholds.waiting]
    exact List.mem_filter.2 ⟨hmem, by simp⟩
  cases phase with
  | queued other => rw [List.mem_singleton.1 hwaiting]
  | _ => cases hwaiting

theorem Holds.running_of_eq {running : Running} (hholds : manager.Holds running.pending.id phase)
    (hrunning : manager.running = some running) : phase.running? = some running := by
  rw [← hholds.running, hrunning]
  simp [Option.filter]

/-! ### What a step writes -/

@[simp]
theorem status_setState (manager : Manager) (id other : TransactionId) (state : TransactionState) :
    (manager.setState id state).status other =
      if other = id then some state else manager.status other :=
  Table.get?_put manager.states id other state

@[simp]
theorem status_finish (manager : Manager) (id other : TransactionId) (result : TransactionResult) :
    (manager.finish id result).status other =
      if other = id then some result.state else manager.status other :=
  status_setState manager id other result.state

@[simp]
theorem get?_results_finish (manager : Manager) (id other : TransactionId)
    (result : TransactionResult) : (manager.finish id result).results.get? other =
      if other = id then some result else manager.results.get? other :=
  Table.get?_put manager.results id other result

/-! ### One step -/

/-- Each transaction is in one phase, and the numbers that were not given out are absent. -/
structure Orderly (manager : Manager) : Prop where
  pos : 0 < manager.nextId
  phases : ∀ id, ∃ phase, manager.Holds id phase ∧ (phase ≠ .absent ↔ manager.Issued id)

theorem Orderly.issued_iff (horderly : manager.Orderly) (hholds : manager.Holds id phase) :
    manager.Issued id ↔ phase ≠ .absent := by
  obtain ⟨found, hfound, hissued⟩ := horderly.phases id
  exact hfound.unique hholds ▸ hissued.symm

theorem Orderly.absent (horderly : manager.Orderly) (hholds : manager.Holds manager.nextId phase) :
    phase = .absent := by
  by_contra hpresent
  exact absurd ((horderly.issued_iff hholds).2 hpresent).2 (Nat.lt_irrefl _)

theorem Orderly.holds_queued (horderly : manager.Orderly) {pending : Pending}
    (hmem : pending ∈ manager.queue) : manager.Holds pending.id (.queued pending) := by
  obtain ⟨phase, hholds, -⟩ := horderly.phases pending.id
  exact hholds.queued_of_mem hmem ▸ hholds

theorem holds_enqueue (horderly : manager.Orderly) (transaction : Transaction)
    (hholds : manager.Holds id phase) :
    (manager.enqueue transaction).2.Holds id (if id = manager.nextId then
      .queued ⟨id, transaction, manager.store.workspace.sequence⟩ else phase) := by
  have hstatus : (manager.enqueue transaction).2.status id =
      if id = manager.nextId then some .queued else manager.status id :=
    status_setState manager manager.nextId id .queued
  split
  · rename_i hid
    subst hid
    obtain rfl := horderly.absent hholds
    refine ⟨by rw [hstatus, if_pos rfl]; rfl, ?_, hholds.running, hholds.result⟩
    simp only [enqueue, setState, List.filter_append, hholds.waiting]
    simp [Phase.waiting]
  · rename_i hid
    refine ⟨by rw [hstatus, if_neg hid, hholds.state], ?_, hholds.running, hholds.result⟩
    simp only [enqueue, setState, List.filter_append, hholds.waiting]
    simp [Ne.symm hid]

/-- Cancelling finds what is queued. -/
theorem Holds.any_queue_iff (hholds : manager.Holds id phase) :
    manager.queue.any (·.id = id) = true ↔ phase.state? = some .queued := by
  have hany : manager.queue.any (·.id = id) = true ↔ manager.queue.filter (·.id = id) ≠ [] := by
    simp [List.any_eq_true]
  rw [hany, hholds.waiting, Phase.state?_eq_queued_iff]
  cases phase <;> simp [Phase.waiting]

/-- Cancelling ends what is queued and touches nothing else. -/
theorem holds_cancel (hholds : manager.Holds id phase) (wanted : TransactionId) :
    (manager.cancel wanted).2.Holds id (if id = wanted ∧ phase.state? = some .queued then
      .finished (.rejected .cancelled) else phase) := by
  rw [cancel]
  split
  · rename_i hany
    by_cases hid : id = wanted
    · subst hid
      have hqueued := hholds.any_queue_iff.1 hany
      obtain ⟨pending, rfl⟩ := Phase.state?_eq_queued_iff.1 hqueued
      rw [if_pos ⟨rfl, hqueued⟩]
      exact ⟨by simp [Phase.state?], by simp [finish, setState, Phase.waiting], hholds.running,
        by simp [Phase.result?]⟩
    · rw [if_neg fun h => hid h.1]
      refine ⟨?_, ?_, hholds.running, ?_⟩
      · rw [status_finish, if_neg hid]
        exact hholds.state
      · rw [← hholds.waiting]
        simp only [finish, setState, List.filter_filter]
        refine List.filter_congr fun pending _ => ?_
        by_cases hpending : pending.id = id
        · simp [hpending, hid]
        · simp [hpending]
      · rw [get?_results_finish, if_neg hid]
        exact hholds.result
  · rename_i hany
    rw [if_neg]
    · exact hholds
    · rintro ⟨rfl, hqueued⟩
      exact hany (hholds.any_queue_iff.2 hqueued)

theorem next?_mem {pending : Pending} (hnext : manager.next? = some pending) :
    pending ∈ manager.queue :=
  List.mem_of_find?_eq_some hnext

/-- Nothing else is worked on while a transaction is. -/
theorem filter_running_of_ne {running : Running} (hrunning : manager.running = some running)
    (hid : id ≠ running.pending.id) : manager.running.filter (·.pending.id = id) = none := by
  rw [hrunning]
  simp [Option.filter, Ne.symm hid]

/-- Of the queue, taking one transaction out of it leaves the others. -/
theorem filter_queue_of_ne {other : TransactionId} (hid : id ≠ other) :
    (manager.queue.filter (·.id ≠ other)).filter (·.id = id) =
      manager.queue.filter (·.id = id) := by
  rw [List.filter_filter]
  refine List.filter_congr fun pending _ => ?_
  by_cases hpending : pending.id = id
  · simp [hpending, hid]
  · simp [hpending]

/-- The next transaction in the queue begins its validation, when none is being worked on. -/
theorem exists_holds_take (hholds : manager.Holds id phase) :
    ∃ next, manager.take.Holds id next ∧
      (next = phase ∨ phase.Next environment manager.store .take next) := by
  rw [take]
  split
  · rename_i pending hidle hnext
    by_cases hid : id = pending.id
    · subst hid
      obtain rfl := hholds.queued_of_mem (next?_mem hnext)
      exact ⟨.validating pending, ⟨by simp [status, setState, Phase.state?],
        by simp [Phase.waiting], by simp [Phase.running?], hholds.result⟩, .inr (.take pending)⟩
    · have hrunning := hholds.running
      rw [hidle] at hrunning
      refine ⟨phase, ⟨?_, (filter_queue_of_ne hid).trans hholds.waiting, ?_, hholds.result⟩,
        .inl rfl⟩
      · have hstatus := status_setState manager pending.id id .validating
        rw [if_neg hid] at hstatus
        exact hstatus.trans hholds.state
      · rw [← hrunning]
        simp [Ne.symm hid]
  · exact ⟨phase, hholds, .inl rfl⟩

/-- The end of the running transaction. -/
theorem holds_finished {running : Running} (hrunning : manager.running = some running)
    (hholds : manager.Holds id phase) (store : Store) (result : TransactionResult) :
    (({ manager with store, running := none } : Manager).finish running.pending.id result).Holds id
      (if id = running.pending.id then .finished result else phase) := by
  split
  · rename_i hid
    subst hid
    have hworks := hholds.running_of_eq hrunning
    have hwaiting : phase.waiting = [] := by
      cases phase <;> first | rfl | cases hworks
    exact ⟨by simp [Phase.state?], hholds.waiting.trans hwaiting, rfl, by simp [Phase.result?]⟩
  · rename_i hid
    refine ⟨?_, hholds.waiting, ?_, ?_⟩
    · rw [status_finish, if_neg hid]
      exact hholds.state
    · rw [← hholds.running, filter_running_of_ne hrunning hid]
      rfl
    · rw [get?_results_finish, if_neg hid]
      exact hholds.result

/-- The running transaction goes on to be applied, or it ends rejected. -/
theorem exists_holds_validate (hholds : manager.Holds id phase) :
    ∃ next, (manager.validateRunning environment).Holds id next ∧
      (next = phase ∨ phase.Next environment manager.store .validate next) := by
  rw [validateRunning]
  split
  · rename_i pending hrunning
    split
    · rename_i change hvalid
      by_cases hid : id = pending.id
      · subst hid
        obtain rfl : phase = .validating pending := by
          have hworks := hholds.running_of_eq hrunning
          cases phase <;> cases hworks
          rfl
        exact ⟨.applying pending change, ⟨by simp [status, setState, Phase.state?], hholds.waiting,
          by simp [Phase.running?], hholds.result⟩, .inr (.accept hvalid)⟩
      · have hstatus := status_setState manager pending.id id .applying
        rw [if_neg hid] at hstatus
        refine ⟨phase, ⟨hstatus.trans hholds.state, hholds.waiting, ?_, hholds.result⟩, .inl rfl⟩
        rw [← hholds.running, filter_running_of_ne hrunning hid]
        simp [Ne.symm hid]
    · rename_i rejection hvalid
      refine ⟨_, holds_finished hrunning hholds manager.store (.rejected rejection), ?_⟩
      split
      · rename_i hid
        subst hid
        obtain rfl : phase = .validating pending := by
          have hworks := hholds.running_of_eq hrunning
          cases phase <;> cases hworks
          rfl
        exact .inr (.refuse hvalid)
      · exact .inl rfl
  · exact ⟨phase, hholds, .inl rfl⟩

/-- The running transaction ends with the result of its application. -/
theorem exists_holds_apply (hholds : manager.Holds id phase) :
    ∃ next, (manager.applyRunning environment).Holds id next ∧
      (next = phase ∨ phase.Next environment manager.store .apply next) := by
  rw [applyRunning]
  split
  · rename_i pending change hrunning
    refine ⟨_, holds_finished hrunning hholds (manager.store.apply environment change).1
      (manager.store.apply environment change).2, ?_⟩
    split
    · rename_i hid
      subst hid
      have hworks := hholds.running_of_eq hrunning
      cases phase <;> cases hworks
      exact .inr (.apply pending change)
    · exact .inl rfl
  · exact ⟨phase, hholds, .inl rfl⟩

/-- **A step leaves a transaction in its phase or takes it to the next one.** -/
theorem exists_holds_perform (environment : Environment) (horderly : manager.Orderly)
    (hholds : manager.Holds id phase) (move : Move) :
    ∃ next, (manager.perform environment move).Holds id next ∧
      (next = phase ∨ phase.Next environment manager.store move next) := by
  cases move with
  | enqueue transaction =>
    refine ⟨_, holds_enqueue horderly transaction hholds, ?_⟩
    split
    · rename_i hid
      subst hid
      obtain rfl := horderly.absent hholds
      exact .inr (.enqueue ⟨manager.nextId, transaction, manager.store.workspace.sequence⟩)
    · exact .inl rfl
  | cancel wanted =>
    refine ⟨_, holds_cancel hholds wanted, ?_⟩
    split
    · rename_i hfound
      obtain ⟨rfl, hqueued⟩ := hfound
      obtain ⟨pending, rfl⟩ := Phase.state?_eq_queued_iff.1 hqueued
      obtain ⟨rfl, -⟩ := hholds.id_of_queued
      exact .inr (.cancel pending)
    · exact .inl rfl
  | take => exact exists_holds_take hholds
  | validate => exact exists_holds_validate hholds
  | apply => exact exists_holds_apply hholds

/-- Only queueing gives out a number. -/
theorem nextId_perform (environment : Environment) (manager : Manager) (move : Move) :
    (manager.perform environment move).nextId =
      match move with
      | .enqueue _ => manager.nextId + 1
      | _ => manager.nextId := by
  cases move with
  | enqueue transaction => rfl
  | cancel wanted => simp only [perform, cancel]; split <;> rfl
  | take => simp only [perform, take]; split <;> rfl
  | validate => simp only [perform, validateRunning]; split <;> try split
                all_goals rfl
  | apply => simp only [perform, applyRunning]; split <;> rfl

theorem orderly_perform (environment : Environment) (horderly : manager.Orderly) (move : Move) :
    (manager.perform environment move).Orderly := by
  have hnextId := nextId_perform environment manager move
  by_cases hqueues : ∃ transaction, move = .enqueue transaction
  · obtain ⟨transaction, rfl⟩ := hqueues
    refine ⟨Nat.succ_pos _, fun id => ?_⟩
    obtain ⟨phase, hholds, hissued⟩ := horderly.phases id
    refine ⟨_, holds_enqueue horderly transaction hholds, ?_⟩
    simp only [Issued, hnextId] at hissued ⊢
    split
    · rename_i hid
      exact iff_of_true nofun ⟨hid ▸ horderly.pos, hid ▸ Nat.lt_succ_self _⟩
    · rename_i hid
      rw [hissued, Nat.lt_succ_iff_lt_or_eq, or_iff_left hid]
  · have hsame : (manager.perform environment move).nextId = manager.nextId := by
      cases move with
      | enqueue transaction => exact absurd ⟨transaction, rfl⟩ hqueues
      | _ => exact hnextId
    refine ⟨hsame ▸ horderly.pos, fun id => ?_⟩
    obtain ⟨phase, hholds, hissued⟩ := horderly.phases id
    obtain ⟨next, hnext, hgoes⟩ :=
      exists_holds_perform environment horderly hholds move
    refine ⟨next, hnext, ?_⟩
    simp only [Issued, hsame] at hissued ⊢
    rw [← hissued]
    obtain rfl | hgoes := hgoes
    · exact Iff.rfl
    · cases hgoes with
      | enqueue pending => exact absurd ⟨_, rfl⟩ hqueues
      | _ => simp

theorem orderly_start (store : Store) : ({ store } : Manager).Orderly :=
  ⟨Nat.one_pos, fun _ => ⟨.absent, ⟨rfl, rfl, rfl, rfl⟩, iff_of_false (· rfl) fun h =>
    Nat.not_lt_of_le h.1 h.2⟩⟩

/-! ### Runs -/

theorem performAll_append (moves later : List Move) :
    manager.performAll environment (moves ++ later) =
      (manager.performAll environment moves).performAll environment later :=
  List.foldl_append

theorem orderly_performAll (environment : Environment) (horderly : manager.Orderly)
    (moves : List Move) : (manager.performAll environment moves).Orderly := by
  induction moves generalizing manager with
  | nil => exact horderly
  | cons move rest ih => exact ih (orderly_perform environment horderly move)

/-- What is finished stays as it is. -/
theorem holds_performAll_finished (environment : Environment) (horderly : manager.Orderly)
    {result : TransactionResult} (hholds : manager.Holds id (.finished result))
    (moves : List Move) : (manager.performAll environment moves).Holds id (.finished result) := by
  induction moves generalizing manager with
  | nil => exact hholds
  | cons move rest ih =>
    obtain ⟨next, hnext, rfl | hgoes⟩ :=
      exists_holds_perform environment horderly hholds move
    · exact ih (orderly_perform environment horderly move) hnext
    · cases hgoes

/-- No transaction comes back to a phase that it has left. -/
theorem Holds.rank_le (horderly : manager.Orderly) (hholds : manager.Holds id phase)
    (moves : List Move) (hlast : (manager.performAll environment moves).Holds id next) :
    phase.rank ≤ next.rank := by
  induction moves generalizing manager phase with
  | nil => exact Nat.le_of_eq (congrArg Phase.rank (hlast.unique hholds))
  | cons move rest ih =>
    obtain ⟨middle, hmiddle, hgoes⟩ :=
      exists_holds_perform environment horderly hholds move
    have hrest := ih (orderly_perform environment horderly move) hmiddle hlast
    obtain rfl | hgoes := hgoes
    · exact hrest
    · exact Nat.le_trans (Nat.le_of_lt hgoes.rank_lt) hrest

/-- The results that a transaction receives in a run. -/
def received (environment : Environment) (id : TransactionId) :
    Manager → List Move → List TransactionResult
  | _, [] => []
  | manager, move :: rest =>
    let after := manager.perform environment move
    (if after.results.get? id = manager.results.get? id then []
      else (after.results.get? id).toList) ++ received environment id after rest

/-- A result comes with the end, and only then. -/
theorem received_eq (horderly : manager.Orderly) (hholds : manager.Holds id phase)
    (moves : List Move) (hlast : (manager.performAll environment moves).Holds id next) :
    phase.result?.toList ++ received environment id manager moves = next.result?.toList := by
  induction moves generalizing manager phase with
  | nil => simp [received, hlast.unique hholds]
  | cons move rest ih =>
    obtain ⟨middle, hmiddle, hgoes⟩ :=
      exists_holds_perform environment horderly hholds move
    have hrest := ih (orderly_perform environment horderly move) hmiddle hlast
    rw [← hrest, received]
    simp only [hmiddle.result, hholds.result]
    obtain rfl | hgoes := hgoes
    · simp
    · cases hgoes <;> simp [Phase.result?]

/-! ### The workspace -/

/-- Only the application of the running transaction writes to the store. -/
theorem store_perform (hmove : move ≠ .apply) :
    (manager.perform environment move).store = manager.store := by
  cases move with
  | enqueue transaction => rfl
  | cancel wanted => simp only [perform, cancel]; split <;> rfl
  | take => simp only [perform, take]; split <;> rfl
  | validate =>
    simp only [perform, validateRunning]
    split
    · split <;> rfl
    · rfl
  | apply => exact absurd rfl hmove

/-- The workspace changes where a transaction is committed. -/
theorem exists_committed_of_workspace_ne (horderly : manager.Orderly)
    (hchanged : (manager.perform environment move).store.workspace ≠ manager.store.workspace) :
    ∃ pending change commit, move = .apply ∧
      manager.Holds pending.id (.applying pending change) ∧
      (manager.perform environment move).Holds pending.id (.finished (.committed commit)) := by
  obtain rfl : move = .apply := by
    by_contra hmove
    exact hchanged (by rw [store_perform hmove])
  simp only [perform, applyRunning] at hchanged ⊢
  split at hchanged
  · rename_i pending change hrunning
    obtain ⟨phase, hholds, -⟩ := horderly.phases pending.id
    have hworks := hholds.running_of_eq hrunning
    cases phase <;> cases hworks
    obtain hsame | ⟨commit, hcommit⟩ := manager.store.workspace_apply environment change
    · exact absurd hsame hchanged
    · refine ⟨pending, change, commit, trivial, hholds, ?_⟩
      have hfinished := holds_finished hrunning hholds (manager.store.apply environment change).1
        (manager.store.apply environment change).2
      rw [if_pos rfl, hcommit] at hfinished
      rw [hcommit]
      exact hfinished
  · exact absurd rfl hchanged

/-! ### The whole life -/

theorem stateStep_of_next {store : Store} (hholds : manager.Holds id phase)
    (hnext : phase.Next environment store move next) :
    StateStep id move phase.state? next.state? := by
  cases hnext with
  | enqueue pending => exact .enqueue pending.transaction
  | cancel pending => exact hholds.id_of_queued.1 ▸ .cancel
  | take pending => exact .take
  | accept hvalid => exact .accept
  | refuse hvalid => exact .refuse
  | apply pending change =>
    cases hresult : (store.apply environment change).2 with
    | committed commit => exact .commit
    | rejected rejection => exact .fail

/-- What holds at a point of a run, which began with the given store. -/
structure Lifecycle (environment : Environment) (store : Store) (moves : List Move)
    (manager : Manager) : Prop where
  /-- A number that was given out is in exactly one phase. -/
  phases : ∀ id, manager.Issued id → ∃! phase, manager.Holds id phase ∧ phase ≠ .absent
  /-- A transaction that is queued is answered with a number that was not given out before, and waits
  under that number, for the workspace that there is. -/
  queues : ∀ transaction, ¬ manager.Issued (manager.enqueue transaction).1 ∧
    (manager.perform environment (.enqueue transaction)).Holds (manager.enqueue transaction).1
      (.queued ⟨(manager.enqueue transaction).1, transaction, manager.store.workspace.sequence⟩)
  /-- At most one transaction is being worked on. -/
  alone : ∀ id other,
    (manager.status id = some .validating ∨ manager.status id = some .applying) →
    (manager.status other = some .validating ∨ manager.status other = some .applying) → other = id
  /-- Every step keeps the state that is told or moves it on. -/
  states : ∀ id move, (manager.perform environment move).status id = manager.status id ∨
    StateStep id move (manager.status id) ((manager.perform environment move).status id)
  /-- What is finished stays as it is. -/
  final : ∀ id result, manager.Holds id (.finished result) → ∀ later,
    (manager.performAll environment later).Holds id (.finished result)
  /-- The results received so far are those of the finished ones, one each. -/
  results : ∀ id phase, manager.Holds id phase →
    received environment id { store } moves = phase.result?.toList
  /-- Cancelling succeeds on what is queued. -/
  cancels : ∀ id, (manager.cancel id).1 = true ↔ manager.status id = some .queued
  /-- What is cancelled ends rejected. In the whole run it is never worked on, and every change of
  the workspace is the work of another transaction. -/
  withdrawn : ∀ id, (manager.cancel id).1 = true → ∀ later,
    ((manager.perform environment (.cancel id)).performAll environment later).Holds id
      (.finished (.rejected .cancelled)) ∧
    ∀ part, part <+: moves ++ .cancel id :: later →
      let reached := performAll environment { store } part
      (∀ phase, reached.Holds id phase → phase.running? = none) ∧
      ∀ move, (reached.perform environment move).store.workspace ≠ reached.store.workspace →
        ∃ pending change, pending.id ≠ id ∧ reached.Holds pending.id (.applying pending change)
  /-- The workspace changes only where a transaction ends committed. -/
  commits : ∀ move,
    (manager.perform environment move).store.workspace ≠ manager.store.workspace →
    ∃ pending change commit, move = .apply ∧ manager.Holds pending.id (.applying pending change) ∧
      (manager.perform environment move).Holds pending.id (.finished (.committed commit))

theorem Orderly.holds_enqueued (environment : Environment) (horderly : manager.Orderly)
    (transaction : Transaction) :
    (manager.perform environment (.enqueue transaction)).Holds (manager.enqueue transaction).1
      (.queued ⟨(manager.enqueue transaction).1, transaction, manager.store.workspace.sequence⟩) := by
  obtain ⟨phase, hholds, -⟩ := horderly.phases manager.nextId
  have hqueued := holds_enqueue horderly transaction hholds
  rwa [if_pos rfl] at hqueued

theorem Orderly.cancel_iff (horderly : manager.Orderly) (id : TransactionId) :
    (manager.cancel id).1 = true ↔ manager.status id = some .queued := by
  obtain ⟨phase, hholds, -⟩ := horderly.phases id
  rw [hholds.state, ← hholds.any_queue_iff, cancel]
  split
  · rename_i hany
    exact iff_of_true rfl hany
  · rename_i hany
    exact iff_of_false Bool.false_ne_true hany

theorem Orderly.holds_cancelled (environment : Environment) (horderly : manager.Orderly)
    (hcancel : (manager.cancel id).1 = true) :
    (manager.perform environment (.cancel id)).Holds id (.finished (.rejected .cancelled)) := by
  obtain ⟨phase, hholds, -⟩ := horderly.phases id
  have hqueued := hholds.state.symm.trans ((horderly.cancel_iff id).1 hcancel)
  have hcancelled := holds_cancel hholds id
  rwa [if_pos ⟨rfl, hqueued⟩] at hcancelled

theorem Orderly.exists_running (horderly : manager.Orderly)
    (hworks : manager.status id = some .validating ∨ manager.status id = some .applying) :
    ∃ running, manager.running = some running ∧ running.pending.id = id := by
  obtain ⟨phase, hholds, -⟩ := horderly.phases id
  have hrunning : ∃ running, phase.running? = some running := by
    rw [hholds.state] at hworks
    cases phase with
    | validating pending => exact ⟨_, rfl⟩
    | applying pending change => exact ⟨_, rfl⟩
    | finished result => cases result <;> simp [Phase.state?, TransactionResult.state] at hworks
    | _ => simp [Phase.state?] at hworks
  obtain ⟨running, hrunning⟩ := hrunning
  rw [← hholds.running, Option.filter_eq_some_iff] at hrunning
  exact ⟨running, hrunning.1, by simpa using hrunning.2⟩

/-- A transaction that is cancelled in a run is not worked on anywhere in it. -/
theorem running?_eq_none_of_cancelled (horderly : manager.Orderly) {moves later part : List Move}
    (hcancel : ((manager.performAll environment moves).cancel id).1 = true)
    (hpart : part <+: moves ++ .cancel id :: later)
    (hholds : (manager.performAll environment part).Holds id phase) : phase.running? = none := by
  have hreached := orderly_performAll environment horderly moves
  obtain hbefore | ⟨rest, rfl⟩ := List.prefix_or_prefix_of_prefix hpart (List.prefix_append moves _)
  · obtain ⟨rest, rfl⟩ := hbefore
    obtain ⟨last, hlast, -⟩ := hreached.phases id
    obtain ⟨pending, rfl⟩ := Phase.state?_eq_queued_iff.1
      (hlast.state.symm.trans ((hreached.cancel_iff id).1 hcancel))
    rw [performAll_append] at hlast
    have hrank := hholds.rank_le (orderly_performAll environment horderly part) rest hlast
    cases phase <;> simp [Phase.rank, Phase.running?] at hrank ⊢
  · rw [List.prefix_append_right_inj, List.prefix_cons_iff] at hpart
    rw [performAll_append] at hholds
    obtain rfl | ⟨rest, rfl, -⟩ := hpart
    · obtain ⟨pending, rfl⟩ := Phase.state?_eq_queued_iff.1
        (hholds.state.symm.trans ((hreached.cancel_iff id).1 hcancel))
      rfl
    · have hcancelled := hreached.holds_cancelled environment hcancel
      have hfinished := holds_performAll_finished environment
        (orderly_perform environment hreached (.cancel id)) hcancelled rest
      rw [hfinished.unique hholds]
      rfl

/-- **The life of every transaction, whatever the clients do.** -/
theorem lifecycle (environment : Environment) (store : Store) (moves : List Move) :
    Lifecycle environment store moves (performAll environment { store } moves) := by
  have hstart := orderly_start store
  have horderly := orderly_performAll environment hstart moves
  constructor
  case phases =>
    intro id hissued
    obtain ⟨phase, hholds, hpresent⟩ := horderly.phases id
    exact ⟨phase, ⟨hholds, hpresent.2 hissued⟩, fun other hother => hholds.unique hother.1⟩
  case queues =>
    exact fun transaction => ⟨fun hissued => Nat.lt_irrefl _ hissued.2,
      horderly.holds_enqueued environment transaction⟩
  case alone =>
    intro id other hid hother
    obtain ⟨running, hrunning, rfl⟩ := horderly.exists_running hid
    obtain ⟨same, hsame, rfl⟩ := horderly.exists_running hother
    rw [Option.some.inj (hsame.symm.trans hrunning)]
  case states =>
    intro id move
    obtain ⟨phase, hholds, -⟩ := horderly.phases id
    obtain ⟨next, hnext, hgoes⟩ :=
      exists_holds_perform environment horderly hholds move
    rw [hholds.state, hnext.state]
    exact hgoes.imp (congrArg Phase.state?) (stateStep_of_next hholds)
  case final =>
    exact fun id result hholds later => holds_performAll_finished environment horderly hholds later
  case results =>
    intro id phase hholds
    have hbegun : ({ store } : Manager).Holds id .absent := ⟨rfl, rfl, rfl, rfl⟩
    exact received_eq hstart hbegun moves hholds
  case cancels => exact horderly.cancel_iff
  case withdrawn =>
    intro id hcancel later
    refine ⟨holds_performAll_finished environment (orderly_perform environment horderly _)
      (horderly.holds_cancelled environment hcancel) later, fun part hpart => ?_⟩
    have hunworked : ∀ phase, (performAll environment { store } part).Holds id phase →
        phase.running? = none := fun phase hholds =>
      running?_eq_none_of_cancelled hstart hcancel hpart hholds
    refine ⟨hunworked, fun move hchanged => ?_⟩
    obtain ⟨pending, change, -, -, hholds, -⟩ :=
      exists_committed_of_workspace_ne (orderly_performAll environment hstart part) hchanged
    refine ⟨pending, change, ?_, hholds⟩
    rintro rfl
    cases hunworked _ hholds
  case commits => exact fun move hchanged => exists_committed_of_workspace_ne horderly hchanged

end Manager

end CodeGraph
