import CodeGraph.Proofs.Transaction.Lifecycle
import CodeGraph.Proofs.Transaction.Run

/-!
# The order of a batch

What waits in the queue is worked off from the highest priority to the lowest and, among equals,
from the oldest to the latest. The numbers of transactions differ, so there is one such order,
whatever was queued and cancelled before. Each transaction is checked against the workspace that the
one before it left, and the commits are numbered as they come.
-/

namespace CodeGraph

/-! ### What goes first -/

namespace Pending

variable {left middle right : Pending}

theorem goesBefore_iff : left.goesBefore right = true ↔
    right.transaction.priority < left.transaction.priority ∨
      left.transaction.priority = right.transaction.priority ∧ left.id < right.id := by
  simp [goesBefore]

theorem goesBefore_trans (hleft : left.goesBefore middle = true)
    (hright : middle.goesBefore right = true) : left.goesBefore right = true := by
  rw [goesBefore_iff] at hleft hright ⊢
  obtain hleft | ⟨hleft, hidLeft⟩ := hleft <;> obtain hright | ⟨hright, hidRight⟩ := hright
  · exact .inl (hright.trans hleft)
  · exact .inl (hright ▸ hleft)
  · exact .inl (hleft ▸ hright)
  · exact .inr ⟨hleft.trans hright, Nat.lt_trans hidLeft hidRight⟩

theorem goesBefore_total (hne : left.id ≠ right.id) :
    left.goesBefore right = true ∨ right.goesBefore left = true := by
  simp only [goesBefore_iff]
  obtain hlt | heq | hgt := lt_trichotomy left.transaction.priority right.transaction.priority
  · exact .inr (.inl hlt)
  · obtain hid | hid := Nat.lt_or_gt_of_ne hne
    · exact .inl (.inr ⟨heq, hid⟩)
    · exact .inr (.inr ⟨heq.symm, hid⟩)
  · exact .inl (.inl hgt)

/-- One of several transactions goes before all the others. -/
theorem exists_first {queue : List Pending} (hnodup : (queue.map (·.id)).Nodup)
    (hqueue : queue ≠ []) :
    ∃ first ∈ queue, ∀ other ∈ queue, other = first ∨ first.goesBefore other = true := by
  induction queue with
  | nil => exact absurd rfl hqueue
  | cons pending rest ih =>
    obtain ⟨hpending, hrest⟩ := List.nodup_cons.1 hnodup
    by_cases hempty : rest = []
    · subst hempty
      exact ⟨pending, List.mem_cons_self, fun other hother => .inl (List.mem_singleton.1 hother)⟩
    obtain ⟨first, hfirst, hbefore⟩ := ih hrest hempty
    have hne : pending.id ≠ first.id := fun heq =>
      hpending (List.mem_map.2 ⟨first, hfirst, heq.symm⟩)
    obtain hpends | hpends := goesBefore_total hne
    · refine ⟨pending, List.mem_cons_self, fun other hother => ?_⟩
      obtain rfl | hother := List.mem_cons.1 hother
      · exact .inl rfl
      · obtain rfl | hother := hbefore other hother
        · exact .inr hpends
        · exact .inr (goesBefore_trans hpends hother)
    · refine ⟨first, List.mem_cons_of_mem _ hfirst, fun other hother => ?_⟩
      obtain rfl | hother := List.mem_cons.1 hother
      · exact .inr hpends
      · exact hbefore other hother

end Pending

/-! ### Processing one after the other -/

namespace Store

variable {environment : Environment} {store : Store}

/-- The store and the result that a waiting transaction leads to. -/
def processPending (environment : Environment) (store : Store) (pending : Pending) :
    Store × TransactionResult :=
  store.process environment pending.queuedAt pending.transaction.change

def afterAll (environment : Environment) (store : Store) (order : List Pending) : Store :=
  order.foldl (fun store pending => (store.processPending environment pending).1) store

def resultsAll (environment : Environment) : Store → List Pending → List TransactionResult
  | _, [] => []
  | store, pending :: rest =>
    (store.processPending environment pending).2 ::
      resultsAll environment (store.processPending environment pending).1 rest

theorem getElem?_resultsAll (order : List Pending) {index : Nat} {pending : Pending}
    (hindex : order[index]? = some pending) :
    (store.resultsAll environment order)[index]? =
      some ((store.afterAll environment (order.take index)).processPending environment
        pending).2 := by
  induction order generalizing store index with
  | nil => cases hindex
  | cons first rest ih =>
    cases index with
    | zero =>
      obtain rfl := Option.some.inj hindex
      rfl
    | succ index => exact ih hindex

end Store

def TransactionResult.sequence? : TransactionResult → Option Nat
  | committed commit => some commit.sequence
  | rejected _ => none

namespace Store

variable {environment : Environment} {store : Store}

/-- A commit has the next number, and what is rejected has none. -/
theorem sequence_process (environment : Environment) (store : Store) (queuedAt : Nat)
    (change : Change) :
    ((store.process environment queuedAt change).2.sequence? = none ∧
      (store.process environment queuedAt change).1.workspace.sequence = store.workspace.sequence) ∨
    ((store.process environment queuedAt change).2.sequence? = some (store.workspace.sequence + 1) ∧
      (store.process environment queuedAt change).1.workspace.sequence =
        store.workspace.sequence + 1) := by
  rw [process]
  split
  · exact .inl ⟨rfl, rfl⟩
  · rename_i checked hvalid
    rw [apply]
    split
    · exact .inl ⟨rfl, rfl⟩
    · rename_i outcome hrun
      have hsequence := (Change.advances_run (Change.admitted_of_validate hvalid) hrun).sequence
      simp only
      split
      · split
        · exact .inl ⟨rfl, rfl⟩
        · exact .inr ⟨congrArg some hsequence, hsequence⟩
      · exact .inr ⟨congrArg some hsequence, hsequence⟩

/-- **Commits are numbered as they come.** -/
theorem sequences_resultsAll (order : List Pending) :
    (store.resultsAll environment order).filterMap (·.sequence?) =
      List.range' (store.workspace.sequence + 1)
        ((store.resultsAll environment order).countP (·.isCommitted)) := by
  induction order generalizing store with
  | nil => rfl
  | cons pending rest ih =>
    have hrest := @ih (store.processPending environment pending).1
    rw [resultsAll]
    obtain ⟨hresult, hsequence⟩ | ⟨hresult, hsequence⟩ :=
      sequence_process environment store pending.queuedAt pending.transaction.change
    · rw [← processPending] at hresult hsequence
      rw [hsequence] at hrest
      rw [List.filterMap_cons_none hresult, hrest, List.countP_cons_of_neg]
      cases hcase : (store.processPending environment pending).2 with
      | rejected rejection => exact Bool.false_ne_true
      | committed commit => rw [hcase] at hresult; cases hresult
    · rw [← processPending] at hresult hsequence
      rw [hsequence] at hrest
      rw [List.filterMap_cons_some hresult, hrest, List.countP_cons_of_pos, List.range'_succ]
      cases hcase : (store.processPending environment pending).2 with
      | rejected rejection => rw [hcase] at hresult; cases hresult
      | committed commit => rfl

end Store

/-! ### Working off the queue -/

namespace Manager

variable {environment : Environment} {manager : Manager}

theorem Orderly.nodup (horderly : manager.Orderly) : (manager.queue.map (·.id)).Nodup := by
  rw [List.nodup_iff_count_le_one]
  intro id
  obtain ⟨phase, hholds, -⟩ := horderly.phases id
  have hcount : (manager.queue.map (·.id)).count id = phase.waiting.length := by
    rw [← hholds.waiting, List.count_eq_countP, List.countP_map, List.countP_eq_length_filter]
    congr 1
  rw [hcount]
  cases phase <;> simp [Phase.waiting]

/-- A queue that is not empty has a next one, and it goes before all the others. -/
theorem Orderly.exists_next (horderly : manager.Orderly) (hqueue : manager.queue ≠ []) :
    ∃ pending, manager.next? = some pending ∧ pending ∈ manager.queue ∧
      ∀ other ∈ manager.queue, other.id ≠ pending.id → pending.goesBefore other = true := by
  obtain ⟨first, hfirst, hbefore⟩ := Pending.exists_first horderly.nodup hqueue
  have hfound : manager.next?.isSome := by
    rw [next?, List.find?_isSome]
    refine ⟨first, hfirst, List.all_eq_true.2 fun other hother => ?_⟩
    obtain rfl | hother := hbefore other hother
    · simp
    · simp [hother]
  obtain ⟨pending, hnext⟩ := Option.isSome_iff_exists.1 hfound
  refine ⟨pending, hnext, next?_mem hnext, fun other hother hne => ?_⟩
  rw [next?] at hnext
  have hall := List.find?_some hnext
  simpa [hne] using List.all_eq_true.1 hall other hother

/-- All the stages of a transaction end it with its result. In between only its state is written. -/
theorem exists_processNext_eq_finish (environment : Environment) (hidle : manager.running = none)
    {pending : Pending} (hnext : manager.next? = some pending) :
    ∃ states : Table TransactionId TransactionState,
      (∀ id, id ≠ pending.id → states.get? id = manager.status id) ∧
      manager.processNext environment = ({ manager with
        store := (manager.store.processPending environment pending).1
        queue := manager.queue.filter (·.id ≠ pending.id)
        running := none
        states } : Manager).finish pending.id
          (manager.store.processPending environment pending).2 := by
  rw [processNext, take, hidle, hnext]
  simp only [validateRunning, setState, Store.processPending, Store.process]
  cases hvalid : pending.transaction.change.validate environment.config manager.store.workspace
      pending.queuedAt with
  | error rejection =>
    exact ⟨manager.states.put pending.id .validating,
      fun id hid => Table.get?_put_of_ne manager.states .validating hid, rfl⟩
  | ok change =>
    refine ⟨(manager.states.put pending.id .validating).put pending.id .applying,
      fun id hid => ?_, rfl⟩
    rw [Table.get?_put_of_ne _ _ hid, Table.get?_put_of_ne _ _ hid, status]

/-- What processing one transaction comes to. -/
structure Processed (environment : Environment) (before : Manager) (pending : Pending)
    (after : Manager) : Prop where
  running : after.running = none
  queue : after.queue = before.queue.filter (·.id ≠ pending.id)
  store : after.store = (before.store.processPending environment pending).1
  status : ∀ id, after.status id = if id = pending.id then
    some (before.store.processPending environment pending).2.state else before.status id
  results : ∀ id, after.results.get? id = if id = pending.id then
    some (before.store.processPending environment pending).2 else before.results.get? id

theorem processed_processNext (environment : Environment) (hidle : manager.running = none)
    {pending : Pending} (hnext : manager.next? = some pending) :
    Processed environment manager pending (manager.processNext environment) := by
  obtain ⟨states, hstates, hprocess⟩ := exists_processNext_eq_finish environment hidle hnext
  rw [hprocess]
  refine ⟨rfl, rfl, rfl, fun id => ?_, fun id => get?_results_finish _ _ _ _⟩
  rw [status_finish]
  split
  · rfl
  · rename_i hid
    exact hstates id hid

/-- The transactions that are taken when so many are processed, in their order. -/
def taken (environment : Environment) : Nat → Manager → List Pending
  | 0, _ => []
  | count + 1, manager =>
    manager.next?.toList ++ taken environment count (manager.processNext environment)

theorem orderly_processNext (environment : Environment) (horderly : manager.Orderly) :
    (manager.processNext environment).Orderly :=
  orderly_performAll environment horderly [.take, .validate, .apply]

/-- What working off a queue in some order comes to. -/
structure WorkedOff (environment : Environment) (before : Manager) (order : List Pending)
    (after : Manager) : Prop where
  perm : order.Perm before.queue
  sorted : order.Pairwise fun left right =>
    right.transaction.priority < left.transaction.priority ∨
      left.transaction.priority = right.transaction.priority ∧ left.id < right.id
  queue : after.queue = []
  running : after.running = none
  store : after.store = before.store.afterAll environment order
  /-- Each transaction ends with its result on the store that those before it left. -/
  results : ∀ index pending, order[index]? = some pending →
    let left := before.store.afterAll environment (order.take index)
    let result := (left.processPending environment pending).2
    after.status pending.id = some result.state ∧ after.results.get? pending.id = some result
  others : ∀ id, (∀ pending ∈ order, pending.id ≠ id) →
    after.status id = before.status id ∧ after.results.get? id = before.results.get? id

theorem workedOff_processMany (environment : Environment) (horderly : manager.Orderly)
    (hidle : manager.running = none) {count : Nat} (hcount : manager.queue.length = count) :
    WorkedOff environment manager (taken environment count manager)
      (processMany environment count manager) := by
  induction count generalizing manager with
  | zero =>
    rw [List.length_eq_zero_iff] at hcount
    exact ⟨hcount ▸ .nil, .nil, hcount, hidle, rfl, nofun, fun _ _ => ⟨rfl, rfl⟩⟩
  | succ count ih =>
    obtain ⟨pending, hnext, hmem, hbefore⟩ :=
      horderly.exists_next (List.ne_nil_of_length_eq_add_one hcount)
    have hprocessed := processed_processNext environment hidle hnext
    have hperm : (pending :: (manager.processNext environment).queue).Perm manager.queue := by
      have hparts := List.filter_append_perm (fun other => other.id = pending.id) manager.queue
      rw [(horderly.holds_queued hmem).waiting] at hparts
      simpa [hprocessed.queue, Phase.waiting] using hparts
    have hrest := ih (orderly_processNext environment horderly) hprocessed.running (by
      have hlength := hperm.length_eq
      rw [List.length_cons, hcount] at hlength
      exact Nat.succ.inj hlength)
    rw [taken, hnext, Option.toList_some, List.singleton_append]
    have hothers : ∀ other ∈ taken environment count (manager.processNext environment),
        other ∈ manager.queue ∧ other.id ≠ pending.id := fun other hother => by
      have hleft := hrest.perm.mem_iff.1 hother
      rw [hprocessed.queue] at hleft
      simpa using List.mem_filter.1 hleft
    constructor
    case perm => exact (hrest.perm.cons pending).trans hperm
    case sorted =>
      refine List.pairwise_cons.2 ⟨fun other hother => ?_, hrest.sorted⟩
      obtain ⟨hqueued, hne⟩ := hothers other hother
      exact Pending.goesBefore_iff.1 (hbefore other hqueued hne)
    case queue => exact hrest.queue
    case running => exact hrest.running
    case store => rw [processMany, hrest.store, hprocessed.store]; rfl
    case results =>
      intro index other hindex
      cases index with
      | zero =>
        obtain rfl := Option.some.inj hindex
        obtain ⟨hstatus, hresult⟩ := hrest.others pending.id fun other hother =>
          (hothers other hother).2
        rw [hprocessed.status, if_pos rfl] at hstatus
        rw [hprocessed.results, if_pos rfl] at hresult
        exact ⟨hstatus, hresult⟩
      | succ index =>
        have hother := hrest.results index other hindex
        rw [hprocessed.store] at hother
        exact hother
    case others =>
      intro id hid
      obtain ⟨hstatus, hresult⟩ := hrest.others id fun other hother =>
        hid other (List.mem_cons_of_mem _ hother)
      have hne : id ≠ pending.id := (hid pending List.mem_cons_self).symm
      rw [hprocessed.status, if_neg hne] at hstatus
      rw [hprocessed.results, if_neg hne] at hresult
      exact ⟨hstatus, hresult⟩

end Manager

/-! ### What is in the queue -/

/-- What a client asks for before the queue is worked off. -/
inductive Call where
  | enqueue (transaction : Transaction)
  | cancel (id : TransactionId)
  deriving DecidableEq

/-- What calls leave of the transactions that they queue, when the last commit and the next number
are given: those that no later call cancels. -/
def Call.surviving (sequence : Nat) : TransactionId → List Call → List Pending
  | _, [] => []
  | next, .enqueue transaction :: rest =>
    if .cancel next ∈ rest then surviving sequence (next + 1) rest
    else ⟨next, transaction, sequence⟩ :: surviving sequence (next + 1) rest
  | next, .cancel _ :: rest => surviving sequence next rest

namespace Manager

variable {environment : Environment} {manager : Manager}

def call (manager : Manager) : Call → Manager
  | .enqueue transaction => (manager.enqueue transaction).2
  | .cancel id => (manager.cancel id).2

def callAll (manager : Manager) (calls : List Call) : Manager :=
  calls.foldl call manager

theorem queue_cancel (manager : Manager) (id : TransactionId) :
    (manager.cancel id).2.queue = manager.queue.filter (·.id ≠ id) := by
  rw [cancel]
  split
  · rfl
  · rename_i hnone
    refine (List.filter_eq_self.2 fun pending hpending => ?_).symm
    by_contra hid
    exact hnone (List.any_eq_true.2 ⟨pending, hpending, by simpa using hid⟩)

theorem store_call (manager : Manager) (call : Call) :
    (manager.call call).store = manager.store := by
  cases call with
  | enqueue transaction => rfl
  | cancel id => simp only [Manager.call, cancel]; split <;> rfl

theorem nextId_cancel (manager : Manager) (id : TransactionId) :
    (manager.cancel id).2.nextId = manager.nextId := by
  rw [cancel]
  split <;> rfl

/-- **The queue holds what was queued and not cancelled.** -/
theorem queue_callAll (manager : Manager) (calls : List Call) :
    (manager.callAll calls).queue =
      manager.queue.filter (fun pending => .cancel pending.id ∉ calls) ++
        Call.surviving manager.store.workspace.sequence manager.nextId calls := by
  induction calls generalizing manager with
  | nil => simp [callAll, Call.surviving]
  | cons first rest ih =>
    have hrest := ih (manager.call first)
    rw [store_call] at hrest
    refine hrest.trans ?_
    cases first with
    | enqueue transaction =>
      by_cases hcancelled : .cancel manager.nextId ∈ rest
      · simp [call, enqueue, setState, Call.surviving, hcancelled]
      · simp [call, enqueue, setState, Call.surviving, hcancelled]
    | cancel id =>
      simp only [call, queue_cancel, nextId_cancel, Call.surviving, List.filter_filter]
      congr 1
      refine List.filter_congr fun pending _ => ?_
      simp [Bool.and_comm]

theorem running_call (manager : Manager) (call : Call) :
    (manager.call call).running = manager.running := by
  cases call with
  | enqueue transaction => rfl
  | cancel id => simp only [Manager.call, cancel]; split <;> rfl

/-- Calls leave a manager orderly, and they do not work on anything. -/
theorem orderly_callAll (environment : Environment) (horderly : manager.Orderly)
    (calls : List Call) : (manager.callAll calls).Orderly ∧
      (manager.callAll calls).running = manager.running ∧
      (manager.callAll calls).store = manager.store := by
  induction calls generalizing manager with
  | nil => exact ⟨horderly, rfl, rfl⟩
  | cons first rest ih =>
    have hfirst : (manager.call first).Orderly := by
      cases first with
      | enqueue transaction => exact orderly_perform environment horderly (.enqueue transaction)
      | cancel id => exact orderly_perform environment horderly (.cancel id)
    obtain ⟨hrest, hrunning, hstore⟩ := ih hfirst
    exact ⟨hrest, hrunning.trans (running_call manager first),
      hstore.trans (store_call manager first)⟩

/-! ### Batches -/

theorem enqueueAll_eq (manager : Manager) (transactions : List Transaction) :
    manager.enqueueAll transactions = (List.range' manager.nextId transactions.length,
      manager.callAll (transactions.map .enqueue)) := by
  induction transactions generalizing manager with
  | nil => rfl
  | cons transaction rest ih =>
    simp only [enqueueAll, ih, List.length_cons, List.range'_succ]
    rfl

/-- The results are handed out as they are asked for, each to the one that asks first. -/
theorem collectAll_eq (manager : Manager) {ids : List TransactionId} (hnodup : ids.Nodup) :
    (manager.collectAll ids).1 = ids.map fun id => (id, manager.results.get? id) := by
  induction ids generalizing manager with
  | nil => rfl
  | cons id rest ih =>
    obtain ⟨hid, hrest⟩ := List.nodup_cons.1 hnodup
    simp only [collectAll, collect, ih _ hrest, List.map_cons, List.cons.injEq, true_and]
    refine List.map_congr_left fun other hother => ?_
    rw [Table.get?_erase_of_ne manager.results (ne_of_mem_of_not_mem hother hid)]

theorem surviving_enqueues (sequence : Nat) (next : TransactionId)
    (transactions : List Transaction) {index : Nat} {transaction : Transaction}
    (hindex : transactions[index]? = some transaction) :
    ⟨next + index, transaction, sequence⟩ ∈
      Call.surviving sequence next (transactions.map .enqueue) := by
  induction transactions generalizing next index with
  | nil => cases hindex
  | cons first rest ih =>
    rw [List.map_cons, Call.surviving, if_neg (by simp)]
    cases index with
    | zero =>
      obtain rfl := Option.some.inj hindex
      exact List.mem_cons_self
    | succ index =>
      have hrest := ih (next + 1) hindex
      rw [Nat.add_right_comm] at hrest
      exact List.mem_cons_of_mem _ hrest

/-- **A batch is worked off in order.** Whatever a run has led to, as long as nothing is being
worked on: any transactions are queued and any of the queued ones cancelled. Then the queue is
worked off, which takes what is left of the old and the new ones by priority and age, each once and
each on the workspace that those before it left. The commits among them have the next numbers, in
this order. The results of several transactions that are submitted together come in the order of
their submission. -/
theorem batch_in_order (environment : Environment) (store : Store) (moves : List Move)
    (hidle : (performAll environment { store } moves).running = none) :
    let start := performAll environment { store } moves
    (∀ calls : List Call,
      let ready := start.callAll calls
      let order := taken environment ready.queue.length ready
      ready.queue = start.queue.filter (fun pending => .cancel pending.id ∉ calls) ++
          Call.surviving start.store.workspace.sequence start.nextId calls ∧
        (ready.queue.map (·.id)).Nodup ∧ ready.store = start.store ∧
        (ready.drain environment).1 = order.length ∧
        WorkedOff environment ready order (ready.drain environment).2 ∧
        (start.store.resultsAll environment order).filterMap (·.sequence?) =
          List.range' (start.store.workspace.sequence + 1)
            ((start.store.resultsAll environment order).countP (·.isCommitted))) ∧
    ∀ transactions : List Transaction,
      let ready := (start.enqueueAll transactions).2
      let order := taken environment ready.queue.length ready
      let batch := (start.submitBatch environment transactions).1
      WorkedOff environment ready order (ready.drain environment).2 ∧
        batch.length = transactions.length ∧
        ∀ (index : Nat) (transaction : Transaction), transactions[index]? = some transaction →
          ∃ (place : Nat) (result : TransactionResult),
            order[place]? =
              some ⟨start.nextId + index, transaction, start.store.workspace.sequence⟩ ∧
            (start.store.resultsAll environment order)[place]? = some result ∧
            batch[index]? = some (start.nextId + index, some result) := by
  intro start
  have horderly := orderly_performAll environment (orderly_start store) moves
  have hworked : ∀ calls : List Call, WorkedOff environment (start.callAll calls)
      (taken environment (start.callAll calls).queue.length (start.callAll calls))
      ((start.callAll calls).drain environment).2 := fun calls => by
    obtain ⟨hready, hrunning, -⟩ := orderly_callAll environment horderly calls
    exact workedOff_processMany environment hready (hrunning.trans hidle) rfl
  constructor
  · intro calls ready order
    obtain ⟨hready, -, hstore⟩ := orderly_callAll environment horderly calls
    exact ⟨queue_callAll start calls, hready.nodup, hstore, (hworked calls).perm.length_eq.symm,
      hworked calls, Store.sequences_resultsAll order⟩
  · intro transactions ready order batch
    have hready : ready = start.callAll (transactions.map .enqueue) :=
      congrArg Prod.snd (enqueueAll_eq start transactions)
    have hworks : WorkedOff environment ready order (ready.drain environment).2 := by
      have h := hworked (transactions.map .enqueue)
      rwa [← hready] at h
    have hstore : ready.store = start.store :=
      hready ▸ (orderly_callAll environment horderly (transactions.map .enqueue)).2.2
    have hbatch : batch = (List.range' start.nextId transactions.length).map fun id =>
        (id, (ready.drain environment).2.results.get? id) := by
      have hcollect := collectAll_eq (ready.drain environment).2
        (List.nodup_range' : (List.range' start.nextId transactions.length).Nodup)
      rw [← hcollect]
      simp only [batch, submitBatch, ready, enqueueAll_eq]
    refine ⟨hworks, by simp [hbatch], fun index transaction hindex => ?_⟩
    have hqueued : (⟨start.nextId + index, transaction, start.store.workspace.sequence⟩ : Pending) ∈
        order := by
      rw [hworks.perm.mem_iff, hready, queue_callAll]
      exact List.mem_append_right _ (surviving_enqueues _ _ transactions hindex)
    obtain ⟨place, hplace⟩ := List.mem_iff_getElem?.1 hqueued
    have hresult := (hworks.results place _ hplace).2
    rw [hstore] at hresult
    refine ⟨place, _, hplace, Store.getElem?_resultsAll order hplace, ?_⟩
    obtain ⟨hlt, -⟩ := List.getElem?_eq_some_iff.1 hindex
    rw [hbatch, List.getElem?_map, List.getElem?_range' hlt, Option.map_some, Nat.one_mul, hresult]

/-- The removal goes first because of its priority, and so it does not find the file. -/
theorem batch_in_order_cancelled :
    let environment : Environment := ⟨{}, fun _ _ => default⟩
    let start := performAll environment {} []
    let ready := start.callAll [.enqueue { change := .add ⟨"a.py"⟩ "x = 1\n" },
      .enqueue ⟨.remove ⟨"a.py"⟩, 1⟩, .enqueue ⟨.add ⟨"b.py"⟩ "", 2⟩, .cancel 3]
    let order := taken environment 2 ready
    start.running = none ∧ WorkedOff environment ready order (ready.drain environment).2 ∧
      order.map (·.id) = [2, 1] ∧
      (start.store.resultsAll environment order).map (·.sequence?) = [none, some 1] := by
  intro environment start ready order
  refine ⟨rfl, ?_, by decide +kernel, ?_⟩
  · exact ((batch_in_order environment {} [] rfl).1 [.enqueue { change := .add ⟨"a.py"⟩ "x = 1\n" },
      .enqueue ⟨.remove ⟨"a.py"⟩, 1⟩, .enqueue ⟨.add ⟨"b.py"⟩ "", 2⟩, .cancel 3]).2.2.2.2.1
  · decide +kernel

end Manager

end CodeGraph
