import CodeGraph.Transaction.Apply

/-!
# The queue

Transactions wait in a queue and are taken from it one at a time: the highest priority first, and of
equal ones the oldest. Each goes through the same stages, and its result is kept until it is asked
for. At most one transaction is being worked on at any time.
-/

namespace CodeGraph

structure Pending where
  id : TransactionId
  transaction : Transaction
  /-- The last commit when the transaction was queued. -/
  queuedAt : Nat
  deriving DecidableEq, Repr

/-- Whether a transaction is taken from the queue before another. -/
def Pending.goesBefore (left right : Pending) : Bool :=
  right.transaction.priority < left.transaction.priority ||
    (left.transaction.priority = right.transaction.priority && left.id < right.id)

/-- The transaction being worked on, with its checked change once it has been validated. -/
structure Running where
  pending : Pending
  validated : Option Change := none
  deriving DecidableEq, Repr

structure Manager where
  store : Store := {}
  queue : List Pending := []
  running : Option Running := none
  states : Table TransactionId TransactionState := {}
  /-- The results that nobody has asked for yet. -/
  results : Table TransactionId TransactionResult := {}
  nextId : TransactionId := 1

namespace Manager

def setState (manager : Manager) (id : TransactionId) (state : TransactionState) : Manager :=
  { manager with states := manager.states.put id state }

def status (manager : Manager) (id : TransactionId) : Option TransactionState :=
  manager.states.get? id

/-- Ends a transaction with its result. -/
def finish (manager : Manager) (id : TransactionId) (result : TransactionResult) : Manager :=
  { manager.setState id result.state with results := manager.results.put id result }

/-! ### Steps -/

def enqueue (manager : Manager) (transaction : Transaction) : TransactionId × Manager :=
  let id := manager.nextId
  let pending := ⟨id, transaction, manager.store.workspace.sequence⟩
  (id, { manager.setState id .queued with queue := manager.queue ++ [pending], nextId := id + 1 })

/-- Takes a transaction out of the queue unprocessed; the answer tells whether it was there. -/
def cancel (manager : Manager) (id : TransactionId) : Bool × Manager :=
  if manager.queue.any (·.id = id) then
    let rest := manager.queue.filter (·.id ≠ id)
    (true, ({ manager with queue := rest }).finish id (.rejected .cancelled))
  else (false, manager)

def next? (manager : Manager) : Option Pending :=
  manager.queue.find? fun pending =>
    manager.queue.all fun other => other.id = pending.id || pending.goesBefore other

/-- Takes the next transaction from the queue, when none is being worked on. -/
def take (manager : Manager) : Manager :=
  match manager.running, manager.next? with
  | none, some pending =>
    { manager.setState pending.id .validating with
      queue := manager.queue.filter (·.id ≠ pending.id)
      running := some { pending } }
  | _, _ => manager

/-- Validates the running transaction. -/
def validateRunning (environment : Environment) (manager : Manager) : Manager :=
  match manager.running with
  | some { pending, validated := none } =>
    match pending.transaction.change.validate environment.config manager.store.workspace
        pending.queuedAt with
    | .ok change =>
      { manager.setState pending.id .applying with running := some ⟨pending, some change⟩ }
    | .error rejection =>
      ({ manager with running := none }).finish pending.id (.rejected rejection)
  | _ => manager

/-- Applies the running transaction. -/
def applyRunning (environment : Environment) (manager : Manager) : Manager :=
  match manager.running with
  | some { pending, validated := some change } =>
    let (store, result) := manager.store.apply environment change
    ({ manager with store, running := none }).finish pending.id result
  | _ => manager

/-! ### Runs -/

/-- Takes one transaction through all its stages. -/
def processNext (environment : Environment) (manager : Manager) : Manager :=
  (manager.take.validateRunning environment).applyRunning environment

def processMany (environment : Environment) : Nat → Manager → Manager
  | 0, manager => manager
  | count + 1, manager => processMany environment count (manager.processNext environment)

/-- Works off the whole queue; the answer counts the transactions that were finished. -/
def drain (environment : Environment) (manager : Manager) : Nat × Manager :=
  (manager.queue.length, processMany environment manager.queue.length manager)

/-- Hands out a result, once. -/
def collect (manager : Manager) (id : TransactionId) : Option TransactionResult × Manager :=
  (manager.results.get? id, { manager with results := manager.results.erase id })

/-- Works off the queue and hands out the result of a transaction. -/
def wait (environment : Environment) (manager : Manager) (id : TransactionId) :
    Option TransactionResult × Manager :=
  ((manager.drain environment).2).collect id

def submit (environment : Environment) (manager : Manager) (transaction : Transaction) :
    TransactionId × Option TransactionResult × Manager :=
  let (id, manager) := manager.enqueue transaction
  (id, manager.wait environment id)

def enqueueAll (manager : Manager) : List Transaction → List TransactionId × Manager
  | [] => ([], manager)
  | transaction :: rest =>
    let (id, manager) := manager.enqueue transaction
    let (ids, manager) := manager.enqueueAll rest
    (id :: ids, manager)

def collectAll (manager : Manager) :
    List TransactionId → List (TransactionId × Option TransactionResult) × Manager
  | [] => ([], manager)
  | id :: rest =>
    let (result, manager) := manager.collect id
    let (results, manager) := manager.collectAll rest
    ((id, result) :: results, manager)

/-- Queues several transactions and works off the queue; the results come in the order in which the
transactions were given. -/
def submitBatch (environment : Environment) (manager : Manager)
    (transactions : List Transaction) :
    List (TransactionId × Option TransactionResult) × Manager :=
  let (ids, manager) := manager.enqueueAll transactions
  ((manager.drain environment).2).collectAll ids

/-- Brings a file up to date with its own text. -/
def resync (environment : Environment) (manager : Manager) (path : Path) :
    Except SyncError (Nat × Manager) := do
  let (mutations, store) ← manager.store.resync environment path
  return (mutations, { manager with store })

end Manager

end CodeGraph
