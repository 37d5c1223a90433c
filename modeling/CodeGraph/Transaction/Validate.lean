import CodeGraph.Transaction.Basic

/-!
# Validation

A change is checked against the committed workspace before anything is done. The checks come in a
fixed order, and the first that fails is the cause of the rejection.
-/

namespace CodeGraph.Change

def checkPath (config : Config) (path : Path) : Except Rejection Path :=
  match Path.inProject? config.root path with
  | some found => .ok found
  | none => .error (.invalidPath path)

def checkPresent (workspace : Workspace) (path : Path) : Except Rejection SourceFile :=
  match workspace.file? path with
  | some file => .ok file
  | none => .error (.fileNotFound path)

def checkAbsent (workspace : Workspace) (path : Path) : Except Rejection Unit :=
  if workspace.contains path then .error (.fileExists path) else .ok ()

def checkSupported (path : Path) : Except Rejection Unit :=
  if (Language.ofPath path).isSupported then .ok () else .error (.unsupportedFile path)

/-- Whether a range can be cut out of a text: in order, inside it, and between characters. -/
def isRangeOf (range : ByteRange) (text : String) : Bool :=
  range.start ≤ range.stop && range.stop ≤ Text.size text &&
    Text.isBoundary text range.start && Text.isBoundary text range.stop

def checkRange (file : SourceFile) (range : ByteRange) : Except Rejection Unit :=
  if isRangeOf range file.text then .ok ()
  else .error (.invalidRange file.path range (Text.size file.text))

def checkCurrent (file : SourceFile) (range : ByteRange) (base : Nat) : Except Rejection Unit :=
  if file.rangeIsCurrent base range then .ok () else .error (.staleRange file.path range base)

/-- The change with paths inside the project, once every check has passed. An edit without a base
of its own counts from the time it was queued, or from when the file came if that was later. -/
def validate (config : Config) (workspace : Workspace) (queuedAt : Nat) :
    Change → Except Rejection Change
  | edit path range text base => do
    let path ← checkPath config path
    let file ← checkPresent workspace path
    checkRange file range
    checkCurrent file range (base.getD (max queuedAt file.created))
    return edit path range text base
  | add path content => do
    let path ← checkPath config path
    checkSupported path
    checkAbsent workspace path
    return add path content
  | remove path => do
    let path ← checkPath config path
    let _ ← checkPresent workspace path
    return remove path
  | rename source target => do
    let source ← checkPath config source
    let target ← checkPath config target
    let _ ← checkPresent workspace source
    checkAbsent workspace target
    checkSupported target
    return rename source target

end CodeGraph.Change
