import AgenticGit.Lib.InFlight
import AgenticGit.Lib.Runtime
import AgenticGit.Collab.Transform

/- The two ends of one shared document: the server's authoritative copy
   (`document.ts`) and the client half of the loop (`client.ts`).

   Correspondence (TypeScript ↔ Lean):
     `CollabDocument.text/history/historyBase` ↔ the fields of the same names
     `receive`, `append`, `since`              ↔ `CollabDocument.receive`, `.append`, `.since`
     `outstanding | undefined`, `buffer | undefined` ↔ `Option TextOperation`
     `ClientAction`                            ↔ `ClientAction`

   A method that changes its object returns the object afterwards; one that
   throws returns the error and leaves the object as it was. -/
namespace AgenticGit.Collab
open AgenticGit.InFlight AgenticGit.Runtime

/-- Operations over text, with `transformOperations` to carry one over another:
the instance of `OpSystem` both ends run. -/
def textSystem : OpSystem Text TextOperation CollabError where
  acts := Applies
  carry := transformOperations
  diamond := transformOperations_spec

/-! ## CollabDocument -/

/-- `history[i]` carries revision `historyBase + i` to `historyBase + i + 1`. -/
structure CollabDocument where
  text : Text
  history : List TextOperation
  historyBase : Nat
  historyLimit : Nat
  limit_pos : 1 ≤ historyLimit
  history_length : history.length ≤ historyLimit
  deriving DecidableEq, Repr

structure AppliedOperation where
  /-- The document's revision after the operation was applied. -/
  revision : Nat
  operation : TextOperation
  deriving DecidableEq, Repr

/-- How many operations a document remembers unless it is told otherwise. -/
def defaultHistoryLimit : Nat := 2000

namespace CollabDocument

/-- `new CollabDocument(content)`. -/
def new (content : Text) : CollabDocument where
  text := content
  history := []
  historyBase := 0
  historyLimit := defaultHistoryLimit
  limit_pos := by decide
  history_length := Nat.zero_le _

def content (document : CollabDocument) : Text := document.text

def revision (document : CollabDocument) : Nat := document.historyBase + document.history.length

/-- The oldest revision a client may still name when sending an operation. -/
def oldestRebasableRevision (document : CollabDocument) : Nat := document.historyBase

/-- `this.text = text; this.append(operation)`. -/
def append (document : CollabDocument) (text : Text) (operation : TextOperation) :
    CollabDocument :=
  let history := document.history ++ [operation]
  let excess := history.length - document.historyLimit
  { text
    history := history.drop excess
    historyBase := document.historyBase + excess
    historyLimit := document.historyLimit
    limit_pos := document.limit_pos
    history_length := by rw [List.length_drop]; omega }

/-- The loop of `receive`: the arriving operation is always `first`. -/
def rebase (operation : TextOperation) (window : List TextOperation) :
    Except CollabError TextOperation :=
  textSystem.rebase operation window

def receive (document : CollabDocument) (clientRevision : Int) (operation : TextOperation) :
    Except CollabError (AppliedOperation × CollabDocument) :=
  if ¬IsSafeInteger clientRevision ∨ clientRevision < 0 then
    .error ⟨"invalid_revision", "Revision must be a non-negative integer"⟩
  else if clientRevision > document.revision then
    .error ⟨"invalid_revision", "The client claims a revision the server has not reached"⟩
  else if clientRevision < document.historyBase then
    .error ⟨"revision_too_old", "The client is too far behind to be rebased; resynchronize"⟩
  else do
    let rebased ← rebase operation
      (document.history.drop (clientRevision - document.historyBase).toNat)
    let text ← applyOperation document.text rebased
    let document := document.append text rebased
    return (⟨document.revision, rebased⟩, document)

/-- Everything since `revision` as one operation; `none` outside the window. -/
def since (document : CollabDocument) (revision : Int) :
    Except CollabError (Option TextOperation) :=
  if revision < document.historyBase ∨ revision > document.revision then
    .ok none
  else
    match document.history.drop (revision - document.historyBase).toNat with
    | [] => .ok (some (identityOperation document.text.length))
    | operation :: window => do
      let composed ← window.foldlM composeOperations operation
      return some composed

@[simp] theorem append_text (document : CollabDocument) (text : Text)
    (operation : TextOperation) : (document.append text operation).text = text := rfl

theorem append_revision (document : CollabDocument) (text : Text) (operation : TextOperation) :
    (document.append text operation).revision = document.revision + 1 := by
  simp only [append, revision, List.length_drop, List.length_append, List.length_singleton]
  omega

end CollabDocument

/-! ## CollaborativeClient -/

/-- What to send to the server, and the revision it names. -/
structure Outbound where
  revision : Nat
  operation : TextOperation
  deriving DecidableEq, Repr

/-- What the caller should do after handing an event to the client. -/
structure ClientAction where
  send : Option Outbound := none
  apply : Option TextOperation := none
  deriving DecidableEq, Repr

/-- At most one operation is in flight, and edits are buffered only behind
it. -/
structure CollaborativeClient where
  outstanding : Option TextOperation
  buffer : Option TextOperation
  serverRevision : Nat
  buffered : buffer.isSome → outstanding.isSome
  deriving DecidableEq, Repr

namespace CollaborativeClient

/-- `new CollaborativeClient(revision)`. -/
def new (serverRevision : Nat) : CollaborativeClient :=
  ⟨none, none, serverRevision, by simp⟩

def revision (client : CollaborativeClient) : Nat := client.serverRevision

/-- True when every local edit has been acknowledged by the server. -/
def synchronized (client : CollaborativeClient) : Bool := client.outstanding.isNone

/-- Records an operation the user just performed locally. -/
def applyLocal (client : CollaborativeClient) (operation : TextOperation) :
    Except CollabError (ClientAction × CollaborativeClient) :=
  match client.outstanding, client.buffer with
  | none, _ =>
    .ok ({ send := some ⟨client.serverRevision, operation⟩ },
      ⟨some operation, client.buffer, client.serverRevision, fun _ => rfl⟩)
  | some outstanding, none =>
    .ok ({}, ⟨some outstanding, some operation, client.serverRevision, fun _ => rfl⟩)
  | some outstanding, some buffer => do
    let buffer ← composeOperations buffer operation
    return ({}, ⟨some outstanding, some buffer, client.serverRevision, fun _ => rfl⟩)

/-- Records an operation broadcast by the server that some other client made.
Local work is always the `first` argument, matching what the server does. -/
def applyServer (client : CollaborativeClient) (operation : TextOperation) :
    Except CollabError (ClientAction × CollaborativeClient) :=
  match client.outstanding with
  | none => .ok ({ apply := some operation },
      { client with serverRevision := client.serverRevision + 1 })
  | some outstanding => do
    let (outstandingPrime, remoteAfterOutstanding) ← transformOperations outstanding operation
    match client.buffer with
    | none =>
      return ({ apply := some remoteAfterOutstanding },
        ⟨some outstandingPrime, none, client.serverRevision + 1, fun _ => rfl⟩)
    | some buffer =>
      let (bufferPrime, remoteAfterBuffer) ← transformOperations buffer remoteAfterOutstanding
      return ({ apply := some remoteAfterBuffer },
        ⟨some outstandingPrime, some bufferPrime, client.serverRevision + 1, fun _ => rfl⟩)

/-- Records the server's acknowledgement of the operation in flight. -/
def acknowledge (client : CollaborativeClient) :
    Except CollabError (ClientAction × CollaborativeClient) :=
  match client.outstanding, client.buffer with
  | none, _ =>
    .error ⟨"unexpected_ack", "The server acknowledged an operation that was never sent"⟩
  | some _, none => .ok ({}, ⟨none, none, client.serverRevision + 1, by simp⟩)
  | some _, some buffer =>
    .ok ({ send := some ⟨client.serverRevision + 1, buffer⟩ },
      ⟨some buffer, none, client.serverRevision + 1, by simp⟩)

end CollaborativeClient

end AgenticGit.Collab
