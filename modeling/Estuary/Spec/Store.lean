import Estuary.Spec.Event
import Mathlib.Logic.Function.Basic

/-!
# Estuary — the bucket

What S3 makes of the requests in a log. A request leaves something behind when its entry says
that the server kept the body (`stored`), whatever status came back: an answer can get lost. A
completed upload becomes the concatenation of the parts its document lists, so the server's
reading of the document (`listed`) is a parameter.

`Event.Honest` is what S3 promises the copytool about one request: a put or a part that it
acknowledges has arrived whole and is kept; a commit takes its whole body and is carried out.
-/

namespace Estuary

/-- The objects of the bucket, and the parts of uploads by object name, upload id and number. -/
structure Store where
  objects : CString → Option (List UInt8)
  parts : CString → CString → Nat → Option (List UInt8)

/-- A bucket without objects and uploads. -/
def Store.empty : Store := ⟨fun _ => none, fun _ _ _ => none⟩

/-- Store an object. -/
def Store.setObject (store : Store) (name : CString) (object : Option (List UInt8)) : Store :=
  { store with objects := Function.update store.objects name object }

/-- Store a part. -/
def Store.setPart (store : Store) (name uploadId : CString) (seq : Nat) (body : List UInt8) :
    Store :=
  { store with
    parts := Function.update store.parts name (Function.update (store.parts name) uploadId
      (Function.update (store.parts name uploadId) seq (some body))) }

/-- The parts with these numbers, one behind the other. -/
def Store.assemble (store : Store) (name uploadId : CString) (numbers : List Nat) : List UInt8 :=
  numbers.flatMap fun seq => (store.parts name uploadId seq).getD []

/-- What S3 makes of an entry of the log; `listed` reads the part numbers off a commit document. -/
def Store.act (listed : List Char → List Nat) (store : Store) : Event → Store
  | .putObject name _ body _ true => store.setObject name (some body)
  | .uploadPart name uploadId seq _ body _ true => store.setPart name uploadId seq body
  | .completeMultipart name uploadId _ body _ true =>
    store.setObject name (some (store.assemble name uploadId (listed body)))
  | .deleteObject name status => if status = s3StatusOK then store.setObject name none else store
  | _ => store

/-- What S3 promises about a request: an acknowledged put or part has its declared length and is
kept; a commit takes its whole body and is carried out. -/
def Event.Honest : Event → Prop
  | .putObject _ length body status stored =>
    status = s3StatusOK → stored = true ∧ body.length = length
  | .uploadPart _ _ _ length body status stored =>
    status = s3StatusOK → stored = true ∧ body.length = length
  | .completeMultipart _ _ length body _ stored => stored = true ∧ body.length = length
  | _ => True

end Estuary
