import Estuary.Engine.Run
import Estuary.RoundTrip

/-!
# Estuary — files that are renamed

The coordinator names a file by its FID, the bucket by the path the FID has at the moment of each
operation. A `World` keeps both views side by side: where the files are and what they hold, the
bucket, and two records of the archives that returned 0, one by FID and one by object name.

* **`World.act`**, **`Admissible`** — the operations: archive, restore, rename, exchange, and writes
  to a file;
* **`Agrees`** — the invariant: an object that was archived under a name and not put in doubt since
  is in the bucket, and the two records agree where they speak of the same archive;
* **`restore_delivers`** — over every run: a restore delivers what was archived last under the name
  of the current path, and the file's own latest archive where the two are the same;
* **`swap_restores_other_file`** — after two files have changed places they are not.
-/

namespace Estuary

open Engine

/-- The files, the bucket, and what has been archived. `archived` records the last archive of a FID
that returned 0, `latest` the last one under a name; an archive that failed leaves the object in
doubt. -/
structure World where
  path : LuFid → CString
  content : LuFid → List UInt8
  store : Store
  archived : LuFid → Option (CString × List UInt8)
  latest : CString → Option (LuFid × List UInt8)

/-- Nothing has been archived. -/
def World.initial (path : LuFid → CString) (content : LuFid → List UInt8) (store : Store) : World :=
  ⟨path, content, store, fun _ => none, fun _ => none⟩

/-- Operations on the files. -/
inductive FileOp where
  | archive (fid : LuFid) (env : ArchiveEnv) (hai : HsmActionItem)
  | restore (fid : LuFid) (env : RestoreDataEnv) (hai : HsmActionItem)
  | rename (fid : LuFid) (path : CString)
  -- `renameat2(RENAME_EXCHANGE)`
  | exchange (fid fid' : LuFid)
  | write (fid : LuFid) (content : List UInt8)

section Operations

variable (cfg : Config) (lib : LibS3) (server : S3Server)

/-- The bucket and the records after an archive of `fid` under the name `rel`. -/
def World.archive (w : World) (fid : LuFid) (env : ArchiveEnv) (hai : HsmActionItem)
    (rel : CString) : World :=
  let run := archiveDataPhase cfg lib env hai (w.path fid)
  let store := run.effect (Store.act server.listed) w.store
  if run.out = .done 0 then
    { w with
      store := store
      archived := Function.update w.archived fid (some (rel, env.content))
      latest := Function.update w.latest rel (some (fid, env.content)) }
  else { w with store := store, latest := Function.update w.latest rel none }

/-- The file a restore leaves behind. -/
def World.restored (w : World) (fid : LuFid) (env : RestoreDataEnv) (hai : HsmActionItem) :
    List UInt8 :=
  (ctRestoreData cfg lib env hai (w.path fid)).effect fileAct []

/-- One operation. `llapi_fid2path` answers with the path the FID has now; a path without an object
name is not archived. -/
def World.act (w : World) : FileOp → World
  | .archive fid env hai =>
    match objectName cfg env.stack (w.path fid) with
    | none => w
    | some rel => w.archive cfg lib server fid env hai rel
  | .restore fid env hai =>
    { w with content := Function.update w.content fid (w.restored cfg lib fid env hai) }
  | .rename fid path => { w with path := Function.update w.path fid path }
  | .exchange fid fid' =>
    { w with
      path := Function.update (Function.update w.path fid (w.path fid')) fid' (w.path fid) }
  | .write fid content => { w with content := Function.update w.content fid content }

/-- S3 answers the range requests of a restore from the object in the bucket. -/
def ServedBy (w : World) (fid : LuFid) (env : RestoreDataEnv) : Prop :=
  ∀ rel obj, objectName cfg env.stack (w.path fid) = some rel → w.store.objects rel = some obj →
    ServedFrom lib obj env.gets 0

/-- What is assumed of an operation: an archive is sound and reads the file, a restore is served
from the bucket. -/
def Admissible (w : World) : FileOp → Prop
  | .archive fid env hai => SoundArchive cfg lib env hai (w.path fid) ∧ env.content = w.content fid
  | .restore fid env _ => ServedBy cfg lib w fid env
  | _ => True

/-- A sequence of operations. -/
abbrev World.Runs : World → List FileOp → World → Prop :=
  Run (fun w op => some (w.act cfg lib server op)) (Admissible cfg lib)

end Operations

/-! ## The two records and the bucket -/

/-- What was archived last under a name is in the bucket; and if it was this file's last archive,
the records have the same content for it. -/
structure Agrees (w : World) : Prop where
  stored : ∀ rel fid c, w.latest rel = some (fid, c) → w.store.objects rel = some c
  same : ∀ rel fid c c', w.latest rel = some (fid, c) → w.archived fid = some (rel, c') → c' = c

section Runs

variable {cfg : Config} {lib : LibS3} {server : S3Server} {w : World}

theorem runs_cons {w' w'' : World} {op : FileOp} {ops : List FileOp}
    (hact : w.act cfg lib server op = w') (hop : Admissible cfg lib w op)
    (rest : World.Runs cfg lib server w' ops w'') : World.Runs cfg lib server w (op :: ops) w'' :=
  .cons (congrArg some hact) hop rest

theorem Agrees.archive {fid : LuFid} {env : ArchiveEnv} {hai : HsmActionItem} {rel : CString}
    (h : Agrees w) (hname : objectName cfg env.stack (w.path fid) = some rel)
    (hsound : SoundArchive cfg lib env hai (w.path fid)) :
    Agrees (w.archive cfg lib server fid env hai rel) := by
  have hother : ∀ rel' fid' c, rel' ≠ rel → w.latest rel' = some (fid', c) →
      ((archiveDataPhase cfg lib env hai (w.path fid)).effect (Store.act server.listed)
        w.store).objects rel' = some c := by
    intro rel' fid' c hne hlatest
    rw [archiveDataPhase_other hname hne]
    exact h.stored rel' fid' c hlatest
  unfold World.archive
  by_cases hzero : (archiveDataPhase cfg lib env hai (w.path fid)).out = .done 0
  · rw [if_pos hzero]
    refine ⟨fun rel' fid' c hlatest => ?_, fun rel' fid' c c' hlatest harchived => ?_⟩
    · simp only at hlatest ⊢
      -- the name just written holds the new content; the other objects are untouched
      by_cases hrel : rel' = rel
      · subst hrel
        rw [Function.update_self] at hlatest
        cases hlatest
        exact archiveDataPhase_stores server hname hsound hzero w.store
      · rw [Function.update_of_ne hrel] at hlatest
        exact hother rel' fid' c hrel hlatest
    · simp only at hlatest harchived
      by_cases hrel : rel' = rel
      · subst hrel
        rw [Function.update_self] at hlatest
        cases hlatest
        rw [Function.update_self] at harchived
        cases harchived
        rfl
      · rw [Function.update_of_ne hrel] at hlatest
        -- a file whose last archive went elsewhere no longer answers for this name
        by_cases hfid : fid' = fid
        · subst hfid
          rw [Function.update_self] at harchived
          cases harchived
          exact absurd rfl hrel
        · rw [Function.update_of_ne hfid] at harchived
          exact h.same rel' fid' c c' hlatest harchived
  · -- the object under this name is in doubt, the others are as they were
    rw [if_neg hzero]
    have hlatest' : ∀ rel' fid' c, Function.update w.latest rel none rel' = some (fid', c) →
        rel' ≠ rel ∧ w.latest rel' = some (fid', c) := by
      intro rel' fid' c hlatest
      by_cases hrel : rel' = rel
      · rw [hrel, Function.update_self] at hlatest
        cases hlatest
      · rw [Function.update_of_ne hrel] at hlatest
        exact ⟨hrel, hlatest⟩
    refine ⟨fun rel' fid' c hlatest => ?_, fun rel' fid' c c' hlatest harchived => ?_⟩
    · obtain ⟨hrel, hlatest⟩ := hlatest' rel' fid' c hlatest
      exact hother rel' fid' c hrel hlatest
    · exact h.same rel' fid' c c' (hlatest' rel' fid' c hlatest).2 harchived

theorem Agrees.act {op : FileOp} (h : Agrees w) (hop : Admissible cfg lib w op) :
    Agrees (w.act cfg lib server op) := by
  cases op with
  | archive fid env hai =>
    rw [World.act]
    cases hname : objectName cfg env.stack (w.path fid) with
    | none => exact h
    | some rel => exact h.archive hname hop.1
  | restore | rename | exchange | write => exact ⟨h.stored, h.same⟩

theorem agrees_of_runs {path : LuFid → CString} {content : LuFid → List UInt8} {store : Store}
    {ops : List FileOp} (hrun : World.Runs cfg lib server (.initial path content store) ops w) :
    Agrees w := by
  refine hrun.invariant (fun w op w' hw hop hstep => ?_) ⟨?_, ?_⟩
  · cases hstep
    exact hw.act hop
  · exact fun _ _ _ h => nomatch h
  · exact fun _ _ _ _ h => nomatch h

/-- A restore delivers the object its name has in the record. -/
theorem Agrees.restored {fid fid' : LuFid} {env : RestoreDataEnv} {hai : HsmActionItem}
    {rel : CString} {c : List UInt8} (h : Agrees w)
    (hname : objectName cfg env.stack (w.path fid) = some rel)
    (hserved : ServedBy cfg lib w fid env)
    (hzero : (ctRestoreData cfg lib env hai (w.path fid)).out = .done 0)
    (hlatest : w.latest rel = some (fid', c)) : w.restored cfg lib fid env hai = c := by
  obtain ⟨⟨data, hget⟩, hfile⟩ := ctRestoreData_file hname hzero
  rw [World.restored, hfile]
  have hobject := h.stored rel fid' c hlatest
  exact ((restore_correct rel (hserved rel c hname hobject)).2 data hget).1

end Runs

/-- **What a restore delivers**, after every run: the content archived last under the name of the
file's current path; and the content archived last for the file itself if that archive was made
under this name and no other one has been made or tried under it since. -/
theorem restore_delivers (cfg : Config) (lib : LibS3) (server : S3Server)
    {path : LuFid → CString} {content : LuFid → List UInt8} {store : Store} {ops : List FileOp}
    {w : World} (hrun : World.Runs cfg lib server (.initial path content store) ops w)
    {fid : LuFid} {env : RestoreDataEnv} {hai : HsmActionItem} {rel : CString}
    (hname : objectName cfg env.stack (w.path fid) = some rel)
    (hserved : ServedBy cfg lib w fid env)
    (hzero : (ctRestoreData cfg lib env hai (w.path fid)).out = .done 0) :
    (∀ fid' c, w.latest rel = some (fid', c) → w.restored cfg lib fid env hai = c)
      ∧ ∀ c c', w.archived fid = some (rel, c) → w.latest rel = some (fid, c') →
        w.restored cfg lib fid env hai = c := by
  have hagrees := agrees_of_runs hrun
  refine ⟨fun fid' c h => hagrees.restored hname hserved hzero h, fun c c' harchived h => ?_⟩
  rw [hagrees.same rel fid c' c h harchived]
  exact hagrees.restored hname hserved hzero h

/-! ## Two files that change places -/

section Swap

/-- The mount point is also the prefix. -/
def swapConfig : Config := .setup (cstr ['/', 'l']) (cstr ['/', 'l'])

/-- Two files of one byte, `f` and `g`. -/
def twoFiles : World :=
  .initial (fun fid => if fid = ⟨1, 3, 0⟩ then cstr ['g'] else cstr ['f'])
    (fun fid => if fid = ⟨1, 3, 0⟩ then [2] else [1]) .empty

theorem below_f :
    Below (cstr ['/', 'l']) (joinPath (cstr ['/', 'l']) (cstr ['f'])) (cstr ['f']) := by
  constructor
  · decide
  · decide

theorem below_g :
    Below (cstr ['/', 'l']) (joinPath (cstr ['/', 'l']) (cstr ['g'])) (cstr ['g']) := by
  constructor
  · decide
  · decide

theorem fits_f : FitsFullPath swapConfig (cstr ['f']) := by decide

theorem fits_g : FitsFullPath swapConfig (cstr ['g']) := by decide

/-- The archive of a short file goes through. -/
theorem act_smooth {w : World} {fid : LuFid} {path : CString} {content : List UInt8}
    (hpath : w.path fid = path) (hbelow : Below (cstr ['/', 'l']) (joinPath (cstr ['/', 'l']) path)
      path) (hfits : FitsFullPath swapConfig path) (hcontent : w.content fid = content)
    (hlen : content.length < maxObjSizeLevel) :
    Admissible swapConfig .upstream w (.archive fid (.smooth content) ⟨.archive, fid, .whole⟩)
      ∧ ∃ w', w.act swapConfig .upstream .reader
          (.archive fid (.smooth content) ⟨.archive, fid, .whole⟩) = w'
        ∧ w'.path = w.path ∧ w'.content = w.content
        ∧ w'.archived = Function.update w.archived fid (some (path, content))
        ∧ w'.latest = Function.update w.latest path (some (fid, content)) := by
  obtain ⟨hsound, hzero⟩ := soundArchive_smooth fid hbelow hfits hlen
  rw [← show swapConfig = .setup (cstr ['/', 'l']) (cstr ['/', 'l']) from rfl] at hsound hzero
  have hname : objectName swapConfig [] path = some path := objectName_below _ hbelow
  subst hpath
  refine ⟨⟨hsound, hcontent.symm⟩, _, rfl, ?_⟩
  rw [World.act, show (ArchiveEnv.smooth content).stack = [] from rfl, hname]
  simp only [World.archive]
  rw [if_pos hzero]
  exact ⟨rfl, rfl, rfl, rfl⟩

/-- A restore in one range, when the bucket has that object. -/
theorem servedBy_smooth {w : World} {fid fid' : LuFid} {rel : CString} {content : List UInt8}
    (h : Agrees w) (hname : objectName swapConfig [] (w.path fid) = some rel)
    (hlatest : w.latest rel = some (fid', content)) (hne : content ≠ [])
    (hlen : content.length ≤ chunkSize) :
    ServedBy swapConfig .upstream w fid (RestoreEnv.smooth content).data := by
  intro rel' obj hname' hobject
  obtain rfl : rel' = rel := Option.some.inj (hname'.symm.trans hname)
  rw [h.stored rel' fid' content hlatest] at hobject
  cases hobject
  exact ⟨honestGet_smooth _ hne hlen, trivial⟩

end Swap

/-- Both files are archived, they change places, and `f`'s FID is restored: it gets what was
archived for the other file. -/
theorem swap_restores_other_file :
    ∃ w, World.Runs swapConfig .upstream .reader twoFiles
        [.archive ⟨1, 2, 0⟩ (.smooth [1]) ⟨.archive, ⟨1, 2, 0⟩, .whole⟩,
          .archive ⟨1, 3, 0⟩ (.smooth [2]) ⟨.archive, ⟨1, 3, 0⟩, .whole⟩,
          .exchange ⟨1, 2, 0⟩ ⟨1, 3, 0⟩] w
      ∧ ServedBy swapConfig .upstream w ⟨1, 2, 0⟩ (RestoreEnv.smooth [2]).data
      ∧ (ctRestoreData swapConfig .upstream (RestoreEnv.smooth [2]).data
        ⟨.restore, ⟨1, 2, 0⟩, .whole⟩ (w.path ⟨1, 2, 0⟩)).out = .done 0
      ∧ w.archived ⟨1, 2, 0⟩ = some (cstr ['f'], [1])
      ∧ w.restored swapConfig .upstream ⟨1, 2, 0⟩ (RestoreEnv.smooth [2]).data
        ⟨.restore, ⟨1, 2, 0⟩, .whole⟩ = [2] := by
  have hlevel : 1 < maxObjSizeLevel := by
    unfold maxObjSizeLevel
    decide
  obtain ⟨hadm₁, w₁, hact₁, hpath₁, hcontent₁, harchived₁, hlatest₁⟩ :=
    @act_smooth twoFiles ⟨1, 2, 0⟩ (cstr ['f']) [1] rfl below_f fits_f rfl hlevel
  obtain ⟨hadm₂, w₂, hact₂, hpath₂, -, harchived₂, hlatest₂⟩ :=
    @act_smooth w₁ ⟨1, 3, 0⟩ (cstr ['g']) [2] (by rw [hpath₁]; rfl) below_g fits_g
      (by rw [hcontent₁]; rfl) hlevel
  obtain ⟨w, hw⟩ : ∃ w, w₂.act swapConfig .upstream .reader (.exchange ⟨1, 2, 0⟩ ⟨1, 3, 0⟩) = w :=
    ⟨_, rfl⟩
  have hrun := runs_cons hact₁ hadm₁ (runs_cons hact₂ hadm₂ (runs_cons hw trivial (.nil _)))
  -- after the exchange the first file has the second one's path
  have hagrees := agrees_of_runs hrun
  have hpath : w.path ⟨1, 2, 0⟩ = cstr ['g'] := by
    rw [← hw, World.act, hpath₂, hpath₁]
    rfl
  have hlatest : w.latest (cstr ['g']) = some (⟨1, 3, 0⟩, [2]) := by
    rw [← hw, World.act, hlatest₂]
    exact Function.update_self _ _ _
  have harchived : w.archived ⟨1, 2, 0⟩ = some (cstr ['f'], [1]) := by
    rw [← hw, World.act, harchived₂, harchived₁]
    rfl
  have hname : objectName swapConfig [] (w.path ⟨1, 2, 0⟩) = some (cstr ['g']) := by
    rw [hpath]
    exact objectName_below _ below_g
  have hserved := servedBy_smooth hagrees hname hlatest (by decide) (Nat.le_of_lt chunkSize_gt)
  have hzero : (ctRestoreData swapConfig .upstream (RestoreEnv.smooth [2]).data
      ⟨.restore, ⟨1, 2, 0⟩, .whole⟩ (w.path ⟨1, 2, 0⟩)).out = .done 0 := by
    rw [hpath]
    exact ctRestoreData_smooth _ below_g fits_g (by decide) chunkSize_gt
  exact ⟨w, hrun, hserved, hzero, harchived, hagrees.restored hname hserved hzero hlatest⟩

/-- A file that was archived, moved to the other's place and archived again there gets its own
content back. -/
theorem restore_delivers_own :
    ∃ w, World.Runs swapConfig .upstream .reader twoFiles
        [.archive ⟨1, 2, 0⟩ (.smooth [1]) ⟨.archive, ⟨1, 2, 0⟩, .whole⟩,
          .exchange ⟨1, 2, 0⟩ ⟨1, 3, 0⟩,
          .archive ⟨1, 2, 0⟩ (.smooth [1]) ⟨.archive, ⟨1, 2, 0⟩, .whole⟩] w
      ∧ w.path ⟨1, 2, 0⟩ = cstr ['g']
      ∧ w.restored swapConfig .upstream ⟨1, 2, 0⟩ (RestoreEnv.smooth [1]).data
        ⟨.restore, ⟨1, 2, 0⟩, .whole⟩ = [1] := by
  have hlevel : 1 < maxObjSizeLevel := by
    unfold maxObjSizeLevel
    decide
  obtain ⟨hadm₁, w₁, hact₁, hpath₁, hcontent₁, -, -⟩ :=
    @act_smooth twoFiles ⟨1, 2, 0⟩ (cstr ['f']) [1] rfl below_f fits_f rfl hlevel
  obtain ⟨w₂, hact₂⟩ : ∃ w₂, w₁.act swapConfig .upstream .reader
      (.exchange ⟨1, 2, 0⟩ ⟨1, 3, 0⟩) = w₂ := ⟨_, rfl⟩
  have hpath₂ : w₂.path ⟨1, 2, 0⟩ = cstr ['g'] := by
    rw [← hact₂, World.act, hpath₁]
    rfl
  have hcontent₂ : w₂.content ⟨1, 2, 0⟩ = [1] := by
    rw [← hact₂, World.act, hcontent₁]
    rfl
  -- the second archive is made under the name the path has now
  obtain ⟨hadm₃, w, hact₃, hpath₃, -, harchived, hlatest⟩ :=
    @act_smooth w₂ ⟨1, 2, 0⟩ (cstr ['g']) [1] hpath₂ below_g fits_g hcontent₂ hlevel
  have hrun := runs_cons hact₁ hadm₁ (runs_cons hact₂ trivial (runs_cons hact₃ hadm₃ (.nil _)))
  have hfile : w.path ⟨1, 2, 0⟩ = cstr ['g'] := by rw [hpath₃, hpath₂]
  have hname : objectName swapConfig [] (w.path ⟨1, 2, 0⟩) = some (cstr ['g']) := by
    rw [hfile]
    exact objectName_below _ below_g
  have hrecord : w.latest (cstr ['g']) = some (⟨1, 2, 0⟩, [1]) := by
    rw [hlatest, Function.update_self]
  have hzero : (ctRestoreData swapConfig .upstream (RestoreEnv.smooth [1]).data
      ⟨.restore, ⟨1, 2, 0⟩, .whole⟩ (w.path ⟨1, 2, 0⟩)).out = .done 0 := by
    rw [hfile]
    exact ctRestoreData_smooth _ below_g fits_g (by decide) chunkSize_gt
  refine ⟨w, hrun, hfile, (restore_delivers swapConfig .upstream .reader hrun hname
    (servedBy_smooth (agrees_of_runs hrun) hname hrecord (by decide) (Nat.le_of_lt chunkSize_gt))
    hzero).2 [1] [1] ?_ hrecord⟩
  rw [harchived, Function.update_self]

end Estuary
