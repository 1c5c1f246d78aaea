import Estuary.Engine.Interleave
import Estuary.Engine.Run
import Estuary.MajorErrors
import Estuary.RoundTrip
import Estuary.Spec.Service
import Estuary.Survive

/-!
# Estuary — what the daemon's workers do to each other's objects

* **`serviceStep_cases`**, **`service_interleaves`** — in every run of the daemon, with any signals,
  aborts and deaths, the bucket is what the workers' entries make of it, one after the other;
* **`process_touches`** — an item touches the object of its own target, and deletes nothing;
* **`bucket_frame`** — so no object ever vanishes, and one that is nobody's target stays as it is;
* **`own_entries`** — an object that is the target of one worker only is what that worker makes of it
  alone;
* **`remove_object_iff`** — `ct_remove`, which no item gets to, deletes the archived object exactly
  where the prefix is the mount point.
-/

namespace Estuary

open Engine

/-! ## The requests of an item -/

/-- The request is about this object. -/
def Event.about (name : CString) : Event → Prop
  | .putObject object _ _ _ _ => object = name
  | .uploadPart object _ _ _ _ _ _ => object = name
  | .completeMultipart object _ _ _ _ _ => object = name
  | .deleteObject object _ => object = name
  | _ => False

def Event.isDelete : Event → Bool
  | .deleteObject _ _ => true
  | _ => false

/-- The object an item may write. -/
def Job.target (cfg : Config) (job : Job) : Option CString :=
  if job.hai.action = .archive then
    objectName cfg job.env.archive.stack (pathGiven cfg job.env).read
  else none

/-- The entry is no delete request, and about no object but the item's target. -/
def Touches (cfg : Config) (job : Job) (e : Event) : Prop :=
  e.isDelete = false ∧ ∀ name, e.about name → job.target cfg = some name

/-- What one object looks like, with the parts of its uploads. -/
def Store.at (store : Store) (name : CString) :
    Option (List UInt8) × (CString → Nat → Option (List UInt8)) :=
  (store.objects name, store.parts name)

section Requests

variable {listed : List Char → List Nat} {store store' : Store} {name : CString} {e : Event}

theorem Event.ArchiveOf.about_eq {object : CString} (h : e.ArchiveOf object)
    (habout : e.about name) : name = object := by
  cases e with
  | putObject | uploadPart | completeMultipart => exact habout.symm.trans h
  | deleteObject => cases h
  | _ => cases habout

theorem Event.ArchiveOf.not_delete {object : CString} (h : e.ArchiveOf object) :
    e.isDelete = false := by
  cases e with
  | deleteObject => cases h
  | _ => rfl

/-- A request about another object. -/
theorem Store.act_at_other (h : ¬ e.about name) (store : Store) :
    (store.act listed e).at name = store.at name := by
  unfold Store.at
  cases e with
  | putObject object length body status stored =>
    have hne : name ≠ object := fun heq => h heq.symm
    cases stored with
    | true => exact congrArg (·, store.parts name) (Function.update_of_ne hne _ _)
    | false => rfl
  | uploadPart object uploadId seq length body status stored =>
    have hne : name ≠ object := fun heq => h heq.symm
    cases stored with
    | true => exact congrArg (store.objects name, ·) (Function.update_of_ne hne _ _)
    | false => rfl
  | completeMultipart object uploadId length body status stored =>
    have hne : name ≠ object := fun heq => h heq.symm
    cases stored with
    | true => exact congrArg (·, store.parts name) (Function.update_of_ne hne _ _)
    | false => rfl
  | deleteObject object status =>
    have hne : name ≠ object := fun heq => h heq.symm
    simp only [Store.act]
    split
    · exact congrArg (·, store.parts name) (Function.update_of_ne hne _ _)
    · rfl
  | _ => rfl

/-- Only a delete request takes an object away. -/
theorem Store.act_keeps (h : e.isDelete = false) (hsome : (store.objects name).isSome) :
    ((store.act listed e).objects name).isSome := by
  by_cases habout : e.about name
  swap
  · have heq : (store.act listed e).objects name = store.objects name :=
      congrArg Prod.fst (Store.act_at_other habout store)
    rw [heq]
    exact hsome
  cases e with
  | putObject object length body status stored =>
    obtain rfl : object = name := habout
    cases stored with
    | true =>
      show (Function.update store.objects object (some body) object).isSome
      rw [Function.update_self]
      rfl
    | false => exact hsome
  | uploadPart object uploadId seq length body status stored =>
    cases stored with
    | true => exact hsome
    | false => exact hsome
  | completeMultipart object uploadId length body status stored =>
    obtain rfl : object = name := habout
    cases stored with
    | true =>
      show (Function.update store.objects object (some _) object).isSome
      rw [Function.update_self]
      rfl
    | false => exact hsome
  | deleteObject => cases h
  | _ => exact hsome

end Requests

/-! ## What an item does -/

section Item

variable {cfg : Config} {lib : LibS3} {job : Job} {p : Event → Prop}

/-- What holds of the entries of the item's operation, and of those around it, holds of them all. -/
theorem logs_process (hlook : ∀ err, p (.fid2path err)) (hhanded : ∀ action path, p (.handed action path))
    (hdone : ∀ env hcp retry rc, (ctActionDone env hcp retry rc).Logs p)
    (harchive : job.hai.action = .archive →
      (ctArchive cfg lib job.env.archive job.hai (pathGiven cfg job.env).read).Logs p)
    (hrestore : job.hai.action = .restore →
      (ctRestore cfg lib job.env.restore job.hai (pathGiven cfg job.env).read).Logs p) :
    (job.process cfg lib).Logs p := by
  have hdispatch : ∀ file, pathGiven cfg job.env = file →
      (job.hai.action = .archive ∨ job.hai.action = .restore) →
      (dispatchAction cfg lib job.env job.hai file).Logs p := by
    rintro _ rfl haction
    unfold dispatchAction
    rcases haction with haction | haction
    · rw [haction]
      exact (Exec.logs_emit (hhanded _ _)).bind fun _ _ => harchive haction
    · rw [haction]
      exact (Exec.logs_emit (hhanded _ _)).bind fun _ _ => hrestore haction
  unfold Job.process ctProcessItem
  split
  · exact (hdone _ _ _ _).bind fun _ _ => Exec.logs_pure _ _
  · next haction =>
    have haction' : job.hai.action = .archive ∨ job.hai.action = .restore := by
      by_contra hno
      exact haction (not_or.mp hno)
    split
    · next hverbose =>
      refine (Exec.logs_emit (hlook _)).bind fun _ _ => Exec.logs_ite (Exec.logs_pure _ _) ?_
      exact hdispatch _ (if_pos hverbose) haction'
    · next hquiet => exact hdispatch _ (if_neg hquiet) haction'

/-- **An item touches** the object of its own target, and deletes nothing. -/
theorem process_touches (cfg : Config) (lib : LibS3) (job : Job) :
    (job.process cfg lib).Logs (Touches cfg job) := by
  have hidle : ∀ e : Event, e.isDelete = false → (∀ name, ¬ e.about name) → Touches cfg job e :=
    fun e hdelete habout => ⟨hdelete, fun name h => (habout name h).elim⟩
  have hbegin : ∀ isError err, Touches cfg job (.actionBegin isError err) :=
    fun _ _ => hidle _ rfl fun _ => id
  have hdone : ∀ env hcp retry rc, (ctActionDone env hcp retry rc).Logs (Touches cfg job) :=
    fun env hcp retry rc => logs_ctActionDone (hidle _ rfl fun _ => id) hbegin
      (fun _ _ _ => hidle _ rfl fun _ => id) env hcp retry
  refine logs_process (fun _ => hidle _ rfl fun _ => id) (fun _ _ => hidle _ rfl fun _ => id) hdone
    (fun haction => ?_) (fun haction => ?_)
  · have htarget : job.target cfg
        = objectName cfg job.env.archive.stack (pathGiven cfg job.env).read := if_pos haction
    refine (logs_msgResend _ _ (hbegin false) _ _).bind fun _ _ => Exec.Logs.bind ?_ fun _ _ =>
      (Exec.logs_emit (hidle _ rfl fun _ => id)).bind fun _ _ =>
        (hdone _ _ _ _).bind fun _ _ => Exec.logs_pure _ _
    -- the early returns, and the two upload paths
    unfold ctArchiveBody
    refine Exec.logs_ite (Exec.logs_pure _ _) ?_
    refine Exec.logs_ite (Exec.logs_pure _ _) (Exec.logs_ite (Exec.logs_pure _ _) ?_)
    refine (logs_ctArchiveCheck _ _ _).bind fun _ _ => ?_
    refine Exec.logs_ite (Exec.logs_pure _ _) (Exec.logs_ite (Exec.logs_pure _ _) ?_)
    refine (logs_fullPathTarget _ _ _ _).bind fun found hfound => ?_
    have hname := (fullPathTarget_done hfound).2
    cases found with
    | none => exact Exec.logs_pure _ _
    | some object =>
      have hown : ∀ e : Event, e.ArchiveOf object → Touches cfg job e := fun e he =>
        ⟨he.not_delete, fun name habout => by rw [htarget, hname, he.about_eq habout]⟩
      refine Exec.logs_ite ?_ ?_
      · refine ((archiveOf_ctArchiveDataBig _ _ _ _ _ _ _).mono hown).bind fun _ _ => ?_
        exact (Exec.logs_emit (hidle _ rfl fun _ => id)).bind fun _ _ => Exec.logs_pure _ _
      · refine ((archiveOf_ctArchiveData _ _ _ _ _).mono hown).bind fun _ _ => ?_
        exact (Exec.logs_emit (hidle _ rfl fun _ => id)).bind fun _ _ => Exec.logs_pure _ _
  · unfold ctRestore
    refine Exec.logs_ite (Exec.logs_pure _ _) ?_
    refine (logs_msgResend _ _ (hbegin false) _ _).bind fun _ _ => Exec.Logs.bind ?_ fun _ _ =>
      (hdone _ _ _ _).bind fun _ _ => Exec.logs_pure _ _
    refine (downloads_ctRestoreBody _ _ _ _ _ _).mono fun e he => ?_
    refine hidle e ?_ fun name habout => ?_
    · cases e with
      | deleteObject => cases he
      | _ => rfl
    · cases e with
      | putObject | uploadPart | completeMultipart | deleteObject => cases he
      | _ => cases habout

end Item

/-! ## Runs of the daemon -/

section Service

variable {cfg : Config} {lib : LibS3} {jobs : Nat → Job} {maxRequests : Nat}
  {listed : List Char → List Nat} {s t : Service} {store₀ : Store} {acts : List CrewAct}

theorem carried_set {logs : List (List Event)} {d d' : Daemon} {i : Nat} {l : List Event}
    (hl : logs[i]? = some l) (e : Event) :
    (⟨d', logs.set i (l ++ [e])⟩ : Crew).carried
      = Function.update (⟨d, logs⟩ : Crew).carried i ((⟨d, logs⟩ : Crew).carried i ++ [e]) := by
  have hi : i < logs.length := (List.getElem?_eq_some_iff.mp hl).1
  have hcarried : (⟨d, logs⟩ : Crew).carried i = l := by rw [Crew.carried, hl, Option.getD_some]
  funext j
  by_cases hji : j = i
  · subst hji
    rw [Function.update_self, hcarried, Crew.carried, List.getElem?_set_self hi, Option.getD_some]
  · rw [Function.update_of_ne hji, Crew.carried, Crew.carried, List.getElem?_set_ne (Ne.symm hji)]

theorem carried_hire (logs : List (List Event)) (d d' : Daemon) :
    (hire logs d').carried = (⟨d, logs⟩ : Crew).carried := by
  funext i
  unfold Crew.carried hire
  rw [List.getElem?_append]
  split
  · rfl
  · next hlong =>
    rw [List.getElem?_eq_none (Nat.le_of_not_lt hlong), Option.getD_none]
    cases hnew : (List.replicate (d'.workers.length - logs.length) ([] : List Event))[i
        - logs.length]? with
    | none => rfl
    | some l => rw [List.eq_of_mem_replicate (List.mem_of_getElem? hnew), Option.getD_some]

/-- **What a step does to the bucket**: a worker carries out its next entry, or nothing happens. -/
theorem serviceStep_cases {a : CrewAct}
    (h : serviceStep cfg lib jobs maxRequests listed s a = some t) :
    (∃ i e, ((jobs i).process cfg lib).log[(s.crew.carried i).length]? = some e
        ∧ t.crew.carried = Function.update s.crew.carried i (s.crew.carried i ++ [e])
        ∧ t.store = s.store.act listed e)
      ∨ (t.crew.carried = s.crew.carried ∧ t.store = s.store) := by
  obtain ⟨crew, hcrew, rfl⟩ := Option.map_eq_some_iff.mp h
  cases a with
  | other a =>
    right
    refine ⟨?_, rfl⟩
    have hhire : ∃ d, Estuary.hire s.crew.logs d = crew := by
      cases a with
      | majorError i => cases hcrew
      | finish i => cases hcrew
      | _ =>
        obtain ⟨d, -, hd⟩ := Option.map_eq_some_iff.mp hcrew
        exact ⟨d, hd⟩
    obtain ⟨d, rfl⟩ := hhire
    exact carried_hire _ _ _
  | work i =>
    simp only [crewStep] at hcrew
    cases hl : s.crew.logs[i]? with
    | none => simp [hl] at hcrew
    | some l =>
      simp only [hl] at hcrew
      have hcarried : s.crew.carried i = l := by rw [Crew.carried, hl, Option.getD_some]
      cases he : ((jobs i).process cfg lib).log[l.length]? with
      | some e =>
        simp only [he] at hcrew
        left
        have hstore : (nextEntry cfg lib jobs s.crew (.work i)).elim s.store (s.store.act listed)
            = s.store.act listed e := by
          simp only [nextEntry, hl, Option.bind_some, he, Option.elim_some]
        refine ⟨i, e, by rw [hcarried]; exact he, ?_, hstore⟩
        split at hcrew
        · obtain ⟨d, -, rfl⟩ := Option.map_eq_some_iff.mp hcrew
          exact carried_set hl e
        · split at hcrew <;> cases hcrew
          exact carried_set hl e
      | none =>
        simp only [he] at hcrew
        right
        have hstore : (nextEntry cfg lib jobs s.crew (.work i)).elim s.store (s.store.act listed)
            = s.store := by
          simp only [nextEntry, hl, Option.bind_some, he, Option.elim_none]
        refine ⟨?_, hstore⟩
        split at hcrew
        · obtain ⟨d, -, rfl⟩ := Option.map_eq_some_iff.mp hcrew
          rfl
        · split at hcrew <;> cases hcrew
          rfl
        · cases hcrew

/-- The daemon, started over this bucket. -/
def Service.init (maxRequests : Nat) (store : Store) : Service := ⟨.init maxRequests, store⟩

/-- What holds all along: the workers carry out their items' entries in order, and the bucket is what
these make of it. -/
structure Serves (cfg : Config) (lib : LibS3) (jobs : Nat → Job) (listed : List Char → List Nat)
    (store₀ : Store) (s : Service) : Prop where
  begun : ∀ i, s.crew.carried i <+: ((jobs i).process cfg lib).log
  interleaves : Interleaves (Store.act listed) store₀ s.crew.carried s.store

theorem Serves.step (s : Service) (a : CrewAct) (t : Service)
    (h : Serves cfg lib jobs listed store₀ s)
    (hstep : serviceStep cfg lib jobs maxRequests listed s a = some t) :
    Serves cfg lib jobs listed store₀ t := by
  rcases serviceStep_cases hstep with ⟨i, e, he, hcarried, hstore⟩ | ⟨hcarried, hstore⟩
  · refine ⟨fun j => ?_, ?_⟩
    · rw [hcarried]
      by_cases hji : j = i
      · rw [hji, Function.update_self]
        exact prefix_concat (h.begun i) he
      · rw [Function.update_of_ne hji]
        exact h.begun j
    · rw [hcarried, hstore]
      exact h.interleaves.carry i e
  · exact ⟨by rw [hcarried]; exact h.begun, by rw [hcarried, hstore]; exact h.interleaves⟩

theorem Serves.init (maxRequests : Nat) (store₀ : Store) :
    Serves cfg lib jobs listed store₀ (.init maxRequests store₀) :=
  ⟨fun _ => List.nil_prefix, .start⟩

/-- **The bucket is shared**: every reachable state is an interleaving of the workers' entries. -/
theorem service_interleaves
    (hexec : exec (serviceStep cfg lib jobs maxRequests listed) (.init maxRequests store₀) acts
      = some s) : Serves cfg lib jobs listed store₀ s :=
  (exec_iff_run.mp hexec).invariant (fun s a t hI _ hstep => hI.step s a t hstep)
    (Serves.init maxRequests store₀)

theorem Serves.touches (h : Serves cfg lib jobs listed store₀ s) {i : Nat} {e : Event}
    (he : e ∈ s.crew.carried i) : Touches cfg (jobs i) e :=
  process_touches cfg lib (jobs i) e ((h.begun i).subset he)

end Service

/-- **The bucket's frame.** In every run of the daemon, whatever is asked of it, an object that is no
archive's target is what it was, and no object ever vanishes. -/
theorem bucket_frame (cfg : Config) (lib : LibS3) (jobs : Nat → Job) (maxRequests : Nat)
    (listed : List Char → List Nat) (store₀ : Store) {acts : List CrewAct} {s : Service}
    (hexec : exec (serviceStep cfg lib jobs maxRequests listed) (.init maxRequests store₀) acts
      = some s) (name : CString) :
    ((∀ i, (jobs i).target cfg ≠ some name) → s.store.objects name = store₀.objects name)
      ∧ ((store₀.objects name).isSome → (s.store.objects name).isSome) := by
  have h := service_interleaves hexec
  refine ⟨fun hnone => ?_, fun hsome => ?_⟩
  · refine h.interleaves.invariant (I := fun store => store.objects name = store₀.objects name)
      (fun i e he store hstore => ?_) rfl
    have hframe : (store.act listed e).at name = store.at name :=
      Store.act_at_other (fun habout => hnone i ((h.touches he).2 name habout)) store
    exact (congrArg Prod.fst hframe).trans hstore
  · exact h.interleaves.invariant (I := fun store => (store.objects name).isSome)
      (fun i e he _ hstore => Store.act_keeps (h.touches he).1 hstore) hsome

/-- While a file is archived, the object next to its own stays. -/
theorem bucket_frame_smooth : ∃ s,
    exec (serviceStep (.setup (cstr ['/', 'l']) (cstr ['/', 'l'])) .upstream
        (fun _ => smoothJob .archive) 1 partNumbers)
      (.init 1 (Store.empty.setObject (cstr ['g']) (some [3]))) (oneItem 3) = some s
    ∧ s.store.objects (cstr ['g']) = some [3] := by
  have hexec : ((exec (serviceStep (.setup (cstr ['/', 'l']) (cstr ['/', 'l'])) .upstream
      (fun _ => smoothJob .archive) 1 partNumbers)
      (.init 1 (Store.empty.setObject (cstr ['g']) (some [3]))) (oneItem 3)).map
        fun s => s.crew.daemon)
      = some ⟨1, false, 1, .recv, false, [⟨true, false⟩], false⟩ := by decide +kernel
  obtain ⟨s, hs, -⟩ := Option.map_eq_some_iff.mp hexec
  exact ⟨s, hs, (bucket_frame _ _ _ 1 _ _ hs (cstr ['g'])).1 fun _ => by decide +kernel⟩

/-! ## Removing -/

/-- The delete requests end with the first answer that is not retryable; `S3StatusOK` is one. -/
theorem deleteLoop_effect {lib : LibS3} {listed : List Char → List Nat} {deletes : Nat → Nat}
    (name : CString) {budget i k : Nat} (hik : i ≤ k) (hk : k ≤ i + budget)
    (hok : deletes k = s3StatusOK)
    (hretried : ∀ j, i ≤ j → j < k → lib.statusIsRetryable (deletes j) = true) (store : Store) :
    (deleteLoop lib name deletes budget i).effect (Store.act listed) store
      = store.setObject name none := by
  induction budget generalizing i with
  | zero =>
    obtain rfl : i = k := by omega
    rw [deleteLoop, hok, lib.ok_not_retryable]
    rfl
  | succ budget ih =>
    by_cases hlast : i = k
    · subst hlast
      rw [deleteLoop, hok, lib.ok_not_retryable]
      rfl
    · have hagain := hretried i (Nat.le_refl i) (by omega)
      have hne : deletes i ≠ s3StatusOK := by
        intro hbad
        rw [hbad, lib.ok_not_retryable] at hagain
        cases hagain
      have heffect := ih (i := i + 1) (by omega) (by omega)
        fun j hj hjk => hretried j (by omega) hjk
      rw [deleteLoop, hagain]
      have hstill : store.act listed (.deleteObject name (deletes i)) = store := if_neg hne
      show (deleteLoop lib name deletes budget (i + 1)).effect (Store.act listed)
        (store.act listed (.deleteObject name (deletes i))) = _
      rw [hstill]
      exact heffect

/-- The name of a file's object is its path exactly where the prefix is the mount point. -/
theorem below_path_iff {pathPrefix mnt filePath rel : CString}
    (h : Below pathPrefix (joinPath mnt filePath) rel) : rel = filePath ↔ pathPrefix = mnt := by
  have hpath : mnt.chars ++ '/' :: filePath.chars = pathPrefix.chars ++ '/' :: rel.chars := h.2
  have heq : ∀ {a b : CString}, a.chars = b.chars → a = b := by
    rintro ⟨a, ha⟩ ⟨b, hb⟩ hab
    obtain rfl : a = b := hab
    rfl
  constructor
  · rintro rfl
    exact heq (List.append_cancel_right hpath).symm
  · rintro rfl
    have hrest := List.append_cancel_left hpath
    rw [List.cons.injEq] at hrest
    exact heq hrest.2.symm

/-- **What `ct_remove` would remove.** It deletes the object called like the file's path, and so the
one that an archive has stored for it only where the prefix is the mount point. -/
theorem remove_object_iff (cfg : Config) (lib : LibS3) (listed : List Char → List Nat)
    (store : Store) (hdry : cfg.oDryRun = false) {filePath rel : CString}
    (hbelow : Below cfg.pathPrefix (joinPath cfg.oMnt filePath) rel)
    (hstored : (store.objects rel).isSome) {env : RemoveEnv} (hbegin : beginErr env.beginRcs = 0)
    {k : Nat} (hk : k ≤ retryCount) (hok : env.deletes k = s3StatusOK)
    (hretried : ∀ j < k, lib.statusIsRetryable (env.deletes j) = true) :
    ((ctRemove cfg lib env filePath).effect (Store.act listed) store).objects rel = none
      ↔ cfg.pathPrefix = cfg.oMnt := by
  have hbody : ctRemoveBody cfg lib env filePath (beginErr env.beginRcs)
      = (deleteLoop lib filePath env.deletes retryCount 0 >>= fun status =>
          if status ≠ s3StatusOK then pure (-(eio : Int)) else pure 0) := by
    rw [ctRemoveBody, hbegin, hdry]
    rfl
  -- the coordinator's calls leave the bucket alone
  have hbegins : (ctBeginRestore env.beginRcs).Logs fun e =>
      ∀ store : Store, store.act listed e = store := logs_msgResend _ _ (fun _ _ => rfl) _ _
  have hdone : ∀ rc : Int, ((do
      let rcDone ← ctActionDone env.done (beginErr env.beginRcs == 0) false rc
      pure (cOr rc rcDone)) : Proc Int).Logs fun e => ∀ store : Store, store.act listed e = store :=
    fun rc => (logs_ctActionDone (fun _ => rfl) (fun _ _ _ => rfl) (fun _ _ _ _ => rfl)
      _ _ _).bind fun _ _ => Exec.logs_pure _ _
  have hremoved : (ctRemove cfg lib env filePath).effect (Store.act listed) store
      = store.setObject filePath none := by
    have hfirst : (ctBeginRestore env.beginRcs).out = .done (beginErr env.beginRcs) :=
      beginEx_out false env.beginRcs
    rw [ctRemove, Exec.effect_bind_of_done _ hfirst, Exec.effect_of_logs _ hbegins,
      Exec.effect_bind_of_frame _ hdone, hbody, Exec.effect_bind_of_frame _ fun status =>
        Exec.logs_ite (Exec.logs_pure _ _) (Exec.logs_pure _ _)]
    exact deleteLoop_effect filePath (Nat.zero_le k) (by omega) hok
      (fun j _ hj => hretried j hj) store
  rw [hremoved, ← below_path_iff hbelow]
  constructor
  · intro hnone
    by_contra hne
    rw [show (store.setObject filePath none).objects rel = store.objects rel from
      Function.update_of_ne hne _ _] at hnone
    rw [hnone] at hstored
    cases hstored
  · rintro rfl
    exact Function.update_self _ _ _

theorem remove_object_iff_smooth :
    ((ctRemove (.setup (cstr ['/', 'l']) (cstr ['/', 'l'])) .upstream
        ⟨fun _ => 0, fun _ => s3StatusOK, .smooth⟩ (cstr ['f'])).effect (Store.act partNumbers)
      (Store.empty.setObject (cstr ['f']) (some [1]))).objects (cstr ['f']) = none := by
  have hbelow : Below (cstr ['/', 'l']) (joinPath (cstr ['/', 'l']) (cstr ['f'])) (cstr ['f']) :=
    ⟨by decide, rfl⟩
  exact (remove_object_iff (.setup (cstr ['/', 'l']) (cstr ['/', 'l'])) .upstream partNumbers
    (Store.empty.setObject (cstr ['f']) (some [1])) rfl hbelow (by decide) rfl (Nat.zero_le _) rfl
    (fun j hj => absurd hj (Nat.not_lt_zero j))).mpr rfl

end Estuary
