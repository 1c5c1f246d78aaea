import Estuary.Transfer
import Mathlib.Algebra.Order.Floor.Div

/-!
# Estuary — the parts a large file is cut into

`ct_get_chunksize` doubles the chunk until at most 10000 parts are needed. The chunk stops growing
at `CHUNK_SIZE_MAX`, so the loop ends because the parts get few enough before that. For every size
that `ct_archive` admits it stops at 1 GiB or earlier, and a part length survives the detour
through `int partContentLength`.

* **`chunkStep`** — the chunk sizes the loop goes through;
* **`chunksizeLoop_spec`** — it ends on the first of them that is large enough;
* **`ctGetChunksize_spec`** — the plan for an admitted file, whose parts are non-empty and cover it;
* **`partLengths_eq`** — the lengths the loop over the parts computes;
* **`chunk_plan`** — all of it, down to the lengths declared in `S3_upload_part`.
-/

namespace Estuary

open Engine

/-! ## The loop of `ct_get_chunksize` -/

/-- The chunk sizes: `CHUNK_SIZE`, doubled again and again, capped at `CHUNK_SIZE_MAX`. -/
def chunkStep (k : Nat) : Nat := min (chunkSize * 2 ^ k) chunkSizeMax

theorem chunkSize_eq : chunkSize = 2 ^ 24 := by
  unfold chunkSize
  rfl

theorem chunkSizeMax_eq : chunkSizeMax = 5 * 2 ^ 30 := by
  unfold chunkSizeMax
  rfl

theorem chunkStep_zero : chunkStep 0 = chunkSize := by
  rw [chunkStep, chunkSize_eq, chunkSizeMax_eq]
  decide

theorem chunkStep_six : chunkStep 6 = 2 ^ 30 := by
  rw [chunkStep, chunkSize_eq, chunkSizeMax_eq]
  decide

/-- The tenth chunk is the cap. -/
theorem chunkStep_nine : chunkStep 9 = chunkSizeMax := by
  rw [chunkStep, chunkSize_eq, chunkSizeMax_eq]
  decide

theorem chunkStep_pos (k : Nat) : 0 < chunkStep k := by
  have hpow := Nat.two_pow_pos k
  rw [chunkStep, chunkSize_eq, chunkSizeMax_eq]
  omega

theorem chunkStep_le (k : Nat) : chunkStep k ≤ 5 * 2 ^ 30 := by
  rw [chunkStep, chunkSizeMax_eq]
  exact Nat.min_le_right _ _

theorem chunkStep_mono {j k : Nat} (h : j ≤ k) : chunkStep j ≤ chunkStep k := by
  have hpow : 2 ^ j ≤ 2 ^ k := Nat.pow_le_pow_right (by omega) h
  rw [chunkStep, chunkStep, chunkSize_eq]
  omega

theorem nextChunk_step (k : Nat) : nextChunk (chunkStep k) = chunkStep (k + 1) := by
  rw [chunkStep, chunkStep, Nat.pow_succ, ← Nat.mul_assoc]
  simp only [nextChunk]
  by_cases hcap : chunkSize * 2 ^ k < chunkSizeMax
  · rw [Nat.min_eq_left (Nat.le_of_lt hcap), if_pos hcap]
    split <;> omega
  · rw [Nat.min_eq_right (Nat.le_of_not_lt hcap), if_neg (Nat.lt_irrefl _),
      if_neg (Nat.lt_irrefl _)]
    omega

/-- The part count is the rounded-up quotient, as long as the sum does not wrap. -/
theorem partCount_eq {size chunk : Nat} (h : chunk + size - 1 < 2 ^ 64) :
    partCount size chunk = size ⌈/⌉ chunk := by
  unfold partCount
  rw [Nat.mod_eq_of_lt h, Nat.ceilDiv_eq_add_pred_div, Nat.add_comm]

/-- No sum and no doubling wraps. -/
theorem chunkStep_no_wrap {size : Nat} (hsize : size ≤ 10000 * chunkSizeMax) (k : Nat) :
    chunkStep k + size - 1 < 2 ^ 64 ∧ chunkStep k * 2 < 2 ^ 64 := by
  have hle := chunkStep_le k
  rw [chunkSizeMax_eq] at hsize
  omega

/-- **The loop ends** on the first chunk that is large enough, after at most ten tests. -/
theorem chunksizeLoop_spec {size : Nat} (hsize : size ≤ 10000 * chunkSizeMax) (fuel k : Nat)
    (hk : k ≤ 9) (hfuel : 10 ≤ fuel + k) :
    ∃ i, chunksizeLoop size fuel (chunkStep k) = some (chunkStep i, size ⌈/⌉ chunkStep i)
      ∧ size ⌈/⌉ chunkStep i ≤ 10000 ∧ ∀ j, k ≤ j → j < i → 10000 < size ⌈/⌉ chunkStep j := by
  induction fuel generalizing k with
  | zero => omega
  | succ fuel ih =>
    rw [chunksizeLoop, partCount_eq (chunkStep_no_wrap hsize k).1]
    by_cases hcount : size ⌈/⌉ chunkStep k > 10000
    · -- the cap is large enough, so this is not the cap
      have hlt : k < 9 := by
        rcases Nat.lt_or_ge k 9 with h | h
        · exact h
        · have hcap : size ⌈/⌉ chunkStep 9 ≤ 10000 := by
            rw [ceilDiv_le_iff_le_mul (chunkStep_pos 9), chunkStep_nine, Nat.mul_comm]
            exact hsize
          rw [show k = 9 from by omega] at hcount
          omega
      rw [if_pos hcount, nextChunk_step]
      obtain ⟨i, hloop, hle, hfirst⟩ := ih (k + 1) hlt (by omega)
      refine ⟨i, hloop, hle, fun j hkj hji => ?_⟩
      rcases Nat.eq_or_lt_of_le hkj with rfl | hlater
      · exact hcount
      · exact hfirst j hlater hji
    · rw [if_neg hcount]
      exact ⟨k, rfl, Nat.le_of_not_lt hcount, fun j hkj hji => by omega⟩

/-- The first chunk that is large enough is the least one. -/
theorem chunkStep_least {size i : Nat}
    (hfirst : ∀ j, 0 ≤ j → j < i → 10000 < size ⌈/⌉ chunkStep j) {j : Nat}
    (h : size ⌈/⌉ chunkStep j ≤ 10000) : chunkStep i ≤ chunkStep j := by
  rcases Nat.lt_or_ge j i with hlt | hge
  · have := hfirst j (Nat.zero_le _) hlt
    omega
  · exact chunkStep_mono hge

theorem maxFileSize_le : maxFileSize ≤ 10000 * chunkSizeMax := by
  unfold maxFileSize chunkSizeMax
  decide

/-- The plan `ct_get_chunksize` makes. -/
theorem ctGetChunksize_eq {size : Nat} (hsize : size ≤ 10000 * chunkSizeMax) :
    ∃ i, ctGetChunksize size = some (chunkStep i, size ⌈/⌉ chunkStep i)
      ∧ (∀ fuel, 10 ≤ fuel →
          chunksizeLoop size fuel chunkSize = some (chunkStep i, size ⌈/⌉ chunkStep i))
      ∧ size ⌈/⌉ chunkStep i ≤ 10000
      ∧ ∀ j, size ⌈/⌉ chunkStep j ≤ 10000 → chunkStep i ≤ chunkStep j := by
  have hloop := fun fuel (h : 10 ≤ fuel) => chunksizeLoop_spec hsize fuel 0 (Nat.zero_le _) h
  rw [chunkStep_zero] at hloop
  obtain ⟨i, hten, hle, hfirst⟩ := hloop 10 (Nat.le_refl _)
  refine ⟨i, ?_, fun fuel hfuel => ?_, hle, fun j hj => chunkStep_least hfirst hj⟩
  · unfold ctGetChunksize
    exact hten
  · -- more fuel finds a chunk that is least as well
    obtain ⟨i', hmore, hle', hfirst'⟩ := hloop fuel hfuel
    have heq : chunkStep i' = chunkStep i :=
      Nat.le_antisymm (chunkStep_least hfirst' hle) (chunkStep_least hfirst hle')
    rw [hmore, heq]

/-- Part `i` starts inside the file exactly when there are more than `i` parts. -/
theorem lt_ceilDiv_iff {size chunk i : Nat} (hchunk : 0 < chunk) :
    i < size ⌈/⌉ chunk ↔ i * chunk < size := by
  have h : size ⌈/⌉ chunk ≤ i ↔ size ≤ i * chunk := by
    rw [ceilDiv_le_iff_le_mul hchunk, Nat.mul_comm]
  omega

/-- 1 GiB is large enough for every file `ct_archive` admits. -/
theorem ctGetChunksize_admitted {size : Nat} (hsize : size ≤ maxFileSize) :
    ∃ i, ctGetChunksize size = some (chunkStep i, size ⌈/⌉ chunkStep i)
      ∧ chunkStep i ≤ 2 ^ 30 := by
  obtain ⟨i, hplan, -, -, hleast⟩ := ctGetChunksize_eq (Nat.le_trans hsize maxFileSize_le)
  refine ⟨i, hplan, ?_⟩
  rw [← chunkStep_six]
  refine hleast 6 ?_
  rw [ceilDiv_le_iff_le_mul (chunkStep_pos 6), chunkStep_six]
  unfold maxFileSize at hsize
  omega

/-- The plan for an admitted file: chunks of at most 1 GiB, all parts non-empty. -/
theorem ctGetChunksize_spec {size : Nat} (hpos : 0 < size) (hsize : size ≤ maxFileSize) :
    ∃ chunk totalSeq, ctGetChunksize size = some (chunk, totalSeq)
      ∧ 0 < chunk ∧ chunk ≤ 2 ^ 30 ∧ 0 < totalSeq
      ∧ (totalSeq - 1) * chunk < size ∧ size ≤ totalSeq * chunk := by
  obtain ⟨i, hplan, hmax⟩ := ctGetChunksize_admitted hsize
  have hchunk := chunkStep_pos i
  have hcount : 0 < size ⌈/⌉ chunkStep i := (lt_ceilDiv_iff hchunk).mpr (by omega)
  refine ⟨chunkStep i, size ⌈/⌉ chunkStep i, hplan, hchunk, hmax, hcount, ?_, ?_⟩
  · exact (lt_ceilDiv_iff hchunk).mp (by omega)
  · exact Nat.le_of_not_lt fun h => Nat.lt_irrefl _ ((lt_ceilDiv_iff hchunk).mpr h)

theorem chunksizeLoop_count {size fuel chunk chunk' totalSeq : Nat}
    (h : chunksizeLoop size fuel chunk = some (chunk', totalSeq)) : totalSeq ≤ 10000 := by
  induction fuel generalizing chunk with
  | zero => cases h
  | succ fuel ih =>
    rw [chunksizeLoop] at h
    by_cases hcount : partCount size chunk > 10000
    · rw [if_pos hcount] at h
      exact ih h
    · rw [if_neg hcount] at h
      cases h
      omega

/-- No plan has more than 10000 parts. -/
theorem ctGetChunksize_count {size chunk totalSeq : Nat}
    (h : ctGetChunksize size = some (chunk, totalSeq)) : totalSeq ≤ 10000 := by
  unfold ctGetChunksize at h
  exact chunksizeLoop_count h

/-! ## The lengths of the parts -/

/-- `partContentLength` loses nothing. -/
theorem partContentLength_eq {chunk : Nat} (hchunk : chunk ≤ 2 ^ 30) (left : Nat) :
    cInt (if left > chunk then chunk else left) = Int.ofNat (min chunk left) := by
  have hmin : (if left > chunk then chunk else left) = min chunk left := by
    split <;> omega
  rw [hmin]
  exact cInt_eq (by omega)

/-- The part length that arrives in `S3_upload_part`. -/
theorem partLength_eq {chunk : Nat} (hchunk : chunk ≤ 2 ^ 30) (left : Nat) :
    sizeT (cInt (if left > chunk then chunk else left)) = min chunk left := by
  rw [partContentLength_eq hchunk]
  exact sizeT_ofNat (by omega)

/-- `partContentLength` in the rounds of the loop over the parts, with `left` bytes to go. -/
def partLengths (chunk : Nat) : Nat → Nat → List Int
  | 0, _ => []
  | rounds + 1, left =>
    cInt (if left > chunk then chunk else left)
      :: partLengths chunk rounds (left - sizeT (cInt (if left > chunk then chunk else left)))

/-- The parts of `size` bytes in chunks. -/
def partSizes (chunk size totalSeq : Nat) : List Nat :=
  (List.range totalSeq).map fun i => min chunk (size - i * chunk)

theorem partSizes_succ (chunk size rounds : Nat) :
    partSizes chunk size (rounds + 1)
      = min chunk size :: partSizes chunk (size - min chunk size) rounds := by
  rw [partSizes, List.range_succ_eq_map, List.map_cons, Nat.zero_mul, Nat.sub_zero, List.map_map,
    partSizes]
  congr 1
  refine List.map_congr_left fun i _ => ?_
  rw [Function.comp_apply, Nat.succ_mul]
  omega

/-- The narrowing to `int` loses nothing. -/
theorem partLengths_eq {chunk : Nat} (hchunk : chunk ≤ 2 ^ 30) (rounds left : Nat) :
    partLengths chunk rounds left = (partSizes chunk left rounds).map Int.ofNat := by
  induction rounds generalizing left with
  | zero => rfl
  | succ rounds ih =>
    rw [partLengths, partLength_eq hchunk, ih, partSizes_succ, List.map_cons,
      partContentLength_eq hchunk]

theorem partSizes_length (chunk size totalSeq : Nat) :
    (partSizes chunk size totalSeq).length = totalSeq := by
  rw [partSizes, List.length_map, List.length_range]

/-- The parts add up to what is covered. -/
theorem partSizes_sum {chunk size rounds : Nat} (hcover : size ≤ rounds * chunk) :
    (partSizes chunk size rounds).sum = size := by
  induction rounds generalizing size with
  | zero => exact (Nat.le_zero.mp (by rwa [Nat.zero_mul] at hcover)).symm
  | succ rounds ih =>
    rw [Nat.succ_mul] at hcover
    rw [partSizes_succ, List.sum_cons, ih (by omega)]
    omega

/-- A request for part `s` declares the length computed for it. -/
theorem declares_partsLoop {cfg : Config} {lib : LibS3} {name uploadId : CString}
    {content : List UInt8} {etagsAllocated : Bool} {fd : Int} {stSize length chunk : Nat}
    {parts : Nat → Nat → PartAttempt} (rounds seq left : Nat) (manager : UploadManager)
    (lastReportTime : Nat) :
    (partsLoop cfg lib name uploadId content etagsAllocated fd stSize length chunk parts rounds seq
      left manager lastReportTime).Logs fun e =>
        ∀ object upload s len body status stored,
          e = .uploadPart object upload s len body status stored →
          seq ≤ s ∧ ((partLengths chunk rounds left)[s - seq]?).map sizeT = some len := by
  induction rounds generalizing seq left manager lastReportTime with
  | zero => exact Exec.logs_pure _ _
  | succ rounds ih =>
    rw [partsLoop]
    refine (logs_partLoop _ _ _ _ (fun _ _ _ _ _ _ _ _ _ _ _ => nofun) ?_).bind fun st _ =>
      Exec.logs_ite (Exec.logs_pure _ _) ((ih _ _ _ _).mono fun e h => ?_)
    · rintro body status stored object upload s len body' status' stored' heq
      cases heq
      exact ⟨Nat.le_refl _, by rw [Nat.sub_self]; rfl⟩
    · intro object upload s len body status stored heq
      obtain ⟨hle, hlen⟩ := h object upload s len body status stored heq
      refine ⟨by omega, ?_⟩
      rw [show s - seq = (s - (seq + 1)) + 1 from by omega]
      exact hlen

/-- The same for the first phase of `ct_archive_data_big`. -/
theorem declares_uploadPhase {cfg : Config} {lib : LibS3} {env : ArchiveDataBigEnv}
    {name : CString} {content : List UInt8} {fd : Int} {stSize length chunk totalSeq : Nat}
    (hplan : ctGetChunksize stSize = some (chunk, totalSeq)) :
    (uploadPhase cfg lib env name content fd stSize length).Logs fun e =>
      ∀ object upload s len body status stored,
        e = .uploadPart object upload s len body status stored →
        1 ≤ s ∧ ((partLengths chunk totalSeq stSize)[s - 1]?).map sizeT = some len := by
  rw [uploadPhase, hplan]
  refine (logs_initLoop _ _ _ _ fun _ _ _ _ _ _ _ _ => nofun).bind fun uploadId _ => ?_
  cases uploadId with
  | none => exact Exec.logs_pure _ _
  | some uploadId =>
    exact (declares_partsLoop _ _ _ _ _).bind fun _ _ => Exec.logs_pure _ _

/-- **Chunk planning.** `ct_get_chunksize` ends, on the least chunk with at most 10000 parts, and
no sum wraps on the way; for a file that `ct_archive` admits, the parts are non-empty, add up to
the file, and are what the requests declare. -/
theorem chunk_plan :
    (∀ size ≤ 10000 * chunkSizeMax, ∃ k,
        ctGetChunksize size = some (chunkStep k, size ⌈/⌉ chunkStep k)
        ∧ (∀ fuel, 10 ≤ fuel →
            chunksizeLoop size fuel chunkSize = some (chunkStep k, size ⌈/⌉ chunkStep k))
        ∧ size ⌈/⌉ chunkStep k ≤ 10000
        ∧ (∀ j, size ⌈/⌉ chunkStep j ≤ 10000 → chunkStep k ≤ chunkStep j)
        ∧ ∀ j, chunkStep j + size - 1 < 2 ^ 64 ∧ chunkStep j * 2 < 2 ^ 64)
    ∧ ∀ size ≤ maxFileSize, ∃ chunk totalSeq, ctGetChunksize size = some (chunk, totalSeq)
        ∧ chunk < 2 ^ 31
        ∧ partLengths chunk totalSeq size = (partSizes chunk size totalSeq).map Int.ofNat
        ∧ (partSizes chunk size totalSeq).length = totalSeq
        ∧ (∀ part ∈ partSizes chunk size totalSeq, 0 < part)
        ∧ (partSizes chunk size totalSeq).sum = size
        ∧ ∀ (cfg : Config) (lib : LibS3) (env : ArchiveDataBigEnv) (name : CString)
            (content : List UInt8) (fd : Int) (length : Nat),
            (uploadPhase cfg lib env name content fd size length).Logs fun e =>
              ∀ object upload s len body status stored,
                e = .uploadPart object upload s len body status stored →
                1 ≤ s ∧ (partSizes chunk size totalSeq)[s - 1]? = some len := by
  constructor
  · intro size hsize
    obtain ⟨k, hplan, hloop, hle, hleast⟩ := ctGetChunksize_eq hsize
    exact ⟨k, hplan, hloop, hle, hleast, chunkStep_no_wrap hsize⟩
  · intro size hsize
    obtain ⟨k, hplan, hmax⟩ := ctGetChunksize_admitted hsize
    have hchunk := chunkStep_pos k
    have hlengths := partLengths_eq hmax (size ⌈/⌉ chunkStep k) size
    refine ⟨_, _, hplan, by omega, hlengths, partSizes_length _ _ _, fun part hpart => ?_, ?_, ?_⟩
    · obtain ⟨i, hi, rfl⟩ := List.mem_map.mp hpart
      -- a part is counted only where it starts before the end of the file
      have hinside := (lt_ceilDiv_iff hchunk).mp (List.mem_range.mp hi)
      omega
    · exact partSizes_sum (Nat.le_of_not_lt fun h =>
        Nat.lt_irrefl _ ((lt_ceilDiv_iff hchunk).mpr h))
    · intro cfg lib env name content fd length
      refine (declares_uploadPhase hplan).mono fun e h => ?_
      intro object upload s len body status stored heq
      obtain ⟨hs, hlen⟩ := h object upload s len body status stored heq
      refine ⟨hs, ?_⟩
      -- what the request declares is the `int` widened again, which is the part's own length
      rw [hlengths, List.getElem?_map, Option.map_map] at hlen
      obtain ⟨part, hpart, rfl⟩ := Option.map_eq_some_iff.mp hlen
      rw [hpart]
      obtain ⟨i, -, rfl⟩ := List.mem_map.mp (List.mem_of_getElem? hpart)
      exact congrArg some (sizeT_ofNat (by omega)).symm

/-- The largest file: 5120 parts of 1 GiB. -/
theorem chunk_plan_largest :
    ∃ totalSeq, ctGetChunksize maxFileSize = some (2 ^ 30, totalSeq)
      ∧ (partSizes (2 ^ 30) maxFileSize totalSeq).sum = maxFileSize ∧ totalSeq = 5120 := by
  have hplan : ctGetChunksize maxFileSize = some (2 ^ 30, 5120) := by
    unfold ctGetChunksize maxFileSize chunkSize
    decide +kernel
  obtain ⟨chunk, totalSeq, hplan', -, -, -, -, hsum, -⟩ := chunk_plan.2 maxFileSize (Nat.le_refl _)
  rw [hplan] at hplan'
  cases hplan'
  exact ⟨5120, hplan, hsum, rfl⟩

end Estuary
