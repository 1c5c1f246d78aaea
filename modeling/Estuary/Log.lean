import Estuary.Engine.Channel
import Estuary.LogLine
import Estuary.LogMove

/-!
# Estuary — the log's buffer is a channel

* **`segmentsOf_entries`**, **`textBytes_handOut`** — the segments of a stretch are read back as the
  lines that were put there;
* **`Stands`** — which lines stand in the block, and where: **`Stands.put`** and **`Stands.release`** are
  what the two ends of the buffer do to it;
* **`Taken`** — which of them the log's thread has noted, and has not given back yet;
* **`log_simulates`** — so in every run the log is a first-in first-out channel of lines, and what is
  handed out is the bytes of what the channel has delivered.
-/

namespace Estuary

open Engine

/-- What the line is in the block takes no more than the room of a line. -/
def LogConf.Fits (conf : LogConf) (line : List UInt8) : Prop :=
  (conf.entry line).length ≤ conf.maxLineSize

/-- What lines are in the block, one behind the other. -/
def LogConf.encode (conf : LogConf) (lines : List (List UInt8)) : List UInt8 :=
  lines.flatMap conf.entry

section Encode

variable {conf : LogConf} {lines lines' : List (List UInt8)}

@[simp] theorem encode_nil : conf.encode [] = [] := rfl

theorem encode_append : conf.encode (lines ++ lines') = conf.encode lines ++ conf.encode lines' :=
  List.flatMap_append

theorem encode_singleton (line : List UInt8) : conf.encode [line] = conf.entry line := by
  rw [LogConf.encode, List.flatMap_singleton]

theorem encode_plain (hplain : conf.segmentLog = false) : conf.encode lines = lines.flatten := by
  have hentry : conf.entry = id := by
    funext line
    rw [LogConf.entry, hplain, if_neg Bool.false_ne_true]
    rfl
  rw [LogConf.encode, hentry, List.flatMap_id]

/-! ## Segments -/

theorem entry_segment (hsegment : conf.segmentLog = true) (line : List UInt8) :
    conf.entry line = segmentMagic ++ (u16 (line.length + 1) ++ (line ++ [0])) := by
  rw [LogConf.entry, if_pos hsegment, List.append_assoc, List.append_assoc]

theorem entry_length_segment (hsegment : conf.segmentLog = true) (line : List UInt8) :
    (conf.entry line).length = segmentHeadSize + line.length + 1 := by
  rw [entry_segment hsegment, List.length_append, List.length_append, List.length_append]
  show 4 + (2 + (line.length + 1)) = 6 + line.length + 1
  omega

/-- One round of `_tlog_write_one_segment_log` takes one line. -/
theorem segmentsOf_entry (hsegment : conf.segmentLog = true) {line : List UInt8}
    (hlen : line.length + 1 < 65536) (rest : List UInt8) (budget : Nat) :
    segmentsOf (budget + 1) (conf.entry line ++ rest) = line :: segmentsOf budget rest := by
  have hmagic : (conf.entry line ++ rest).take 4 = segmentMagic := by
    rw [entry_segment hsegment, List.append_assoc]
    rfl
  have hne : conf.entry line ++ rest ≠ [] := by
    rw [entry_segment hsegment]
    exact List.cons_ne_nil _ _
  have hlow : ((conf.entry line ++ rest).getD 4 0).toNat = (line.length + 1) % 256 := by
    rw [entry_segment hsegment]
    exact UInt8.toNat_ofNat'
  have hhigh : ((conf.entry line ++ rest).getD 5 0).toNat = (line.length + 1) / 256 % 256 := by
    rw [entry_segment hsegment]
    exact UInt8.toNat_ofNat'
  have hlength : ((conf.entry line ++ rest).getD 4 0).toNat
      + 256 * ((conf.entry line ++ rest).getD 5 0).toNat = line.length + 1 := by
    omega
  have hdata : (conf.entry line ++ rest).drop segmentHeadSize = line ++ ([0] ++ rest) := by
    rw [entry_segment hsegment, ← List.append_assoc line]
    simp only [List.append_assoc]
    rfl
  have hrest : (conf.entry line ++ rest).drop (line.length + 1 + segmentHeadSize) = rest := by
    rw [show line.length + 1 + segmentHeadSize = (conf.entry line).length from by
      rw [entry_length_segment hsegment]
      omega, List.drop_left]
  rw [segmentsOf, if_neg hne, if_neg (not_not_intro hmagic)]
  simp only [hlength]
  rw [hdata, hrest, Nat.add_sub_cancel, List.take_left]

/-- **Segments are read back.** -/
theorem segmentsOf_entries (hsegment : conf.segmentLog = true)
    (hlines : ∀ line ∈ lines, line.length + 1 < 65536) {budget : Nat}
    (hbudget : lines.length ≤ budget) : segmentsOf budget (conf.encode lines) = lines := by
  induction lines generalizing budget with
  | nil =>
    cases budget with
    | zero => rfl
    | succ budget => exact if_pos rfl
  | cons line lines ih =>
    cases budget with
    | zero => exact absurd hbudget (by rw [List.length_cons]; omega)
    | succ budget =>
      show segmentsOf (budget + 1) (conf.entry line ++ conf.encode lines) = line :: lines
      rw [segmentsOf_entry hsegment (hlines line (List.mem_cons_self ..)),
        ih (fun l hl => hlines l (List.mem_cons_of_mem _ hl))
          (by rw [List.length_cons] at hbudget; omega)]

theorem length_le_encode (hsegment : conf.segmentLog = true) :
    lines.length ≤ (conf.encode lines).length := by
  induction lines with
  | nil => exact Nat.le_refl 0
  | cons line lines ih =>
    show lines.length + 1 ≤ (conf.entry line ++ conf.encode lines).length
    rw [List.length_append, entry_length_segment hsegment]
    omega

theorem textBytes_append (output output' : List LogOut) :
    textBytes (output ++ output') = textBytes output ++ textBytes output' :=
  List.flatMap_append

theorem lt_ushort_of_fits {line : List UInt8} (h : conf.Fits line) : line.length + 1 < 65536 := by
  have hmax := conf.line_max
  unfold LogConf.Fits LogConf.entry at h
  unfold maxLineSizeSet at hmax
  split at h
  · rw [List.length_append, List.length_append, List.length_append] at h
    omega
  · omega

/-- **What is handed out of a stretch** is the text of its lines. -/
theorem textBytes_handOut (hlines : ∀ line ∈ lines, conf.Fits line) :
    textBytes (conf.handOut (conf.encode lines)) = lines.flatten := by
  cases hmode : conf.segmentLog with
  | false =>
    rw [LogConf.handOut, hmode, if_neg Bool.false_ne_true, encode_plain hmode]
    exact List.append_nil _
  | true =>
    rw [LogConf.handOut, if_pos hmode, segmentsOf_entries hmode
      (fun line hline => lt_ushort_of_fits (hlines line hline)) (length_le_encode hmode), textBytes,
      List.flatMap_map]
    exact List.flatMap_id

/-- Lines that take no room have no text. -/
theorem flatten_of_encode_nil (hlines : ∀ line ∈ lines, conf.Fits line)
    (h : conf.encode lines = []) : lines.flatten = [] := by
  rw [← textBytes_handOut hlines, h]
  cases hmode : conf.segmentLog with
  | false =>
    rw [LogConf.handOut, hmode]
    rfl
  | true =>
    rw [LogConf.handOut, hmode]
    rfl

end Encode

/-! ## What stands in the block -/

/-- The block has its size, and a line's room is left behind both positions. -/
structure Roomy (conf : LogConf) (log : TlogLog) : Prop where
  size : log.buff.length = conf.buffsize
  start_le : log.start + conf.maxLineSize ≤ conf.buffsize
  end_le : log.end_ + conf.maxLineSize ≤ conf.buffsize

/-- The lines in the block: `us` from `start` on, `ls` from the beginning of the block on. -/
inductive Stands (conf : LogConf) (log : TlogLog) : List (List UInt8) → List (List UInt8) → Prop where
  | flat {us : List (List UInt8)} (hext : log.extEnd = 0) (hle : log.start ≤ log.end_)
      (hus : stretch log.buff log.start log.end_ = conf.encode us) : Stands conf log us []
  | wrapped {us ls : List (List UInt8)} (hext : log.extEnd ≠ 0) (hle : log.start ≤ log.extEnd)
      (hfits : log.extEnd ≤ conf.buffsize) (hlower : log.end_ < log.start ∨ log.end_ = 0)
      (hus : stretch log.buff log.start log.extEnd = conf.encode us)
      (hls : stretch log.buff 0 log.end_ = conf.encode ls) : Stands conf log us ls

section Block

variable {conf : LogConf} {log log' : TlogLog} {us ls us₁ us₂ ls₁ ls₂ : List (List UInt8)}

theorem Roomy.congr (h : Roomy conf log) (hring : SameRing log log') : Roomy conf log' := by
  obtain ⟨hsize, hstart, hend⟩ := h
  exact ⟨by rw [hring.buff, hsize], by rw [hring.start]; exact hstart,
    by rw [hring.end_]; exact hend⟩

theorem Stands.congr (h : Stands conf log us ls) (hring : SameRing log log') :
    Stands conf log' us ls := by
  obtain ⟨hbuff, hstart, hend, hext'⟩ := hring
  cases h with
  | flat hext hle hus =>
    refine .flat (by rw [hext', hext]) (by rw [hstart, hend]; exact hle) ?_
    rw [hbuff, hstart, hend, hus]
  | wrapped hext hle hfits hlower hus hls =>
    refine .wrapped (by rw [hext']; exact hext) (by rw [hstart, hext']; exact hle)
      (by rw [hext']; exact hfits) (by rw [hstart, hend]; exact hlower) ?_ ?_
    · rw [hbuff, hstart, hext', hus]
    · rw [hbuff, hend, hls]

/-- A line that finds room ends inside the block, and not behind the unread lines. -/
theorem Stands.room {line : List UInt8} {maxlen : Nat} (hroomy : Roomy conf log)
    (h : Stands conf log us ls) (hfit : conf.Fits line) (hmaxlen : maxlen < conf.maxLineSize)
    (hroom : conf.maxLineSize ≤ log.maxlen conf maxlen) :
    log.end_ + (conf.entry line).length ≤ conf.buffsize
      ∧ (log.extEnd ≠ 0 → log.end_ + (conf.entry line).length ≤ log.start) := by
  obtain ⟨hsize, hstart_le, hend_le⟩ := hroomy
  unfold LogConf.Fits at hfit
  refine ⟨by omega, fun hext => ?_⟩
  unfold TlogLog.maxlen at hroom
  cases h with
  | flat hext' _ _ => exact absurd hext' hext
  | wrapped _ hle hfits hlower hus hls =>
    split at hroom
    · omega
    · split at hroom <;> omega

theorem put_buff (conf : LogConf) (log : TlogLog) (line : List UInt8) :
    (log.put conf line).buff = patch 0 log.buff log.end_ (conf.entry line) := by
  simp only [TlogLog.put]
  split <;> rfl

/-- A line goes behind the others. -/
theorem Stands.put {line : List UInt8} {maxlen : Nat} (hroomy : Roomy conf log)
    (h : Stands conf log us ls) (hfit : conf.Fits line) (hmaxlen : maxlen < conf.maxLineSize)
    (hroom : conf.maxLineSize ≤ log.maxlen conf maxlen)
    (hnofill : log.extEnd ≠ 0 → log.end_ + (conf.entry line).length ≠ log.start) :
    Roomy conf (log.put conf line)
      ∧ ((log.extEnd = 0 ∧ ls = [] ∧ Stands conf (log.put conf line) (us ++ [line]) [])
        ∨ (log.extEnd ≠ 0 ∧ (log.put conf line).extEnd = log.extEnd
          ∧ Stands conf (log.put conf line) us (ls ++ [line]))) := by
  obtain ⟨hend, hends⟩ := h.room hroomy hfit hmaxlen hroom
  obtain ⟨hsize, hstart_le, hend_le⟩ := hroomy
  have hbuffsize := conf.buffsize_min
  have hline_max := conf.line_max
  have hlength : (patch 0 log.buff log.end_ (conf.entry line)).length = conf.buffsize := by
    rw [patch_length_of_fits 0 (by omega), hsize]
  cases h with
  | flat hext hle hus =>
    -- the line fits behind `end`; `end` may go back to the beginning
    have hbehind : stretch (patch 0 log.buff log.end_ (conf.entry line)) log.start
        (log.end_ + (conf.entry line).length) = conf.encode (us ++ [line]) := by
      rw [stretch_patch_end 0 hle (by omega), hus, encode_append, encode_singleton]
    by_cases hwrap : log.end_ + (conf.entry line).length > conf.buffsize - conf.maxLineSize
    · have hput : log.put conf line
          = { log with
              buff := patch 0 log.buff log.end_ (conf.entry line)
              extEnd := log.end_ + (conf.entry line).length
              end_ := 0 } := by
        simp only [TlogLog.put, if_pos hwrap]
      rw [hput]
      refine ⟨⟨hlength, hstart_le, by show 0 + _ ≤ _; omega⟩, Or.inl ⟨hext, rfl, ?_⟩⟩
      exact .wrapped (by show log.end_ + _ ≠ 0; omega) (by show log.start ≤ log.end_ + _; omega)
        (by show log.end_ + _ ≤ _; omega) (Or.inr rfl) hbehind (stretch_self _ _)
    · have hput : log.put conf line
          = { log with
              buff := patch 0 log.buff log.end_ (conf.entry line)
              end_ := log.end_ + (conf.entry line).length } := by
        simp only [TlogLog.put, if_neg hwrap]
      rw [hput]
      refine ⟨⟨hlength, hstart_le, by show log.end_ + _ + _ ≤ _; omega⟩, Or.inl ⟨hext, rfl, ?_⟩⟩
      exact .flat hext (by show log.start ≤ log.end_ + _; omega) hbehind
  | wrapped hext hle hfits hlower hus hls =>
    -- the line does not reach `start`
    have hbelow : log.end_ + (conf.entry line).length < log.start :=
      Nat.lt_of_le_of_ne (hends hext) (hnofill hext)
    have hput : log.put conf line
        = { log with
            buff := patch 0 log.buff log.end_ (conf.entry line)
            end_ := log.end_ + (conf.entry line).length } := by
      simp only [TlogLog.put, if_neg (show ¬ log.end_ + (conf.entry line).length
        > conf.buffsize - conf.maxLineSize by omega)]
    rw [hput]
    refine ⟨⟨hlength, hstart_le, by show log.end_ + _ + _ ≤ _; omega⟩, Or.inr ⟨hext, rfl, ?_⟩⟩
    refine .wrapped hext hle hfits (Or.inl hbelow) ?_ ?_
    · show stretch (patch 0 log.buff log.end_ (conf.entry line)) log.start log.extEnd = _
      rw [stretch_patch_above 0 (by omega) (by omega), hus]
    · show stretch (patch 0 log.buff log.end_ (conf.entry line)) 0
        (log.end_ + (conf.entry line).length) = _
      rw [stretch_patch_end 0 (Nat.zero_le _) (by omega), hls, encode_append, encode_singleton]

/-! ## What the log's thread has noted -/

/-- The lines of a snapshot: `us₁` of those from `start` on, with `us₂` behind them, and `ls₁` of those
at the beginning of the block. -/
structure Taken (conf : LogConf) (log : TlogLog) (snap : Snapshot)
    (us₁ us₂ ls₁ : List (List UInt8)) : Prop where
  len : snap.logLen = (conf.encode us₁).length
  extlen : snap.logExtlen = (conf.encode ls₁).length
  flat : snap.logExtend = 0 → ls₁ = [] ∧ snap.logEnd = log.start + snap.logLen
    ∧ snap.logEnd + conf.maxLineSize ≤ conf.buffsize
  wrapped : snap.logExtend ≠ 0 → us₂ = [] ∧ log.extEnd = snap.logExtend
    ∧ snap.logEnd = snap.logExtlen

/-- A snapshot takes everything. -/
theorem Stands.snapshot (hroomy : Roomy conf log) (h : Stands conf log us ls) :
    Taken conf log log.snapshot us [] ls := by
  obtain ⟨hsize, hstart_le, hend_le⟩ := hroomy
  cases h with
  | flat hext hle hus =>
    have hlen : (conf.encode us).length = log.end_ - log.start := by
      rw [← hus, stretch_length (by omega)]
    have hlogLen : log.snapshot.logLen = log.end_ - log.start := by
      simp only [TlogLog.snapshot, hext, gt_iff_lt, Nat.lt_irrefl, if_false]
      split <;> omega
    refine ⟨by rw [hlogLen, hlen], ?_, fun _ => ⟨rfl, ?_, hend_le⟩, fun hne => absurd hext hne⟩
    · exact if_neg (Nat.not_lt_of_le hle)
    · show log.end_ = log.start + log.snapshot.logLen
      omega
  | wrapped hext hle hfits hlower hus hls =>
    have hupper : (conf.encode us).length = log.extEnd - log.start := by
      rw [← hus, stretch_length (by omega)]
    have hunder : (conf.encode ls).length = log.end_ := by
      rw [← hls, stretch_length (by omega), Nat.sub_zero]
    have hlogExtlen : log.snapshot.logExtlen = log.end_ := by
      simp only [TlogLog.snapshot]
      split <;> omega
    refine ⟨?_, by rw [hlogExtlen, hunder], fun hzero => absurd hzero hext,
      fun _ => ⟨rfl, rfl, hlogExtlen.symm⟩⟩
    simp only [TlogLog.snapshot, if_neg (show ¬ log.end_ > log.start by omega),
      if_pos (Nat.pos_of_ne_zero hext), hupper]

/-- The first stretch of a snapshot. -/
theorem Taken.upper {snap : Snapshot} (hroomy : Roomy conf log)
    (h : Stands conf log (us₁ ++ us₂) ls) (ht : Taken conf log snap us₁ us₂ ls₁) :
    stretch log.buff log.start (log.start + snap.logLen) = conf.encode us₁ := by
  obtain ⟨hsize, hstart_le, hend_le⟩ := hroomy
  rw [ht.len]
  cases h with
  | flat hext hle hus =>
    rw [encode_append] at hus
    exact (stretch_split hus (by omega)).1
  | wrapped hext hle hfits hlower hus hls =>
    rw [encode_append] at hus
    exact (stretch_split hus (by omega)).1

/-- The second stretch of a snapshot. -/
theorem Taken.lower {snap : Snapshot} (hroomy : Roomy conf log)
    (h : Stands conf log us (ls₁ ++ ls₂)) (ht : Taken conf log snap us₁ us₂ ls₁) :
    stretch log.buff 0 snap.logExtlen = conf.encode ls₁ := by
  obtain ⟨hsize, hstart_le, hend_le⟩ := hroomy
  have hextlen := ht.extlen
  generalize hboth : ls₁ ++ ls₂ = both at h
  cases h with
  | flat hext hle hus =>
    rw [List.append_eq_nil_iff] at hboth
    rw [hextlen, hboth.1]
    exact stretch_self _ _
  | wrapped hext hle hfits hlower hus hls =>
    rw [← hboth, encode_append] at hls
    have := (stretch_split hls (by omega)).1
    rwa [Nat.zero_add, ← hextlen] at this

/-- A line that is put leaves the stretches of a snapshot alone. -/
theorem Taken.untouched {snap : Snapshot} {line : List UInt8} {maxlen : Nat}
    (hroomy : Roomy conf log) (h : Stands conf log (us₁ ++ us₂) (ls₁ ++ ls₂))
    (ht : Taken conf log snap us₁ us₂ ls₁) (hfit : conf.Fits line)
    (hmaxlen : maxlen < conf.maxLineSize) (hroom : conf.maxLineSize ≤ log.maxlen conf maxlen) :
    stretch (log.put conf line).buff log.start (log.start + snap.logLen)
        = stretch log.buff log.start (log.start + snap.logLen)
      ∧ stretch (log.put conf line).buff 0 snap.logExtlen = stretch log.buff 0 snap.logExtlen := by
  obtain ⟨hend, hends⟩ := h.room hroomy hfit hmaxlen hroom
  obtain ⟨hsize, hstart_le, hend_le⟩ := hroomy
  obtain ⟨hlen, hextlen, hflat, hwrapped⟩ := ht
  rw [put_buff]
  generalize hboth : ls₁ ++ ls₂ = both at h
  cases h with
  | flat hext hle hus =>
    have hlength : (conf.encode (us₁ ++ us₂)).length = log.end_ - log.start := by
      rw [← hus, stretch_length (by omega)]
    rw [encode_append, List.length_append] at hlength
    rw [List.append_eq_nil_iff] at hboth
    have hzero : snap.logExtlen = 0 := by rw [hextlen, hboth.1, encode_nil, List.length_nil]
    refine ⟨stretch_patch_below 0 (by omega) (by omega), ?_⟩
    rw [hzero, stretch_self, stretch_self]
  | wrapped hext hle hfits hlower hus hls =>
    have hlength : (conf.encode (ls₁ ++ ls₂)).length = log.end_ := by
      rw [hboth, ← hls, stretch_length (by omega), Nat.sub_zero]
    rw [encode_append, List.length_append] at hlength
    exact ⟨stretch_patch_above 0 (hends hext) (by omega),
      stretch_patch_below 0 (by omega) (by omega)⟩

/-- The release gives back what was taken. -/
theorem Stands.release {snap : Snapshot} (hroomy : Roomy conf log)
    (h : Stands conf log (us₁ ++ us₂) (ls₁ ++ ls₂)) (ht : Taken conf log snap us₁ us₂ ls₁) :
    Roomy conf (log.release snap)
      ∧ ∃ us ls, Stands conf (log.release snap) us ls ∧ us ++ ls = us₂ ++ ls₂ := by
  obtain ⟨hsize, hstart_le, hend_le⟩ := hroomy
  obtain ⟨hlen, hextlen, hflat, hwrapped⟩ := ht
  generalize hboth : ls₁ ++ ls₂ = both at h
  by_cases hextend : snap.logExtend = 0
  · -- noted before `end` went back: `start` moves behind `us₁`
    obtain ⟨rfl, hlogEnd, hfits'⟩ := hflat hextend
    have hrelease : log.release snap = { log with start := snap.logEnd } := by
      rw [TlogLog.release, if_neg (by omega)]
    rw [hrelease]
    refine ⟨⟨hsize, hfits', hend_le⟩, us₂, ls₂, ?_, rfl⟩
    rw [List.nil_append] at hboth
    subst hboth
    cases h with
    | flat hext hle hus =>
      have hlength : (conf.encode (us₁ ++ us₂)).length = log.end_ - log.start := by
        rw [← hus, stretch_length (by omega)]
      rw [encode_append, List.length_append] at hlength
      rw [encode_append] at hus
      have hrest := (stretch_split hus (by omega)).2
      rw [← hlen, ← hlogEnd] at hrest
      exact .flat hext (by show snap.logEnd ≤ log.end_; omega) hrest
    | wrapped hext hle hfits hlower hus hls =>
      have hlength : (conf.encode (us₁ ++ us₂)).length = log.extEnd - log.start := by
        rw [← hus, stretch_length (by omega)]
      rw [encode_append, List.length_append] at hlength
      rw [encode_append] at hus
      have hrest := (stretch_split hus (by omega)).2
      rw [← hlen, ← hlogEnd] at hrest
      exact .wrapped hext (by show snap.logEnd ≤ log.extEnd; omega) hfits
        (by show log.end_ < snap.logEnd ∨ log.end_ = 0; omega) hrest hls
  · -- noted after that: the beginning of the block is what is left
    obtain ⟨rfl, hext', hlogEnd⟩ := hwrapped hextend
    have hrelease : log.release snap = { log with start := snap.logEnd, extEnd := 0 } := by
      rw [TlogLog.release, if_pos (by omega)]
    rw [hrelease]
    cases h with
    | flat hext hle hus => exact absurd (hext'.symm.trans hext) hextend
    | wrapped hext hle hfits hlower hus hls =>
      have hlength : (conf.encode (ls₁ ++ ls₂)).length = log.end_ := by
        rw [hboth, ← hls, stretch_length (by omega), Nat.sub_zero]
      rw [encode_append, List.length_append] at hlength
      rw [← hboth, encode_append] at hls
      have hrest := (stretch_split hls (by omega)).2
      rw [Nat.zero_add, ← hextlen, ← hlogEnd] at hrest
      refine ⟨⟨hsize, ?_, hend_le⟩, ls₂, [], ?_, by rw [List.append_nil, List.nil_append]⟩
      · show snap.logEnd + conf.maxLineSize ≤ conf.buffsize
        omega
      · exact .flat rfl (by show snap.logEnd ≤ log.end_; omega) hrest

/-- What the log's thread has noted; without a snapshot, nothing. -/
def Noted (conf : LogConf) (log : TlogLog) (us₁ us₂ ls₁ : List (List UInt8)) : WorkPc → Prop
  | .upper snap => Taken conf log snap us₁ us₂ ls₁
  | .lower snap => Taken conf log snap us₁ us₂ ls₁
  | .note snap => Taken conf log snap us₁ us₂ ls₁
  | .release snap => Taken conf log snap us₁ us₂ ls₁
  | _ => us₁ = [] ∧ ls₁ = []

/-- What is not handed out yet. -/
def queued (us₁ us₂ ls₁ ls₂ : List (List UInt8)) : WorkPc → List (List UInt8)
  | .upper _ => us₁ ++ us₂ ++ (ls₁ ++ ls₂)
  | .lower _ => us₂ ++ (ls₁ ++ ls₂)
  | _ => us₂ ++ ls₂

theorem noted_of_away {pc : WorkPc} (h : pc.away = true) :
    Noted conf log us₁ us₂ ls₁ pc ↔ us₁ = [] ∧ ls₁ = [] := by
  cases pc <;> first | exact Iff.rfl | cases h

theorem queued_of_away {pc : WorkPc} (h : pc.away = true) :
    queued us₁ us₂ ls₁ ls₂ pc = us₂ ++ ls₂ := by
  cases pc <;> first | rfl | cases h

theorem queued_upper (line : List UInt8) (pc : WorkPc) :
    queued us₁ (us₂ ++ [line]) [] [] pc = queued us₁ us₂ [] [] pc ++ [line] := by
  cases pc <;> simp only [queued, List.append_nil, List.append_assoc]

theorem queued_lower (line : List UInt8) (pc : WorkPc) :
    queued us₁ us₂ ls₁ (ls₂ ++ [line]) pc = queued us₁ us₂ ls₁ ls₂ pc ++ [line] := by
  cases pc <;> simp only [queued, List.append_assoc]

theorem Taken.congr {snap : Snapshot} (h : Taken conf log snap us₁ us₂ ls₁)
    (hstart : log'.start = log.start) (hext : log'.extEnd = log.extEnd) :
    Taken conf log' snap us₁ us₂ ls₁ := by
  obtain ⟨hlen, hextlen, hflat, hwrapped⟩ := h
  refine ⟨hlen, hextlen, ?_, ?_⟩
  · rw [hstart]
    exact hflat
  · rw [hext]
    exact hwrapped

/-- A line that is put behind the others is behind those that are noted. -/
theorem Taken.put {snap : Snapshot} {line : List UInt8} (h : Taken conf log snap us₁ us₂ ls₁)
    (hext : log.extEnd = 0) (hstart : log'.start = log.start) :
    Taken conf log' snap us₁ (us₂ ++ [line]) ls₁ := by
  obtain ⟨hlen, hextlen, hflat, hwrapped⟩ := h
  refine ⟨hlen, hextlen, ?_, fun hne => ?_⟩
  · rw [hstart]
    exact hflat
  · obtain ⟨-, hext', -⟩ := hwrapped hne
    exact absurd (hext'.symm.trans hext) hne

theorem Noted.congr {pc : WorkPc} (h : Noted conf log us₁ us₂ ls₁ pc)
    (hstart : log'.start = log.start) (hext : log'.extEnd = log.extEnd) :
    Noted conf log' us₁ us₂ ls₁ pc := by
  cases pc with
  | upper snap => exact Taken.congr h hstart hext
  | lower snap => exact Taken.congr h hstart hext
  | note snap => exact Taken.congr h hstart hext
  | release snap => exact Taken.congr h hstart hext
  | _ => exact h

theorem Noted.put {pc : WorkPc} {line : List UInt8} (h : Noted conf log us₁ us₂ ls₁ pc)
    (hext : log.extEnd = 0) (hstart : log'.start = log.start) :
    Noted conf log' us₁ (us₂ ++ [line]) ls₁ pc := by
  cases pc with
  | upper snap => exact Taken.put h hext hstart
  | lower snap => exact Taken.put h hext hstart
  | note snap => exact Taken.put h hext hstart
  | release snap => exact Taken.put h hext hstart
  | _ => exact h

theorem put_start (conf : LogConf) (log : TlogLog) (line : List UInt8) :
    (log.put conf line).start = log.start := by
  simp only [TlogLog.put]
  split <;> rfl

end Block

/-! ## The channel -/

/-- What a thread is about to put fits, and it has seen no room before. -/
def PrintPc.Fine (conf : LogConf) : PrintPc → Prop
  | .idle => True
  | .entered out => ∀ line, tlogLine conf.maxLineSize out = some line → conf.Fits line
  | .ready line maxlen => conf.Fits line ∧ maxlen < conf.maxLineSize
  | .full line maxlen => conf.Fits line ∧ maxlen < conf.maxLineSize
  | .sleeping line maxlen => conf.Fits line ∧ maxlen < conf.maxLineSize
  | .woken line maxlen => conf.Fits line ∧ maxlen < conf.maxLineSize

/-- The calls whose lines fit. -/
def FitCalls (conf : LogConf) : LogAct → Prop
  | .print _ out => ∀ line, tlogLine conf.maxLineSize out = some line → conf.Fits line
  | _ => True

/-- A thread puts a line that ends exactly where the unread lines begin. -/
def Fills (conf : LogConf) (s : Tlog) (a : LogAct) : Prop :=
  ∃ i line maxlen, a = .printer i ∧ s.printers[i]? = some (.ready line maxlen)
    ∧ conf.maxLineSize ≤ s.log.maxlen conf maxlen
    ∧ s.log.extEnd ≠ 0 ∧ s.log.end_ + (conf.entry line).length = s.log.start

/-- The guard of the runs below. -/
def NeverFilled (conf : LogConf) (s : Tlog) (a : LogAct) : Prop :=
  FitCalls conf a ∧ ¬ Fills conf s a

/-- The log and the channel it is. -/
structure Conveys (conf : LogConf) (s : Tlog) (c : Channel (List UInt8)) : Prop where
  roomy : Roomy conf s.log
  fine : ∀ pc ∈ s.printers, pc.Fine conf
  accepted : c.accepted = s.accepted.map Prod.snd
  delivered : textBytes s.output = c.delivered.flatten
  stands : ∃ us₁ us₂ ls₁ ls₂, Stands conf s.log (us₁ ++ us₂) (ls₁ ++ ls₂)
    ∧ (∀ line ∈ us₁ ++ us₂ ++ (ls₁ ++ ls₂), conf.Fits line)
    ∧ Noted conf s.log us₁ us₂ ls₁ s.worker ∧ c.queue = queued us₁ us₂ ls₁ ls₂ s.worker

section Channel

variable {conf : LogConf} {s t : Tlog} {c : Channel (List UInt8)}

theorem fine_set {ps : List PrintPc} {i : Nat} {pc : PrintPc} (h : ∀ p ∈ ps, p.Fine conf)
    (hpc : pc.Fine conf) : ∀ p ∈ ps.set i pc, p.Fine conf := by
  intro p hp
  rcases List.mem_or_eq_of_mem_set hp with hp | rfl
  · exact h p hp
  · exact hpc

theorem fine_get {ps : List PrintPc} {i : Nat} {pc : PrintPc} (h : ∀ p ∈ ps, p.Fine conf)
    (hi : ps[i]? = some pc) : pc.Fine conf :=
  h pc (List.mem_of_getElem? hi)

theorem fine_broadcast {pc : PrintPc} (h : pc.Fine conf) : pc.broadcast.Fine conf := by
  cases pc <;> exact h

/-- The log's thread stays where it is, or moves where it holds no snapshot. -/
def Unmoving (pc pc' : WorkPc) : Prop := pc' = pc ∨ pc.away = true ∧ pc'.away = true

theorem Unmoving.noted {log : TlogLog} {pc pc' : WorkPc} {us₁ us₂ ls₁ : List (List UInt8)}
    (h : Unmoving pc pc') (hnoted : Noted conf log us₁ us₂ ls₁ pc) :
    Noted conf log us₁ us₂ ls₁ pc' := by
  rcases h with rfl | ⟨haway, haway'⟩
  · exact hnoted
  · rw [noted_of_away haway']
    exact (noted_of_away haway).mp hnoted

theorem Unmoving.queued {pc pc' : WorkPc} (h : Unmoving pc pc')
    (us₁ us₂ ls₁ ls₂ : List (List UInt8)) :
    queued us₁ us₂ ls₁ ls₂ pc' = queued us₁ us₂ ls₁ ls₂ pc := by
  rcases h with rfl | ⟨haway, haway'⟩
  · rfl
  · rw [queued_of_away haway, queued_of_away haway']

/-- A step that the channel does not notice. -/
theorem Conveys.quiet (h : Conveys conf s c) (hring : SameRing s.log t.log)
    (hworker : Unmoving s.worker t.worker) (hfine : ∀ pc ∈ t.printers, pc.Fine conf)
    (haccepted : t.accepted = s.accepted) (houtput : textBytes t.output = textBytes s.output) :
    Conveys conf t c := by
  obtain ⟨hroomy, -, hc, hdelivered, us₁, us₂, ls₁, ls₂, hstands, hfit, hnoted, hqueue⟩ := h
  refine ⟨hroomy.congr hring, hfine, by rw [hc, haccepted], by rw [houtput, hdelivered],
    us₁, us₂, ls₁, ls₂, hstands.congr hring, hfit, ?_, ?_⟩
  · exact hworker.noted (hnoted.congr hring.start hring.extEnd)
  · rw [hworker.queued, hqueue]

/-- A line that goes into the block goes into the channel. -/
theorem Conveys.put {i maxlen : Nat} {line : List UInt8} (h : Conveys conf s c)
    (hpc : s.printers[i]? = some (.ready line maxlen))
    (hroom : conf.maxLineSize ≤ s.log.maxlen conf maxlen)
    (hnofill : s.log.extEnd ≠ 0 → s.log.end_ + (conf.entry line).length ≠ s.log.start)
    (hlog : t.log = s.log.put conf line) (haccepted : t.accepted = s.accepted ++ [(i, line)])
    (houtput : t.output = s.output) (hprinters : t.printers = s.printers.set i .idle)
    (hworker : Unmoving s.worker t.worker) :
    Conveys conf t { c with accepted := c.accepted ++ [line], queue := c.queue ++ [line] } := by
  obtain ⟨hroomy, hfine, hc, hdelivered, us₁, us₂, ls₁, ls₂, hstands, hfit, hnoted, hqueue⟩ := h
  obtain ⟨hline, hmaxlen⟩ := fine_get hfine hpc
  obtain ⟨hroomy', hput⟩ := hstands.put hroomy hline hmaxlen hroom hnofill
  have hstart := put_start conf s.log line
  refine ⟨by rw [hlog]; exact hroomy', ?_, ?_, by rw [houtput]; exact hdelivered, ?_⟩
  · rw [hprinters]
    exact fine_set hfine trivial
  · rw [haccepted, List.map_append]
    exact congrArg (· ++ [line]) hc
  rw [hlog]
  -- behind the lines from `start` on, or behind those at the beginning of the block
  rcases hput with ⟨hext, hnil, hstands'⟩ | ⟨hext, hext', hstands'⟩
  · rw [List.append_eq_nil_iff] at hnil
    obtain ⟨rfl, rfl⟩ := hnil
    rw [List.append_assoc] at hstands'
    refine ⟨us₁, us₂ ++ [line], [], [], hstands', ?_, hworker.noted (hnoted.put hext hstart), ?_⟩
    · intro l hl
      simp only [List.append_nil, List.mem_append, List.mem_singleton] at hl hfit
      rcases hl with hl | hl | rfl
      · exact hfit l (Or.inl hl)
      · exact hfit l (Or.inr hl)
      · exact hline
    · rw [hworker.queued, queued_upper, hqueue]
  · rw [List.append_assoc] at hstands'
    refine ⟨us₁, us₂, ls₁, ls₂ ++ [line], hstands', ?_,
      hworker.noted (hnoted.congr hstart hext'), ?_⟩
    · intro l hl
      simp only [List.mem_append, List.mem_singleton] at hl hfit
      rcases hl with (hl | hl) | hl | hl | rfl
      · exact hfit l (Or.inl (Or.inl hl))
      · exact hfit l (Or.inl (Or.inr hl))
      · exact hfit l (Or.inr (Or.inl hl))
      · exact hfit l (Or.inr (Or.inr hl))
      · exact hline
    · rw [hworker.queued, queued_lower, hqueue]

/-- The log's thread notes what there is; the channel does not notice. -/
theorem Conveys.begin (h : Conveys conf s c) (haway : s.worker.away = true) :
    Conveys conf s.begin c := by
  by_cases hdata : s.log.hasData = true
  swap
  · have hbegin : s.begin = { s with worker := .top true } := if_neg hdata
    rw [hbegin]
    exact h.quiet (.refl _) (Or.inr ⟨haway, rfl⟩) h.fine rfl rfl
  obtain ⟨hroomy, hfine, hc, hdelivered, us₁, us₂, ls₁, ls₂, hstands, hfit, hnoted, hqueue⟩ := h
  obtain ⟨rfl, rfl⟩ := (noted_of_away haway).mp hnoted
  have hring := begin_sameRing s
  have hbegin : s.begin
      = { s with worker := .upper s.log.snapshot, log := { s.log with dropped := 0 } } :=
    if_pos hdata
  rw [hbegin] at hring ⊢
  refine ⟨hroomy.congr hring, hfine, hc, hdelivered, us₂, [], ls₂, [], ?_, ?_, ?_, ?_⟩
  · rw [List.append_nil, List.append_nil]
    exact hstands.congr hring
  · simpa only [List.append_nil, List.nil_append] using hfit
  · exact (hstands.snapshot hroomy).congr hring.start hring.extEnd
  · rw [hqueue, queued_of_away haway]
    simp only [queued, List.append_nil]

/-- The first stretch is handed out: the channel delivers its lines. -/
theorem Conveys.upper {snap : Snapshot} (h : Conveys conf s c) (hpc : s.worker = .upper snap) :
    ∃ n d, channelStep c (.deliver n) = some d
      ∧ Conveys conf { s with
          worker := .lower snap
          output := s.output
            ++ conf.handOut (stretch s.log.buff s.log.start (s.log.start + snap.logLen)) } d := by
  obtain ⟨hroomy, hfine, hc, hdelivered, us₁, us₂, ls₁, ls₂, hstands, hfit, hnoted, hqueue⟩ := h
  rw [hpc] at hnoted hqueue
  have hfront : c.queue = us₁ ++ (us₂ ++ (ls₁ ++ ls₂)) := by
    rw [hqueue]
    exact List.append_assoc _ _ _
  refine ⟨us₁.length, _, channelStep_deliver hfront, hroomy, hfine, hc, ?_, us₁, us₂, ls₁, ls₂,
    hstands, hfit, hnoted, rfl⟩
  rw [Taken.upper hroomy hstands hnoted, textBytes_append, hdelivered, textBytes_handOut,
    List.flatten_append]
  exact fun line hline =>
    hfit line (List.mem_append_left _ (List.mem_append_left _ hline))

/-- The stretch at the beginning of the block is handed out. -/
theorem Conveys.lower {snap : Snapshot} (h : Conveys conf s c) (hpc : s.worker = .lower snap) :
    ∃ n d, channelStep c (.deliver n) = some d
      ∧ Conveys conf { s with
          worker := .note snap
          output := if snap.logExtlen > 0 then
              s.output ++ conf.handOut (stretch s.log.buff 0 snap.logExtlen)
            else s.output } d := by
  obtain ⟨hroomy, hfine, hc, hdelivered, us₁, us₂, ls₁, ls₂, hstands, hfit, hnoted, hqueue⟩ := h
  rw [hpc] at hnoted hqueue
  have htaken : Taken conf s.log snap us₁ us₂ ls₁ := hnoted
  have hlower := htaken.lower hroomy hstands
  have hfit₁ : ∀ line ∈ ls₁, conf.Fits line := fun line hline =>
    hfit line (List.mem_append_right _ (List.mem_append_left _ hline))
  -- nothing is between the two stretches of a snapshot
  have hfront : c.queue = ls₁ ++ (us₂ ++ ls₂) := by
    rw [hqueue]
    show us₂ ++ (ls₁ ++ ls₂) = ls₁ ++ (us₂ ++ ls₂)
    by_cases hextend : snap.logExtend = 0
    · rw [(htaken.flat hextend).1]
      rfl
    · rw [(htaken.wrapped hextend).1]
      rfl
  refine ⟨ls₁.length, _, channelStep_deliver hfront, hroomy, hfine, hc, ?_, us₁, us₂, ls₁, ls₂,
    hstands, hfit, hnoted, rfl⟩
  by_cases hextlen : snap.logExtlen > 0
  · rw [if_pos hextlen, hlower, textBytes_append, hdelivered, textBytes_handOut hfit₁,
      List.flatten_append]
  · have hnil : conf.encode ls₁ = [] := by
      rw [← hlower]
      exact stretch_of_le (Nat.le_of_not_lt hextlen)
    rw [if_neg hextlen, hdelivered, List.flatten_append, flatten_of_encode_nil hfit₁ hnil,
      List.append_nil]

theorem textBytes_note (output : List LogOut) (number : Option Nat) :
    textBytes (output ++ [.dropNote number]) = textBytes output := by
  rw [textBytes_append]
  exact List.append_nil _

/-- The note about dropped lines is none of the lines. -/
theorem Conveys.note {snap : Snapshot} (h : Conveys conf s c) (hpc : s.worker = .note snap) :
    Conveys conf { s with
      worker := .release snap
      output := if snap.logDropped > 0 then
          s.output ++ [.dropNote (conf.noteNumber snap.logDropped)]
        else s.output } c := by
  obtain ⟨hroomy, hfine, hc, hdelivered, us₁, us₂, ls₁, ls₂, hstands, hfit, hnoted, hqueue⟩ := h
  rw [hpc] at hnoted hqueue
  refine ⟨hroomy, hfine, hc, ?_, us₁, us₂, ls₁, ls₂, hstands, hfit, hnoted, hqueue⟩
  split
  · rw [textBytes_note, hdelivered]
  · exact hdelivered

/-- The release: what was noted is gone, what was not is still there. -/
theorem Conveys.release {snap : Snapshot} (h : Conveys conf s c)
    (hpc : s.worker = .release snap) :
    Conveys conf { s with worker := .wakeup, log := s.log.release snap } c := by
  obtain ⟨hroomy, hfine, hc, hdelivered, us₁, us₂, ls₁, ls₂, hstands, hfit, hnoted, hqueue⟩ := h
  rw [hpc] at hnoted hqueue
  obtain ⟨hroomy', us, ls, hstands', hrest⟩ := hstands.release hroomy hnoted
  refine ⟨hroomy', hfine, hc, hdelivered, [], us, [], ls, hstands', ?_, ⟨rfl, rfl⟩, ?_⟩
  · intro line hline
    have hmem : line ∈ us₂ ++ ls₂ := by
      rw [← hrest]
      exact hline
    rcases List.mem_append.mp hmem with hmem | hmem
    · exact hfit line (List.mem_append_left _ (List.mem_append_right _ hmem))
    · exact hfit line (List.mem_append_right _ (List.mem_append_right _ hmem))
  · rw [hqueue]
    exact hrest.symm

theorem unmoving_signal (s : Tlog) : Unmoving s.worker s.signal.worker := by
  rw [signal_worker]
  split
  · next h => exact Or.inr ⟨by rw [h]; rfl, rfl⟩
  · exact Or.inl rfl

/-- **A step of the log** is no step, or a step, of the channel. -/
theorem Conveys.step (s : Tlog) (a : LogAct) (t : Tlog) (c : Channel (List UInt8))
    (h : Conveys conf s c) (hguard : NeverFilled conf s a) (hstep : logStep conf s a = some t) :
    ∃ bs d, exec channelStep c bs = some d ∧ Conveys conf t d := by
  have hstutter : Conveys conf t c → ∃ bs d, exec channelStep c bs = some d ∧ Conveys conf t d :=
    fun ht => ⟨[], c, rfl, ht⟩
  have hsingle : ∀ {b d}, channelStep c b = some d → Conveys conf t d →
      ∃ bs d, exec channelStep c bs = some d ∧ Conveys conf t d := fun hd ht =>
    ⟨[_], _, Option.bind_eq_some_iff.mpr ⟨_, hd, rfl⟩, ht⟩
  have hfine := h.fine
  have hset : ∀ {i : Nat} {pc : PrintPc}, pc.Fine conf → ∀ p ∈ s.printers.set i pc, p.Fine conf :=
    fun hpc => fine_set hfine hpc
  cases logStep_cases hstep with
  | muted hpc => exact hstutter h
  | call hpc => exact hstutter (h.quiet (.refl _) (Or.inl rfl) (hset hguard.1) rfl rfl)
  | dropEarly hpc hblock hfull =>
    exact hstutter (h.quiet (drop_sameRing s _) (Or.inl rfl) (hset trivial) rfl rfl)
  | giveUp hpc hline => exact hstutter (h.quiet (.refl _) (Or.inl rfl) (hset trivial) rfl rfl)
  | format hpc hline =>
    have hmin := conf.line_min
    unfold minLineSize at hmin
    have hfit : conf.Fits _ := fine_get hfine hpc _ hline
    exact hstutter (h.quiet (.refl _) (Or.inl rfl) (hset ⟨hfit, by omega⟩) rfl rfl)
  | block hpc hfull hblock hnotify =>
    have hfit := (fine_get hfine hpc).1
    refine hstutter ?_
    rw [hnotify]
    split
    · exact h.quiet (.refl _) (unmoving_signal s) (hset ⟨hfit, hfull⟩) rfl rfl
    · exact h.quiet (.refl _) (Or.inl rfl) (hset ⟨hfit, hfull⟩) rfl rfl
  | dropLate hpc hfull hblock hnotify =>
    refine hstutter ?_
    rw [hnotify]
    split
    · exact h.quiet ⟨rfl, rfl, rfl, rfl⟩ (unmoving_signal s) (hset trivial) rfl rfl
    · exact h.quiet (drop_sameRing s _) (Or.inl rfl) (hset trivial) rfl rfl
  | @put i maxlen line s' _ hpc hroom hput hnotify =>
    subst hput hnotify
    refine hsingle (b := .accept line) rfl ?_
    have hnofill : s.log.extEnd ≠ 0 → s.log.end_ + (conf.entry line).length ≠ s.log.start :=
      fun hext hend => hguard.2 ⟨i, line, maxlen, rfl, hpc, hroom, hext, hend⟩
    split
    · exact h.put hpc hroom hnofill rfl rfl rfl rfl (unmoving_signal s)
    · exact h.put hpc hroom hnofill rfl rfl rfl rfl (Or.inl rfl)
  | wait hpc =>
    obtain ⟨hfit, hmaxlen⟩ := fine_get hfine hpc
    exact hstutter (h.quiet ⟨rfl, rfl, rfl, rfl⟩ (Or.inl rfl) (hset ⟨hfit, hmaxlen⟩) rfl rfl)
  | retake hpc =>
    obtain ⟨hfit, hmaxlen⟩ := fine_get hfine hpc
    exact hstutter (h.quiet ⟨rfl, rfl, rfl, rfl⟩ (Or.inl rfl) (hset ⟨hfit, hmaxlen⟩) rfl rfl)
  | rouse hpc =>
    obtain ⟨hfit, hmaxlen⟩ := fine_get hfine hpc
    exact hstutter (h.quiet (.refl _) (Or.inl rfl) (hset ⟨hfit, hmaxlen⟩) rfl rfl)
  | top hpc =>
    refine hstutter (h.quiet (.refl _) (Or.inr ⟨by rw [hpc]; rfl, ?_⟩) hfine rfl rfl)
    show (if s.run then WorkPc.next _ else .lastCheck _).away = true
    split <;> rfl
  | stay hpc hdata =>
    exact hstutter (h.quiet (.refl _) (Or.inr ⟨by rw [hpc]; rfl, rfl⟩) hfine rfl rfl)
  | end_ hpc hempty =>
    exact hstutter (h.quiet (.refl _) (Or.inr ⟨by rw [hpc]; rfl, rfl⟩) hfine rfl rfl)
  | listEnd hpc =>
    exact hstutter (h.quiet (.refl _) (Or.inr ⟨by rw [hpc]; rfl, rfl⟩) hfine rfl rfl)
  | sleep hpc hempty hrun =>
    exact hstutter (h.quiet (.refl _) (Or.inr ⟨by rw [hpc]; rfl, rfl⟩) hfine rfl rfl)
  | start hpc hgo => exact hstutter (h.begin (by rw [hpc]; rfl))
  | startAwake hpc hnotify =>
    have haway : s.worker.away = true := by rw [hpc]; rfl
    exact hstutter (Conveys.begin (h.quiet (.refl _) (Or.inl rfl) hfine rfl rfl) haway)
  | pause hpc hnotify =>
    exact hstutter (h.quiet (.refl _) (Or.inr ⟨by rw [hpc]; rfl, rfl⟩) hfine rfl rfl)
  | resume hpc =>
    exact hstutter (h.quiet (.refl _) (Or.inr ⟨by rw [hpc]; rfl, rfl⟩) hfine rfl rfl)
  | upper hpc =>
    obtain ⟨n, d, hd, ht⟩ := h.upper hpc
    exact hsingle hd ht
  | lower hpc =>
    obtain ⟨n, d, hd, ht⟩ := h.lower hpc
    exact hsingle hd ht
  | note hpc => exact hstutter (h.note hpc)
  | release hpc => exact hstutter (h.release hpc)
  | wakeup hpc =>
    refine hstutter (h.quiet (.refl _) (Or.inr ⟨by rw [hpc]; rfl, rfl⟩) ?_ rfl rfl)
    split
    · intro p hp
      obtain ⟨q, hq, rfl⟩ := List.mem_map.mp hp
      exact fine_broadcast (hfine q hq)
    · exact hfine
  | rouseWork hpc =>
    exact hstutter (h.quiet (.refl _) (Or.inr ⟨by rw [hpc]; rfl, rfl⟩) hfine rfl rfl)
  | stop hpc => exact hstutter (h.quiet (.refl _) (Or.inl rfl) hfine rfl rfl)
  | join hpc => exact hstutter (h.quiet (.refl _) (unmoving_signal s) hfine rfl rfl)

theorem Conveys.init (n : Nat) (block : conf.Block) :
    Conveys conf (Tlog.init n block) .empty := by
  have hmin := conf.buffsize_min
  have hmax := conf.line_max
  refine ⟨⟨block.property, ?_, ?_⟩, ?_, rfl, rfl, [], [], [], [], ?_, nofun, ⟨rfl, rfl⟩, rfl⟩
  · show 0 + conf.maxLineSize ≤ conf.buffsize
    omega
  · show 0 + conf.maxLineSize ≤ conf.buffsize
    omega
  · intro pc hpc
    rw [List.eq_of_mem_replicate hpc]
    exact trivial
  · exact .flat rfl (Nat.le_refl 0) (stretch_self _ _)

/-- **The log is a channel**, in every run in which no line fills the block. -/
theorem log_simulates {n : Nat} {block : conf.Block} {acts : List LogAct}
    (hrun : Run (logStep conf) (NeverFilled conf) (Tlog.init n block) acts s) :
    ∃ bs c, exec channelStep .empty bs = some c ∧ Conveys conf s c :=
  hrun.simulates (fun s a t c h hguard hstep => h.step s a t c hguard hstep) (Conveys.init n block)

end Channel

end Estuary
