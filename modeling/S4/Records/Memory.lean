import S4.Lib.Fallible
import S4.Lib.Reach
import S4.Records.Output

/-!
# Records — Memory

How much a decoder holds.  A caller drains the decoder after each push (`Calls`).  Then between the
calls the decoder holds at most a record and a frame, and at most a record when it has been drained
(`bufferedBytes_bounded`).  The limit is checked when a record is found and when none is, so that
the bound is an invariant of the loop of the caller and not of a single call.
-/

namespace S4.Records

open Lib Option

/-- What a record of the format may have. -/
def recordLimit (format : Format) (limits : DecoderLimits) : Nat :=
  match format with
  | .json => limits.maxJsonDocumentBytes
  | _ => limits.maxRecordBytes

/-- A decoder in the hands of a caller, and whether the caller has drained it. -/
structure Caller where
  decoder : RecordDecoder
  drained : Bool

inductive Call where
  | push (chunk : Bytes)
  | nextRecord
deriving DecidableEq

/-- The calls that succeed.  The caller pushes only when there has been no further record. -/
inductive Calls [Parsers] : Caller → Call → Caller → Prop where
  | push {c : Caller} {chunk : Bytes} {d : RecordDecoder} (hdrained : c.drained = true)
      (h : c.decoder.push chunk = .ok d) : Calls c (.push chunk) ⟨d, false⟩
  | nextRecord {c : Caller} {record : Option Record} {d : RecordDecoder}
      (h : c.decoder.nextRecord = .ok (record, d)) : Calls c .nextRecord ⟨d, record.isNone⟩

/-- A new decoder. -/
def Caller.Starts (format : Format) (limits : DecoderLimits) (c : Caller) : Prop :=
  RecordDecoder.new format limits = .ok c.decoder ∧ c.drained = true

variable {format : Format} {limits : DecoderLimits} {c c' : Caller} {d d' : RecordDecoder}

theorem fits_iff {rest : Bytes} : fits format limits rest = true ↔
    rest.length ≤ recordLimit format limits := by
  cases format <;> simp [fits, recordLimit]

/-- A decoder before the end of its stream. -/
structure RecordDecoder.Runs (d : RecordDecoder) (format : Format) (limits : DecoderLimits) :
    Prop where
  format : d.format = format
  limits : d.limits = limits
  finished : d.finished = false
  complete : d.complete = false
  scanned : d.Scanned

/-- The decoder holds no record and what may become one. -/
def RecordDecoder.Drained (d : RecordDecoder) (format : Format) (limits : DecoderLimits) : Prop :=
  d.ready = none ∧ d.pending.length ≤ recordLimit format limits

theorem RecordDecoder.Drained.bufferedBytes (h : d.Drained format limits) :
    d.bufferedBytes ≤ recordLimit format limits := by
  simpa [RecordDecoder.bufferedBytes, h.1] using h.2

theorem RecordDecoder.Runs.buffers {pending : Bytes} {ready : Option Record}
    (h : d.Runs format limits) (hb : d.Buffers d' pending ready) : d'.Runs format limits :=
  ⟨hb.format.trans h.format, hb.limits.trans h.limits, hb.finished.trans h.finished,
    hb.complete.trans h.complete, hb.scanned⟩

/-- What holds between the calls. -/
structure Caller.Bounded (c : Caller) (format : Format) (limits : DecoderLimits) : Prop where
  runs : c.decoder.Runs format limits
  bytes : c.decoder.bufferedBytes ≤ recordLimit format limits + limits.maxSourceFrameBytes
  drained : c.drained = true → c.decoder.Drained format limits

theorem Caller.Bounded.of_drained {drained : Bool} (h : d.Runs format limits)
    (hd : d.Drained format limits) : Caller.Bounded ⟨d, drained⟩ format limits :=
  ⟨h, Nat.le_add_right_of_le hd.bufferedBytes, fun _ => hd⟩

theorem Caller.Bounded.starts (h : c.Starts format limits) : c.Bounded format limits := by
  by_cases hpos : limits.Positive
  · obtain ⟨d, hnew, hd⟩ := new_eq format hpos
    obtain rfl : d = c.decoder := Except.ok.inj (hnew.symm.trans h.1)
    exact .of_drained ⟨hd.format, hd.limits, hd.finished, hd.complete, hd.scanned⟩
      ⟨hd.ready, by simp [hd.pending]⟩
  · obtain ⟨e, he⟩ := new_error format hpos
    cases he.symm.trans h.1

variable [Parsers]

/-- **The decoder finds a record in what it holds, or holds no more than a record.** -/
theorem RecordDecoder.Runs.prepareNext (h : d.Runs format limits) (hr : d.ready = none)
    (hd' : d.prepareNext false = .ok d') :
    d'.Runs format limits ∧
      (d'.Drained format limits ∨ d'.ready.isSome = true ∧ d'.bufferedBytes ≤ d.bufferedBytes) := by
  have hprep := RecordDecoder.prepareNext_spec h.scanned hr h.complete
  rw [h.format, h.limits, hd'] at hprep
  cases hnext : (splitter format limits).next d.pending with
  | found =>
    rw [hnext] at hprep
    obtain ⟨d'', hok, hb⟩ := hprep
    cases hok
    have hlen := length_of_found hnext
    refine ⟨h.buffers hb, .inr ⟨by rw [hb.ready]; rfl, ?_⟩⟩
    simp only [RecordDecoder.bufferedBytes, hb.ready, hb.pending, hr, map_some, map_none,
      getD_some, getD_none]
    omega
  | more =>
    rw [hnext] at hprep
    simp only [RecordDecoder.Prepares, h.format, h.limits] at hprep
    split at hprep
    · next hfits =>
      obtain ⟨d'', hok, hb⟩ := hprep
      cases hok
      exact ⟨h.buffers hb, .inl ⟨hb.ready, hb.pending ▸ fits_iff.mp hfits⟩⟩
    · obtain ⟨e, he⟩ := hprep
      cases he
  | fail =>
    rw [hnext] at hprep
    obtain ⟨e, he⟩ := hprep
    cases he

namespace Caller.Bounded

/-- The frame comes behind at most a record. -/
theorem push {chunk : Bytes} (h : c.Bounded format limits) (hdrained : c.drained = true)
    (hpush : c.decoder.push chunk = .ok d) : Bounded ⟨d, false⟩ format limits := by
  obtain ⟨hr, hlen⟩ := h.drained hdrained
  rw [RecordDecoder.push, if_neg (by simp [h.runs.finished]), if_neg (by simp [hr])] at hpush
  split at hpush
  · cases hpush
  · next hchunk =>
    rw [h.runs.limits, not_lt] at hchunk
    have hruns : RecordDecoder.Runs { c.decoder with
        inputSeen := c.decoder.inputSeen || !chunk.isEmpty
        pending := c.decoder.pending ++ chunk } format limits :=
      ⟨h.runs.format, h.runs.limits, h.runs.finished, h.runs.complete,
        h.runs.scanned.append chunk _⟩
    obtain ⟨hd, hdrained' | ⟨-, hle⟩⟩ := hruns.prepareNext hr hpush
    · exact of_drained hd hdrained'
    · refine ⟨hd, hle.trans ?_, by simp⟩
      simp only [RecordDecoder.bufferedBytes, hr, List.length_append, map_none, getD_none]
      omega

omit [Parsers] in
/-- A record that is taken is no longer held. -/
theorem take {r : Record} (h : c.Bounded format limits) (hr : c.decoder.ready = some r) :
    Bounded ⟨{ c.decoder with ready := none, recordsEmitted := c.decoder.recordsEmitted + 1 },
      false⟩ format limits := by
  refine ⟨⟨h.runs.format, h.runs.limits, h.runs.finished, h.runs.complete, h.runs.scanned⟩,
    ?_, by simp⟩
  have hbytes := h.bytes
  simp only [RecordDecoder.bufferedBytes, hr, map_some, map_none, getD_some,
    getD_none] at hbytes ⊢
  omega

theorem nextRecord {record : Option Record} (h : c.Bounded format limits)
    (hnext : c.decoder.nextRecord = .ok (record, d)) :
    Bounded ⟨d, record.isNone⟩ format limits := by
  simp only [RecordDecoder.nextRecord, h.runs.finished] at hnext
  split at hnext
  next hnone =>
    obtain ⟨d₁, hd₁, hnext⟩ := bind_eq_ok.mp hnext
    obtain ⟨hruns, hprepared⟩ := h.runs.prepareNext (by simpa using hnone) hd₁
    split at hnext
    next hready =>
      cases hnext
      rcases hprepared with hdrained | ⟨hsome, -⟩
      · exact of_drained hruns hdrained
      · rw [hready] at hsome
        cases hsome
    next r hready =>
    cases hnext
    rcases hprepared with hdrained | ⟨-, hle⟩
    · exact take (c := ⟨d₁, false⟩) (of_drained hruns hdrained) hready
    · exact take (c := ⟨d₁, false⟩) ⟨hruns, hle.trans h.bytes, by simp⟩ hready
  next hsome =>
  obtain ⟨d₁, hd₁, hnext⟩ := bind_eq_ok.mp hnext
  cases hd₁
  split at hnext
  next hready => exact absurd hready (by simpa using hsome)
  next r hready =>
  cases hnext
  exact h.take hready

end Caller.Bounded

/-- **Decoding in bounded memory.**  Between the calls of a caller that drains the decoder after
each push, it holds at most a record and a frame, and when it is drained at most a record. -/
theorem bufferedBytes_bounded (h : Reach (Caller.Starts format limits) Calls c) :
    c.decoder.bufferedBytes ≤ recordLimit format limits + limits.maxSourceFrameBytes ∧
      (c.drained = true → c.decoder.bufferedBytes ≤ recordLimit format limits) := by
  have hbounded : c.Bounded format limits := by
    refine h.invariant (I := fun c => c.Bounded format limits) (fun c => Caller.Bounded.starts) ?_
    rintro c call c' - hc (⟨hdrained, hpush⟩ | hnext)
    · exact hc.push hdrained hpush
    · exact hc.nextRecord hnext
  exact ⟨hbounded.bytes, fun hdrained => (hbounded.drained hdrained).bufferedBytes⟩

omit [Parsers] in
/-- A frame with a line and a part of the next one. -/
theorem pushed_line_bounded : letI := lenientParsers
    ∃ c, Reach (Caller.Starts .text smallLimits) Calls c ∧ c.decoder.bufferedBytes = 3 ∧
      c.decoder.bufferedBytes ≤ 11 := by
  let _ := lenientParsers
  obtain ⟨d, d', hnew, hpush, hbytes⟩ : ∃ d d', RecordDecoder.new .text smallLimits = .ok d ∧
      d.push [0x61, lf, 0x62] = .ok d' ∧ d'.bufferedBytes = 3 := ⟨_, _, rfl, rfl, rfl⟩
  have hreach : Reach (Caller.Starts .text smallLimits) Calls ⟨d', false⟩ :=
    .step (.init (s := ⟨d, true⟩) ⟨hnew, rfl⟩) (.push rfl hpush)
  exact ⟨_, hreach, hbytes, (bufferedBytes_bounded hreach).1⟩

end S4.Records
