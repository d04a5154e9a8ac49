import S4.Records.Refinement

/-!
# Records — Framing

How a stream is cut into frames does not matter to the decoder, except for one kind of cut: between
a record of exactly `max_record_bytes` bytes and the rest of its separator, right behind the `\r`
that the separator starts with.  The decoder then holds one byte more than a record may have, and
rejects the stream (`CutsFullRecord`, `decodeFrames_eq_ok_iff_cuts`).
-/

namespace S4.Records

open Lib List

variable [Parsers] {format : Format} {limits : DecoderLimits} {frames : List Bytes}
  {records : List Record}

/-- The cut between `before` and `after` is behind the `\r` of a separator, and the record before it
has exactly the limit. -/
def CutsFullRecord (format : Format) (limits : DecoderLimits) (before after : Bytes) : Prop :=
  ∃ rs record, (splitter format limits).drain before = some (rs, record ++ [cr]) ∧
    record.length = limits.maxRecordBytes ∧
    match format with
    | .json => False
    | .csv => after ≠ []
    | _ => after.head? = some lf

/-- One of the cuts between frames is such a cut. -/
def CutsFull (format : Format) (limits : DecoderLimits) (frames : List Bytes) : Prop :=
  ∃ before after, before ++ after = frames ∧
    CutsFullRecord format limits before.flatten after.flatten

/-- A rest beyond the limit is a full record and a `\r`. -/
theorem full_of_rest {rest : Bytes} (hmore : (splitter format limits).next rest = .more rest)
    (hfits : fits format limits rest = false) :
    format ≠ .json ∧ ∃ record, rest = record ++ [cr] ∧ record.length = limits.maxRecordBytes := by
  have hline : lineNext limits rest = .more rest → ¬ rest.length ≤ limits.maxRecordBytes →
      ∃ record, rest = record ++ [cr] ∧ record.length = limits.maxRecordBytes := by
    intro hmore hlong
    obtain ⟨hlen, hcr⟩ := (lineNext_more hmore).2.2.resolve_left hlong
    refine ⟨rest.dropLast, (dropLast_append_getLast? cr hcr).symm, ?_⟩
    rw [length_dropLast, hlen, Nat.add_sub_cancel]
  cases format with
  | json =>
    simp only [fits, decide_eq_false_iff_not] at hfits
    simp [splitter, jsonSplitter, jsonNext, hfits] at hmore
  | csv =>
    simp only [fits, decide_eq_false_iff_not] at hfits
    refine ⟨by simp, ?_⟩
    have hskip : skipEmpty rest = rest := (csvRecord_more hmore).symm
    have hrec : csvRecord limits (skipEmpty rest) = .more rest := hmore
    rw [hskip] at hrec
    simp only [csvRecord] at hrec
    split at hrec
    · cases hrec
    · split at hrec
      · next hle => exact absurd hle hfits
      · cases hrec
    · next payload tail hscan =>
      obtain ⟨rfl, byte, bytes, rfl, hb⟩ := csvScan_ends hscan
      split at hrec
      · next hsep =>
        obtain ⟨byte', e, hlf⟩ := csvSeparator_none hsep (cons_ne_nil _ _)
        cases e
        cases hb.resolve_left hlf
        split at hrec
        · next hle =>
          refine ⟨payload, rfl, ?_⟩
          rw [length_append, length_singleton] at hfits
          omega
        · cases hrec
      · split at hrec <;> cases hrec
  | text | jsonl | tsv =>
    simp only [fits, decide_eq_false_iff_not] at hfits
    exact ⟨by simp, hline hmore hfits⟩

/-- Behind a full line and a `\r` only `\n` is accepted. -/
theorem lineNext_full {record after : Bytes} {byte : UInt8}
    (hmore : lineNext limits (record ++ [cr]) = .more (record ++ [cr]))
    (hfull : record.length = limits.maxRecordBytes) (hb : byte ≠ lf) :
    lineNext limits (record ++ [cr] ++ byte :: after) = .fail := by
  have hopen : lf ∉ record ++ [cr] ++ [byte] := by
    simpa [hb.symm] using (lineNext_more hmore).2.1
  have hlong : ¬ lineWaits limits.maxRecordBytes (record ++ [cr] ++ [byte]) := by
    simp only [lineWaits, length_append, length_singleton]
    omega
  have hfail : lineNext limits (record ++ [cr] ++ [byte]) = .fail := by
    rw [lineNext_open hopen, if_neg hlong]
  have := (lineSplitter limits).fail_append hfail after
  rwa [append_assoc _ [byte], singleton_append] at this

/-- A cut that leaves a refused rest in a stream with records is a cut behind a full record. -/
theorem cutsFullRecord_of_refused {before after : Bytes} {e : List Record × Bytes}
    (h : (splitter format limits).Refused (fits format limits) before) (hafter : after ≠ [])
    (hall : (splitter format limits).drain (before ++ after) = some e) :
    CutsFullRecord format limits before after := by
  obtain ⟨rs, rest, hdrain, hfits⟩ := h
  have hmore := Splitter.next_rest hdrain
  obtain ⟨hjson, record, rfl, hfull⟩ := full_of_rest hmore hfits
  have hline : (splitter format limits).next = lineNext limits → after.head? = some lf := by
    intro hnext
    obtain ⟨byte, bytes, rfl⟩ := exists_cons_of_ne_nil hafter
    by_contra hb
    rw [Splitter.drain_append, hdrain, Option.bind_some,
      Splitter.drain_fail (hnext ▸ lineNext_full (hnext ▸ hmore) hfull (by simpa using hb))] at hall
    cases hall
  refine ⟨rs, record, hdrain, hfull, ?_⟩
  cases format with
  | json => exact hjson rfl
  | csv => exact hafter
  | text | jsonl | tsv => exact hline rfl

theorem CutsFullRecord.refused {before after : Bytes}
    (h : CutsFullRecord format limits before after) :
    (splitter format limits).Refused (fits format limits) before ∧ after ≠ [] := by
  obtain ⟨rs, record, hdrain, hfull, hsep⟩ := h
  cases format with
  | json => exact hsep.elim
  | csv => exact ⟨⟨rs, _, hdrain, by simp [fits, hfull]⟩, hsep⟩
  | text | jsonl | tsv =>
    refine ⟨⟨rs, _, hdrain, by simp [fits, hfull]⟩, ?_⟩
    rintro rfl
    cases hsep

/-- **Frames decode to the records of their stream, unless they cut behind a full record.** -/
theorem decodeFrames_eq_ok_iff_cuts (hpos : limits.Positive)
    (hlen : ∀ frame ∈ frames, frame.length ≤ limits.maxSourceFrameBytes) :
    decodeFrames format limits frames = .ok records ↔
      decode format limits frames.flatten = some records ∧ ¬ CutsFull format limits frames := by
  rw [decodeFrames_eq_ok_iff hpos hlen]
  refine and_congr_right fun hdecode => ⟨?_, ?_⟩
  · rintro hcuts ⟨before, after, hb, hfull⟩
    exact hcuts before after hb hfull.refused.2 hfull.refused.1
  · intro hcuts before after hb hafter hrefused
    obtain ⟨e, hdrain, -⟩ := Option.bind_eq_some_iff.mp hdecode
    rw [← hb, flatten_append] at hdrain
    exact hcuts ⟨before, after, hb, cutsFullRecord_of_refused hrefused hafter hdrain⟩

/-- **Framing.**  Two cuttings of a stream give the same records, or both are rejected, exactly if
neither or both cut behind a full record, or if the stream is rejected however it is cut; one that
cuts behind a full record is rejected. -/
theorem decodeFrames_framing {frames₁ frames₂ : List Bytes}
    (hlen₁ : ∀ frame ∈ frames₁, frame.length ≤ limits.maxSourceFrameBytes)
    (hlen₂ : ∀ frame ∈ frames₂, frame.length ≤ limits.maxSourceFrameBytes)
    (hstream : frames₁.flatten = frames₂.flatten) :
    ((∀ records, decodeFrames format limits frames₁ = .ok records ↔
        decodeFrames format limits frames₂ = .ok records) ↔
      (CutsFull format limits frames₁ ↔ CutsFull format limits frames₂) ∨
        decode format limits frames₁.flatten = none ∨ ¬ limits.Positive) ∧
    (CutsFull format limits frames₁ → ∀ records,
    decodeFrames format limits frames₁ ≠ .ok records) := by
  by_cases hpos : limits.Positive
  · simp only [ne_eq, decodeFrames_eq_ok_iff_cuts hpos hlen₁,
      decodeFrames_eq_ok_iff_cuts hpos hlen₂, hstream]
    refine ⟨?_, fun hfull records h => h.2 hfull⟩
    cases decode format limits frames₂.flatten with
    | none => simp
    | some => simp [hpos, not_iff_not]
  · -- no decoder is made with such limits
    obtain ⟨e, he⟩ := new_error format hpos
    simp [decodeFrames, he, hpos]

/-! ### A cut that matters -/

/-- Parsers that accept everything. -/
abbrev lenientParsers : Parsers where
  utf8 _ := .ok ()
  json _ := .ok ()
  csv input _ := ⟨true, input.length, 1⟩

/-- Records of three bytes. -/
def smallLimits : DecoderLimits where
  maxSourceFrameBytes := 8
  maxRecordBytes := 3
  maxJsonDocumentBytes := 8
  maxCsvFields := 8

omit [Parsers] in
/-- `abc\r\n` in one frame, and cut between `\r` and `\n`. -/
theorem cut_in_separator_rejects : letI := lenientParsers
    decodeFrames .text smallLimits [[0x61, 0x62, 0x63, cr, lf]] =
      .ok [⟨[0x61, 0x62, 0x63], [cr, lf]⟩] ∧
    decodeFrames .text smallLimits [[0x61, 0x62, 0x63, cr], [lf]] =
      .error ⟨Codes.recordTooLarge, "record size 4 exceeds limit 3"⟩ := by
  let _ := lenientParsers
  decide +kernel

omit [Parsers] in
/-- The cut in the separator of `ab\r\n` is behind a record below the limit. -/
theorem short_record_framing : letI := lenientParsers
    decodeFrames .text smallLimits [[0x61, 0x62, cr], [lf]] = .ok [⟨[0x61, 0x62], [cr, lf]⟩] := by
  let _ := lenientParsers
  have hwait : (splitter .text smallLimits).drain [0x61, 0x62, cr] =
      some ([], [0x61, 0x62, cr]) := Splitter.drain_more rfl
  have hcut₁ : ¬ CutsFull .text smallLimits [[0x61, 0x62, cr], [lf]] := by
    rintro ⟨before, after, hb, rs, record, hdrain, hfull, hlf⟩
    match before with
    | [] =>
      rw [flatten_nil, Splitter.drain_more next_nil] at hdrain
      simp at hdrain
    | [frame] =>
      cases hb
      rw [flatten_singleton, hwait] at hdrain
      have := congrArg (fun e => (e.map fun e => e.2.length)) hdrain
      simp [hfull, smallLimits] at this
    | frame :: frame' :: before =>
      simp only [cons_append, cons.injEq, append_eq_nil_iff] at hb
      simp [hb.2.2.2] at hlf
  have hcut₂ : ¬ CutsFull .text smallLimits [[0x61, 0x62, cr, lf]] := by
    rintro ⟨before, after, hb, rs, record, hdrain, hfull, hlf⟩
    match before with
    | [] =>
      rw [flatten_nil, Splitter.drain_more next_nil] at hdrain
      simp at hdrain
    | frame :: before =>
      simp only [cons_append, cons.injEq, append_eq_nil_iff] at hb
      simp [hb.2.2] at hlf
  have hstream : ([[0x61, 0x62, cr], [lf]] : List Bytes).flatten =
      ([[0x61, 0x62, cr, lf]] : List Bytes).flatten := rfl
  have hwhole : decodeFrames .text smallLimits [[0x61, 0x62, cr, lf]] =
      .ok [⟨[0x61, 0x62], [cr, lf]⟩] := by decide +kernel
  exact ((decodeFrames_framing (by decide) (by decide) hstream).1.mpr
    (.inl (iff_of_false hcut₁ hcut₂)) _).mpr hwhole

end S4.Records
