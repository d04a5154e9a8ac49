import S4.Pipeline.Composition
import S4.Records.Reassembly
import S4.Staging.Assembly
import S4.Staging.Durability

/-!
# Staging — Contents

What a completed upload is made of.  A part that the repository has was committed by an upload whose
writer had written some plaintext (`WrittenAs`), and its size and digests are those of the
plaintext.  A completion that comes to its commit has read, for every selected part, bytes with that
size and those digests (`readParts_follows`); with a digest that has no collisions they are the
plaintext, whatever the artifact store returned.  The decoder or the binary processor was given
them, and what came out is what the destination has (`completion_feeds_plaintexts`).
-/

namespace S4.Staging

open Lib List MemoryState EncryptedPartWriter
open Records (Record RecordDecoder SegmentParsers recordBytes)
open Pipeline (PipelineSession processAll)

variable {part : MultipartPart} {parts : List MultipartPart} {s : MemoryState}
  {record : Record} {pk : String × Nat}

/-! ### What was written -/

section Written

variable [Primitives] [Aead]

/-- The part is what an upload commits whose writer was given the plaintext. -/
def WrittenAs (part : MultipartPart) (plaintext : Bytes) : Prop :=
  ∃ env identity metadata maxBytes wrapping w₀ writes w failure finished,
    start env identity part.partNumber part.attempt metadata maxBytes wrapping =
      .ok w₀ ∧
    w₀.writeAll writes = .ok w ∧ w.finish failure = .ok finished ∧
    plaintext = (writes.map (·.2.2)).flatten ∧
    part.sizeBytes = finished.sizeBytes ∧ part.checksumSha256 = finished.checksumSha256 ∧
    part.etag = finished.etag

omit [Primitives] in
/-- The writer counts and absorbs what it is given. -/
theorem writeAll_absorbs {w w' : EncryptedPartWriter}
    {writes : List (Nonce × Option ArtifactError × Bytes)} (h : w.writeAll writes = .ok w') :
    w'.sha256 = w.sha256 ++ (writes.map (·.2.2)).flatten := by
  induction writes generalizing w with
  | nil =>
    cases h
    exact (append_nil _).symm
  | cons e writes ih =>
    obtain ⟨nonce, failure, plaintext⟩ := e
    rw [writeAll] at h
    obtain ⟨w₁, hwrite, h⟩ := bind_eq_ok.mp h
    obtain ⟨ciphertext, _, rfl⟩ := write_ok hwrite
    rw [ih h, map_cons, flatten_cons, append_assoc]

theorem WrittenAs.checksum {plaintext : Bytes} (h : WrittenAs part plaintext) :
    part.checksumSha256 = hexText (Primitives.sha256 plaintext) := by
  obtain ⟨env, identity, metadata, maxBytes, wrapping, w₀, writes, w, failure, finished, hstart,
    hwrite, hfinish, rfl, _, hchecksum, _⟩ := h
  have hempty : w₀.sha256 = [] := by
    rw [start] at hstart
    repeat' split at hstart
    all_goals cases hstart
    rfl
  rw [hchecksum]
  cases failure with
  | some => cases hfinish
  | none =>
    cases hfinish
    rw [writeAll_absorbs hwrite, hempty, nil_append]

end Written

theorem hexText_injective : Function.Injective hexText := by
  intro a b h
  have hdigit : Function.Injective fun digit : UInt8 => Char.ofNat digit.toNat := by
    have hback : ∀ b : UInt8, UInt8.ofNat (Char.ofNat b.toNat).toNat = b :=
      forall_byte (by decide +kernel)
    intro a b hab
    exact (hback a).symm.trans ((congrArg (fun c : Char => UInt8.ofNat c.toNat) hab).trans
      (hback b))
  have henc : hexEncode a = hexEncode b :=
    map_injective_iff.mpr hdigit (String.ofList_injective h)
  have hdec := congrArg hexDecode henc
  rw [hexDecode_hexEncode, hexDecode_hexEncode] at hdec
  exact Option.some.inj hdec

/-! ### What is read -/

section Read

variable {σ τ : Type} {env : CompletionEnv σ} {c c' : Completing τ} {handler : Handler τ}
  {P : List (List Bytes) → List Bytes → τ → Prop} {segments : List (List Bytes)}
    {frames : List Bytes}

/-- The property of the lane follows what the handler is given: the frames of the parts that have
ended, and those of the part that is read. -/
structure Handler.Follows (handler : Handler τ) (P : List (List Bytes) → List Bytes → τ → Prop) :
    Prop where
  chunk : ∀ {segments frames bytes c c'}, P segments frames c.lane →
    handler.chunk bytes c = .ok c' → P segments (frames ++ [bytes]) c'.lane
  endOfPart : ∀ {segments frames c c'}, P segments frames c.lane → handler.endOfPart c = .ok c' →
    P (segments ++ [frames]) [] c'.lane

theorem renewAndFenceCompletion_lane (h : renewAndFenceCompletion env c = .ok c') :
    c'.lane = c.lane := by
  rw [renewAndFenceCompletion] at h
  split at h
  · cases h
  · cases h
    rfl

/-- The chunks that a part's loop has absorbed are those that the handler was given. -/
theorem readChunks_follows (hfollows : handler.Follows P) (hlane : P segments frames c.lane)
    {items : List (Except ArtifactError Bytes)} {read read' : PartRead}
    (h : readChunks env handler part items read c = .ok (read', c')) :
    ∃ taken, read'.absorbed = read.absorbed ++ taken.flatten ∧
      P segments (frames ++ taken) c'.lane := by
  induction items generalizing read c frames with
  | nil =>
    rw [readChunks] at h
    obtain ⟨c₁, hfence, h⟩ := bind_eq_ok.mp h
    cases h
    refine ⟨[], (append_nil _).symm, ?_⟩
    rwa [append_nil, renewAndFenceCompletion_lane hfence]
  | cons item items ih =>
    rw [readChunks] at h
    obtain ⟨c₁, hfence, h⟩ := bind_eq_ok.mp h
    obtain ⟨chunk, _, h⟩ := bind_eq_ok.mp h
    split at h
    · cases h
    split at h
    · cases h
    obtain ⟨c₂, hchunk, h⟩ := bind_eq_ok.mp (ite_error_eq_ok.mp h).2
    rw [← renewAndFenceCompletion_lane hfence] at hlane
    obtain ⟨taken, habsorbed, hlane'⟩ := ih (hfollows.chunk (by exact hlane) hchunk) h
    refine ⟨chunk :: taken, by rw [habsorbed, append_assoc]; rfl, ?_⟩
    rwa [append_assoc] at hlane'

variable [Primitives] [Aead] {identity : MultipartIdentity} {snapshot : MultipartSnapshot}

theorem readPart_follows (hfollows : handler.Follows P) (hlane : P segments [] c.lane)
    (h : readPart env handler identity snapshot part c = .ok c') :
    ∃ frames, P (segments ++ [frames]) [] c'.lane ∧
      hexText (Primitives.sha256 frames.flatten) = part.checksumSha256 := by
  rw [readPart] at h
  simp only [bind_eq_ok] at h
  obtain ⟨c₁, hfence₁, body, _, c₂, hfence₂, reader, _, ⟨read, c₃⟩, hread, h⟩ := h
  simp only at h
  split at h
  · cases h
  next hmatch =>
  simp only [not_or, not_not] at hmatch
  rw [← renewAndFenceCompletion_lane hfence₁, ← renewAndFenceCompletion_lane hfence₂] at hlane
  obtain ⟨frames, habsorbed, hlane'⟩ := readChunks_follows hfollows hlane hread
  refine ⟨frames, hfollows.endOfPart hlane' h, ?_⟩
  rw [← hmatch.2.1, habsorbed, nil_append]

/-- Bytes for each part, with its checksum. -/
def HaveChecksums (parts : List MultipartPart) (contents : List Bytes) : Prop :=
  List.Forall₂ (fun part bytes => hexText (Primitives.sha256 bytes) = part.checksumSha256) parts
    contents

/-- **What the handler is given for the parts has their checksums**, in their order. -/
theorem readParts_follows (hfollows : handler.Follows P) (hlane : P segments [] c.lane)
    (h : readParts env handler identity snapshot parts c = .ok c') :
    ∃ taken, P (segments ++ taken) [] c'.lane ∧ HaveChecksums parts (taken.map flatten) := by
  induction parts generalizing c segments with
  | nil =>
    cases h
    exact ⟨[], by rwa [append_nil], .nil⟩
  | cons part parts ih =>
    rw [readParts] at h
    obtain ⟨c₁, hpart, h⟩ := bind_eq_ok.mp h
    obtain ⟨frames, hframes, hchecksum⟩ := readPart_follows hfollows hlane hpart
    obtain ⟨taken, htaken, hcontents⟩ := ih hframes h
    rw [append_assoc] at htaken
    exact ⟨frames :: taken, htaken, .cons hchecksum hcontents⟩

end Read

/-! ### Records -/

section Piped

variable {σ : Type} {env : CompletionEnv σ} {c c' : Completing (RecordLane σ)}

/-- All that writing changes. -/
def Wrote (bytes : Bytes) (c c' : Completing (RecordLane σ)) : Prop :=
  c'.lane.decoder = c.lane.decoder ∧ c'.lane.pipeline = c.lane.pipeline ∧
    c'.lane.ticks = c.lane.ticks ∧ c'.lane.output = c.lane.output ++ bytes

theorem Wrote.trans {c₁ : Completing (RecordLane σ)} {bytes later : Bytes} (h : Wrote bytes c c₁)
    (h' : Wrote later c₁ c') : Wrote (bytes ++ later) c c' := by
  obtain ⟨hdecoder, hpipeline, hticks, houtput⟩ := h'
  refine ⟨hdecoder.trans h.1, hpipeline.trans h.2.1, hticks.trans h.2.2.1, ?_⟩
  rw [houtput, h.2.2.2, append_assoc]

theorem writeCompletedBytes_wrote {chunk : Bytes} (h : writeCompletedBytes env chunk c = .ok c') :
    Wrote chunk c c' := by
  rw [writeCompletedBytes] at h
  split at h
  · next hnil =>
    cases h
    exact ⟨rfl, rfl, rfl, by rw [hnil, append_nil]⟩
  obtain ⟨c₁, hfence, h⟩ := bind_eq_ok.mp h
  split at h
  · cases h
  obtain ⟨_, _, h⟩ := bind_eq_ok.mp h
  cases h
  simp [Wrote, renewAndFenceCompletion_lane hfence]

theorem writeCompletedRecord_wrote (h : writeCompletedRecord env record c = .ok c') :
    Wrote (record.payload ++ record.separator) c c' := by
  rw [writeCompletedRecord] at h
  obtain ⟨c₁, hpayload, h⟩ := bind_eq_ok.mp h
  exact (writeCompletedBytes_wrote hpayload).trans (writeCompletedBytes_wrote h)

theorem writeRecords_wrote {records : List Record} (h : writeRecords env records c = .ok c') :
    Wrote (recordBytes records) c c' := by
  induction records generalizing c with
  | nil =>
    cases h
    exact ⟨rfl, rfl, rfl, (append_nil _).symm⟩
  | cons record records ih =>
    rw [writeRecords] at h
    obtain ⟨c₁, hrecord, h⟩ := bind_eq_ok.mp h
    exact (writeCompletedRecord_wrote hrecord).trans (ih h)

variable [SegmentParsers] {session : PipelineSession σ} {records : List Record}

/-- The records have gone through the pipeline, and what came out was written. -/
def Piped (env : CompletionEnv σ) (session : PipelineSession σ) (records : List Record)
    (lane : RecordLane σ) : Prop :=
  ∃ out, processAll env.clock 0 session records = .ok (out, lane.pipeline) ∧
    lane.ticks = records.length ∧ lane.output = recordBytes out

theorem processAll_concat {clock : Nat → Int} {index : Nat} {s s' s'' : PipelineSession σ}
    {out : List Record} {next : Option Record}
    (h : processAll clock index s records = .ok (out, s'))
    (hnext : s'.process (clock (index + records.length)) record = .ok (next, s'')) :
    processAll clock index s (records ++ [record]) = .ok (out ++ next.toList, s'') := by
  induction records generalizing index s out with
  | nil =>
    cases h
    simp only [length_nil, Nat.add_zero] at hnext
    simp [processAll, hnext]
  | cons first records ih =>
    rw [processAll] at h
    obtain ⟨⟨o, s₁⟩, hfirst, h⟩ := bind_eq_ok.mp h
    obtain ⟨⟨out', s₂⟩, hrest, h⟩ := bind_eq_ok.mp h
    cases h
    rw [length_cons, ← Nat.add_assoc, Nat.add_right_comm] at hnext
    simp [processAll, hfirst, ih hrest hnext]

theorem processRecord_piped (h : Piped env session records c.lane)
    (hrecord : processRecord env record c = .ok c') :
    c'.lane.decoder = c.lane.decoder ∧ Piped env session (records ++ [record]) c'.lane := by
  obtain ⟨out, hall, hticks, houtput⟩ := h
  rw [processRecord] at hrecord
  obtain ⟨⟨next, pipeline⟩, hprocess, hrecord⟩ := bind_eq_ok.mp hrecord
  have hprocess := mapError_eq_ok.mp hprocess
  rw [hticks, ← Nat.zero_add records.length] at hprocess
  have hpiped := processAll_concat hall hprocess
  cases next with
  | none =>
    cases hrecord
    exact ⟨rfl, _, hpiped, by simp [hticks], by simp [houtput]⟩
  | some =>
    obtain ⟨hdecoder, hpipeline, hticks', houtput'⟩ := writeCompletedRecord_wrote hrecord
    refine ⟨hdecoder, _, by rw [hpipeline]; exact hpiped, by simp [hticks', hticks], ?_⟩
    simp [houtput', houtput, recordBytes]

/-- The loop takes the records that the decoder has. -/
theorem processRecords_piped {fuel : Nat} (h : Piped env session records c.lane)
    (hrecords : processRecords env fuel c = .ok c') :
    ∃ drained, c.lane.decoder.drainRecords fuel = .ok (drained, c'.lane.decoder) ∧
      Piped env session (records ++ drained) c'.lane := by
  induction fuel generalizing c records with
  | zero =>
    cases hrecords
    exact ⟨[], rfl, by rwa [append_nil]⟩
  | succ fuel ih =>
    rw [processRecords] at hrecords
    obtain ⟨⟨next, decoder⟩, hnext, hrecords⟩ := bind_eq_ok.mp hrecords
    have hnext := mapError_eq_ok.mp hnext
    cases next with
    | none =>
      cases hrecords
      exact ⟨[], by simp [RecordDecoder.drainRecords, hnext], by rwa [append_nil]⟩
    | some record =>
      obtain ⟨c₁, hrecord, hrecords⟩ := bind_eq_ok.mp hrecords
      obtain ⟨hdecoder, hpiped⟩ := processRecord_piped (by exact h) hrecord
      obtain ⟨drained, hdrained, hpiped'⟩ := ih hpiped hrecords
      rw [hdecoder] at hdrained
      refine ⟨record :: drained, ?_, by simpa using hpiped'⟩
      simp [RecordDecoder.drainRecords, hnext, hdrained]

/-- The decoder was given the segments and then the frames, and its records went through the
pipeline. -/
def Decoded (env : CompletionEnv σ) (decoder : RecordDecoder) (session : PipelineSession σ)
    (segments : List (List Bytes)) (frames : List Bytes) (lane : RecordLane σ) : Prop :=
  ∃ before d records, decoder.pushSegments segments = .ok (before, d) ∧
    d.pushFrames frames = .ok (records, lane.decoder) ∧ Piped env session (before ++ records) lane

theorem pushSegments_concat {segments : List (List Bytes)} {frames : List Bytes}
    {d d' d'' : RecordDecoder}
    {last : List Record} (h : d.pushSegments segments = .ok (records, d'))
    (hlast : d'.pushSegment frames = .ok (last, d'')) :
    d.pushSegments (segments ++ [frames]) = .ok (records ++ last, d'') := by
  induction segments generalizing d records with
  | nil =>
    cases h
    simp [RecordDecoder.pushSegments, hlast]
  | cons first segments ih =>
    rw [RecordDecoder.pushSegments] at h
    obtain ⟨⟨rs, d₁⟩, hfirst, h⟩ := bind_eq_ok.mp h
    obtain ⟨⟨rs', d₂⟩, hrest, h⟩ := bind_eq_ok.mp h
    cases h
    simp [RecordDecoder.pushSegments, hfirst, ih hrest]

/-- **The decoder is given the chunks**, and told where the parts end. -/
theorem recordHandler_follows (env : CompletionEnv σ) (decoder : RecordDecoder)
    (session : PipelineSession σ) : (recordHandler env).Follows (Decoded env decoder session) where
  chunk := by
    rintro segments frames bytes c c' ⟨before, d, records, hsegments, hframes, hpiped⟩ h
    obtain ⟨pushed, hpush, h⟩ := bind_eq_ok.mp h
    obtain ⟨drained, hdrained, hpiped'⟩ := processRecords_piped (by exact hpiped) h
    refine ⟨before, d, records ++ drained, hsegments, ?_, by rwa [← append_assoc]⟩
    rw [Records.pushFrames_append, hframes]
    simp [RecordDecoder.pushFrames, mapError_eq_ok.mp hpush, RecordDecoder.drain, hdrained]
  endOfPart := by
    rintro segments frames c c' ⟨before, d, records, hsegments, hframes, hpiped⟩ h
    obtain ⟨ended, hend, h⟩ := bind_eq_ok.mp h
    obtain ⟨drained, hdrained, hpiped'⟩ := processRecords_piped (by exact hpiped) h
    have hsegment : d.pushSegment frames = .ok (records ++ drained, c'.lane.decoder) := by
      simp [RecordDecoder.pushSegment, hframes, mapError_eq_ok.mp hend, RecordDecoder.drain,
        hdrained]
    exact ⟨_, _, [], pushSegments_concat hsegments hsegment, rfl, by simpa using hpiped'⟩

end Piped

/-! ### Completions that commit -/

section Committing

variable {σ τ : Type} {env : CompletionEnv σ}
  {identity : MultipartIdentity} {upload : MultipartUpload} {lease : CompletionLease}
  {c c' : Completing τ}

theorem beginCompletion_lane {lane : τ} (h : beginCompletion env lane = .ok c) : c.lane = lane := by
  rw [beginCompletion] at h
  obtain ⟨c₁, hfence, h⟩ := bind_eq_ok.mp h
  obtain ⟨_, _, h⟩ := bind_eq_ok.mp h
  cases h
  exact renewAndFenceCompletion_lane hfence

theorem prepareCommit_lane (h : prepareCommit env c = .ok c') : c'.lane = c.lane := by
  rw [prepareCommit] at h
  simp only [bind_eq_ok] at h
  obtain ⟨_, _, c₁, hfence, _, _, h⟩ := h
  rw [renewAndFenceCompletion_lane h, renewAndFenceCompletion_lane hfence]

/-- **What the destination is given for the contents of the parts.**  The binary processor has had
them one behind the other.  For records, each part was a segment, which the decoder was given in
some frames; the records of the decoder went through a session, and the bytes of what came out were
written. -/
def Processed.Of [SegmentParsers] (env : CompletionEnv σ) (contents : List Bytes) : Processed → Prop
  | .avro input output => input = contents.flatten ∧ env.processOcf input = .ok output
  | .records format output => ∃ segments records session out ended trailing fuel,
      segments.map flatten = contents ∧
      Records.decodeSegments format env.decoderLimits segments = .ok records ∧
      env.startSession format = .ok session ∧
      processAll env.clock 0 session records = .ok (out, ended) ∧
      ended.finishWithFuel (fun n => env.clock (records.length + n)) = .ok (trailing, fuel) ∧
      output = recordBytes (out ++ trailing)

/-- The chunks are gathered for the binary processor. -/
def Gathered (segments : List (List Bytes)) (frames : List Bytes) (input : Bytes) : Prop :=
  input = (segments.map flatten).flatten ++ frames.flatten

theorem avroHandler_follows (env : CompletionEnv σ) : (avroHandler env).Follows Gathered where
  chunk := by
    rintro segments frames bytes c c' hlane ⟨⟩
    rw [Gathered] at hlane
    simp [Gathered, hlane]
  endOfPart := by
    rintro segments frames c c' hlane ⟨⟩
    simpa [Gathered] using hlane

variable [Primitives] [Aead] [SegmentParsers]

theorem assembleAvro_processed {c : Completing Bytes} {output : Bytes}
    (h : assembleAvro env identity upload lease = .ok (c, output)) :
    ∃ contents, HaveChecksums lease.selectedParts contents ∧
      (Processed.avro c.lane output).Of env contents := by
  rw [assembleAvro] at h
  simp only [bind_eq_ok] at h
  obtain ⟨c₁, hbegin, c₂, hfence₂, c₃, hparts, _, hprocess, c₄, hfence₄, _, _, c₅, hprepare, h⟩ := h
  cases h
  have hstart : Gathered [] [] c₂.lane :=
    (renewAndFenceCompletion_lane hfence₂).trans (beginCompletion_lane hbegin)
  obtain ⟨segments, hlane, hcontents⟩ := readParts_follows (avroHandler_follows env) hstart hparts
  have hsame : c.lane = c₃.lane :=
    (prepareCommit_lane hprepare).trans (renewAndFenceCompletion_lane hfence₄)
  refine ⟨_, hcontents, ?_, by rwa [hsame]⟩
  simpa [hsame, Gathered] using hlane

theorem assembleRecords_processed {format : Records.Format} {c : Completing (RecordLane σ)}
    (h : assembleRecords env identity upload lease format = .ok c) :
    ∃ contents, HaveChecksums lease.selectedParts contents ∧
      (Processed.records format c.lane.output).Of env contents := by
  rw [assembleRecords] at h
  simp only [bind_eq_ok] at h
  obtain ⟨started, _, session, hsession, decoder, hnew, c₁, hparts, finished, hfinish, c₂, hdrain,
    ⟨trailing, fuel⟩, htrailing, c₃, hwrite, c₄, hfence, h⟩ := h
  have hempty : Decoded env decoder session [] [] ⟨decoder, session, [], 0, 0, 0⟩ :=
    ⟨[], decoder, [], rfl, rfl, [], rfl, rfl, rfl⟩
  obtain ⟨segments, ⟨records, d, last, hsegments, hlast, hpiped⟩, hcontents⟩ :=
    readParts_follows (recordHandler_follows env decoder session) (by exact hempty) hparts
  cases hlast
  rw [nil_append] at hsegments
  obtain ⟨drained, hdrained, out, hall, hticks, houtput⟩ :=
    processRecords_piped (by exact hpiped) hdrain
  obtain ⟨-, -, -, hwritten⟩ := writeRecords_wrote hwrite
  have hsame : c.lane = c₃.lane :=
    (prepareCommit_lane h).trans (renewAndFenceCompletion_lane hfence)
  refine ⟨_, hcontents, segments, records ++ drained, session, out, c₂.lane.pipeline, trailing,
    fuel, rfl, ?_, mapError_eq_ok.mp hsession, by simpa using hall, ?_, ?_⟩
  · simp [Records.decodeSegments, mapError_eq_ok.mp hnew, hsegments, mapError_eq_ok.mp hfinish,
      RecordDecoder.drain, hdrained]
  · have htrailing := mapError_eq_ok.mp htrailing
    simpa [hticks] using htrailing
  · rw [hsame, hwritten, houtput, recordBytes, recordBytes, recordBytes, flatMap_append]

/-- **A completion that commits has read contents with the checksums of the selected parts.** -/
theorem completeStagedMultipart_processed {processed : Processed}
    {result : Except CompletionError MultipartCompletionResult}
    (h : completeStagedMultipart env identity upload lease = .committing processed result) :
    ∃ contents, HaveChecksums lease.selectedParts contents ∧ processed.Of env contents := by
  rw [completeStagedMultipart] at h
  split at h
  · cases h
  split at h
  · cases h
  split at h
  · cases h
  split at h
  · split at h
    · cases h
    split at h
    · cases h
    next hassemble =>
    cases h
    exact assembleAvro_processed hassemble
  · split at h
    · cases h
    split at h
    · cases h
    next hassemble =>
    cases h
    exact assembleRecords_processed hassemble

end Committing

/-! ### The parts of the repository -/

/-- The part that the call stores. -/
def Call.commits? : Call → Option MultipartPart
  | .commitPart _ _ part | .replacePart _ part => some part
  | _ => none

/-- The part that the event stores. -/
def Event.commits? : Event → Option MultipartPart
  | .call _ c => c.commits?
  | .rehash => none

theorem MemoryState.settle_parts (env : CallEnv) (s : MemoryState) (upload : MultipartUpload)
    (uploadId : String) (pending : PendingPart) (part : MultipartPart)
    (previous : Option MultipartPart) :
    (s.settle env upload uploadId pending part previous).2.parts = s.parts := by
  rw [settle]
  split
  · rfl
  · split <;> rfl

theorem confirmArtifactDeleted_parts {env : CallEnv} {key : String}
    (h : (confirmArtifactDeleted env s key).2.parts.get? pk = some part) :
    s.parts.get? pk = some part := by
  rw [confirmArtifactDeleted] at h
  split at h
  · exact h
  next attempt _ =>
  have hrelease : ((s.forget key).release env attempt).2.parts = (s.forget key).parts := by
    rw [release]
    repeat' split
    all_goals rfl
  rw [hrelease, forget, KeyMap.get?_retain, Option.filter_eq_some_iff] at h
  exact h.1

/-- **A part that the repository has after a call, it had before, or the call has stored it.** -/
theorem Call.run_parts {quotas : StagingQuotaLimits} {env : CallEnv} {c : Call}
    (h : (c.run quotas env s).2.parts.get? pk = some part) :
    s.parts.get? pk = some part ∨ c.commits? = some part := by
  by_cases htouches : c.touchesParts = false
  · rw [(Call.run_same_parts htouches).2] at h
    exact .inl h
  cases c with
  | replacePart =>
    simp only [Call.run, Outcome.reply, Staging.replacePart] at h
    repeat' split at h
    all_goals try exact .inl h
    simp only [KeyMap.get?_insert] at h
    split at h
    · exact .inr h
    · exact .inl h
  | beginPart =>
    simp only [Call.run, Outcome.reply, Staging.beginPart] at h
    repeat' split at h
    all_goals exact .inl h
  | commitPart =>
    simp only [Call.run, Outcome.reply, Staging.commitPart] at h
    repeat' split at h
    · exact .inl h
    · exact .inl h
    · exact .inl h
    · rw [retire_parts] at h
      exact .inl h
    · rw [retire_parts] at h
      exact .inl h
    · simp only [settle_parts, publish, retire_parts,
        KeyMap.get?_insert] at h
      split at h
      · exact .inr h
      · exact .inl h
  | discardPending => exact .inl (confirmArtifactDeleted_parts h)
  | confirmArtifactDeleted => exact .inl (confirmArtifactDeleted_parts h)
  | abort =>
    simp only [Call.run, Staging.abort] at h
    repeat' split at h
    all_goals try exact .inl h
    exact .inl (get?_extractParts h)
  | reapExpired => exact .inl (get?_extractParts h)
  | _ => exact absurd rfl htouches

section Repository

variable [Primitives] [Aead] {quotas : StagingQuotaLimits} {h : History}

/-- Every part that is stored was written. -/
def CommitsWritten (_ : History) (e : Event) : Prop :=
  ∀ part ∈ e.commits?, ∃ plaintext, WrittenAs part plaintext

/-- **The parts of the repository were written.** -/
theorem written_of_reach (r : Reach History.Init (Guarded (Step quotas) CommitsWritten) h) :
    ∀ pk part, h.state.parts.get? pk = some part → ∃ plaintext, WrittenAs part plaintext := by
  refine Reach.invariant (I := fun h => ∀ pk part, h.state.parts.get? pk = some part →
    ∃ plaintext, WrittenAs part plaintext) ?_ ?_ r
  · rintro _ rfl pk part hpart
    cases hpart
  · rintro h e h' _ ih ⟨hstep, hguard⟩ pk part hpart
    cases hstep with
    | call =>
      rcases Call.run_parts hpart with hbefore | hstored
      · exact ih pk part hbefore
      · exact hguard part hstored
    | rehash hs => exact ih pk part (by rwa [hs.parts.get?_eq])

end Repository

/-! ### Selected parts -/

/-- Selected parts are current parts, in the order of their numbers. -/
theorem selectParts_ok {current : List MultipartPart} {previous : Nat}
    {requested : List CompletePart} (h : selectParts current previous requested = .ok parts) :
    (∀ part ∈ parts, part ∈ current ∧ previous < part.partNumber) ∧
      parts.Pairwise (·.partNumber < ·.partNumber) := by
  induction requested generalizing previous parts with
  | nil =>
    cases h
    exact ⟨by simp, .nil⟩
  | cons request requested ih =>
    rw [selectParts] at h
    split at h
    · cases h
    next hnumber =>
    split at h
    · cases h
    next part hfind =>
    obtain ⟨rest, hrest, rfl⟩ := map_eq_ok.mp (ite_error_eq_ok.mp h).2
    obtain ⟨hmem, hsorted⟩ := ih hrest
    have hpart : part.partNumber = request.partNumber := by simpa using find?_some hfind
    simp only [not_or, not_le] at hnumber
    refine ⟨forall_mem_cons.mpr ⟨⟨mem_of_find?_eq_some hfind, by omega⟩, ?_⟩, ?_⟩
    · intro p hp
      exact ⟨(hmem p hp).1, by have := (hmem p hp).2; omega⟩
    · refine .cons (fun p hp => ?_) hsorted
      rw [hpart]
      exact (hmem p hp).2

theorem acquired_parts {identity : MultipartIdentity} {fingerprint owner : String}
    {requested : List CompletePart} {leaseExpiresAtMs now : Int} {lease : CompletionLease}
    (h : (acquireCompletion s identity fingerprint requested owner leaseExpiresAtMs now).1 =
      .ok (.acquired lease)) :
    (∀ part ∈ lease.selectedParts, part ∈ s.sortedParts identity.uploadId) ∧
      lease.selectedParts.Pairwise (·.partNumber < ·.partNumber) := by
  simp only [acquireCompletion] at h
  split at h
  · cases h
  split at h
  · next answer hgate =>
    simp only at h
    rw [h] at hgate
    exact absurd hgate acquireGate_not_acquired
  split at h
  · cases h
  next selected hselected =>
  split at h
  · cases h
  cases h
  rw [validateSelectedParts] at hselected
  split at hselected
  · cases hselected
  obtain ⟨hmem, hsorted⟩ := selectParts_ok hselected
  exact ⟨fun part hpart => (hmem part hpart).1, hsorted⟩

/-! ### Completed uploads -/

section Completed

variable [Primitives] [Aead]

/-- Bytes with the checksums of the parts are what was written for them. -/
theorem contents_eq_plaintexts (hsha : Function.Injective Primitives.sha256)
    {contents plaintexts : List Bytes}
    (hcontents : HaveChecksums parts contents)
    (hwritten : List.Forall₂ WrittenAs parts plaintexts) :
    contents = plaintexts := by
  induction hcontents generalizing plaintexts with
  | nil =>
    cases hwritten
    rfl
  | cons hchecksum _ ih =>
    cases hwritten with
    | cons hpart hrest =>
      have hsame := hexText_injective (hchecksum.trans hpart.checksum)
      rw [hsha hsame, ih hrest]

/-- Every list of parts that were written has the plaintexts. -/
theorem exists_plaintexts (h : ∀ part ∈ parts, ∃ plaintext, WrittenAs part plaintext) :
    ∃ plaintexts, List.Forall₂ WrittenAs parts plaintexts := by
  induction parts with
  | nil => exact ⟨[], .nil⟩
  | cons part parts ih =>
    obtain ⟨plaintext, hplaintext⟩ := h part mem_cons_self
    obtain ⟨plaintexts, hplaintexts⟩ := ih fun p hp => h p (mem_cons_of_mem _ hp)
    exact ⟨plaintext :: plaintexts, .cons hplaintext hplaintexts⟩

omit [Primitives] [Aead] in
theorem mem_sortedParts {uploadId : String}
    (h : part ∈ s.sortedParts uploadId) : ∃ pk, s.parts.get? pk = some part := by
  rw [sortedParts, mem_insertionSort, mem_filter] at h
  exact KeyMap.mem_values_iff.mp h.1

variable [SegmentParsers] {σ : Type} {env : CompletionEnv σ} {quotas : StagingQuotaLimits}
  {h : History} {identity : MultipartIdentity} {upload : MultipartUpload}
  {fingerprint owner : String} {requested : List CompletePart} {leaseExpiresAtMs now : Int}
  {lease : CompletionLease} {processed : Processed}
  {result : Except CompletionError MultipartCompletionResult}

/-- **The content of a completed upload.**  When the digest has no collisions, a completion of parts
that `acquireCompletion` has selected fails before the destination is told to commit, or has given
the decoder or the binary processor exactly the plaintexts that were written for the selected parts,
one after another in the order of the part numbers, whatever the artifact store has returned. -/
theorem completion_feeds_plaintexts (hsha : Function.Injective Primitives.sha256)
    (r : Reach History.Init (Guarded (Step quotas) CommitsWritten) h)
    (hacquire : (acquireCompletion h.state identity fingerprint requested owner leaseExpiresAtMs
    now).1 = .ok (.acquired lease))
    (hcommit : completeStagedMultipart env identity upload lease = .committing processed result) :
    lease.selectedParts.Pairwise (·.partNumber < ·.partNumber) ∧
    (∀ part ∈ lease.selectedParts, part ∈ h.state.sortedParts identity.uploadId) ∧
    (∃ plaintexts, List.Forall₂ WrittenAs lease.selectedParts plaintexts) ∧
    ∀ plaintexts, List.Forall₂ WrittenAs lease.selectedParts plaintexts →
      processed.Of env plaintexts := by
  obtain ⟨hcurrent, hsorted⟩ := acquired_parts hacquire
  refine ⟨hsorted, hcurrent, exists_plaintexts fun part hpart => ?_,
    fun plaintexts hplaintexts => ?_⟩
  · obtain ⟨pk, hpk⟩ := mem_sortedParts (hcurrent part hpart)
    exact written_of_reach r pk part hpk
  · obtain ⟨contents, hcontents, hof⟩ := completeStagedMultipart_processed hcommit
    rwa [contents_eq_plaintexts hsha hcontents hplaintexts] at hof

end Completed

/-! ### A completed upload -/

/-- Primitives whose digests are the bytes. -/
abbrev plainPrimitives : Primitives :=
  { drawnPrimitives with sha256 := fun bytes => bytes, md5 := fun bytes => bytes }

/-- The part of the first attempt, with two bytes. -/
def writtenPart : MultipartPart where
  uploadId := samplePending.uploadId
  partNumber := 1
  attempt := 1
  artifactKey := samplePending.artifactKey
  etag := quotedEtag (ascii "ab")
  checksumSha256 := hexText (ascii "ab")
  sizeBytes := 2
  createdAtMs := 10

theorem writtenPart_writtenAs : letI := plainPrimitives
    letI := plainAead
    WrittenAs writtenPart (ascii "ab") := by
  let _ := plainPrimitives
  let _ := plainAead
  exact ⟨drawnEnv, sampleIdentity, ⟨100⟩, 40, drawnWrapping, _, [(drawnNonce, none, ascii "ab")], _,
    none, _, rfl, rfl, rfl, rfl, rfl, rfl, rfl⟩

/-- The upload with that part. -/
def writtenHistory : History :=
  ((History.new.next sampleQuotas ⟨0, ""⟩ (.create sampleUpload)).next sampleQuotas ⟨5, "a"⟩
    (.beginPart sampleIdentity 1 40 5)).next sampleQuotas ⟨10, ""⟩
    (.commitPart sampleIdentity samplePending writtenPart)

/-- The artifact of the part, as the writer has left it. -/
def writtenArtifact : Bytes :=
  magic ++ (be32 2 ++ ascii "\x7b\x7d") ++
    (be32 18 ++ (replicate 12 2 ++ (ascii "ab" ++ replicate 16 0)))

/-- A completion of a text without filters, from a store with the artifact. -/
def writtenEnv : CompletionEnv Unit where
  fence _ := .ok ()
  clock _ := 0
  get _ := .ok ⟨writtenArtifact, false⟩
  wrapping := drawnWrapping
  destinationKind := some "memory"
  contentType := some "text/plain"
  backendKind := "memory"
  binaryAvroEnabled := true
  avroMediaType _ := none
  streamingFormat _ := .ok .text
  snapshotFor := .ok ()
  beginSink := .ok ()
  startSession format := Pipeline.startSessionWithDeadline [] ⟨64, 64, 64, 64, 1, 64, 1, 1,
    10⟩ format 0 10
  maxFrameBytes := 1024
  maxBytes := 1024
  processOcf := .ok
  write _ := .ok ()
  verifyOutput := .ok ()
  recordUsage := .ok ()
  complete := .ok ⟨none, none⟩
  completeCompletion _ := .ok ()

/-- External parsers that accept every record. -/
abbrev acceptingParsers : SegmentParsers where
  toParsers := Records.lenientParsers
  jsonEof _ := false

theorem writtenHistory_reach : letI := plainPrimitives
    letI := plainAead
    Reach History.Init (Guarded (Step sampleQuotas) CommitsWritten) writtenHistory := by
  let _ := plainPrimitives
  let _ := plainAead
  have hcreate : CommitsWritten History.new (.call ⟨0, ""⟩ (.create sampleUpload)) := by
    rintro part ⟨⟩
  have hbegin : ∀ h, CommitsWritten h (.call ⟨5, "a"⟩ (.beginPart sampleIdentity 1 40 5)) := by
    rintro h part ⟨⟩
  have hcommit : ∀ h,
      CommitsWritten h (.call ⟨10, ""⟩ (.commitPart sampleIdentity samplePending writtenPart)) := by
    rintro h part ⟨⟩
    exact ⟨_, writtenPart_writtenAs⟩
  exact .step (.step (.step (.init rfl) ⟨.call _ _, hcreate⟩) ⟨.call _ _, hbegin _⟩)
    ⟨.call _ _, hcommit _⟩

/-- The two bytes that were written are the record that the destination is given. -/
theorem written_upload_feeds : letI := plainPrimitives
    letI := plainAead
    letI := acceptingParsers
    (∃ result, completeStagedMultipart writtenEnv sampleIdentity sampleUpload
      ⟨1, [writtenPart], [writtenPart]⟩ = .committing (.records .text (ascii "ab")) result) ∧
    (Processed.records .text (ascii "ab")).Of writtenEnv [ascii "ab"] := by
  let _ := plainPrimitives
  let _ := plainAead
  let _ := acceptingParsers
  have hacquire : (acquireCompletion writtenHistory.state sampleIdentity "f"
      [⟨1, quotedEtag (ascii "ab"), none⟩] "owner" 500 20).1 =
        .ok (.acquired ⟨1, [writtenPart], [writtenPart]⟩) := by decide +kernel
  obtain ⟨result, hcommit⟩ : ∃ result, completeStagedMultipart writtenEnv sampleIdentity
      sampleUpload ⟨1, [writtenPart], [writtenPart]⟩ =
        .committing (.records .text (ascii "ab")) result := ⟨_, rfl⟩
  obtain ⟨-, -, -, hfed⟩ :=
    completion_feeds_plaintexts (fun _ _ heq => heq) writtenHistory_reach hacquire hcommit
  exact ⟨⟨result, hcommit⟩, hfed [ascii "ab"] (.cons writtenPart_writtenAs .nil)⟩

end S4.Staging
