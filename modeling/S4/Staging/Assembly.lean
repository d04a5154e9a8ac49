import S4.Lib.Fallible
import S4.Pipeline.Session
import S4.Records.Segments
import S4.Staging.ReadBack
import S4.Staging.Repository

/-!
# Staging — Assembly

The completion of an upload (`complete_staged_multipart` in `server.rs`): the artifacts of the
selected parts are read in order, their chunks decoded into records, the records run through the
pipeline and written to the destination, which is then committed.  An Avro upload is gathered as a
whole and handed to the binary processor (`complete_staged_avro_multipart`).

The lease of the worker is checked before each step.  What comes from outside is given by
`CompletionEnv`: the checks of the lease, the bytes that the artifact store returns, and the answers
of the destination.  A completion that fails before the destination is told to commit has only its
error; from there on it has what the destination was given (`Processed`).  The abort of the
destination after a failure is left out.
-/

namespace S4.Staging

open Lib
open Records (Format S4Error Record RecordDecoder DecoderLimits SegmentParsers)
open Pipeline (PipelineSession)

/-- `MultipartCompletionError`; the errors of the destination are texts. -/
inductive CompletionError where
  | staging (error : ArtifactError)
  | streaming (error : S4Error)
  | destination (message : String)
  | unsupported (message : String)
  | invalid (message : String)
deriving DecidableEq

/-- What the destination has stored. -/
structure StoredObject where
  etag : Option String
  versionId : Option String
deriving DecidableEq

/-- What a completion is given from outside. -/
structure CompletionEnv (σ : Type) where
  /-- The `n`-th check of the lease. -/
  fence : Nat → Except StagingError Unit
  /-- The clock, as it is read for the `n`-th record. -/
  clock : Nat → Int
  /-- The artifact store. -/
  get : String → Except StagingError Source
  wrapping : KeyWrapping
  /-- `snapshot.destination["kind"]` and `snapshot.metadata["content-type"]`. -/
  destinationKind : Option String
  contentType : Option String
  backendKind : String
  binaryAvroEnabled : Bool
  avroMediaType : String → Option String
  streamingFormat : String → Except CompletionError Format
  snapshotFor : Except CompletionError Unit
  beginSink : Except CompletionError Unit
  startSession : Format → Except S4Error (PipelineSession σ)
  maxFrameBytes : Nat
  maxBytes : Nat
  /-- `process_ocf`, with the checks of the lease while it runs. -/
  processOcf : Bytes → Except CompletionError Bytes
  /-- The `n`-th write to the destination. -/
  write : Nat → Except CompletionError Unit
  verifyOutput : Except CompletionError Unit
  recordUsage : Except CompletionError Unit
  complete : Except CompletionError StoredObject
  completeCompletion : MultipartCompletionResult → Except StagingError Unit

/-- The limits of the decoder of a completion. -/
def CompletionEnv.decoderLimits {σ : Type} (env : CompletionEnv σ) : DecoderLimits :=
  { Pipeline.defaultDecoderLimits with maxSourceFrameBytes := env.maxFrameBytes }

/-- A completion in progress, with the state `τ` of what takes the chunks. -/
structure Completing (τ : Type) where
  fences : Nat
  inputBytes : Nat
  lane : τ

/-- The state of a completion by records. -/
structure RecordLane (σ : Type) where
  decoder : RecordDecoder
  pipeline : PipelineSession σ
  /-- What the output hasher has absorbed and the destination been given. -/
  output : Bytes
  outputBytes : Nat
  writes : Nat
  ticks : Nat

/-- What the destination has been given: the output of the records of a format, or what the binary
processor made of its input. -/
inductive Processed where
  | records (format : Format) (output : Bytes)
  | avro (input output : Bytes)

/-- What a completion comes to: a failure before the destination is told to commit, or what it was
given then and the outcome. -/
inductive Completion where
  | failed (error : CompletionError)
  | committing (processed : Processed) (result : Except CompletionError MultipartCompletionResult)

section Reading

variable [Primitives] [Aead] {σ τ : Type} (env : CompletionEnv σ)

def renewAndFenceCompletion (c : Completing τ) : Except CompletionError (Completing τ) :=
  match env.fence c.fences with
  | .error e => .error (.staging (.staging e))
  | .ok () => .ok { c with fences := c.fences + 1 }

/-- What takes the chunks of the parts, and how many bytes there may be. -/
structure Handler (τ : Type) where
  limit : Nat
  chunk : Bytes → Completing τ → Except CompletionError (Completing τ)
  endOfPart : Completing τ → Except CompletionError (Completing τ)

/-- The counters of a part; its hashers have absorbed the same bytes. -/
structure PartRead where
  partBytes : Nat
  absorbed : Bytes

/-- The loop over the chunks of a part. -/
def readChunks (env : CompletionEnv σ) (handler : Handler τ) (part : MultipartPart) :
    List (Except ArtifactError Bytes) → PartRead → Completing τ →
      Except CompletionError (PartRead × Completing τ)
  | [], read, c => do
    let c ← renewAndFenceCompletion env c
    return (read, c)
  | item :: rest, read, c => do
    let c ← renewAndFenceCompletion env c
    let chunk ← item.mapError .staging
    match checkedAdd 64 read.partBytes chunk.length with
    | none => .error (.invalid "multipart part is too large")
    | some partBytes => match checkedAdd 64 c.inputBytes chunk.length with
        | none => .error (.invalid "multipart input is too large")
        | some inputBytes =>
          if partBytes > part.sizeBytes ∨ inputBytes > handler.limit then
            .error (.invalid "multipart input exceeds its limit")
          else do
            let c ← handler.chunk chunk { c with inputBytes }
            readChunks env handler part rest ⟨partBytes, read.absorbed ++ chunk⟩ c

/-- A part, from its artifact. -/
def readPart (handler : Handler τ) (identity : MultipartIdentity)
    (snapshot : MultipartSnapshot) (part : MultipartPart) (c : Completing τ) :
    Except CompletionError (Completing τ) := do
  let c ← renewAndFenceCompletion env c
  let body ← (env.get part.artifactKey).mapError fun e => .staging (.staging e)
  let c ← renewAndFenceCompletion env c
  let reader ← (EncryptedPartReader.openPart body identity part snapshot env.wrapping).mapError
    .staging
  let (read, c) ← readChunks env handler part reader.stream ⟨0, []⟩ c
  if read.partBytes ≠ part.sizeBytes ∨
      hexText (Primitives.sha256 read.absorbed) ≠ part.checksumSha256 ∨
      quotedEtag (Primitives.md5 read.absorbed) ≠ part.etag then
    .error (.invalid "staged multipart artifact does not match its committed part")
  else handler.endOfPart c

/-- The selected parts, in order. -/
def readParts (env : CompletionEnv σ) (handler : Handler τ) (identity : MultipartIdentity)
    (snapshot : MultipartSnapshot) : List MultipartPart → Completing τ →
      Except CompletionError (Completing τ)
  | [],           c => .ok c
  | part :: rest, c => do
    let c ← readPart env handler identity snapshot part c
    readParts env handler identity snapshot rest c

end Reading

/-! ### Records -/

section Records

variable [SegmentParsers] {σ : Type} (env : CompletionEnv σ)

/-- The payload or the separator of a record. -/
def writeCompletedBytes (chunk : Bytes) (c : Completing (RecordLane σ)) :
    Except CompletionError (Completing (RecordLane σ)) :=
  if chunk = [] then .ok c
  else do
    let c ← renewAndFenceCompletion env c
    match checkedAdd 64 c.lane.outputBytes chunk.length with
    | none => .error (.invalid "output is too large")
    | some outputBytes =>
      env.write c.lane.writes
      return { c with lane := { c.lane with
        outputBytes
        output := c.lane.output ++ chunk
        writes := c.lane.writes + 1 } }

def writeCompletedRecord (record : Record) (c : Completing (RecordLane σ)) :
    Except CompletionError (Completing (RecordLane σ)) := do
  let c ← writeCompletedBytes env record.payload c
  writeCompletedBytes env record.separator c

/-- Process a record, and write what comes out. -/
def processRecord (record : Record) (c : Completing (RecordLane σ)) :
    Except CompletionError (Completing (RecordLane σ)) := do
  let (out, pipeline) ← (c.lane.pipeline.process (env.clock c.lane.ticks) record).mapError
    .streaming
  let c := { c with lane := { c.lane with pipeline, ticks := c.lane.ticks + 1 } }
  match out with
  | none => return c
  | some record => writeCompletedRecord env record c

/-- The loop over the records that the decoder has; as in `RecordDecoder.drain`, the number of
buffered bytes bounds it. -/
def processRecords (env : CompletionEnv σ) : Nat → Completing (RecordLane σ) →
    Except CompletionError (Completing (RecordLane σ))
  | 0,        c => .ok c
  | fuel + 1, c => do
    let (record, decoder) ← c.lane.decoder.nextRecord.mapError .streaming
    let c := { c with lane := { c.lane with decoder } }
    match record with
    | none => return c
    | some record =>
      let c ← processRecord env record c
      processRecords env fuel c

def drainDecoder (c : Completing (RecordLane σ)) :
    Except CompletionError (Completing (RecordLane σ)) :=
  processRecords env (c.lane.decoder.bufferedBytes + 2) c

/-- The chunks go to the decoder; at the end of a part a JSON document is complete. -/
def recordHandler : Handler (RecordLane σ) where
  limit := env.maxBytes
  chunk bytes c := do
    let decoder ← (c.lane.decoder.push bytes).mapError .streaming
    drainDecoder env { c with lane := { c.lane with decoder } }
  endOfPart c := do
    let decoder ← c.lane.decoder.endOfSegment.mapError .streaming
    drainDecoder env { c with lane := { c.lane with decoder } }

/-- What the pipeline still gives out. -/
def writeRecords (env : CompletionEnv σ) : List Record → Completing (RecordLane σ) →
    Except CompletionError (Completing (RecordLane σ))
  | [],             c => .ok c
  | record :: rest, c => do
    let c ← writeCompletedRecord env record c
    writeRecords env rest c

end Records

/-! ### Completions -/

section Completions

variable [Primitives] [Aead] [SegmentParsers] {σ τ : Type} (env : CompletionEnv σ)

/-- The bytes are gathered, up to sixty-four MiB. -/
def avroHandler : Handler Bytes where
  limit := min env.maxBytes (64 * 1024 * 1024)
  chunk bytes c := .ok { c with lane := c.lane ++ bytes }
  endOfPart c := .ok c

/-- The lease is checked before the destination is begun. -/
def beginCompletion (lane : τ) : Except CompletionError (Completing τ) := do
  let c ← renewAndFenceCompletion env ⟨0, 0, lane⟩
  env.beginSink
  return c

/-- What is done between the last write and the commit. -/
def prepareCommit (c : Completing τ) : Except CompletionError (Completing τ) := do
  env.verifyOutput
  let c ← renewAndFenceCompletion env c
  env.recordUsage
  renewAndFenceCompletion env c

/-- The selected parts through decoder and pipeline to the destination, up to its commit. -/
def assembleRecords (identity : MultipartIdentity) (upload : MultipartUpload)
    (lease : CompletionLease) (format : Format) :
    Except CompletionError (Completing (RecordLane σ)) := do
  let started ← beginCompletion env ()
  let pipeline ← (env.startSession format).mapError .streaming
  let decoder ← (RecordDecoder.new format env.decoderLimits).mapError .streaming
  let c ← readParts env (recordHandler env) identity upload.snapshot lease.selectedParts
    ⟨started.fences, 0, ⟨decoder, pipeline, [], 0, 0, 0⟩⟩
  let decoder ← c.lane.decoder.finish.mapError .streaming
  let c ← drainDecoder env { c with lane := { c.lane with decoder } }
  let (records, _) ← (c.lane.pipeline.finishWithFuel fun n => env.clock (c.lane.ticks + n)).mapError
    .streaming
  let c ← writeRecords env records c
  let c ← renewAndFenceCompletion env c
  prepareCommit env c

/-- The selected parts through the binary processor to the destination, up to its commit; with the
output. -/
def assembleAvro (identity : MultipartIdentity) (upload : MultipartUpload)
    (lease : CompletionLease) : Except CompletionError (Completing Bytes × Bytes) := do
  let c ← beginCompletion env []
  let c ← renewAndFenceCompletion env c
  let c ← readParts env (avroHandler env) identity upload.snapshot lease.selectedParts c
  let output ← env.processOcf c.lane
  let c ← renewAndFenceCompletion env c
  env.write 0
  let c ← prepareCommit env c
  return (c, output)

/-- The destination is told to commit, and the upload is completed. -/
def commitCompletion (c : Completing τ) (processed : Processed)
    (checksumSha256 : String) (outputBytes : Nat) : Completion :=
  .committing processed do
    let stored ← env.complete
    let result : MultipartCompletionResult := {
      etag := stored.etag
      checksumSha256
      versionId := stored.versionId
      sourceBytes := c.inputBytes
      sizeBytes := outputBytes }
    let _ ← renewAndFenceCompletion env c
    (env.completeCompletion result).mapError fun e => .staging (.staging e)
    return result

def completeStagedMultipart (identity : MultipartIdentity)
    (upload : MultipartUpload) (lease : CompletionLease) : Completion :=
  if env.destinationKind ≠ some env.backendKind then
    .failed (.invalid "multipart destination changed since initiation")
  else match env.snapshotFor with
    | .error e => .failed e
    | .ok () => match env.contentType with
        | none => .failed (.invalid "multipart Content-Type is missing")
        | some contentType => match env.avroMediaType contentType with
            | some _ =>
              if env.binaryAvroEnabled = false then
                .failed (.unsupported "Avro processing is disabled; set MASKURA_ENABLE_AVRO=true")
              else match assembleAvro env identity upload lease with
                | .error e => .failed e
                | .ok (c, output) =>
                  commitCompletion env c (.avro c.lane output) (hexText (Primitives.sha256 output))
                    output.length
            | none => match env.streamingFormat contentType with
                | .error e => .failed e
                | .ok format => match assembleRecords env identity upload lease format with
                    | .error e => .failed e
                    | .ok c => commitCompletion env c (.records format c.lane.output)
                        (hexText (Primitives.sha256 c.lane.output)) c.lane.outputBytes

end Completions

end S4.Staging
