import S4.Lib.Json
import S4.Lib.Text
import S4.Pipeline.Composition
import S4.Records.Segments

/-!
# Pipeline — Documents

A JSON source of several documents through a session that changes nothing.  The decoder emits each
document where its segment ends, but the session validates its output as one JSON text, so that it
accepts the documents only if they are one text written one behind the other
(`documents_through_pipeline_iff`).

A filter is an identity if it gives out what it is given (`IsIdentity`).  A session over such
filters gives out its records, and fails on a limit or where the validator fails
(`runPipeline_identity`).
-/

namespace S4.Pipeline

open Lib List Account
open Records (Bytes Format OutputValidator Parsers Record S4Error DecoderLimits SegmentParsers
  IsDocument anyNumber readerParsers)

/-! ### Identity filters -/

section Identity

variable {σ : Type} {plugins : List (Plugin σ)} {stages : List (PluginStage σ)}
  {s : PipelineSession σ}

/-- The filter gives out what it is given, and nothing more at the end; only resources may make it
fail. -/
structure IsIdentity (filter : PipelineFilter σ) : Prop where
  transform : ∀ s payload fuelLimit,
    Ends (· = .emit payload) False (filter.transform s payload fuelLimit).1
  finish : ∀ s fuelLimit, Ends (fun r => r.1 = []) False (filter.finish s fuelLimit)

structure Plugin.Identity (plugin : Plugin σ) : Prop where
  filter : IsIdentity plugin.filter
  start : ∀ fuelLimit, Ends (fun _ => True) False (plugin.start fuelLimit)

theorem startPlugins_identity (limits : PipelineLimits)
    (h : ∀ p ∈ plugins, p.Identity) (fuelConsumed : Nat) :
    Ends (fun r => ∀ stage ∈ r.1, IsIdentity stage.filter) False
      (startPlugins limits fuelConsumed plugins) := by
  induction plugins generalizing fuelConsumed with
  | nil => exact fun _ hstage => absurd hstage not_mem_nil
  | cons plugin rest ih =>
    have hplugin := h plugin mem_cons_self
    refine ((hplugin.start _).mapError_plugin _).bind fun state _ => ?_
    dsimp only
    split
    · simp [Ends, fuelLimitError, resourceCodes, throw, throwThe, MonadExceptOf.throw]
    · split
      · simp [Ends, fuelLimitError, resourceCodes, throw, throwThe, MonadExceptOf.throw]
      · refine (ih (fun p hp => h p (mem_cons_of_mem _ hp)) _).bind fun r hr => ?_
        intro stage hstage
        rcases mem_cons.mp hstage with rfl | hstage
        · exact hplugin.filter
        · exact hr stage hstage

variable [Parsers]

/-- A record through identity filters comes to the validator. -/
theorem routeFrom_identity (h : ∀ stage ∈ stages, IsIdentity stage.filter)
    (a : Account) (record : Record) :
    Ends (fun r => r.1 = some record ∧ (∀ stage ∈ r.2.1, IsIdentity stage.filter) ∧
        a.outputValidator.pushRecord record = .ok r.2.2.outputValidator)
      (∃ e, a.outputValidator.pushRecord record = .error e) (routeFrom a stages record) := by
  induction stages generalizing a with
  | nil =>
    refine (Ends.mapError_output _).bind fun v hv => ?_
    refine (accountOutput_ends _ _ _).bind fun a' ha' => ?_
    exact ⟨rfl, fun _ hstage => absurd hstage not_mem_nil, by rw [hv, ha']⟩
  | cons stage rest ih =>
    have hstage := h stage mem_cons_self
    refine (remainingFuel_ends _ _).bind fun remaining _ => ?_
    refine (accountFuel_ends _ _ _).bind fun a' ha' => ?_
    refine (((hstage.transform stage.state record.payload remaining).mapError_plugin _).mono
      (fun _ => id) False.elim).bind fun outcome houtcome => ?_
    subst houtcome
    refine (checkIntermediate_ends _ _ _).bind fun _ _ => ?_
    refine (accountStage_ends _ _ _ _).bind fun stage' hstage' => ?_
    have hrest := ih (fun s hs => h s (mem_cons_of_mem _ hs)) a'
    rw [ha'] at hrest
    refine hrest.bind fun r hr => ⟨hr.1, ?_, hr.2.2⟩
    intro s hs
    rcases mem_cons.mp hs with rfl | hs
    · exact hstage'.1 ▸ hstage
    · exact hr.2.1 s hs

theorem process_identity (h : ∀ stage ∈ s.stages, IsIdentity stage.filter)
    {now : Int} {record : Record} :
    Ends (fun r => r.1 = some record ∧ (∀ stage ∈ r.2.stages, IsIdentity stage.filter) ∧
        s.account.outputValidator.pushRecord record = .ok r.2.account.outputValidator)
      (∃ e, s.account.outputValidator.pushRecord record = .error e) (s.process now record) := by
  refine (checkDeadline_ends _ _ _).bind fun _ _ => ?_
  refine (checkedTotal_ends _ (by simp [resourceCodes]) _ _ _).bind fun inputBytes _ => ?_
  exact (routeFrom_identity h { s.account with inputBytes } record).bind fun r hr => hr

theorem processAll_identity (clock : Nat → Int)
    (h : ∀ stage ∈ s.stages, IsIdentity stage.filter) (index : Nat) (records : List Record) :
    Ends (fun r => r.1 = records ∧ (∀ stage ∈ r.2.stages, IsIdentity stage.filter) ∧
        s.account.outputValidator.pushRecords records = .ok r.2.account.outputValidator)
      (∃ e, s.account.outputValidator.pushRecords records = .error e)
      (processAll clock index s records) := by
  induction records generalizing s index with
  | nil => exact ⟨rfl, h, rfl⟩
  | cons record records ih =>
    have hpush : ∀ {x}, s.account.outputValidator.pushRecord record = x →
        s.account.outputValidator.pushRecords (record :: records) =
          x >>= (·.pushRecords records) := by
      rintro _ rfl
      rfl
    refine ((process_identity h).mono (fun _ => id) ?_).bind fun r hr => ?_
    · rintro ⟨e, he⟩
      exact ⟨e, hpush he⟩
    · obtain ⟨hout, hstages, hv⟩ := hr
      rw [hpush hv]
      refine (ih hstages (index + 1)).bind fun r' hr' => ⟨?_, hr'.2⟩
      show r.1.toList ++ r'.1 = _
      rw [hout, hr'.1]
      rfl

theorem finishLoop_identity (clock : Nat → Int)
    (h : ∀ stage ∈ stages, IsIdentity stage.filter) (bad : Prop) (left index : Nat) (a : Account) :
    Ends (fun r => r.1 = [] ∧ r.2.outputValidator = a.outputValidator) bad
      (PipelineSession.finishLoop clock left index a stages) := by
  induction left generalizing stages index a with
  | zero => exact ⟨rfl, rfl⟩
  | succ left ih =>
    cases stages with
    | nil => exact ⟨rfl, rfl⟩
    | cons stage rest =>
      have hstage := h stage mem_cons_self
      have hrest : ∀ s ∈ rest, IsIdentity s.filter := fun s hs => h s (mem_cons_of_mem _ hs)
      rw [PipelineSession.finishLoop]
      refine (checkDeadline_ends _ _ _).bind fun _ _ => ?_
      refine (?_ : Ends (fun r => r.1 = [] ∧ r.2.outputValidator = a.outputValidator) bad
        (PipelineSession.finishStage a stage)).bind fun r hr => ?_
      · refine (remainingFuel_ends _ _).bind fun remaining _ => ?_
        refine (((hstage.finish stage.state remaining).mapError_plugin _).mono (fun _ => id)
          False.elim).bind fun r hr => ?_
        refine (accountFuel_ends _ _ _).bind fun a' ha' => ?_
        dsimp only
        rw [hr]
        exact ⟨rfl, ha'⟩
      · obtain ⟨trailing, a'⟩ := r
        obtain ⟨rfl, ha'⟩ := hr
        dsimp only
        rw [if_pos rfl, ← ha']
        exact ih hrest (index + 1) a'

omit [Parsers] in
theorem defaultDecoderLimits_positive : defaultDecoderLimits.Positive := by
  simp [Records.DecoderLimits.Positive, defaultDecoderLimits]

omit [Parsers] in
theorem startSession_identity (h : ∀ p ∈ plugins, p.Identity)
    {limits : PipelineLimits} {format : Format} {now requestedDeadline : Int} :
    Ends (fun s => (∀ stage ∈ s.stages, IsIdentity stage.filter) ∧
        OutputValidator.new format defaultDecoderLimits = .ok s.account.outputValidator) False
      (startSessionWithDeadline plugins limits format now requestedDeadline) := by
  obtain ⟨v, hv⟩ : ∃ v, OutputValidator.new format defaultDecoderLimits = .ok v := ⟨_, rfl⟩
  simp only [startSessionWithDeadline]
  split
  · simp [Ends, limitError, resourceCodes, throw, throwThe, MonadExceptOf.throw]
  · refine (startPlugins_identity limits (fun p hp => h p (mem_filter.mp hp).1) 0).bind
      fun r hr => ?_
    simp only [hv]
    exact ⟨hr, rfl⟩

/-- **A session that changes nothing** gives out its records, unless a resource is exhausted or the
validator does not accept them. -/
theorem runPipeline_identity (settings : RunSettings)
    (h : ∀ p ∈ plugins, p.Identity) (records : List Record) :
    Ends (fun out => out = records ∧
        Records.validateOutputRecords settings.format records defaultDecoderLimits = .ok ())
      (Records.validateOutputRecords settings.format records defaultDecoderLimits ≠ .ok ())
      (runPipeline settings plugins records) := by
  refine ((startSession_identity h).mono (fun _ => id) False.elim).bind fun s hs => ?_
  obtain ⟨hstages, hnew⟩ := hs
  refine ((processAll_identity settings.clock hstages 0 records).mono (fun _ => id) ?_).bind
    fun r hr => ?_
  · rintro ⟨e, he⟩
    simp [Records.validateOutputRecords, hnew, he]
  · obtain ⟨hout, hstages', hpush⟩ := hr
    have hvalidate : Records.validateOutputRecords settings.format records defaultDecoderLimits =
        r.2.account.outputValidator.finish >>= fun _ => pure () := by
      simp only [Records.validateOutputRecords, hnew, hpush, ok_bind]
    rw [hvalidate]
    refine (?_ : Ends (fun f => f.1 = [] ∧ ∃ v, r.2.account.outputValidator.finish = .ok v) _
      (r.2.finishWithFuel settings.finishClock)).bind fun f hf => ?_
    · refine (finishLoop_identity _ hstages' _ _ _ _).bind fun f hf => ?_
      refine ((Ends.mapError_output _).mono (fun _ => id) ?_).bind fun v hv => ?_
      · rintro ⟨e, he⟩
        rw [← hf.2, he]
        simp
      · exact ⟨hf.1, v, hf.2 ▸ hv⟩
    · obtain ⟨hnil, v, hv⟩ := hf
      refine ⟨?_, by rw [hv]; rfl⟩
      show r.1 ++ f.1 = records
      rw [hout, hnil, append_nil]

end Identity

/-! ### Documents -/

/-- **When the documents of a segmented source come through.**  The decoder emits them one by one.
A session that changes nothing, whose resources suffice, succeeds exactly if there is one document,
or if the documents one behind the other are a single number. -/
theorem documents_through_pipeline_iff [SegmentParsers] {σ : Type} (reader : Json.Reader)
    (hjson : Records.ReadsTexts reader)
    (limits : DecoderLimits) (hpos : limits.Positive) (segments : List (List Bytes))
    (hne : segments ≠ [])
    (hframes : ∀ frames ∈ segments, ∀ frame ∈ frames, frame.length ≤ limits.maxSourceFrameBytes)
    (hdocs : ∀ frames ∈ segments, IsDocument reader frames.flatten ∧
      frames.flatten.length ≤ limits.maxJsonDocumentBytes)
    (hutf8 : Records.utf8Ok segments.flatten.flatten = true)
    (htotal : segments.flatten.flatten.length ≤ defaultDecoderLimits.maxJsonDocumentBytes)
    (plugins : List (Plugin σ)) (hplugins : ∀ p ∈ plugins, p.Identity) (settings : RunSettings)
    (hformat : settings.format = .json) (hresources : ¬ HitsResource
      (runPipeline settings plugins (segments.map fun frames => ⟨frames.flatten, []⟩))) :
    Records.decodeSegments .json limits segments =
        .ok (segments.map fun frames => ⟨frames.flatten, []⟩) ∧
      (runPipeline settings plugins (segments.map fun frames => ⟨frames.flatten, []⟩) =
          .ok (segments.map fun frames => ⟨frames.flatten, []⟩) ↔
        segments.length = 1 ∨ reader.isScalar segments.flatten.flatten = true) := by
  have hnil : ∀ doc : Bytes, IsDocument reader doc → doc ≠ [] := by
    rintro _ h rfl
    cases h.2
  have hrecords : (segments.map fun frames => (⟨frames.flatten, []⟩ : Record)) =
      (segments.map flatten).map fun doc => ⟨doc, []⟩ := by
    rw [map_map]
    rfl
  have hflatten : (segments.map flatten).flatten = segments.flatten.flatten :=
    flatten_flatten.symm
  refine ⟨Records.decodeSegments_documents hframes (fun frames hmem => ⟨(hdocs frames hmem).2,
    hnil _ (hdocs frames hmem).1, (hjson _).mpr (hdocs frames hmem).1⟩) hpos, ?_⟩
  have hdocs' : ∀ doc ∈ segments.map flatten, reader.isJson doc = true := by
    intro doc hdoc
    obtain ⟨frames, hmem, rfl⟩ := mem_map.mp hdoc
    exact (hdocs frames hmem).1.2
  have hne' : (segments.map flatten).flatten ≠ [] := by
    obtain ⟨frames, rest, rfl⟩ := exists_cons_of_ne_nil hne
    rw [map_cons, flatten_cons]
    exact append_ne_nil_of_left_ne_nil (hnil _ (hdocs frames mem_cons_self).1) _
  -- the validator reads the documents as one text
  have hvalidate : Records.validateOutputRecords settings.format
      (segments.map fun frames => ⟨frames.flatten, []⟩) defaultDecoderLimits = .ok () ↔
      segments.length = 1 ∨ reader.isScalar segments.flatten.flatten = true := by
    rw [hrecords, hformat, Records.validateOutputRecords_documents defaultDecoderLimits_positive
      hne' (hflatten ▸ htotal), hflatten, hjson.isOk_iff, IsDocument, ← and_assoc,
      and_self, ← hflatten, Json.Reader.isJson_flatten_iff (by simpa using hne) hdocs', length_map,
      hflatten, and_iff_right hutf8]
  rw [← hvalidate]
  have hrun := runPipeline_identity settings hplugins (segments.map fun frames =>
    ⟨frames.flatten, []⟩)
  cases hout : runPipeline settings plugins (segments.map fun frames => ⟨frames.flatten, []⟩) with
  | error e =>
    rw [hout] at hrun
    have hnot := hrun.resolve_left fun hcode => hresources ⟨e, hout, hcode⟩
    refine ⟨fun h => ?_, fun h => absurd h hnot⟩
    cases h
  | ok =>
    rw [hout] at hrun
    obtain ⟨rfl, hok⟩ := hrun
    exact ⟨fun _ => hok, fun _ => rfl⟩

/-! ### Two documents -/

def documentSettings : RunSettings where
  limits := {
    maxIntermediateRecordBytes := 64
    maxPluginFinishBytes := 64
    maxInputBytes := 64
    maxOutputBytes := 64
    maxExpansionFactor := 1
    maxExpansionSlackBytes := 64
    maxPlugins := 1
    maxCumulativeFuel := 1
    maxWallTime := 10 }
  format := .json
  started := 0
  requestedDeadline := 10
  clock _ := 1
  finishClock _ := 1

theorem one_document_through_pipeline : letI := readerParsers anyNumber
    Records.decodeSegments .json defaultDecoderLimits [[ascii "[", ascii "]"]] =
        .ok [⟨ascii "[]", []⟩] ∧
      runPipeline documentSettings ([] : List (Plugin Unit)) [⟨ascii "[]", []⟩] =
        .ok [⟨ascii "[]", []⟩] := by
  let _ := readerParsers anyNumber
  have hresources : ∀ r : Except S4Error (List Record), r.isOk = true → ¬ HitsResource r := by
    rintro _ hok ⟨e, rfl, -⟩
    cases hok
  have h := documents_through_pipeline_iff (σ := Unit) anyNumber
    (Records.readsJson_readerParsers _).json
    defaultDecoderLimits defaultDecoderLimits_positive [[ascii "[", ascii "]"]] (by simp)
    (by decide +kernel) (forall_mem_singleton.mpr ⟨⟨rfl, by decide +kernel⟩, by decide +kernel⟩) rfl
    (by decide +kernel) [] (by simp) documentSettings rfl
    (hresources _ (by decide +kernel))
  exact ⟨h.1, h.2.mpr (.inl rfl)⟩

/-- The decoder emits both documents, and the session rejects them. -/
theorem two_documents_rejected : letI := readerParsers anyNumber
    Records.decodeSegments .json defaultDecoderLimits [[ascii "[]"], [ascii "[]"]] =
        .ok [⟨ascii "[]", []⟩, ⟨ascii "[]", []⟩] ∧
      runPipeline documentSettings ([] : List (Plugin Unit)) [⟨ascii "[]", []⟩, ⟨ascii "[]", []⟩] =
        .error ⟨Codes.decodeInvalidOutput, "invalid JSON"⟩ := by
  let _ := readerParsers anyNumber
  decide +kernel

end S4.Pipeline
