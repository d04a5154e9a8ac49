import S4.Lib.Fallible
import S4.Lib.Json
import S4.Lib.Text
import S4.Records.Output

/-!
# Records — Segments

A source that comes in segments, such as the parts of a multipart upload (`end_of_segment`).  For
JSON a segment that is a document is emitted where the segment ends, and the next one is decoded on
its own; so the documents come out as they went in (`decodeSegments_documents`).  A document that
several segments share comes out whole only if none of the cuts is behind a document, or inside a
number that is out of range up to the cut (`decodeSegments_cuts_iff`).

The validator of the output knows of no segments.  To it the documents are one text
(`validateOutputRecords_documents`).
-/

namespace S4.Records

open Lib List RecordDecoder Except

/-- A JSON text is in UTF-8, and has the shape that the reader, which takes any byte for a
character, accepts. -/
def IsDocument [Parsers] (reader : Json.Reader) (p : Bytes) : Prop :=
  utf8Ok p = true ∧ reader.isJson p = true

instance [Parsers] (reader : Json.Reader) (p : Bytes) : Decidable (IsDocument reader p) :=
  inferInstanceAs (Decidable (_ ∧ _))

/-- The parsers read JSON as the reader does. -/
def ReadsTexts [Parsers] (reader : Json.Reader) : Prop :=
  ∀ p, Parsers.json p = .ok () ↔ IsDocument reader p

section Texts

variable [Parsers] {reader : Json.Reader} {limits : DecoderLimits}

theorem ReadsTexts.isOk_iff (h : ReadsTexts reader) (p : Bytes) :
    (Parsers.json p).isOk = true ↔ IsDocument reader p := by
  rw [← h]
  cases Parsers.json p <;> simp [isOk, Except.toBool]

/-- **The validator and a line of which parts are exchanged**: it must still be a JSON text, and be
within the limit. -/
theorem ReadsTexts.validate_exchanged_iff (h : ReadsTexts reader) (hpos : limits.Positive)
    {x out separator : Bytes} (hline : Record.IsLine ⟨x, separator⟩) (hdoc : IsDocument reader x)
    {parts parts' : List Bytes} (hparts : Forall₂ Exchanged parts parts') (hx : parts.flatten = x)
    (hout : parts'.flatten = out) :
    validateOutputRecords .jsonl [⟨out, separator⟩] limits = .ok () ↔
      IsDocument reader out ∧ Record.Within limits ⟨out, separator⟩ := by
  subst hx hout
  have hne : parts.flatten ≠ [] := by
    intro hnil
    rw [hnil] at hdoc
    cases hdoc.2
  rw [validateOutputRecords_line_iff hpos (hline.exchange hparts)
    (mt (exchanged_flatten hparts).1 hne), h.isOk_iff, IsDocument]
  tauto

end Texts

/-- The external parsers, with what tells an error at the end of the input from other errors. -/
class SegmentParsers extends Parsers where
  jsonEof : Bytes → Bool

namespace RecordDecoder

variable [SegmentParsers]

def endOfSegment (d : RecordDecoder) : Except S4Error RecordDecoder :=
  if d.format ≠ .json ∨ d.pending = [] ∨ d.ready.isSome then .ok d
  else match Parsers.json d.pending with
    | .ok () => .ok { d with
        ready := some ⟨d.pending, []⟩
        pending := []
        inputSeen := true
        scanOffset := 0 }
    | .error e => if SegmentParsers.jsonEof d.pending then .ok d else .error ⟨Codes.decodeJson, e⟩

/-- The frames of a segment, its end, and the records that they give. -/
def pushSegment (d : RecordDecoder) (frames : List Bytes) :
    Except S4Error (List Record × RecordDecoder) := do
  let (records, d) ← d.pushFrames frames
  let d ← d.endOfSegment
  let (last, d) ← d.drain
  return (records ++ last, d)

def pushSegments (d : RecordDecoder) :
    List (List Bytes) → Except S4Error (List Record × RecordDecoder)
  | [] => .ok ([], d)
  | segment :: segments => do
    let (records, d) ← d.pushSegment segment
    let (later, d) ← pushSegments d segments
    return (records ++ later, d)

end RecordDecoder

/-- Decode a source that arrives in the given segments. -/
def decodeSegments [SegmentParsers] (format : Format) (limits : DecoderLimits)
    (segments : List (List Bytes)) : Except S4Error (List Record) := do
  let d ← new format limits
  let (records, d) ← d.pushSegments segments
  let d ← d.finish
  let (last, _) ← d.drain
  return records ++ last

/-! ### Documents -/

section Decoders

variable [SegmentParsers] {limits : DecoderLimits} {d : RecordDecoder} {p frame : Bytes}
  {e : String}

/-- A JSON decoder that waits for the rest of a document. -/
structure RecordDecoder.Waits (d : RecordDecoder) (limits : DecoderLimits) (p : Bytes) : Prop where
  format : d.format = .json
  limits : d.limits = limits
  pending : d.pending = p
  ready : d.ready = none
  finished : d.finished = false
  complete : d.complete = false

namespace RecordDecoder.Waits

theorem prepareNext (h : d.Waits limits p) (hlen : p.length ≤ limits.maxJsonDocumentBytes) :
    d.prepareNext false = .ok d := by
  have hlimit : ¬ d.limits.maxJsonDocumentBytes < d.pending.length := by
    rw [h.limits, h.pending]
    omega
  simp [RecordDecoder.prepareNext, h.ready, h.complete, h.format, prepareJson, ensurePendingLimit,
    hlimit]

theorem push (h : d.Waits limits p) (hframe : frame.length ≤ limits.maxSourceFrameBytes)
    (hlen : (p ++ frame).length ≤ limits.maxJsonDocumentBytes) :
    ∃ d', d.push frame = .ok d' ∧ d'.Waits limits (p ++ frame) := by
  have hwaits : ({ d with
      inputSeen := d.inputSeen || !frame.isEmpty
      pending := d.pending ++ frame } : RecordDecoder).Waits limits (p ++ frame) :=
    ⟨h.format, h.limits, by rw [h.pending], h.ready, h.finished, h.complete⟩
  refine ⟨_, ?_, hwaits⟩
  rw [RecordDecoder.push, if_neg (by simp [h.finished]), if_neg (by simp [h.ready]),
    if_neg (by rw [h.limits]; omega), hwaits.prepareNext hlen]

theorem drain (h : d.Waits limits p) (hlen : p.length ≤ limits.maxJsonDocumentBytes) :
    d.drain = .ok ([], d) := by
  simp [RecordDecoder.drain, drainRecords, nextRecord, h.ready, h.finished, h.prepareNext hlen]

theorem pushFrames {frames : List Bytes} (h : d.Waits limits p)
    (hframes : ∀ frame ∈ frames, frame.length ≤ limits.maxSourceFrameBytes)
    (hlen : (p ++ frames.flatten).length ≤ limits.maxJsonDocumentBytes) :
    ∃ d', d.pushFrames frames = .ok ([], d') ∧ d'.Waits limits (p ++ frames.flatten) := by
  induction frames generalizing d p with
  | nil => exact ⟨d, rfl, by rwa [flatten_nil, append_nil]⟩
  | cons frame frames ih =>
    rw [flatten_cons, ← append_assoc] at hlen ⊢
    have hlen' : (p ++ frame).length ≤ limits.maxJsonDocumentBytes := by
      rw [length_append] at hlen
      omega
    obtain ⟨d', hpush, hd'⟩ := h.push (hframes frame mem_cons_self) hlen'
    obtain ⟨d'', hrest, hd''⟩ :=
      ih hd' (fun f hf => hframes f (mem_cons_of_mem _ hf)) hlen
    refine ⟨d'', ?_, hd''⟩
    simp [pushFrames, hpush, hd'.drain hlen', hrest]

theorem endOfSegment (h : d.Waits limits p) (hne : p ≠ []) :
    d.endOfSegment = match Parsers.json p with
      | .ok () => .ok { d with
          ready := some ⟨p, []⟩
          pending := []
          inputSeen := true
          scanOffset := 0 }
      | .error e => if SegmentParsers.jsonEof p then .ok d else .error ⟨Codes.decodeJson, e⟩ := by
  rw [RecordDecoder.endOfSegment, if_neg (by simp [h.format, h.pending, hne, h.ready]), h.pending]

section Segment

variable {frames : List Bytes} (h : d.Waits limits p)
    (hframes : ∀ frame ∈ frames, frame.length ≤ limits.maxSourceFrameBytes)
    (hlen : (p ++ frames.flatten).length ≤ limits.maxJsonDocumentBytes)
      (hne : p ++ frames.flatten ≠ [])

include h hframes hlen hne

/-- A document comes out where its segment ends. -/
theorem pushSegment (hjson : Parsers.json (p ++ frames.flatten) = .ok ()) :
    ∃ d', d.pushSegment frames = .ok ([⟨p ++ frames.flatten, []⟩], d') ∧ d'.Waits limits [] := by
  obtain ⟨d', hpush, hd'⟩ := h.pushFrames hframes hlen
  have hend := hd'.endOfSegment hne
  rw [hjson] at hend
  have hwaits : ({ d' with
      ready := none
      pending := []
      inputSeen := true
      scanOffset := 0
      recordsEmitted := d'.recordsEmitted + 1 } : RecordDecoder).Waits limits [] :=
    ⟨hd'.format, hd'.limits, rfl, rfl, hd'.finished, hd'.complete⟩
  refine ⟨_, ?_, hwaits⟩
  have hnext := hwaits.prepareNext (Nat.zero_le _)
  rw [hd'.finished] at hnext
  simp [RecordDecoder.pushSegment, hpush, hend, RecordDecoder.drain, drainRecords, nextRecord,
    hd'.finished, hnext]

/-- What the end of the segment cuts waits for the next segment. -/
theorem pushSegment_eof (hjson : Parsers.json (p ++ frames.flatten) = .error e)
    (heof : SegmentParsers.jsonEof (p ++ frames.flatten) = true) :
    ∃ d', d.pushSegment frames = .ok ([], d') ∧ d'.Waits limits (p ++ frames.flatten) := by
  obtain ⟨d', hpush, hd'⟩ := h.pushFrames hframes hlen
  have hend := hd'.endOfSegment hne
  simp only [hjson, heof, if_true] at hend
  refine ⟨d', ?_, hd'⟩
  simp [RecordDecoder.pushSegment, hpush, hend, hd'.drain hlen]

theorem pushSegment_error (hjson : Parsers.json (p ++ frames.flatten) = .error e)
    (heof : SegmentParsers.jsonEof (p ++ frames.flatten) = false) :
    d.pushSegment frames = .error ⟨Codes.decodeJson, e⟩ := by
  obtain ⟨d', hpush, hd'⟩ := h.pushFrames hframes hlen
  have hend := hd'.endOfSegment hne
  simp only [hjson, heof, Bool.false_eq_true, if_false] at hend
  simp [RecordDecoder.pushSegment, hpush, hend]

end Segment

theorem finish (h : d.Waits limits []) : ∃ d', d.finish = .ok d' ∧ d'.drain = .ok ([], d') := by
  refine ⟨{ d with finished := true, complete := true }, ?_, ?_⟩
  · have hlimit : ¬ d.limits.maxJsonDocumentBytes < 0 := Nat.not_lt_zero _
    simp [RecordDecoder.finish, h.finished, h.ready, RecordDecoder.prepareNext, h.complete,
      h.format, prepareJson, ensurePendingLimit, h.pending]
  · simp [RecordDecoder.drain, drainRecords, nextRecord, RecordDecoder.prepareNext, h.ready]

end RecordDecoder.Waits

omit [SegmentParsers] in
theorem waits_new (hpos : limits.Positive) : ∃ d, new .json limits = .ok d ∧ d.Waits limits [] := by
  obtain ⟨h₁, h₂, h₃, h₄⟩ := hpos
  refine ⟨_, by rw [new, if_neg (by omega)], rfl, rfl, rfl, rfl, rfl, rfl⟩

section Documents

variable {segments : List (List Bytes)}
    (hframes : ∀ frames ∈ segments, ∀ frame ∈ frames, frame.length ≤ limits.maxSourceFrameBytes)
    (hdocs : ∀ frames ∈ segments, frames.flatten.length ≤ limits.maxJsonDocumentBytes ∧
      frames.flatten ≠ [] ∧ Parsers.json frames.flatten = .ok ())

include hframes hdocs

theorem RecordDecoder.Waits.pushSegments (h : d.Waits limits []) :
    ∃ d', d.pushSegments segments = .ok (segments.map fun frames => ⟨frames.flatten, []⟩, d') ∧
      d'.Waits limits [] := by
  induction segments generalizing d with
  | nil => exact ⟨d, rfl, h⟩
  | cons frames segments ih =>
    obtain ⟨hlen, hne, hjson⟩ := hdocs frames mem_cons_self
    obtain ⟨d', hpush, hd'⟩ := h.pushSegment (hframes frames mem_cons_self) hlen hne hjson
    obtain ⟨d'', hrest, hd''⟩ := ih (fun f hf => hframes f (mem_cons_of_mem _ hf))
      (fun f hf => hdocs f (mem_cons_of_mem _ hf)) hd'
    refine ⟨d'', ?_, hd''⟩
    simp [RecordDecoder.pushSegments, hpush, hrest]

/-- **Documents come out as they went in**, each where its segment ends. -/
theorem decodeSegments_documents (hpos : limits.Positive) :
    decodeSegments .json limits segments =
      .ok (segments.map fun frames => ⟨frames.flatten, []⟩) := by
  obtain ⟨d, hnew, hd⟩ := waits_new hpos
  obtain ⟨d', hpush, hd'⟩ := hd.pushSegments hframes hdocs
  obtain ⟨d'', hfinish, hdrain⟩ := hd'.finish
  simp [decodeSegments, hnew, hpush, hfinish, hdrain]

end Documents

/-! ### Cuts in a document -/

/-- On a part of a document that is none itself, the error is the end of the input, unless a number
is out of range up to there. -/
structure ReadsJson (reader : Json.Reader) : Prop where
  json : ReadsTexts reader
  eof (p q : Bytes) : IsDocument reader (p ++ q) → ¬ IsDocument reader p →
    SegmentParsers.jsonEof p = reader.tailInRange p

/-- A segment may end behind this part of a document. -/
def MayCut (reader : Json.Reader) (p : Bytes) : Prop :=
  ¬ IsDocument reader p ∧ reader.tailInRange p = true

/-- One of the segments but the last ends where it may not. -/
def CutsDocument (reader : Json.Reader) (p : Bytes) (segments : List (List Bytes)) : Prop :=
  ∃ before after, segments = before ++ after ∧ before ≠ [] ∧ after ≠ [] ∧
    ¬ MayCut reader (p ++ before.flatten.flatten)

namespace CutsDocument

variable {reader : Json.Reader} {segment next : List Bytes} {segments : List (List Bytes)}

theorem singleton : ¬ CutsDocument reader p [segment] := by
  rintro ⟨before, after, hsplit, hbefore, hafter, -⟩
  obtain ⟨a, before, rfl⟩ := exists_cons_of_ne_nil hbefore
  obtain ⟨b, after, rfl⟩ := exists_cons_of_ne_nil hafter
  simp at hsplit

/-- The first cut is one that may not be, or a later one is. -/
theorem cons : CutsDocument reader p (segment :: next :: segments) ↔
    ¬ MayCut reader (p ++ segment.flatten) ∨
      CutsDocument reader (p ++ segment.flatten) (next :: segments) := by
  constructor
  · rintro ⟨before, after, hsplit, hbefore, hafter, hcut⟩
    obtain ⟨a, before, rfl⟩ := exists_cons_of_ne_nil hbefore
    obtain ⟨rfl, hrest⟩ := cons.inj hsplit
    by_cases hnil : before = []
    · subst hnil
      exact .inl (by simpa using hcut)
    · exact .inr ⟨before, after, hrest, hnil, hafter, by simpa using hcut⟩
  · rintro (hcut | ⟨before, after, hsplit, hbefore, hafter, hcut⟩)
    · exact ⟨[segment], next :: segments, rfl, by simp, by simp, by simpa using hcut⟩
    · exact ⟨segment :: before, after, by rw [hsplit]; rfl, by simp, hafter, by simpa using hcut⟩

end CutsDocument

section Cuts

variable {reader : Json.Reader} {frames : List Bytes} {segments : List (List Bytes)} {q : Bytes}

/-- A segment that ends inside a document. -/
theorem RecordDecoder.Waits.pushSegment_cut (h : d.Waits limits p) (hreads : ReadsJson reader)
    (hframes : ∀ frame ∈ frames, frame.length ≤ limits.maxSourceFrameBytes)
    (hlen : (p ++ frames.flatten).length ≤ limits.maxJsonDocumentBytes) (hne : frames.flatten ≠ [])
    (hdoc : IsDocument reader (p ++ frames.flatten ++ q)) :
    (MayCut reader (p ++ frames.flatten) →
      ∃ d', d.pushSegment frames = .ok ([], d') ∧ d'.Waits limits (p ++ frames.flatten)) ∧
    (¬ MayCut reader (p ++ frames.flatten) → ∀ records d',
    d.pushSegment frames = .ok (records, d') → records = [⟨p ++ frames.flatten, []⟩]) := by
  have hne' : p ++ frames.flatten ≠ [] := append_ne_nil_of_right_ne_nil _ hne
  cases hjson : Parsers.json (p ++ frames.flatten) with
  | ok =>
    have hvalid := (hreads.json _).mp hjson
    refine ⟨fun hcut => absurd hvalid hcut.1, fun _ records d' hpush => ?_⟩
    obtain ⟨d'', hpush', -⟩ := h.pushSegment hframes hlen hne' hjson
    rw [hpush'] at hpush
    cases hpush
    rfl
  | error =>
    have hinvalid : ¬ IsDocument reader (p ++ frames.flatten) := by
      rw [← hreads.json, hjson]
      rintro ⟨⟩
    have heof := hreads.eof _ _ hdoc hinvalid
    refine ⟨fun hcut => h.pushSegment_eof hframes hlen hne' hjson (heof.trans hcut.2),
      fun hcut records d' hpush => ?_⟩
    have hrange : SegmentParsers.jsonEof (p ++ frames.flatten) = false := by
      rw [heof, Bool.eq_false_iff]
      exact fun hrange => hcut ⟨hinvalid, hrange⟩
    rw [h.pushSegment_error hframes hlen hne' hjson hrange] at hpush
    cases hpush

section Document

variable (h : d.Waits limits p) (hreads : ReadsJson reader)
    (hframes : ∀ frames ∈ segments, ∀ frame ∈ frames, frame.length ≤ limits.maxSourceFrameBytes)
    (hsegments : ∀ frames ∈ segments, frames.flatten ≠ [])
    (hlen : (p ++ segments.flatten.flatten).length ≤ limits.maxJsonDocumentBytes)
    (hdoc : IsDocument reader (p ++ segments.flatten.flatten))

include h hreads hframes hsegments hlen hdoc

/-- A document whose cuts all may be comes out where the last segment ends. -/
theorem RecordDecoder.Waits.pushSegments_whole (hne : segments ≠ [])
    (hcuts : ¬ CutsDocument reader p segments) :
    ∃ d', d.pushSegments segments = .ok ([⟨p ++ segments.flatten.flatten, []⟩], d') ∧
      d'.Waits limits [] := by
  induction segments generalizing d p with
  | nil => exact absurd rfl hne
  | cons segment segments ih =>
    rw [flatten_cons, flatten_append, ← append_assoc] at hlen hdoc ⊢
    have hframes' := hframes segment mem_cons_self
    have hne' := hsegments segment mem_cons_self
    cases segments with
    | nil =>
      rw [flatten_nil, flatten_nil, append_nil] at hlen hdoc ⊢
      obtain ⟨d', hpush, hd'⟩ := h.pushSegment hframes' hlen
        (append_ne_nil_of_right_ne_nil _ hne') ((hreads.json _).mpr hdoc)
      refine ⟨d', ?_, hd'⟩
      simp [RecordDecoder.pushSegments, hpush]
    | cons =>
      rw [CutsDocument.cons, not_or, not_not] at hcuts
      have hlen' : (p ++ segment.flatten).length ≤ limits.maxJsonDocumentBytes := by
        rw [length_append] at hlen
        omega
      obtain ⟨d', hpush, hd'⟩ := (h.pushSegment_cut hreads hframes' hlen' hne' hdoc).1 hcuts.1
      obtain ⟨d'', hrest, hd''⟩ := ih hd' (fun f hf => hframes f (mem_cons_of_mem _ hf))
        (fun f hf => hsegments f (mem_cons_of_mem _ hf)) hlen hdoc (by simp) hcuts.2
      refine ⟨d'', ?_, hd''⟩
      rw [RecordDecoder.pushSegments, hpush]
      simp [hrest]

/-- Where a cut may not be, what comes out first is less than the document. -/
theorem RecordDecoder.Waits.pushSegments_cut
    (hcuts : CutsDocument reader p segments) {records : List Record} {d' : RecordDecoder}
    (hpush : d.pushSegments segments = .ok (records, d')) :
    ∃ part rest, records = ⟨part, []⟩ :: rest ∧
      part.length < (p ++ segments.flatten.flatten).length := by
  induction segments generalizing d p records with
  | nil =>
    obtain ⟨before, after, hsplit, hbefore, -⟩ := hcuts
    exact absurd (append_eq_nil_iff.mp hsplit.symm).1 hbefore
  | cons segment segments ih =>
    cases segments with
    | nil => exact absurd hcuts CutsDocument.singleton
    | cons next segments =>
      rw [flatten_cons, flatten_append, ← append_assoc] at hlen hdoc ⊢
      have hnext : next.flatten ≠ [] := hsegments next (by simp)
      have hlen' : (p ++ segment.flatten).length <
          (p ++ segment.flatten ++ (next :: segments).flatten.flatten).length := by
        have := length_pos_iff.mpr hnext
        simp only [flatten_cons, flatten_append, length_append]
        omega
      have hcut := h.pushSegment_cut hreads (hframes segment mem_cons_self)
        (hlen'.le.trans hlen) (hsegments segment mem_cons_self) hdoc
      rw [RecordDecoder.pushSegments] at hpush
      obtain ⟨⟨first, d₁⟩, hfirst, hpush⟩ := bind_eq_ok.mp hpush
      obtain ⟨⟨later, d₂⟩, hlater, hpush⟩ := bind_eq_ok.mp hpush
      cases hpush
      by_cases hmay : MayCut reader (p ++ segment.flatten)
      · obtain ⟨d₁', hfirst', hd₁⟩ := hcut.1 hmay
        rw [hfirst'] at hfirst
        cases hfirst
        exact ih hd₁ (fun f hf => hframes f (mem_cons_of_mem _ hf))
          (fun f hf => hsegments f (mem_cons_of_mem _ hf)) hlen hdoc
          ((CutsDocument.cons.mp hcuts).resolve_left (not_not.mpr hmay)) hlater
      · rw [hcut.2 hmay _ _ hfirst]
        exact ⟨_, later, rfl, hlen'⟩

end Document

/-- **When a document in several segments comes out whole.**  Exactly if no segment but the last
ends behind a part that is itself a document, or inside a number that is out of range up to there.
-/
theorem decodeSegments_cuts_iff (hreads : ReadsJson reader) (hpos : limits.Positive)
    (segments : List (List Bytes)) (hne : segments ≠ [])
    (hsegments : ∀ frames ∈ segments, frames.flatten ≠ [])
    (hframes : ∀ frames ∈ segments, ∀ frame ∈ frames, frame.length ≤ limits.maxSourceFrameBytes)
    (hdoc : IsDocument reader segments.flatten.flatten)
    (hlen : segments.flatten.flatten.length ≤ limits.maxJsonDocumentBytes) :
    decodeSegments .json limits segments = .ok [⟨segments.flatten.flatten, []⟩] ↔
      ∀ before after, segments = before ++ after → before ≠ [] → after ≠ [] →
        ¬ IsDocument reader before.flatten.flatten ∧
          reader.tailInRange before.flatten.flatten = true := by
  obtain ⟨d, hnew, hd⟩ := waits_new hpos
  have hall : (∀ before after, segments = before ++ after → before ≠ [] → after ≠ [] →
      MayCut reader before.flatten.flatten) ↔ ¬ CutsDocument reader [] segments := by
    simp [CutsDocument]
  refine Iff.trans ?_ hall.symm
  constructor
  · intro hdecode hcuts
    rw [decodeSegments] at hdecode
    obtain ⟨d₀, hnew', hdecode⟩ := bind_eq_ok.mp hdecode
    obtain rfl : d = d₀ := ok.inj (hnew.symm.trans hnew')
    obtain ⟨⟨records, d'⟩, hpush, hdecode⟩ := bind_eq_ok.mp hdecode
    obtain ⟨part, rest, rfl, hpart⟩ :=
      hd.pushSegments_cut hreads hframes hsegments hlen hdoc hcuts hpush
    obtain ⟨d'', -, hdecode⟩ := bind_eq_ok.mp hdecode
    obtain ⟨⟨last, d₃⟩, -, hdecode⟩ := bind_eq_ok.mp hdecode
    have hrecords := ok.inj hdecode
    rw [cons_append, cons.injEq] at hrecords
    exact absurd hpart (by rw [← (Record.mk.inj hrecords.1).1]; exact Nat.lt_irrefl _)
  · intro hcuts
    obtain ⟨d', hpush, hd'⟩ := hd.pushSegments_whole hreads hframes hsegments hlen hdoc hne hcuts
    obtain ⟨d'', hfinish, hdrain⟩ := hd'.finish
    simp [decodeSegments, hnew, hpush, hfinish, hdrain]

end Cuts

end Decoders

def readJson (reader : Json.Reader) (p : Bytes) : Except String Unit :=
  if reader.isJson p then .ok () else .error "invalid JSON"

/-- Parsers that read JSON as the reader does, and take every other input. -/
abbrev readerParsers (reader : Json.Reader) : SegmentParsers where
  utf8 _ := .ok ()
  json := readJson reader
  csv input _ := ⟨true, input.length, 1⟩
  jsonEof := reader.tailInRange

theorem readsJson_readerParsers (reader : Json.Reader) :
    letI := readerParsers reader; ReadsJson reader := by
  let _ := readerParsers reader
  refine ⟨fun p => ?_, fun _ _ _ _ => rfl⟩
  show readJson reader p = .ok () ↔ true = true ∧ reader.isJson p = true
  simp [readJson]

def anyNumber : Json.Reader := ⟨fun _ => true, 127⟩

def documentLimits : DecoderLimits := ⟨8, 8, 8, 8⟩

theorem list_in_two_segments : letI := readerParsers anyNumber
    decodeSegments .json documentLimits [[ascii "["], [ascii "]"]] = .ok [⟨ascii "[]", []⟩] := by
  let _ := readerParsers anyNumber
  refine (decodeSegments_cuts_iff (readsJson_readerParsers _)
    ⟨by decide, by decide, by decide, by decide⟩
    [[ascii "["], [ascii "]"]] (by simp) (by decide) (by decide) (by decide +kernel)
      (by decide)).mpr ?_
  intro before after hsplit hbefore hafter
  have hone : before = [[ascii "["]] := by
    rcases before with _ | ⟨a, _ | ⟨b, before⟩⟩ <;> simp_all
  rw [hone]
  decide +kernel

/-- A number that a cut divides comes out as two numbers. -/
theorem number_in_two_segments : letI := readerParsers anyNumber
    anyNumber.isJson (ascii "12") = true ∧
      decodeSegments .json documentLimits [[ascii "1"], [ascii "2"]] =
        .ok [⟨ascii "1", []⟩, ⟨ascii "2", []⟩] := by
  decide +kernel

theorem cutsFull_json [Parsers] {limits : DecoderLimits} {frames : List Bytes} :
    ¬ CutsFull .json limits frames := by
  rintro ⟨before, after, -, rs, record, -, -, hfalse⟩
  exact hfalse

/-- **To the validator, documents one behind the other are one document.** -/
theorem validateOutputRecords_documents [Parsers] {limits : DecoderLimits} {docs : List Bytes}
    (hpos : limits.Positive) (hne : docs.flatten ≠ [])
    (hlen : docs.flatten.length ≤ limits.maxJsonDocumentBytes) :
    validateOutputRecords .json (docs.map fun doc => ⟨doc, []⟩) limits = .ok () ↔
      utf8Ok docs.flatten = true ∧ (Parsers.json docs.flatten).isOk = true := by
  have hbytes : ((docs.map fun doc => (⟨doc, []⟩ : Record)).flatMap fun r =>
    r.payload ++ r.separator) = docs.flatten := by
    rw [flatMap_map]
    simp [flatMap_id']
  have hlens := length_of_mem_frames (docs.map fun doc => (⟨doc, []⟩ : Record))
    limits.maxSourceFrameBytes
  have hdrain : (splitter .json limits).drain docs.flatten = some ([], docs.flatten) :=
    Splitter.drain_more (if_pos hlen)
  simp only [validateOutputRecords_eq_ok_iff hpos, hbytes, hne, false_or,
    decodeFrames_eq_ok_iff_cuts hpos hlens, frames_flatten hpos.1, decode_eq_some_iff, hdrain]
  constructor
  · rintro ⟨rs, ⟨⟨-, -, last, ⟨⟩, -, hlast, -⟩, -⟩, -⟩
    rw [lastRecords, if_neg hne] at hlast
    split at hlast
    · next hok => exact hok
    · cases hlast
  · intro hok
    refine ⟨_, ⟨⟨[], docs.flatten, [⟨docs.flatten, []⟩], rfl, decide_eq_true hlen, ?_, by simp,
      rfl⟩, cutsFull_json⟩, fun r _ h => by cases h⟩
    rw [lastRecords, if_neg hne, if_pos hok]

end S4.Records
