import S4.Integrity.Verifier
import S4.Lib.Fallible
import S4.Lib.Transducer

/-!
# Integrity — Splits

How a body is cut into pieces does not matter to its verdict.

The decoder reads lines, runs of data and CRLFs, each as far as its input goes.  `feed` is the same
machine one byte at a time, and `push` does what `feed` does over the bytes of its input
(`AwsChunkedDecoder.push_eq`).  The verifier counts and hashes what comes out, which adds up over
pieces (`BodyVerifier.verify_pieces`).
-/

namespace S4.Integrity

open Lib List Option Transducer AwsChunkedDecoder

variable {limit matched : Nat}
    {complete : AwsChunkedDecoder → Bytes → Except IntegrityError AwsChunkedDecoder}
    {message : String} {state : Nat → DecodeState} {next : DecodeState} {line : Bytes}
    {byte : UInt8}

variable [Digests] {d d' : AwsChunkedDecoder} {input : Bytes}

namespace AwsChunkedDecoder

/-! ### One byte at a time -/

/-- A byte of a line; `complete` is given the line when it ends. -/
def feedLine (limit : Nat)
    (complete : AwsChunkedDecoder → Bytes → Except IntegrityError AwsChunkedDecoder)
    (d : AwsChunkedDecoder) (byte : UInt8) : Except IntegrityError (Bytes × AwsChunkedDecoder) :=
  let buffer := d.line ++ [byte]
  if crlf <:+ buffer then
    (complete { d with line := [] } (buffer.take (buffer.length - 2))).map ([], ·)
  else if buffer.length > limit ∧ (buffer.length ≠ limit + 1 ∨ buffer.getLast? ≠ some 0x0d) then
    .error .oversizedFraming
  else .ok ([], { d with line := buffer })

/-- A byte of a CRLF, which leads to `next`. -/
def feedCrlf (message : String) (state : Nat → DecodeState) (next : DecodeState) (matched : Nat)
    (d : AwsChunkedDecoder) (byte : UInt8) : Except IntegrityError (Bytes × AwsChunkedDecoder) :=
  if byte ≠ crlfByte matched then .error (.framing message)
  else .ok ([], { d with state := if matched + 1 = 2 then next else state (matched + 1) })

omit [Digests] in
/-- Data of the chunk. -/
def absorb (d : AwsChunkedDecoder) (bytes : Bytes) : AwsChunkedDecoder :=
  { d with
    chunkHasher := d.chunkHasher ++ bytes
    chunkRemaining := d.chunkRemaining - bytes.length }

/-- The data is put out; behind the last of the chunk, the signature is verified. -/
def emitData (d : AwsChunkedDecoder) (bytes : Bytes) :
    Except IntegrityError (Bytes × AwsChunkedDecoder) :=
  if d.chunkRemaining = 0 then
    d.verifyChunkSignature.map fun d => (bytes, { d with state := .dataCrlf 0 })
  else .ok (bytes, d)

/-- **The decoder, one byte at a time.** -/
def feed : Transducer AwsChunkedDecoder UInt8 UInt8 IntegrityError := fun d byte =>
  match d.state with
  | .header => feedLine maxChunkHeaderBytes startChunk d byte
  | .data => emitData (d.absorb [byte]) [byte]
  | .dataCrlf matched => feedCrlf "chunk data lacks CRLF" .dataCrlf .header matched d byte
  | .finalCrlf matched => feedCrlf "final chunk lacks CRLF" .finalCrlf .done matched d byte
  | .trailers => feedLine maxTrailerLineBytes trailerLine d byte
  | .done => .error .trailingData

omit [Digests] in
/-- The states in which the decoder may wait for input. -/
def Waits (d : AwsChunkedDecoder) : Prop :=
  match d.state with
  | .data => 0 < d.chunkRemaining
  | .dataCrlf matched => matched < 2
  | .finalCrlf matched => matched < 2
  | _ => True

/-- The outcome of a call on the input, as `feed` has it: the output, the decoder and the input that
is left. -/
def Reads (d : AwsChunkedDecoder) (input : Bytes) :
    Except IntegrityError (List Bytes × AwsChunkedDecoder × Bytes) → Prop
  | .error e => feed.run d input = .error e
  | .ok (out, d', rest) =>
    ∃ used, used ≠ [] ∧ input = used ++ rest ∧ feed.run d used = .ok (out.flatten, d')

/-- The outcome of `takeLine` on the input: a line, which `complete` is given, or an open line. -/
def ReadsLine (complete : AwsChunkedDecoder → Bytes → Except IntegrityError AwsChunkedDecoder)
    (d : AwsChunkedDecoder) (buffer input : Bytes) :
    Except IntegrityError (Option Bytes × Bytes × Bytes) → Prop
  | .error e => feed.run { d with line := buffer } input = .error e
  | .ok (none, buffer', rest) =>
    rest = [] ∧ feed.run { d with line := buffer } input = .ok ([], { d with line := buffer' })
  | .ok (some line, buffer', rest) =>
    ∃ used, used ≠ [] ∧ input = used ++ rest ∧
      feed.run { d with line := buffer } used =
        (complete { d with line := buffer' } line).map ([], ·)

/-- The outcome of `matchCrlf` on the input. -/
def ReadsCrlf (state : Nat → DecodeState) (next : DecodeState) (d : AwsChunkedDecoder)
    (matched : Nat) (input : Bytes) : Except IntegrityError (Nat × Bytes) → Prop
  | .error e => feed.run { d with state := state matched } input = .error e
  | .ok (matched', rest) => (matched' = 2 ∨ rest = []) ∧ ∃ used, used ≠ [] ∧ input = used ++ rest ∧
      feed.run { d with state := state matched } used =
        .ok ([], { d with state := if matched' = 2 then next else state matched' })

/-! ### A call reads as `feed` does -/

/-- A call of `takeLine` reads a line up to its end, or all of the input. -/
theorem takeLine_reads (hfeed : ∀ buffer byte, feed { d with line := buffer } byte =
      feedLine limit complete { d with line := buffer } byte) (buffer input : Bytes) :
    ReadsLine complete d buffer input (takeLine limit buffer input) := by
  induction input generalizing buffer with
  | nil => exact ⟨rfl, rfl⟩
  | cons byte input ih =>
    rw [takeLine]
    split
    · next hend =>
      -- the byte completes the line
      refine ⟨[byte], cons_ne_nil _ _, rfl, ?_⟩
      have hstep : feed { d with line := buffer } byte = (complete { d with line := [] }
          ((buffer ++ [byte]).take ((buffer ++ [byte]).length - 2))).map ([], ·) := by
        rw [hfeed, feedLine, if_pos hend]
      cases hc : complete { d with line := [] }
          ((buffer ++ [byte]).take ((buffer ++ [byte]).length - 2)) with
      | error e =>
        rw [hc] at hstep
        exact run_cons_error hstep []
      | ok d' =>
        rw [hc] at hstep
        exact run_cons_ok hstep []
    · next hend =>
      split
      · next hlong =>
        refine run_cons_error ?_ input
        rw [hfeed, feedLine, if_neg hend, if_pos hlong]
      · next hshort =>
        have hstep : feed { d with line := buffer } byte =
            .ok ([], { d with line := buffer ++ [byte] }) := by
          rw [hfeed, feedLine, if_neg hend, if_neg hshort]
        have hrest := ih (buffer ++ [byte])
        match takeLine limit (buffer ++ [byte]) input, hrest with
        | .error e, hrest =>
          rw [ReadsLine, run_cons_ok hstep, hrest]
          rfl
        | .ok (none, buffer', rest), ⟨hnil, hrun⟩ =>
          refine ⟨hnil, ?_⟩
          rw [run_cons_ok hstep, hrun]
          rfl
        | .ok (some line, buffer', rest), ⟨used, _, hused, hrun⟩ =>
          refine ⟨byte :: used, cons_ne_nil _ _, by rw [hused, cons_append], ?_⟩
          rw [run_cons_ok hstep, hrun]
          cases complete { d with line := buffer' } line <;> rfl

omit [Digests] in
theorem absorb_absorb (d : AwsChunkedDecoder) (bytes later : Bytes) :
    (d.absorb bytes).absorb later = d.absorb (bytes ++ later) := by
  simp [absorb, Nat.sub_sub]

/-- A run of data, up to the end of the chunk. -/
theorem data_reads (hstate : d.state = .data) (hpos : 0 < d.chunkRemaining) (bytes : Bytes)
    (hle : bytes.length ≤ d.chunkRemaining) :
    feed.run d bytes = emitData (d.absorb bytes) bytes := by
  induction bytes generalizing d with
  | nil =>
    have hne : d.chunkRemaining ≠ 0 := by omega
    simp [run, emitData, absorb, hne]
  | cons byte bytes ih =>
    have hfeed : feed d byte = emitData (d.absorb [byte]) [byte] := by simp only [feed, hstate]
    have hone : (d.absorb [byte]).chunkRemaining = d.chunkRemaining - 1 := rfl
    rw [length_cons] at hle
    by_cases hlast : d.chunkRemaining = 1
    · -- the last byte of the chunk
      obtain rfl : bytes = [] := eq_nil_of_length_eq_zero (by omega)
      cases hd : emitData (d.absorb [byte]) [byte] with
      | error => exact run_cons_error (hfeed.trans hd) []
      | ok =>
        rw [run_cons_ok (hfeed.trans hd)]
        simp [run, Except.map]
    · rw [emitData, if_neg (by omega)] at hfeed
      rw [run_cons_ok hfeed, ih (d := d.absorb [byte]) hstate (by omega) (by omega),
        absorb_absorb]
      simp only [emitData, singleton_append]
      split
      · cases verifyChunkSignature (d.absorb (byte :: bytes)) <;> rfl
      · rfl

/-- A call of `matchCrlf` reads the rest of a CRLF, or all of the input. -/
theorem matchCrlf_reads (hfeed : ∀ matched byte, feed { d with state := state matched } byte =
      feedCrlf message state next matched { d with state := state matched } byte)
    (hmatched : matched < 2) (hne : input ≠ []) :
    ReadsCrlf state next d matched input (matchCrlf message matched input) := by
  obtain ⟨byte, rest, rfl⟩ := exists_cons_of_ne_nil hne
  rw [matchCrlf, if_pos hmatched]
  split
  · next hb =>
    refine run_cons_error ?_ rest
    rw [hfeed, feedCrlf, if_pos hb]
  · next hb =>
    have hstep : feed { d with state := state matched } byte = .ok ([], { d with
        state := if matched + 1 = 2 then next else state (matched + 1) }) := by
      rw [hfeed, feedCrlf, if_neg hb]
    by_cases hlast : matched + 1 = 2
    · -- the second byte
      rw [hlast] at hstep ⊢
      have hstop : matchCrlf message 2 rest = .ok (2, rest) := by cases rest <;> rfl
      rw [hstop]
      exact ⟨.inl rfl, [byte], cons_ne_nil _ _, rfl, run_cons_ok hstep []⟩
    · obtain rfl : matched = 0 := by omega
      rw [if_neg (by decide)] at hstep
      cases rest with
      | nil => exact ⟨.inr rfl, [byte], cons_ne_nil _ _, rfl, run_cons_ok hstep []⟩
      | cons byte' rest =>
        rw [matchCrlf, if_pos (by decide)]
        split
        · next hb' =>
          have hstep' : feed { d with state := state (0 + 1) } byte' =
            .error (.framing message) := by
            rw [hfeed, feedCrlf, if_pos hb']
          rw [ReadsCrlf, run_cons_ok hstep, run_cons_error hstep']
          rfl
        · next hb' =>
          have hstep' : feed { d with state := state (0 + 1) } byte' =
              .ok ([], { d with state := next }) := by
            rw [hfeed, feedCrlf, if_neg hb']
            rfl
          have hstop : matchCrlf message (0 + 1 + 1) rest = .ok (2, rest) := by cases rest <;> rfl
          rw [hstop]
          refine ⟨.inl rfl, [byte, byte'], cons_ne_nil _ _, rfl, ?_⟩
          rw [run_cons_ok hstep, run_cons_ok hstep']
          rfl

/-- Behind the last byte of the body there is no other. -/
theorem run_done (hstate : d.state = .done) (hne : input ≠ []) :
    feed.run d input = .error .trailingData := by
  obtain ⟨byte, rest, rfl⟩ := exists_cons_of_ne_nil hne
  refine run_cons_error ?_ rest
  simp [feed, hstate]

theorem line_reads (hfeed : ∀ buffer byte, feed { d with line := buffer } byte =
      feedLine limit complete { d with line := buffer } byte) (hne : input ≠ [])
    (finish : AwsChunkedDecoder → Bytes →
      Except IntegrityError (List Bytes × AwsChunkedDecoder × Bytes))
    (hfinish : ∀ d' rest, finish d' rest = .ok ([], d', rest) ∨
      finish d' rest = .error .trailingData ∧ d'.state = .done ∧ rest ≠ []) :
    Reads d input (takeLine limit d.line input >>= fun e =>
      match e.1 with
      | none => pure ([], { d with line := e.2.1 }, e.2.2)
      | some line => complete { d with line := e.2.1 } line >>= fun d' => finish d' e.2.2) := by
  have hline := takeLine_reads hfeed d.line input
  match takeLine limit d.line input, hline with
  | .error e, hrun => exact hrun
  | .ok (none, buffer, rest), ⟨hnil, hrun⟩ => exact ⟨input, hne, by simp [hnil], hrun⟩
  | .ok (some line, buffer, rest), ⟨used, hused, hinput, hrun⟩ =>
    simp only [bind, Except.bind]
    cases hc : complete { d with line := buffer } line with
    | error =>
      rw [hc] at hrun
      rw [hinput]
      exact run_append_error hrun rest
    | ok d' =>
      rw [hc] at hrun
      rcases hfinish d' rest with hf | ⟨hf, hdone, hrest⟩
      · simp only [hf]
        exact ⟨used, hused, hinput, hrun⟩
      · simp only [hf, Reads]
        have hrun' : feed.run d used = .ok ([], d') := hrun
        rw [hinput, run_append_ok hrun', run_done hdone hrest]
        rfl

theorem crlf_reads (hfeed : ∀ matched byte, feed { d with state := state matched } byte =
      feedCrlf message state next matched { d with state := state matched } byte)
    (hstate : d.state = state matched) (hmatched : matched < 2) (hne : input ≠ [])
    (finish : Nat → Bytes → Except IntegrityError (List Bytes × AwsChunkedDecoder × Bytes))
    (hfinish : ∀ matched' rest, finish matched' rest =
        .ok ([], { d with state := if matched' = 2 then next else state matched' }, rest) ∨
      finish matched' rest = .error .trailingData ∧ matched' = 2 ∧ next = .done ∧ rest ≠ []) :
    Reads d input (matchCrlf message matched input >>= fun e => finish e.1 e.2) := by
  have hcrlf := matchCrlf_reads hfeed hmatched hne
  have hd : { d with state := state matched } = d := by rw [← hstate]
  match matchCrlf message matched input, hcrlf with
  | .error e, hrun =>
    rw [ReadsCrlf, hd] at hrun
    exact hrun
  | .ok (matched', rest), ⟨_, used, hused, hinput, hrun⟩ =>
    rw [hd] at hrun
    simp only [ok_bind]
    rcases hfinish matched' rest with hf | ⟨hf, htwo, hdone, hrest⟩
    · simp only [hf]
      exact ⟨used, hused, hinput, hrun⟩
    · simp only [hf, Reads]
      rw [if_pos htwo] at hrun
      rw [hinput, run_append_ok hrun, run_done hdone hrest]
      rfl

theorem bytes_reads (hstate : d.state = .data) (hpos : 0 < d.chunkRemaining) (hne : input ≠ []) :
    Reads d input ((emitData (d.absorb (input.take (min d.chunkRemaining input.length)))
        (input.take (min d.chunkRemaining input.length))).map
      fun e => ([e.1], e.2, input.drop (min d.chunkRemaining input.length))) := by
  have hlen := length_pos_of_ne_nil hne
  have htake : (input.take (min d.chunkRemaining input.length)).length =
      min d.chunkRemaining input.length := by
    rw [length_take, Nat.min_eq_left (Nat.min_le_right _ _)]
  have hrun := data_reads hstate hpos (input.take (min d.chunkRemaining input.length))
    (by rw [htake]; exact Nat.min_le_left _ _)
  have hsplit := (take_append_drop (min d.chunkRemaining input.length) input).symm
  cases hc : emitData (d.absorb (input.take (min d.chunkRemaining input.length)))
      (input.take (min d.chunkRemaining input.length)) with
  | error e =>
    rw [hc] at hrun
    have := run_append_error hrun (input.drop (min d.chunkRemaining input.length))
    rwa [← hsplit] at this
  | ok e =>
    rw [hc] at hrun
    refine ⟨_, ?_, hsplit, ?_⟩
    · apply ne_nil_of_length_pos
      omega
    · rw [hrun, flatten_singleton]

/-- **One iteration of `push` reads as `feed` does.** -/
theorem step_reads (hwaits : d.Waits) (hne : input ≠ []) : Reads d input (d.step input) := by
  rw [step]
  split
  · next hstate =>
    refine line_reads (fun buffer byte => ?_) hne (fun d' rest => pure ([], d', rest))
      fun d' rest => .inl rfl
    simp [feed, hstate]
  · next hstate =>
    simp only [Waits, hstate] at hwaits
    have hlen := length_pos_of_ne_nil hne
    have htake : (input.take (min d.chunkRemaining input.length)).length =
        min d.chunkRemaining input.length := by
      rw [length_take, Nat.min_eq_left (Nat.min_le_right _ _)]
    have hbytes : input.take (min d.chunkRemaining input.length) ≠ [] := by
      apply ne_nil_of_length_pos
      omega
    have hreads := bytes_reads hstate hwaits hne
    simp only [emitData, absorb, htake] at hreads
    simp only [if_neg hbytes]
    split
    · next hzero =>
      rw [if_pos hzero] at hreads
      cases hv : verifyChunkSignature { d with
          chunkHasher := d.chunkHasher ++ input.take (min d.chunkRemaining input.length)
          chunkRemaining := d.chunkRemaining - min d.chunkRemaining input.length } with
      | error =>
        rw [hv] at hreads
        exact hreads
      | ok =>
        rw [hv] at hreads
        exact hreads
    · next hmore =>
      rw [if_neg hmore] at hreads
      exact hreads
  · next matched hstate =>
    simp only [Waits, hstate] at hwaits
    exact crlf_reads (fun matched byte => rfl) hstate hwaits hne
      (fun matched rest =>
        pure ([], { d with state := if matched = 2 then .header else .dataCrlf matched }, rest))
      fun matched' rest => .inl rfl
  · next matched hstate =>
    simp only [Waits, hstate] at hwaits
    refine crlf_reads (fun matched byte => rfl) hstate hwaits hne
      (fun matched rest => if matched = 2 ∧ rest ≠ [] then .error .trailingData
        else pure ([], { d with state := if matched = 2 then .done else .finalCrlf matched }, rest))
      fun matched' rest => ?_
    by_cases hend : matched' = 2 ∧ rest ≠ []
    · exact .inr ⟨if_pos hend, hend.1, rfl, hend.2⟩
    · exact .inl (if_neg hend)
  · next hstate =>
    refine line_reads (fun buffer byte => ?_) hne
      (fun d' rest => if d'.state = .done ∧ rest ≠ [] then .error .trailingData
        else pure ([], d', rest)) fun d' rest => ?_
    · simp [feed, hstate]
    · by_cases hend : d'.state = .done ∧ rest ≠ []
      · exact .inr ⟨if_pos hend, hend.1, hend.2⟩
      · exact .inl (if_neg hend)
  · next hstate => exact run_done hstate hne

/-! ### The states between calls -/

theorem beginChunk_waits {size : Nat} (h : d.beginChunk size = .ok d') : d'.Waits := by
  rw [beginChunk] at h
  split at h
  · obtain ⟨d₁, -, h⟩ := bind_eq_ok.mp h
    cases h
    simp only [Waits]
    cases d₁.mode <;> simp
  · next hsize =>
    split at h
    · cases h
    · cases (ite_error_eq_ok.mp h).2
      exact Nat.pos_of_ne_zero hsize

theorem startChunk_waits (h : d.startChunk line = .ok d') : d'.Waits := by
  simp only [startChunk, ite_error_eq_ok, bind_eq_ok] at h
  obtain ⟨-, -, -, -, _, -, h⟩ := h
  exact beginChunk_waits h

theorem parseTrailer_state (h : d.parseTrailer line = .ok d') : d'.state = d.state := by
  simp only [parseTrailer, bind, Except.bind] at h
  repeat' split at h
  all_goals first
    | cases h; rfl
    | cases h

theorem trailerLine_waits (hstate : d.state = .trailers)
    (h : d.trailerLine line = .ok d') : d'.Waits := by
  rw [trailerLine] at h
  split at h
  · cases h
  replace h := (ite_error_eq_ok.mp h).2
  split at h
  · obtain ⟨_, -, h⟩ := bind_eq_ok.mp h
    cases h
    exact trivial
  · have hs := (parseTrailer_state h).trans hstate
    simp [Waits, hs]

variable {out : Bytes}

omit [Digests] in
/-- What holds of an open line, and behind a complete one, holds behind a byte. -/
theorem feedLine_keeps {P : AwsChunkedDecoder → Prop}
    (hopen : ∀ buffer, P { d with line := buffer })
    (hcomplete : ∀ line d', complete { d with line := [] } line = .ok d' → P d')
    (h : feedLine limit complete d byte = .ok (out, d')) : P d' := by
  rw [feedLine] at h
  split at h
  · cases hc : complete { d with line := [] }
        ((d.line ++ [byte]).take ((d.line ++ [byte]).length - 2)) with
    | error e =>
      rw [hc] at h
      cases h
    | ok d₁ =>
      rw [hc] at h
      cases h
      exact hcomplete _ _ hc
  · split at h
    · cases h
    · cases h
      exact hopen _

omit [Digests] in
theorem feedCrlf_waits (hnext : Waits { d with state := next })
    (hstate : Waits { d with state := state 1 }) (hmatched : matched < 2)
    (h : feedCrlf message state next matched d byte = .ok (out, d')) : d'.Waits := by
  rw [feedCrlf] at h
  split at h
  · cases h
  · cases h
    by_cases hlast : matched + 1 = 2
    · simpa only [if_pos hlast] using hnext
    · obtain rfl : matched = 0 := by omega
      exact hstate

/-- **Between bytes the decoder waits for one.** -/
theorem feed_waits (hwaits : d.Waits) (h : feed d byte = .ok (out, d')) : d'.Waits := by
  rw [feed] at h
  split at h
  · next hstate =>
    refine feedLine_keeps (fun buffer => ?_) (fun line d' hc => startChunk_waits hc) h
    simp [Waits, hstate]
  · next hstate =>
    simp only [emitData] at h
    split at h
    · cases hv : (d.absorb [byte]).verifyChunkSignature with
      | error =>
        rw [hv] at h
        cases h
      | ok =>
        rw [hv] at h
        cases h
        exact Nat.zero_lt_two
    · next hmore =>
      cases h
      have hdata : (d.absorb [byte]).state = .data := hstate
      simp only [Waits, hdata]
      exact Nat.pos_of_ne_zero hmore
  · next matched hstate =>
    simp only [Waits, hstate] at hwaits
    refine feedCrlf_waits ?_ ?_ hwaits h
    · exact trivial
    · exact Nat.one_lt_two
  · next matched hstate =>
    simp only [Waits, hstate] at hwaits
    refine feedCrlf_waits ?_ ?_ hwaits h
    · exact trivial
    · exact Nat.one_lt_two
  · next hstate =>
    refine feedLine_keeps (fun buffer => ?_) (fun line d' hc => trailerLine_waits ?_ hc) h
    · simp [Waits, hstate]
    · exact hstate
  · cases h

/-! ### Pushes -/

/-- The loop reads all of its input, as `feed` does. -/
theorem loop_eq (hwaits : d.Waits) {fuel : Nat} (hfuel : input.length ≤ fuel) :
    (loop fuel d input).map (fun e => (e.1.flatten, e.2)) = feed.run d input := by
  induction fuel generalizing d input with
  | zero =>
    obtain rfl : input = [] := eq_nil_of_length_eq_zero (Nat.le_zero.mp hfuel)
    rfl
  | succ fuel ih =>
    rw [loop]
    split
    · next hnil =>
      rw [hnil]
      rfl
    next hne =>
    have hreads := step_reads hwaits hne
    match hs : d.step input, hreads with
    | .error e, hrun => exact hrun.symm
    | .ok (out, d', rest), ⟨used, hused, hinput, hrun⟩ =>
      have hpos := length_pos_of_ne_nil hused
      rw [hinput, length_append] at hfuel
      have hrest := ih (run_invariant feed_waits hwaits hrun)
        (show rest.length ≤ fuel by omega)
      rw [hinput, run_append_ok hrun, ← hrest]
      simp only [ok_bind]
      cases loop fuel d' rest with
      | error => rfl
      | ok => simp [Except.map]

/-- **A push reads its bytes as `feed` does.** -/
theorem push_eq (hwaits : d.Waits) (input : Bytes) :
    (d.push input).map (fun e => (e.1.flatten, e.2)) = feed.run d input := by
  rw [push]
  split
  · next hdone =>
    rw [run_done hdone.1 hdone.2]
    rfl
  · exact loop_eq hwaits le_rfl

end AwsChunkedDecoder

/-! ### The verifier -/

namespace BodyVerifier

variable {v v' : BodyVerifier} {out bytes payloadHash : Bytes} {headers : HeaderMap}
  {signing : Option StreamingSigning} {trustedTls : Bool}

section Absorb

omit [Digests]

/-- A verifier that is taking a body. -/
def Takes (v : BodyVerifier) : Prop :=
  v.decodedBytes ≤ maxWord 64 ∧
    match v.state with
    | .fixed _ _ => True
    | .chunked decoder => decoder.Waits
    | .finished => False

/-- Count the bytes that were put out, and absorb them into the checksum. -/
def absorb (v : BodyVerifier) (out : Bytes) : Option BodyVerifier :=
  if v.decodedBytes + out.length ≤ maxWord 64 then
    some { v with
      decodedBytes := v.decodedBytes + out.length
      checksum := v.checksum.map (·.update out) }
  else none

theorem absorb_append (v : BodyVerifier) (out later : Bytes) :
    v.absorb (out ++ later) = (v.absorb out).bind (·.absorb later) := by
  simp only [absorb, length_append]
  by_cases hall : v.decodedBytes + (out.length + later.length) ≤ maxWord 64
  · have hsome : v.decodedBytes + out.length ≤ maxWord 64 := by omega
    rw [if_pos hall, if_pos hsome, bind_some, if_pos (by simp only; omega)]
    simp [Nat.add_assoc, ChecksumVerifier.update, Function.comp_def]
  · rw [if_neg hall]
    by_cases hsome : v.decodedBytes + out.length ≤ maxWord 64
    · rw [if_pos hsome, bind_some, if_neg (by simp only; omega)]
    · rw [if_neg hsome, bind_none]

theorem absorb_nil (h : v.decodedBytes ≤ maxWord 64) : v.absorb [] = some v := by
  simp [absorb, ChecksumVerifier.update, h]

/-- The chunks of a piece are delivered as their bytes are. -/
theorem deliver_toOption (h : v.decodedBytes ≤ maxWord 64) (chunks : List Bytes) :
    (v.deliver chunks).toOption = v.absorb chunks.flatten := by
  induction chunks generalizing v with
  | nil => exact (absorb_nil h).symm
  | cons chunk rest ih =>
    rw [deliver, flatten_cons, absorb_append]
    simp only [checkedAdd, absorb]
    by_cases hle : v.decodedBytes + chunk.length ≤ maxWord 64
    · rw [if_pos hle, if_pos hle, bind_some]
      exact ih hle
    · rw [if_neg hle, if_neg hle]
      rfl

theorem absorb_state (v : BodyVerifier) (state : PayloadState) (out : Bytes) :
    absorb { v with state := state } out = (v.absorb out).map fun v =>
      { v with state := state } := by
  simp only [absorb]
  split <;> rfl

theorem decodedBytes_of_absorb (h : v.absorb out = some v') : v'.decodedBytes ≤ maxWord 64 := by
  rw [absorb] at h
  split at h
  · next hle =>
    cases h
    exact hle
  · cases h

/-- The chunks of a piece are delivered, and the payload goes on. -/
theorem deliver_state (h : v.decodedBytes ≤ maxWord 64) (state : PayloadState)
    (chunks : List Bytes) :
    (deliver { v with state := state } chunks >>= fun v => pure (chunks, v)).toOption.map
        (fun e => (e.1.flatten, e.2)) =
      (v.absorb chunks.flatten).map fun v => (chunks.flatten, { v with state := state }) := by
  have hd := deliver_toOption (v := { v with state := state }) h chunks
  rw [absorb_state] at hd
  cases hc : deliver { v with state := state } chunks with
  | error =>
    rw [hc] at hd
    have hnone : v.absorb chunks.flatten = none := map_eq_none_iff.mp hd.symm
    rw [hnone]
    rfl
  | ok =>
    rw [hc] at hd
    obtain ⟨v₂, hv₂, heq⟩ := map_eq_some_iff.mp hd.symm
    rw [hv₂, map_some, heq]
    rfl

/-- The state that `fromHeaders` chooses takes a body. -/
theorem payloadState_takes
    {contentEncoding decodedLength trailerDeclaration declared : Option Bytes}
    {payloadHash : Bytes} {signing : Option StreamingSigning} {trustedTls : Bool}
    {state : PayloadState}
    (h : payloadState contentEncoding decodedLength trailerDeclaration declared payloadHash signing
      trustedTls = .ok state) (checksum : Option ChecksumVerifier) :
    Takes { state, checksum, decodedBytes := 0 } := by
  refine ⟨Nat.zero_le _, ?_⟩
  simp only [payloadState, bind, Except.bind] at h
  repeat' split at h
  all_goals first
    | cases h; exact trivial
    | cases h

end Absorb

/-- What a payload does with bytes: those that it puts out. -/
def takeState (state : PayloadState) (bytes : Bytes) : Option (Bytes × PayloadState) :=
  match state with
  | .fixed sha256 expected => some (bytes, .fixed (sha256.map (· ++ bytes)) expected)
  | .chunked decoder =>
    (feed.run decoder bytes).toOption.map fun e => (e.1, .chunked e.2)
  | .finished => none

/-- **What a verifier does with the bytes of a body**, in however many pieces. -/
def take (v : BodyVerifier) (bytes : Bytes) : Option (Bytes × BodyVerifier) :=
  (takeState v.state bytes).bind fun e =>
    (v.absorb e.1).map fun v => (e.1, { v with state := e.2 })

theorem takeState_append (state : PayloadState) (bytes later : Bytes) :
    takeState state (bytes ++ later) = (takeState state bytes).bind fun e =>
      (takeState e.2 later).map fun e' => (e.1 ++ e'.1, e'.2) := by
  cases state with
  | fixed => simp [takeState, Function.comp_def]
  | chunked decoder =>
    simp only [takeState, run_append]
    cases feed.run decoder bytes with
    | error => rfl
    | ok e =>
      simp only [Except.toOption, map_some, bind_some, ok_bind]
      cases feed.run e.2 later <;> rfl
  | finished => rfl

/-- What is taken bit by bit is taken at once. -/
theorem take_append (v : BodyVerifier) (bytes later : Bytes) :
    v.take (bytes ++ later) =
      (v.take bytes).bind fun e => (e.2.take later).map fun e' => (e.1 ++ e'.1, e'.2) := by
  simp only [take, takeState_append]
  cases takeState v.state bytes with
  | none => rfl
  | some e =>
    simp only [bind_some]
    cases hlater : takeState e.2 later with
    | none =>
      cases v.absorb e.1 with
      | none => rfl
      | some => simp [hlater]
    | some e' =>
      simp only [map_some, bind_some, absorb_append]
      cases v.absorb e.1 with
      | none => rfl
      | some v₁ =>
        simp only [map_some, bind_some, hlater, absorb_state]
        cases v₁.absorb e'.1 <;> rfl

/-- A verifier that takes bytes takes more. -/
theorem takes_of_take (htakes : v.Takes) (h : v.take bytes = some (out, v')) : v'.Takes := by
  obtain ⟨e, he, h⟩ := bind_eq_some_iff.mp h
  obtain ⟨v₁, hv₁, h⟩ := map_eq_some_iff.mp h
  cases h
  have hle := decodedBytes_of_absorb hv₁
  have htwo := htakes.2
  refine ⟨hle, ?_⟩
  cases hstate : v.state with
  | fixed =>
    rw [hstate] at he
    cases he
    exact trivial
  | chunked decoder =>
    rw [hstate] at he htwo
    obtain ⟨e', he', heq⟩ := map_eq_some_iff.mp he
    cases heq
    cases hrun : feed.run decoder bytes with
    | error =>
      rw [hrun] at he'
      cases he'
    | ok =>
      rw [hrun] at he'
      cases he'
      have hwaits : decoder.Waits := htwo
      have hwaits' : e'.2.Waits :=
        run_invariant feed_waits hwaits hrun
      exact hwaits'
  | finished =>
    rw [hstate] at htwo
    exact htwo.elim

/-- **A push takes its bytes.** -/
theorem push_toOption (htakes : v.Takes) (bytes : Bytes) :
    (v.push bytes).toOption.map (fun e => (e.1.flatten, e.2)) = v.take bytes := by
  have htwo := htakes.2
  cases hstate : v.state with
  | fixed sha256 expected =>
    have hd := deliver_state htakes.1 (.fixed (sha256.map (· ++ bytes)) expected) [bytes]
    rw [flatten_singleton] at hd
    simp only [push, take, takeState, hstate, pure_bind, bind_some]
    exact hd
  | chunked decoder =>
    rw [hstate] at htwo
    have hpush := push_eq htwo bytes
    simp only [push, take, takeState, hstate, ← hpush]
    cases decoder.push bytes with
    | error => rfl
    | ok e => exact deliver_state htakes.1 (.chunked e.2) e.1
  | finished =>
    rw [hstate] at htwo
    exact htwo.elim

theorem take_nil (htakes : v.Takes) : v.take [] = some ([], v) := by
  obtain ⟨state, checksum, decodedBytes⟩ := v
  obtain ⟨hle, htwo⟩ := htakes
  cases state with
  | fixed =>
    simp only [take, takeState, bind_some, absorb_nil hle]
    simp
  | chunked =>
    simp only [take, takeState, run, Except.toOption, map_some, bind_some,
      absorb_nil hle]
  | finished => exact htwo.elim

/-- **The pieces of a body are taken as the body is.** -/
theorem pushAll_toOption (htakes : v.Takes) (pieces : List Bytes) :
    (v.pushAll pieces).toOption.map (fun e => (e.1.flatten, e.2)) = v.take pieces.flatten := by
  induction pieces generalizing v with
  | nil => exact (take_nil htakes).symm
  | cons bytes pieces ih =>
    have hpush := push_toOption htakes bytes
    rw [pushAll, flatten_cons, take_append, ← hpush]
    cases hc : v.push bytes with
    | error => rfl
    | ok e =>
      rw [hc] at hpush
      have hrest := ih (takes_of_take htakes hpush.symm)
      simp only [Except.toOption, map_some, bind_some, ← hrest, ok_bind]
      cases e.2.pushAll pieces with
      | error => rfl
      | ok => simp

/-- The verdict is a function of the body. -/
theorem verify_toOption (htakes : v.Takes) (pieces : List Bytes) :
    (v.verify pieces).toOption = (v.take pieces.flatten).bind fun e =>
      e.2.finish.toOption.map fun decodedBytes => (e.1, decodedBytes) := by
  rw [verify, ← pushAll_toOption htakes]
  cases v.pushAll pieces with
  | error => rfl
  | ok e =>
    simp only [Except.toOption, map_some, bind_some, ok_bind]
    cases e.2.finish <;> rfl

/-- How `fromHeaders` comes to a verifier. -/
theorem fromHeaders_ok (h : fromHeaders headers payloadHash signing trustedTls = .ok v) :
    ∃ contentEncoding decodedLength trailerDeclaration declared,
      oneHeader headers "x-amz-decoded-content-length" = .ok decodedLength ∧
      oneHeader headers "x-amz-trailer" = .ok trailerDeclaration ∧
      checksumFromHeaders headers trailerDeclaration = .ok (v.checksum, declared) ∧
      payloadState contentEncoding decodedLength trailerDeclaration declared payloadHash signing
        trustedTls = .ok v.state ∧ v.decodedBytes = 0 := by
  simp only [fromHeaders, bind_eq_ok] at h
  obtain ⟨_, -, _, hlength, _, htrailer, _, hchecksum, _, hstate, h⟩ := h
  cases h
  exact ⟨_, _, _, _, hlength, htrailer, hchecksum, hstate, rfl⟩

theorem takes_of_fromHeaders (h : fromHeaders headers payloadHash signing trustedTls = .ok v) :
    v.Takes := by
  obtain ⟨_, _, _, _, _, _, _, hstate, hzero⟩ := fromHeaders_ok h
  have := payloadState_takes hstate v.checksum
  rwa [← hzero] at this

/-- **Splits.**  The verdict on a body, and what it emits, do not depend on how it was cut. -/
theorem verify_pieces (h : fromHeaders headers payloadHash signing trustedTls = .ok v)
    {pieces₁ pieces₂ : List Bytes} (hbody : pieces₁.flatten = pieces₂.flatten) :
    (v.verify pieces₁).toOption = (v.verify pieces₂).toOption := by
  have htakes := takes_of_fromHeaders h
  rw [verify_toOption htakes, verify_toOption htakes, hbody]

end BodyVerifier

/-! ### A body in two cuttings -/

/-- Digests that tell nothing apart. -/
abbrev blankDigests : Digests where
  sha256 _ := replicate 32 0
  sha1 _ := replicate 20 0
  crc32 _ := replicate 4 0
  crc32c _ := replicate 4 0
  crc64nvme _ := replicate 8 0
  hmacSha256 _ _ := replicate 32 0
  base64Decode _ := some (replicate 4 0)
  utf8 _ := true

/-- The headers of a chunked body of three bytes with a CRC32 trailer. -/
def trailerHeaders : HeaderMap :=
  [("content-encoding", ascii "aws-chunked"),
   ("x-amz-decoded-content-length", ascii "3"),
   ("x-amz-trailer", ascii "x-amz-checksum-crc32")]

def trailerBody : Bytes :=
  ascii "3" ++ crlf ++ ascii "abc" ++ crlf ++ ascii "0" ++ crlf ++
    ascii "x-amz-checksum-crc32:AAAAAA==" ++ crlf ++ crlf

/-- The verifier of such a body. -/
def trailerVerifier : BodyVerifier where
  state := .chunked (.new .unsignedTrailer 3 (some (ascii "x-amz-checksum-crc32")) emptySigning)
  checksum := some ⟨.crc32, [], none, true⟩
  decodedBytes := 0

omit [Digests] in
/-- The body is accepted at once, and so byte by byte. -/
theorem trailer_body_accepted : letI := blankDigests
    (trailerVerifier.verify (trailerBody.map fun b => [b])).toOption = some (ascii "abc", 3) := by
  let _ := blankDigests
  have hv : BodyVerifier.fromHeaders trailerHeaders (ascii "STREAMING-UNSIGNED-PAYLOAD-TRAILER")
    none true = .ok trailerVerifier := by decide +kernel
  have hbody : (trailerBody.map fun b => [b]).flatten = [trailerBody].flatten := by decide +kernel
  have hone : (trailerVerifier.verify [trailerBody]).toOption = some (ascii "abc", 3) := by
    decide +kernel
  rw [BodyVerifier.verify_pieces hv hbody, hone]

end S4.Integrity
