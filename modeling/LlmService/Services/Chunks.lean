import LlmService.Lib.Within
import LlmService.Services.StreamingEngine

/-!
# What a stream publishes

The loop of `stream` cuts the tokens into buffers, by their number and by the
clock, and each buffer with a text is published as a chunk. `cuts` is that
cutting; `streamLoop_spec` says what the loop has published when it ends.
-/

namespace LlmService

/-- The fields of a chunk event that its place in the stream decides. -/
structure ChunkFields where
  chunkIndex : Nat
  sequenceNumber : Nat
  content : String
  isLast : Bool
  deriving DecidableEq

def chunkFields (message : KafkaMessage) : Option ChunkFields :=
  match message.payload with
  | .chunk event =>
    some
      { chunkIndex := event.chunkIndex
        sequenceNumber := event.sequenceNumber
        content := event.content
        isLast := event.isLast }
  | _ => none

/-- The text that `publish_response` was given. -/
def responseText (message : KafkaMessage) : Option String :=
  match message.payload with
  | .generated event => event.fullContent
  | _ => none

/-- The text that `publish_memory_update` was given. -/
def memoryText (message : KafkaMessage) : Option String :=
  match message.payload with
  | .memoryUpdate event => some event.assistantResponse
  | _ => none

/-- What a program has Kafka accept, in this order. -/
def publishedBy {α : Type} (x : Program α) (w : World) : List KafkaMessage :=
  (endState (x.run w)).log.drop w.log.length

/-- The chunk of a buffer; a buffer without a text has none. -/
def chunkOf (chunkIndex : Nat) (isLast : Bool) (buffer : List String) : List ChunkFields :=
  if String.join buffer = "" then []
  else
    [{ chunkIndex, sequenceNumber := chunkIndex + 1, content := String.join buffer, isLast }]

/-- The chunks of the buffers that the loop has flushed. -/
def flushedChunks : Nat → List (List String) → List ChunkFields
  | _, [] => []
  | start, buffer :: rest => chunkOf start false buffer ++ flushedChunks (start + 1) rest

namespace KafkaPublisher

variable (p : KafkaPublisher) (env : Env)

/-- Kafka takes the chunk of the buffer, if the buffer has one. -/
def acknowledgesChunk (buffer : List String) (n : Nat) : Bool :=
  String.join buffer = "" || p.acknowledges env n

def attemptAfterChunk (buffer : List String) (n : Nat) : Nat :=
  if String.join buffer = "" then n else p.nextAttempt env n

/-- Kafka takes the chunks of the buffers, sent one after the other. -/
def acknowledgesChunks : List (List String) → Nat → Bool
  | [], _ => true
  | buffer :: rest, n =>
    p.acknowledgesChunk env buffer n && acknowledgesChunks rest (p.attemptAfterChunk env buffer n)

end KafkaPublisher

namespace StreamingEngine

variable (eng : StreamingEngine) (env : Env)

/-! ## The cutting -/

/-- `should_flush`. -/
def ShouldFlush (rateLimited : Bool) (now : Seconds) (st : StreamState) : Prop :=
  eng.targetChunkSize rateLimited st ≤ st.bufferTokens ∨
    ((eng.flushIntervalMs : Seconds) / 1000 ≤ now - st.lastFlushTime ∧ 0 < st.bufferTokens)

instance (rateLimited : Bool) (now : Seconds) (st : StreamState) :
    Decidable (eng.ShouldFlush rateLimited now st) :=
  inferInstanceAs (Decidable (_ ∨ _))

/-- The state after a flush. -/
def afterFlush (st : StreamState) (lastFlushTime : Seconds) : StreamState :=
  { st with
    firstChunkEmitted := true
    chunkIndex := st.chunkIndex + 1
    buffer := []
    bufferTokens := 0
    lastFlushTime }

/-- The clock is read for the event of a chunk, and for the first chunk. -/
def readingsOfFlush (st : StreamState) : Nat :=
  (if String.join st.buffer = "" then 0 else 1) + (if st.firstChunkEmitted then 0 else 1)

/-- The buffers that the tokens are cut into, the last with what is left at
the end; `reading` is the next reading of the clock. -/
def cuts (rateLimited : Bool) : List String → Nat → StreamState → List (List String)
  | [], _, st => [st.buffer]
  | token :: rest, reading, st =>
    let st := take st token
    if eng.ShouldFlush rateLimited (env.clock reading) st then
      let flushed := reading + 1 + readingsOfFlush st
      st.buffer :: cuts rateLimited rest (flushed + 1) (afterFlush st (env.clock flushed))
    else cuts rateLimited rest (reading + 1) st

/-- The cutting of all tokens of a stream. -/
def streamCuts (rateLimited : Bool) (tokens : List String) (w : World) : List (List String) :=
  let start := w.readings + (if w.ctx.inferenceStartedAt.isSome then 0 else 1)
  eng.cuts env rateLimited tokens (start + 1) { lastFlushTime := env.clock start }

/-! ## One flush -/

/-- What a flush has done when it returns, or raises. -/
def Flushes (p : KafkaPublisher) (env : Env) (buffer : List String) (chunkIndex : Nat)
    (isLast : Bool) (w : World) : EStateM.Result Exc World Unit → Prop
  | .ok _ w' =>
    p.acknowledgesChunk env buffer w.attempts = true ∧
      w'.readings = w.readings + (if String.join buffer = "" then 0 else 1) ∧
      w'.attempts = p.attemptAfterChunk env buffer w.attempts ∧
      ∃ new, w'.log = w.log ++ new ∧
        new.map chunkFields = (chunkOf chunkIndex isLast buffer).map some
  | .error _ w' => p.acknowledgesChunk env buffer w.attempts = false ∧ w'.log = w.log

/-- A buffer with a text is sent. -/
theorem flushBuffer_run {buffer : List String} (chunkIndex : Nat) (isLast : Bool) (w : World)
    (h : String.join buffer ≠ "") :
    ∃ message, chunkFields message =
        some ⟨chunkIndex, chunkIndex + 1, String.join buffer, isLast⟩ ∧
      (eng.flushBuffer env buffer chunkIndex isLast).run w =
        (eng.publisher.send env message).run { w with readings := w.readings + 1 } := by
  simp only [flushBuffer, if_neg h, EStateM.run_bind, EStateM.run_get]
  exact ⟨_, rfl, rfl⟩

theorem flushBuffer_flushes (buffer : List String) (chunkIndex : Nat) (isLast : Bool)
    (w : World) :
    Flushes eng.publisher env buffer chunkIndex isLast w
      ((eng.flushBuffer env buffer chunkIndex isLast).run w) := by
  by_cases hempty : String.join buffer = ""
  · have hrun : (eng.flushBuffer env buffer chunkIndex isLast).run w = .ok () w := by
      simp only [flushBuffer, if_pos hempty]
      rfl
    rw [hrun]
    refine ⟨by simp [KafkaPublisher.acknowledgesChunk, hempty], by rw [if_pos hempty]; rfl, ?_, [],
      by simp, by simp [chunkOf, hempty]⟩
    rw [KafkaPublisher.attemptAfterChunk, if_pos hempty]
  · obtain ⟨message, hmessage, hrun⟩ := flushBuffer_run eng env chunkIndex isLast w hempty
    have hsend := eng.publisher.send_sends env message { w with readings := w.readings + 1 }
    rw [hrun]
    revert hsend
    cases (eng.publisher.send env message).run { w with readings := w.readings + 1 } with
    | ok a w' =>
      intro hsend
      obtain ⟨hacked, hend⟩ := hsend
      rw [hend]
      refine ⟨by simp [KafkaPublisher.acknowledgesChunk, hacked], by rw [if_neg hempty], ?_,
        [message], rfl, ?_⟩
      · rw [KafkaPublisher.attemptAfterChunk, if_neg hempty]
      · rw [chunkOf, if_neg hempty, List.map_singleton, hmessage]
        rfl
    | error exc w' =>
      intro hsend
      obtain ⟨hacked, hend⟩ := hsend
      rw [hend]
      exact ⟨by simp [KafkaPublisher.acknowledgesChunk, hempty, hacked], rfl⟩

theorem markFirstChunk_run (st : StreamState) (w : World) :
    ∃ ctx, (markFirstChunk env st).run w =
      .ok () { w with ctx, readings := w.readings + (if st.firstChunkEmitted then 0 else 1) } := by
  simp only [markFirstChunk]
  cases st.firstChunkEmitted with
  | true => exact ⟨w.ctx, rfl⟩
  | false => exact ⟨_, rfl⟩

/-! ## The loop -/

section Loop

variable {rateLimited : Bool} {st : StreamState} {token : String} {w : World}

variable {eng env} in
theorem onToken_of_not_flush
    (h : ¬ eng.ShouldFlush rateLimited (env.clock w.readings) (take st token)) :
    (eng.onToken env rateLimited st token).run w =
      .ok (take st token) { w with readings := w.readings + 1 } := by
  have hread : (readClock env).run w = .ok (env.clock w.readings)
      { w with readings := w.readings + 1 } := rfl
  simp only [ShouldFlush] at h
  simp only [onToken, EStateM.run_bind, hread]
  rw [if_neg h]
  rfl

variable {eng env} in
/-- A pass that flushes, up to the reading of the clock behind it. -/
theorem onToken_of_flush
    (h : eng.ShouldFlush rateLimited (env.clock w.readings) (take st token)) :
    match (eng.onToken env rateLimited st token).run w with
    | .ok st' w' =>
      let flushed := w.readings + 1 + readingsOfFlush (take st token)
      st' = afterFlush (take st token) (env.clock flushed) ∧ w'.readings = flushed + 1 ∧
        eng.publisher.acknowledgesChunk env (take st token).buffer w.attempts = true ∧
        w'.attempts = eng.publisher.attemptAfterChunk env (take st token).buffer w.attempts ∧
        ∃ new, w'.log = w.log ++ new ∧
          new.map chunkFields = (chunkOf st.chunkIndex false (take st token).buffer).map some
    | .error _ w' =>
      eng.publisher.acknowledgesChunk env (take st token).buffer w.attempts = false ∧
        w'.log = w.log := by
  have hread : ∀ w, (readClock env).run w = .ok (env.clock w.readings)
      { w with readings := w.readings + 1 } := fun _ => rfl
  simp only [ShouldFlush] at h
  simp only [onToken, EStateM.run_bind, hread]
  rw [if_pos h]
  have hflush := flushBuffer_flushes eng env (take st token).buffer
    (take st token).chunkIndex false { w with readings := w.readings + 1 }
  simp only [EStateM.run_bind]
  cases hresult : (eng.flushBuffer env (take st token).buffer (take st token).chunkIndex false).run
      { w with readings := w.readings + 1 } with
  | error exc w' =>
    rw [hresult] at hflush
    exact hflush
  | ok a w' =>
    rw [hresult] at hflush
    obtain ⟨hacked, hreadings, hattempts, new, hlog, hnew⟩ := hflush
    obtain ⟨ctx, hmark⟩ := markFirstChunk_run env (take st token) w'
    simp only [hmark, hread]
    have hflushed : w'.readings + (if (take st token).firstChunkEmitted then 0 else 1) =
        w.readings + 1 + readingsOfFlush (take st token) := by
      rw [hreadings, readingsOfFlush, Nat.add_assoc]
    refine ⟨?_, ?_, hacked, hattempts, new, hlog, hnew⟩
    · rw [← hflushed]
      rfl
    · show w'.readings + _ + 1 = _
      rw [hflushed]

/-- What the loop has done when it comes to the end of the tokens, or raises. -/
def Loops (eng : StreamingEngine) (env : Env) (rateLimited : Bool) (failure : Option Exc)
    (tokens : List String) (st : StreamState) (w : World) :
    EStateM.Result Exc World (StreamState ⊕ String) → Prop
  | .ok (.inl st') w' =>
    failure = none ∧ st'.fullContent = st.fullContent ++ tokens ∧
      ∃ flushed, eng.cuts env rateLimited tokens w.readings st = flushed ++ [st'.buffer] ∧
        st'.chunkIndex = st.chunkIndex + flushed.length ∧
        eng.publisher.acknowledgesChunks env (flushed ++ [st'.buffer]) w.attempts =
          eng.publisher.acknowledgesChunk env st'.buffer w'.attempts ∧
        ∃ new, w'.log = w.log ++ new ∧
          new.map chunkFields = (flushedChunks st.chunkIndex flushed).map some
  | .ok (.inr _) _ => False
  | .error _ w' =>
    (failure ≠ none ∨ eng.publisher.acknowledgesChunks env
      (eng.cuts env rateLimited tokens w.readings st) w.attempts = false) ∧
      ∃ (new : List KafkaMessage) (chunks : List ChunkFields), w'.log = w.log ++ new ∧
        new.map chunkFields = chunks.map some ∧ ∀ c ∈ chunks, c.isLast = false

theorem isLast_of_mem_chunkOf {chunkIndex : Nat} {isLast : Bool} {buffer : List String}
    {c : ChunkFields} (h : c ∈ chunkOf chunkIndex isLast buffer) : c.isLast = isLast := by
  by_cases hempty : String.join buffer = ""
  · rw [chunkOf, if_pos hempty] at h
    cases h
  · rw [chunkOf, if_neg hempty] at h
    rw [List.mem_singleton.mp h]

theorem isLast_of_mem_flushedChunks {start : Nat} {flushed : List (List String)}
    {c : ChunkFields} (h : c ∈ flushedChunks start flushed) : c.isLast = false := by
  induction flushed generalizing start with
  | nil => cases h
  | cons buffer rest ih =>
    rcases List.mem_append.mp h with h | h
    · exact isLast_of_mem_chunkOf h
    · exact ih h

variable {eng env} in
theorem Loops.of_not_flush {failure : Option Exc} {rest : List String}
    {result : EStateM.Result Exc World (StreamState ⊕ String)}
    (h : ¬ eng.ShouldFlush rateLimited (env.clock w.readings) (take st token))
    (hrest : Loops eng env rateLimited failure rest (take st token)
      { w with readings := w.readings + 1 } result) :
    Loops eng env rateLimited failure (token :: rest) st w result := by
  have hcuts : eng.cuts env rateLimited (token :: rest) w.readings st =
      eng.cuts env rateLimited rest (w.readings + 1) (take st token) := by
    rw [cuts, if_neg h]
  cases result with
  | error exc w' =>
    obtain ⟨hfails, hpublished⟩ := hrest
    exact ⟨by rw [hcuts]; exact hfails, hpublished⟩
  | ok exit w' =>
    cases exit with
    | inr text => exact hrest
    | inl st' =>
      obtain ⟨hfailure, hcontent, flushed, hflushed, hrest⟩ := hrest
      refine ⟨hfailure, ?_, flushed, hcuts.trans hflushed, hrest⟩
      rw [hcontent]
      simp [take]

variable {eng env} in
/-- The chunk of the flushed buffer comes before those of the later passes. -/
theorem Loops.of_flush {failure : Option Exc} {rest : List String} {w₁ : World}
    {new : List KafkaMessage} {result : EStateM.Result Exc World (StreamState ⊕ String)}
    (h : eng.ShouldFlush rateLimited (env.clock w.readings) (take st token))
    (hreadings : w₁.readings = w.readings + 1 + readingsOfFlush (take st token) + 1)
    (hacked : eng.publisher.acknowledgesChunk env (take st token).buffer w.attempts = true)
    (hattempts : w₁.attempts =
      eng.publisher.attemptAfterChunk env (take st token).buffer w.attempts)
    (hlog : w₁.log = w.log ++ new)
    (hnew : new.map chunkFields = (chunkOf st.chunkIndex false (take st token).buffer).map some)
    (hrest : Loops eng env rateLimited failure rest (afterFlush (take st token)
      (env.clock (w.readings + 1 + readingsOfFlush (take st token)))) w₁ result) :
    Loops eng env rateLimited failure (token :: rest) st w result := by
  have hcuts : eng.cuts env rateLimited (token :: rest) w.readings st =
      (take st token).buffer :: eng.cuts env rateLimited rest w₁.readings
        (afterFlush (take st token)
          (env.clock (w.readings + 1 + readingsOfFlush (take st token)))) := by
    rw [cuts, if_pos h, hreadings]
  cases result with
  | error exc w' =>
    obtain ⟨hfails, new', chunks, hlog', hnew', hlast⟩ := hrest
    refine ⟨?_, new ++ new', chunkOf st.chunkIndex false (take st token).buffer ++ chunks,
      by rw [hlog', hlog, List.append_assoc], by simp [hnew, hnew'], ?_⟩
    · rw [hcuts, KafkaPublisher.acknowledgesChunks, hacked, Bool.true_and, ← hattempts]
      exact hfails
    · intro c hc
      rcases List.mem_append.mp hc with hc | hc
      · exact isLast_of_mem_chunkOf hc
      · exact hlast c hc
  | ok exit w' =>
    cases exit with
    | inr text => exact hrest
    | inl st' =>
      obtain ⟨hfailure, hcontent, flushed, hflushed, hindex, hacks, new', hlog', hnew'⟩ := hrest
      refine ⟨hfailure, ?_, (take st token).buffer :: flushed, ?_, ?_, ?_, new ++ new',
        by rw [hlog', hlog, List.append_assoc], ?_⟩
      · rw [hcontent]
        simp [afterFlush, take]
      · rw [hcuts, hflushed, List.cons_append]
      · rw [hindex]
        simp only [afterFlush, take, List.length_cons]
        omega
      · rw [List.cons_append, KafkaPublisher.acknowledgesChunks, hacked, Bool.true_and,
          ← hattempts, hacks]
      · rw [List.map_append, hnew, hnew', ← List.map_append]
        rfl

/-- The induction is on the tokens that are left. -/
theorem streamLoop_loops (rateLimited : Bool) (cancellation : Nat → Option String)
    (failure : Option Exc) (tokens : List String) (n : Nat) (st : StreamState) (w : World)
    (hcancel : ∀ i < tokens.length, cancellation (n + i) = none) :
    Loops eng env rateLimited failure tokens st w
      ((eng.streamLoop env rateLimited cancellation failure tokens n st).run w) := by
  induction tokens generalizing n st w with
  | nil =>
    cases failure with
    | some exc => exact ⟨.inl nofun, [], [], by simp, rfl, by simp⟩
    | none =>
      refine ⟨rfl, by simp, [], rfl, rfl, ?_, [], by simp, rfl⟩
      simp [KafkaPublisher.acknowledgesChunks]
  | cons token rest ih =>
    have hnow : cancellation n = none := hcancel 0 (by simp)
    have hlater : ∀ i < rest.length, cancellation (n + 1 + i) = none := by
      intro i hi
      rw [Nat.add_assoc, Nat.add_comm 1]
      exact hcancel (i + 1) (by simpa using hi)
    simp only [streamLoop, hnow, EStateM.run_bind]
    by_cases hflush : eng.ShouldFlush rateLimited (env.clock w.readings) (take st token)
    · have htoken := onToken_of_flush hflush
      cases hresult : (eng.onToken env rateLimited st token).run w with
      | error exc w' =>
        rw [hresult] at htoken
        obtain ⟨hacked, hlog⟩ := htoken
        refine ⟨.inr ?_, [], [], by simp [hlog], rfl, by simp⟩
        rw [cuts, if_pos hflush, KafkaPublisher.acknowledgesChunks, hacked, Bool.false_and]
      | ok st' w' =>
        rw [hresult] at htoken
        obtain ⟨rfl, hreadings, hacked, hattempts, new, hlog, hnew⟩ := htoken
        exact (ih (n + 1) _ w' hlater).of_flush hflush hreadings hacked hattempts hlog hnew
    · rw [onToken_of_not_flush hflush]
      exact (ih (n + 1) _ _ hlater).of_not_flush hflush

end Loop

/-! ## The whole stream -/

section Stream

variable (rateLimited : Bool)

/-- What is left in the buffer goes out as the last chunk. -/
theorem flushRest_flushes (st : StreamState) (w : World) :
    match (eng.flushRest env st).run w with
    | .ok _ w' =>
      eng.publisher.acknowledgesChunk env st.buffer w.attempts = true ∧
        ∃ new, w'.log = w.log ++ new ∧
          new.map chunkFields = (chunkOf st.chunkIndex true st.buffer).map some
    | .error _ w' =>
      eng.publisher.acknowledgesChunk env st.buffer w.attempts = false ∧ w'.log = w.log := by
  by_cases hbuffer : st.buffer = []
  · have hrun : (eng.flushRest env st).run w = .ok () w := by
      simp only [flushRest, hbuffer, List.isEmpty_nil, if_true]
      rfl
    rw [hrun, hbuffer]
    exact ⟨rfl, [], by simp, rfl⟩
  · have hrun : (eng.flushRest env st).run w =
        (markFirstChunk env st >>= fun _ =>
          eng.flushBuffer env st.buffer st.chunkIndex true).run w := by
      simp only [flushRest, List.isEmpty_iff, if_neg hbuffer]
    obtain ⟨ctx, hmark⟩ := markFirstChunk_run env st w
    rw [hrun, EStateM.run_bind, hmark]
    have hflush := flushBuffer_flushes eng env st.buffer st.chunkIndex true
      { w with ctx, readings := w.readings + (if st.firstChunkEmitted then 0 else 1) }
    simp only
    revert hflush
    cases (eng.flushBuffer env st.buffer st.chunkIndex true).run _ with
    | ok a w' =>
      intro hflush
      obtain ⟨hacked, -, -, hnew⟩ := hflush
      exact ⟨hacked, hnew⟩
    | error exc w' => exact id

/-- What a stream has published up to its final events. -/
def Streams (eng : StreamingEngine) (env : Env) (rateLimited : Bool) (stream : TokenStream)
    (w : World) : EStateM.Result Exc World StreamExit → Prop
  | .ok (.finished text) w' =>
    stream.failure = none ∧ text = String.join stream.tokens ∧
      eng.publisher.acknowledgesChunks env (eng.streamCuts env rateLimited stream.tokens w)
        w.attempts = true ∧
      ∃ flushed left, eng.streamCuts env rateLimited stream.tokens w = flushed ++ [left] ∧
        ∃ new, w'.log = w.log ++ new ∧ new.map chunkFields =
          (flushedChunks 0 flushed ++ chunkOf flushed.length true left).map some
  | .ok (.cancelled _) _ => False
  | .error _ w' =>
    (stream.failure ≠ none ∨ eng.publisher.acknowledgesChunks env
      (eng.streamCuts env rateLimited stream.tokens w) w.attempts = false) ∧
      ∃ (new : List KafkaMessage) (chunks : List ChunkFields), w'.log = w.log ++ new ∧
        new.map chunkFields = chunks.map some ∧ ∀ c ∈ chunks, c.isLast = false

theorem startInference_run (w : World) :
    ∃ ctx, (startInference env).run w =
      .ok () { w with
        ctx, readings := w.readings + (if w.ctx.inferenceStartedAt.isSome then 0 else 1) } := by
  simp only [startInference, EStateM.run_bind, EStateM.run_get]
  cases w.ctx.inferenceStartedAt.isSome with
  | true => exact ⟨w.ctx, rfl⟩
  | false => exact ⟨_, rfl⟩

theorem streamChunks_streams (stream : TokenStream) (cancellation : Nat → Option String)
    (w : World) (hcancel : ∀ i < stream.tokens.length, cancellation i = none) :
    Streams eng env rateLimited stream w
      ((eng.streamChunks env stream cancellation rateLimited).run w) := by
  obtain ⟨ctx, hstart⟩ := startInference_run env w
  have hread : ∀ w, (readClock env).run w = .ok (env.clock w.readings)
      { w with readings := w.readings + 1 } := fun _ => rfl
  have hmodify : ∀ f (w : World), (modifyCtx f).run w = .ok () { w with ctx := f w.ctx } :=
    fun _ _ => rfl
  simp only [streamChunks, EStateM.run_bind, hstart, hread, hmodify]
  have hloop := streamLoop_loops eng env rateLimited cancellation stream.failure
    stream.tokens 0
    { lastFlushTime := env.clock
        (w.readings + (if w.ctx.inferenceStartedAt.isSome then 0 else 1)) }
    { w with
      ctx := (if stream.tokens.isEmpty then id else stream.onFirst) ctx
      readings := w.readings + (if w.ctx.inferenceStartedAt.isSome then 0 else 1) + 1 }
    (by simpa using hcancel)
  revert hloop
  cases (eng.streamLoop env rateLimited cancellation stream.failure stream.tokens 0 _).run _ with
  | error exc w' => exact id
  | ok exit w' =>
    cases exit with
    | inr text => exact False.elim
    | inl st =>
      intro hloop
      obtain ⟨hfailure, hcontent, flushed, hcuts, hindex, hacks, new, hlog, hnew⟩ := hloop
      have hrest := flushRest_flushes eng env st w'
      have hcuts' : eng.streamCuts env rateLimited stream.tokens w = flushed ++ [st.buffer] := hcuts
      have hindex' : st.chunkIndex = flushed.length := by simpa using hindex
      simp only [EStateM.run_bind]
      revert hrest
      cases (eng.flushRest env st).run w' with
      | error exc w₂ =>
        intro hrest
        obtain ⟨hacked, hlog₂⟩ := hrest
        refine ⟨.inr ?_, new, flushedChunks 0 flushed, by rw [hlog₂, hlog], hnew, ?_⟩
        · rw [hcuts', hacks, hacked]
        · intro c hc
          exact isLast_of_mem_flushedChunks hc
      | ok a w₂ =>
        intro hrest
        obtain ⟨hacked, new', hlog', hnew'⟩ := hrest
        refine ⟨hfailure, by simp [hcontent], by rw [hcuts', hacks, hacked], flushed, st.buffer,
          hcuts', new ++ new', ?_, ?_⟩
        · show w₂.log = _
          rw [hlog', hlog, List.append_assoc]
        · rw [List.map_append, hnew, hnew', hindex', List.map_append]

/-- What a program that publishes leaves in the log when it returns, or raises. -/
inductive Logs {α : Type} (returned : α → List KafkaMessage → Prop)
    (raised : List KafkaMessage → Prop) (w : World) : EStateM.Result Exc World α → Prop where
  | ok {a : α} {w' : World} (new : List KafkaMessage) (log : w'.log = w.log ++ new)
      (h : returned a new) : Logs returned raised w (.ok a w')
  | error {exc : Exc} {w' : World} (new : List KafkaMessage) (log : w'.log = w.log ++ new)
      (h : raised new) : Logs returned raised w (.error exc w')

/-- The final answer with its text. -/
def IsResponse (text : String) (message : KafkaMessage) : Prop :=
  ∃ event, message.payload = .generated event ∧ event.fullContent = some text

/-- The memory update with its text. -/
def IsMemoryUpdate (text : String) (message : KafkaMessage) : Prop :=
  ∃ event, message.payload = .memoryUpdate event ∧ event.assistantResponse = text

theorem send_log (p : KafkaPublisher) (message : KafkaMessage) (w : World) :
    Logs (fun _ new => new = [message]) (· = []) w ((p.send env message).run w) := by
  have hsend := p.send_sends env message w
  revert hsend
  cases (p.send env message).run w with
  | ok a w' => exact fun hsend => .ok [message] (by rw [hsend.2]) rfl
  | error exc w' => exact fun hsend => .error [] (by rw [hsend.2, List.append_nil]) rfl

theorem publishResponse_log (p : KafkaPublisher) (text : String) (w : World) :
    Logs (fun _ new => ∃ response, new = [response] ∧ IsResponse text response) (· = []) w
      ((p.publishResponse env text).run w) := by
  have hresponse : ∃ message, IsResponse text message ∧ (p.publishResponse env text).run w =
      (p.send env message).run { w with readings := w.readings + 2 } := by
    simp only [KafkaPublisher.publishResponse, EStateM.run_bind, EStateM.run_get]
    exact ⟨_, ⟨_, rfl, rfl⟩, rfl⟩
  obtain ⟨message, hmessage, hrun⟩ := hresponse
  have hsend := send_log env p message { w with readings := w.readings + 2 }
  rw [hrun]
  revert hsend
  generalize (p.send env message).run _ = result
  intro hsend
  cases hsend with
  | ok new hlog hnew => exact .ok new hlog ⟨message, hnew, hmessage⟩
  | error new hlog hnew => exact .error new hlog hnew

theorem publishMemoryUpdate_log (p : KafkaPublisher) (text : String) (w : World) :
    Logs (fun _ new => ∃ update, new = [update] ∧ IsMemoryUpdate text update) (· = []) w
      ((p.publishMemoryUpdate env text).run w) := by
  cases hdecoded : uuid7Datetime w.ctx.messageId with
  | error exc =>
    rw [KafkaPublisher.publishMemoryUpdate_of_error p text hdecoded]
    exact .error [] (by rw [List.append_nil]) rfl
  | ok decoded =>
    obtain ⟨message, event, hpayload, htext, hrun⟩ :=
      KafkaPublisher.publishMemoryUpdate_of_ok p env text hdecoded
    have hsend := send_log env p message { w with readings := w.readings + 1 }
    rw [hrun]
    revert hsend
    generalize (p.send env message).run _ = result
    intro hsend
    cases hsend with
    | ok new hlog hnew => exact .ok new hlog ⟨message, hnew, event, hpayload, htext⟩
    | error new hlog hnew => exact .error new hlog hnew

/-- Step 5. -/
def finalEvents (p : KafkaPublisher) (text : String) : Program String := do
  p.publishResponse env text
  p.publishMemoryUpdate env text
  return text

/-- The final events of a stream, which are no chunks. -/
theorem finalEvents_log (p : KafkaPublisher) (text : String) (w : World) :
    Logs (fun text' new => text' = text ∧ ∃ response update, new = [response, update] ∧
        IsResponse text response ∧ IsMemoryUpdate text update)
      (fun new => new.filterMap chunkFields = []) w
      ((finalEvents env p text).run w) := by
  have hresponse := publishResponse_log env p text w
  rw [finalEvents, EStateM.run_bind]
  revert hresponse
  generalize (p.publishResponse env text).run w = result
  intro hresponse
  cases hresponse with
  | error new hlog hnew =>
    obtain rfl := hnew
    exact .error [] hlog rfl
  | ok new hlog hnew =>
    obtain ⟨response, rfl, hresponse⟩ := hnew
    rename_i w₁
    have hmemory := publishMemoryUpdate_log env p text w₁
    simp only [EStateM.run_bind]
    revert hmemory
    generalize (p.publishMemoryUpdate env text).run w₁ = result
    intro hmemory
    cases hmemory with
    | error new' hlog' hnew' =>
      obtain rfl := hnew'
      obtain ⟨event, hpayload, -⟩ := hresponse
      refine .error [response] (by rw [hlog', hlog, List.append_nil]) ?_
      simp [chunkFields, hpayload]
    | ok new' hlog' hnew' =>
      obtain ⟨update, rfl, hupdate⟩ := hnew'
      refine .ok [response, update] ?_ ⟨rfl, response, update, rfl, hresponse, hupdate⟩
      show World.log _ = _
      rw [hlog', hlog, List.append_assoc]
      rfl

theorem stream_run (tokens : TokenStream) (cancellation : Nat → Option String) (w : World) :
    (eng.stream env tokens cancellation rateLimited).run w =
      match (eng.streamChunks env tokens cancellation rateLimited).run w with
      | .ok (.cancelled text) w' => .ok text w'
      | .ok (.finished text) w' => (finalEvents env eng.publisher text).run w'
      | .error exc w' => .error exc w' := by
  rw [StreamingEngine.stream, EStateM.run_bind]
  cases (eng.streamChunks env tokens cancellation rateLimited).run w with
  | error exc w' => rfl
  | ok exit w' =>
    cases exit with
    | cancelled text => rfl
    | finished text => rfl

end Stream

/-! ## No text is lost -/

/-- The text of the tokens, as it is published and returned. -/
structure Lossless (tokens : List String) (text : String) (messages : List KafkaMessage) :
    Prop where
  chunks : String.join ((messages.filterMap chunkFields).map (·.content)) = String.join tokens
  returned : text = String.join tokens
  response : messages.filterMap responseText = [String.join tokens]
  memory : messages.filterMap memoryText = [String.join tokens]

theorem join_chunkOf (chunkIndex : Nat) (isLast : Bool) (buffer : List String) :
    String.join ((chunkOf chunkIndex isLast buffer).map (·.content)) = String.join buffer := by
  by_cases hempty : String.join buffer = ""
  · rw [chunkOf, if_pos hempty, hempty]
    rfl
  · rw [chunkOf, if_neg hempty]
    simp

theorem join_flushedChunks (start : Nat) (flushed : List (List String)) :
    String.join ((flushedChunks start flushed).map (·.content)) = String.join flushed.flatten := by
  induction flushed generalizing start with
  | nil => rfl
  | cons buffer rest ih =>
    rw [flushedChunks, List.map_append, String.join_append, join_chunkOf, ih,
      List.flatten_cons, String.join_append]

/-- The buffers are the tokens, in order. -/
theorem flatten_cuts (rateLimited : Bool) (tokens : List String) (reading : Nat)
    (st : StreamState) :
    (eng.cuts env rateLimited tokens reading st).flatten = st.buffer ++ tokens := by
  induction tokens generalizing reading st with
  | nil => simp [cuts]
  | cons token rest ih =>
    rw [cuts]
    by_cases hflush : eng.ShouldFlush rateLimited (env.clock reading) (take st token)
    · rw [if_pos hflush, List.flatten_cons, ih]
      simp [afterFlush, take]
    · rw [if_neg hflush, ih]
      simp [take]

/-- The three texts of messages that are all chunks. -/
theorem filterMap_of_chunks {messages : List KafkaMessage} {chunks : List ChunkFields}
    (h : messages.map chunkFields = chunks.map some) :
    messages.filterMap chunkFields = chunks ∧ messages.filterMap responseText = [] ∧
      messages.filterMap memoryText = [] := by
  induction messages generalizing chunks with
  | nil =>
    obtain rfl := List.map_eq_nil_iff.mp h.symm
    exact ⟨rfl, rfl, rfl⟩
  | cons message rest ih =>
    cases chunks with
    | nil => cases h
    | cons c chunks =>
      obtain ⟨hc, hrest⟩ := List.cons.inj h
      obtain ⟨hchunks, hresponse, hmemory⟩ := ih hrest
      have hothers : responseText message = none ∧ memoryText message = none := by
        revert hc
        rw [chunkFields, responseText, memoryText]
        cases message.payload <;> simp
      simp [hc, hothers, hchunks, hresponse, hmemory]

/-- A stream that is not cancelled and returns has lost no text, whatever the
clock, the chunk sizes and the broker did. -/
theorem stream_lossless (eng : StreamingEngine) (env : Env) (stream : TokenStream)
    (cancellation : Nat → Option String) (rateLimited : Bool) (w w' : World) (text : String)
    (hcancel : ∀ i < stream.tokens.length, cancellation i = none)
    (hrun : (eng.stream env stream cancellation rateLimited).run w = .ok text w') :
    Lossless stream.tokens text
      (publishedBy (eng.stream env stream cancellation rateLimited) w) := by
  have hchunks := streamChunks_streams eng env rateLimited stream cancellation w
    hcancel
  rw [publishedBy, hrun, endState_ok]
  rw [stream_run] at hrun
  cases hresult : (eng.streamChunks env stream cancellation rateLimited).run w with
  | error exc w₁ =>
    rw [hresult] at hrun
    cases hrun
  | ok exit w₁ =>
    rw [hresult] at hchunks hrun
    cases exit with
    | cancelled text => exact hchunks.elim
    | finished text₁ =>
      obtain ⟨-, rfl, -, flushed, left, hcuts, new, hlog, hnew⟩ := hchunks
      have hfinal := finalEvents_log env eng.publisher (String.join stream.tokens) w₁
      simp only at hrun
      rw [hrun] at hfinal
      cases hfinal with
      | ok finals hlog' hfinals =>
      obtain ⟨rfl, response, update, rfl, hresponse, hupdate⟩ := hfinals
      obtain ⟨event, hpayload, hcontent⟩ := hresponse
      obtain ⟨event', hpayload', htext⟩ := hupdate
      obtain ⟨hfields, hnoResponse, hnoMemory⟩ := filterMap_of_chunks hnew
      have hdrop : w'.log.drop w.log.length = new ++ [response, update] := by
        rw [hlog', hlog, List.append_assoc, List.drop_left]
      have hflatten : (flushed ++ [left]).flatten = stream.tokens := by
        rw [← hcuts, streamCuts, flatten_cuts]
        rfl
      rw [hdrop]
      refine ⟨?_, rfl, ?_, ?_⟩
      · rw [List.filterMap_append, hfields]
        have hlast : [response, update].filterMap chunkFields = [] := by
          simp [chunkFields, hpayload, hpayload']
        rw [hlast, List.append_nil, List.map_append, String.join_append, join_flushedChunks,
          join_chunkOf, ← String.join_append, ← hflatten]
        simp
      · rw [List.filterMap_append, hnoResponse]
        simp [responseText, hpayload, hpayload', hcontent]
      · rw [List.filterMap_append, hnoMemory]
        simp [memoryText, hpayload, hpayload', htext]

/-- A request, and Kafka acknowledges everything; the clock stands still. -/
def calmWorld : World where
  ctx :=
    { conversationId := "c1", userId := "u1", messageId := "m1", responseMessageId := some "a1"
      requestId := "r1", traceId := "", replacesMessageId := none, startedAt := 0
      userMessage := "hi" }

def calmBroker : Env where
  broker _ := none
  clock _ := 0

/-- The text that a stream returns. -/
def returned (result : EStateM.Result Exc World String) : Option String :=
  match result with
  | .ok text _ => some text
  | .error _ _ => none

theorem exists_of_returned {result : EStateM.Result Exc World String} {text : String}
    (h : returned result = some text) : ∃ w', result = .ok text w' := by
  cases result with
  | ok text' w' =>
    obtain rfl := Option.some.inj h
    exact ⟨w', rfl⟩
  | error exc w' => cases h

theorem stream_lossless_fence :
    Lossless ["Hi", "", "\n```", "x"] "Hi\n```x"
      (publishedBy (({} : StreamingEngine).stream calmBroker
        { tokens := ["Hi", "", "\n```", "x"] }) calmWorld) := by
  have hreturned : returned ((({} : StreamingEngine).stream calmBroker
      { tokens := ["Hi", "", "\n```", "x"] }).run calmWorld) = some "Hi\n```x" := by
    decide +kernel
  obtain ⟨w', hrun⟩ := exists_of_returned hreturned
  exact stream_lossless _ _ _ _ _ _ w' _ (fun _ _ => rfl) hrun

/-! ## Numbering -/

/-- The chunks are numbered without a gap, and exactly the final one is the last. -/
structure Numbered (chunks : List ChunkFields) : Prop where
  index : ∀ (i : Nat) c, chunks[i]? = some c → c.chunkIndex = i
  sequenceNumber : ∀ c ∈ chunks, c.sequenceNumber = c.chunkIndex + 1
  isLast : ∀ (i : Nat) c, chunks[i]? = some c → (c.isLast = true ↔ i + 1 = chunks.length)

theorem Numbered.exists_last {chunks : List ChunkFields} (h : Numbered chunks)
    (hsome : chunks ≠ []) : ∃ c ∈ chunks, c.isLast = true := by
  have hlength : 0 < chunks.length := List.length_pos_iff.mpr hsome
  have hlast : chunks[chunks.length - 1]? = some chunks[chunks.length - 1] :=
    List.getElem?_eq_getElem (by omega)
  exact ⟨_, List.getElem_mem _, (h.isLast _ _ hlast).mpr (by omega)⟩

theorem sequenceNumber_of_mem_chunkOf {chunkIndex : Nat} {isLast : Bool} {buffer : List String}
    {c : ChunkFields} (h : c ∈ chunkOf chunkIndex isLast buffer) :
    c.sequenceNumber = c.chunkIndex + 1 := by
  by_cases hempty : String.join buffer = ""
  · rw [chunkOf, if_pos hempty] at h
    cases h
  · rw [chunkOf, if_neg hempty] at h
    rw [List.mem_singleton.mp h]

theorem sequenceNumber_of_mem_flushedChunks {start : Nat} {flushed : List (List String)}
    {c : ChunkFields} (h : c ∈ flushedChunks start flushed) :
    c.sequenceNumber = c.chunkIndex + 1 := by
  induction flushed generalizing start with
  | nil => cases h
  | cons buffer rest ih =>
    rcases List.mem_append.mp h with h | h
    · exact sequenceNumber_of_mem_chunkOf h
    · exact ih h

/-- A flushed buffer without a text leaves a chunk out. -/
theorem length_flushedChunks_le (start : Nat) (flushed : List (List String)) :
    (flushedChunks start flushed).length ≤ flushed.length ∧
      ((flushedChunks start flushed).length = flushed.length →
        ∀ buffer ∈ flushed, String.join buffer ≠ "") := by
  induction flushed generalizing start with
  | nil => simp [flushedChunks]
  | cons buffer rest ih =>
    obtain ⟨hle, htexts⟩ := ih (start + 1)
    rw [flushedChunks, List.length_append, List.length_cons]
    by_cases hempty : String.join buffer = ""
    · rw [chunkOf, if_pos hempty, List.length_nil]
      constructor
      · omega
      · intro hlength
        omega
    · rw [chunkOf, if_neg hempty, List.length_singleton]
      constructor
      · omega
      · intro hlength buffer' hmem
        rcases List.mem_cons.mp hmem with rfl | hmem
        · exact hempty
        · exact htexts (by omega) buffer' hmem

/-- Buffers that all have a text are numbered as they come. -/
theorem getElem?_flushedChunks (start : Nat) {flushed : List (List String)}
    (h : ∀ buffer ∈ flushed, String.join buffer ≠ "") :
    (flushedChunks start flushed).length = flushed.length ∧
      ∀ (i : Nat) c, (flushedChunks start flushed)[i]? = some c → c.chunkIndex = start + i := by
  induction flushed generalizing start with
  | nil => simp [flushedChunks]
  | cons buffer rest ih =>
    obtain ⟨hlength, hindex⟩ := ih (start + 1)
      fun buffer' hmem => h buffer' (List.mem_cons_of_mem _ hmem)
    rw [flushedChunks, chunkOf, if_neg (h buffer List.mem_cons_self)]
    constructor
    · simp [hlength]
    · intro i c hc
      cases i with
      | zero =>
        obtain rfl := Option.some.inj hc
        rfl
      | succ i =>
        have hi := hindex i c hc
        omega

/-- Numbered chunks end in the one of the last buffer, behind one of each buffer before it. -/
theorem texts_of_numbered {flushed : List (List String)} {left : List String}
    (hnumbered : Numbered (flushedChunks 0 flushed ++ chunkOf flushed.length true left))
    (hsome : flushedChunks 0 flushed ++ chunkOf flushed.length true left ≠ []) :
    ∀ buffer ∈ flushed ++ [left], String.join buffer ≠ "" := by
  by_cases hleft : String.join left = ""
  · -- no chunk is marked as the last
    exfalso
    rw [chunkOf, if_pos hleft, List.append_nil] at hnumbered hsome
    obtain ⟨c, hc, hlast⟩ := hnumbered.exists_last hsome
    rw [isLast_of_mem_flushedChunks hc] at hlast
    cases hlast
  · rw [chunkOf, if_neg hleft] at hnumbered
    have hindex := hnumbered.index (flushedChunks 0 flushed).length _
      List.getElem?_concat_length
    obtain ⟨-, htexts⟩ := length_flushedChunks_le 0 flushed
    intro buffer hmem
    rcases List.mem_append.mp hmem with hmem | hmem
    · exact htexts hindex.symm buffer hmem
    · rw [List.mem_singleton.mp hmem]
      exact hleft

theorem numbered_of_texts {flushed : List (List String)} {left : List String}
    (htexts : ∀ buffer ∈ flushed ++ [left], String.join buffer ≠ "") :
    Numbered (flushedChunks 0 flushed ++ chunkOf flushed.length true left) := by
  have hleft : String.join left ≠ "" := htexts left (by simp)
  obtain ⟨hlength, hindex⟩ := getElem?_flushedChunks 0
    fun buffer hmem => htexts buffer (List.mem_append_left _ hmem)
  have hcases : ∀ (i : Nat) c, (flushedChunks 0 flushed ++
      chunkOf flushed.length true left)[i]? = some c →
      (i < flushed.length ∧ (flushedChunks 0 flushed)[i]? = some c) ∨
        (i = flushed.length ∧ c.chunkIndex = flushed.length ∧ c.isLast = true) := by
    intro i c hc
    by_cases hi : i < flushed.length
    · rw [List.getElem?_append_left (by omega)] at hc
      exact .inl ⟨hi, hc⟩
    · rw [List.getElem?_append_right (by omega), chunkOf, if_neg hleft] at hc
      obtain ⟨hzero, hc⟩ := List.getElem?_eq_some_iff.mp hc
      simp only [List.length_singleton] at hzero
      simp only [List.getElem_singleton] at hc
      subst hc
      exact .inr ⟨by omega, rfl, rfl⟩
  have hall : (flushedChunks 0 flushed ++ chunkOf flushed.length true left).length =
      flushed.length + 1 := by
    rw [List.length_append, hlength, chunkOf, if_neg hleft, List.length_singleton]
  constructor
  case index =>
    intro i c hc
    rcases hcases i c hc with ⟨-, hc⟩ | ⟨rfl, hc, -⟩
    · rw [hindex i c hc, Nat.zero_add]
    · exact hc
  case sequenceNumber =>
    intro c hc
    rcases List.mem_append.mp hc with hc | hc
    · exact sequenceNumber_of_mem_flushedChunks hc
    · exact sequenceNumber_of_mem_chunkOf hc
  case isLast =>
    intro i c hc
    rw [hall]
    rcases hcases i c hc with ⟨hi, hc⟩ | ⟨rfl, -, hlast⟩
    · rw [isLast_of_mem_flushedChunks (List.mem_of_getElem? hc)]
      constructor
      · exact nofun
      · intro h
        omega
    · simp [hlast]

theorem numbered_iff_texts {flushed : List (List String)} {left : List String}
    (hsome : flushedChunks 0 flushed ++ chunkOf flushed.length true left ≠ []) :
    Numbered (flushedChunks 0 flushed ++ chunkOf flushed.length true left) ↔
      ∀ buffer ∈ flushed ++ [left], String.join buffer ≠ "" :=
  ⟨fun hnumbered => texts_of_numbered hnumbered hsome, numbered_of_texts⟩

/-- The events behind the chunks are no chunks. -/
theorem finalEvents_noChunks (env : Env) (publisher : KafkaPublisher) (text : String) (w : World) :
    ∃ finals, (endState ((finalEvents env publisher text).run w)).log = w.log ++ finals ∧
      finals.filterMap chunkFields = [] := by
  have hfinal := finalEvents_log env publisher text w
  revert hfinal
  generalize (finalEvents env publisher text).run w = result
  intro hfinal
  cases hfinal with
  | error finals hlog hfinals => exact ⟨finals, hlog, hfinals⟩
  | ok finals hlog hfinals =>
    obtain ⟨-, response, update, rfl, ⟨event, hpayload, -⟩, hupdate⟩ := hfinals
    obtain ⟨event', hpayload', -⟩ := hupdate
    exact ⟨_, hlog, by simp [chunkFields, hpayload, hpayload']⟩

/-- The chunks of a stream that is not cancelled are numbered without a gap up
to one that is marked as the last exactly if the stream comes to its end,
Kafka takes every chunk, and every buffer that is cut has a text. -/
theorem numbered_iff (eng : StreamingEngine) (env : Env) (stream : TokenStream)
    (cancellation : Nat → Option String) (rateLimited : Bool) (w : World)
    (hcancel : ∀ i < stream.tokens.length, cancellation i = none)
    (hsome : (publishedBy (eng.stream env stream cancellation rateLimited) w).filterMap
      chunkFields ≠ []) :
    Numbered ((publishedBy (eng.stream env stream cancellation rateLimited) w).filterMap
        chunkFields) ↔
      stream.failure = none ∧
        eng.publisher.acknowledgesChunks env (eng.streamCuts env rateLimited stream.tokens w)
          w.attempts = true ∧
        ∀ buffer ∈ eng.streamCuts env rateLimited stream.tokens w, String.join buffer ≠ "" := by
  have hchunks := streamChunks_streams eng env rateLimited stream cancellation w
    hcancel
  revert hsome
  rw [publishedBy, stream_run]
  cases hresult : (eng.streamChunks env stream cancellation rateLimited).run w with
  | error exc w₁ =>
    rw [hresult] at hchunks
    obtain ⟨hfails, new, chunks, hlog, hnew, hlast⟩ := hchunks
    obtain ⟨hfields, -, -⟩ := filterMap_of_chunks hnew
    simp only [endState_error, hlog, List.drop_left, hfields]
    intro hsome
    constructor
    · intro hnumbered
      obtain ⟨c, hc, hislast⟩ := hnumbered.exists_last hsome
      rw [hlast c hc] at hislast
      cases hislast
    · intro hends
      obtain ⟨hfailure, hacks, -⟩ := hends
      rcases hfails with hfails | hfails
      · exact absurd hfailure hfails
      · rw [hacks] at hfails
        cases hfails
  | ok exit w₁ =>
    rw [hresult] at hchunks
    cases exit with
    | cancelled text => exact hchunks.elim
    | finished text =>
      obtain ⟨hfailure, -, hacks, flushed, left, hcuts, new, hlog, hnew⟩ := hchunks
      obtain ⟨hfields, -, -⟩ := filterMap_of_chunks hnew
      obtain ⟨finals, hfinals, hnone⟩ := finalEvents_noChunks env eng.publisher text w₁
      simp only [hfinals, hlog, List.append_assoc, List.drop_left, List.filterMap_append, hfields,
        hnone, List.append_nil]
      intro hsome
      rw [numbered_iff_texts hsome, hcuts]
      rw [hcuts] at hacks
      exact ⟨fun htexts => ⟨hfailure, hacks, htexts⟩, fun h => h.2.2⟩

/-- The chunks of a stream over these tokens. -/
def calmChunks (tokens : List String) : List ChunkFields :=
  (publishedBy (({} : StreamingEngine).stream calmBroker { tokens }) calmWorld).filterMap
    chunkFields

theorem numbered_hi : Numbered (calmChunks ["Hi", "", "!"]) := by
  have hsome : calmChunks ["Hi", "", "!"] ≠ [] := by decide +kernel
  have htexts : ∀ buffer ∈ ({} : StreamingEngine).streamCuts calmBroker false ["Hi", "", "!"]
      calmWorld, String.join buffer ≠ "" := by decide +kernel
  exact (numbered_iff _ _ _ _ _ _ (fun _ _ => rfl) hsome).mpr ⟨rfl, by decide +kernel, htexts⟩

/-- A single token is flushed at once, and is not the last chunk; an empty
first token takes the first index. -/
theorem not_numbered : ¬ Numbered (calmChunks ["Hi"]) ∧ ¬ Numbered (calmChunks ["", "Hi"]) := by
  have honly : calmChunks ["Hi"] = [⟨0, 1, "Hi", false⟩] := by decide +kernel
  have hlate : calmChunks ["", "Hi"] = [⟨1, 2, "Hi", true⟩] := by decide +kernel
  rw [honly, hlate]
  constructor
  · intro h
    exact absurd ((h.isLast 0 _ rfl).mpr rfl) (by decide)
  · intro h
    exact absurd (h.index 0 _ rfl) (by decide)

end StreamingEngine

end LlmService
