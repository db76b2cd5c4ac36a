import Mathlib.Data.List.Induction
import Mathlib.Tactic.Common

/-!
# The worker of the write-ahead log

`spawn_worker` and `sync_wal` of `wal.rs`: one task takes the operations from a channel, writes the
batches to a segment file, and replies when the file was synced. It opens a new segment whenever the
schema of the batches changes.

A reply is `Ok` only for a durable batch (`AckedDurable`) in every run in which a segment with
unanswered batches is synced when it is replaced: `ackedDurable_run`. The worker does not look at
the result of that sync, and answers the batches after the sync of the next segment; the run of
`not_ackedDurable_rotation` loses an acknowledged batch.

Every event of the runs below brings the outcomes of the calls of the file system that it may make.
Error replies carry the texts of the source. Time and metrics are left out, and the channel has no
bound.
-/

namespace BenoStreamDB

structure RecordBatch (κ ρ : Type) where
  schema : κ
  rows : List ρ
  deriving DecidableEq

/-- The segment `log_{ts}_{counter}.arrow`. -/
structure SegmentFile where
  ts : ℕ
  counter : ℕ
  deriving DecidableEq

/-- `LogOp`; the number stands for the channel of the reply. -/
inductive LogOp (κ ρ : Type)
  | append (batch : RecordBatch κ ρ) (reply : ℕ)
  | appendSync (batch : RecordBatch κ ρ) (reply : ℕ)
  | flush (reply : ℕ)
  deriving DecidableEq

/-- What the worker does to the segments, and the replies it sends. -/
inductive WalEvent (κ ρ : Type)
  | wrote (file : SegmentFile) (op : LogOp κ ρ)
  | synced (file : SegmentFile)
  | syncFailed (file : SegmentFile)
  | replied (op : LogOp κ ρ) (res : Except String Unit)

/-- The clock, and the outcomes of the calls that one round of the worker may make. -/
structure WalIo where
  now : ℕ := 0
  /-- `sync_data` on a writer that is replaced. -/
  oldSyncData : Except String Unit := .ok ()
  openFile : Except String Unit := .ok ()
  newWriter : Except String Unit := .ok ()
  write : Except String Unit := .ok ()
  syncData : Except String Unit := .ok ()
  syncAll : Except String Unit := .ok ()

structure WalConfig where
  syncBatchSize : ℕ := 10

/-- The local variables of the worker, and what it has done so far. -/
structure WalWorker (κ ρ : Type) where
  writerOpt : Option SegmentFile
  currentSchema : Option κ
  segmentCounter : ℕ := 0
  pendingSyncs : List (LogOp κ ρ) := []
  batchCount : ℕ := 0
  events : List (WalEvent κ ρ) := []

variable {κ ρ : Type}

def LogOp.batch? : LogOp κ ρ → Option (RecordBatch κ ρ)
  | append batch _ => some batch
  | appendSync batch _ => some batch
  | flush _ => none

/-! ### The worker -/

def syncEvent (file : SegmentFile) : Except String Unit → WalEvent κ ρ
  | .ok _ => .synced file
  | .error _ => .syncFailed file

namespace WalWorker

def emit (w : WalWorker κ ρ) (e : WalEvent κ ρ) : WalWorker κ ρ :=
  { w with events := w.events ++ [e] }

def reply (w : WalWorker κ ρ) (op : LogOp κ ρ) (res : Except String Unit) : WalWorker κ ρ :=
  w.emit (.replied op res)

/-- `for tx in pending_syncs.drain(..)`. -/
def replyPending (w : WalWorker κ ρ) (res : Except String Unit) : WalWorker κ ρ :=
  { w with events := w.events ++ w.pendingSyncs.map (.replied · res), pendingSyncs := [] }

/-- `sync_wal`. -/
def syncWal (w : WalWorker κ ρ) (io : WalIo) (file : SegmentFile) :
    Except String Unit × WalWorker κ ρ :=
  let w₁ := w.emit (syncEvent file io.syncData)
  match io.syncData with
  | .ok _ => (.ok (), w₁)
  | .error e =>
    let w₂ := w₁.emit (syncEvent file io.syncAll)
    match io.syncAll with
    | .ok _ => (.ok (), w₂)
    | .error e₂ => (.error ("WAL fsync failed — sync_data: " ++ e ++ "; sync_all: " ++ e₂), w₂)

/-- `writer_opt.as_mut().map(sync_wal).unwrap_or(Ok(()))`. -/
def syncWriter (w : WalWorker κ ρ) (io : WalIo) : Except String Unit × WalWorker κ ρ :=
  match w.writerOpt with
  | none => (.ok (), w)
  | some file => w.syncWal io file

/-- `writer_opt.take()` and `sync_data` on what it held; nobody looks at the result. -/
def takeWriter (w : WalWorker κ ρ) (io : WalIo) : WalWorker κ ρ :=
  match w.writerOpt with
  | none => w
  | some file => { w.emit (syncEvent file io.oldSyncData) with writerOpt := none }

/-- Replace the writer by one for the schema of the batch. -/
def rotate (w : WalWorker κ ρ) (io : WalIo) (batch : RecordBatch κ ρ) :
    Except String Unit × WalWorker κ ρ :=
  let w₁ := { w.takeWriter io with segmentCounter := w.segmentCounter + 1 }
  match io.openFile with
  | .error e => (.error ("Failed to open WAL: " ++ e), w₁)
  | .ok _ =>
    match io.newWriter with
    | .error e => (.error ("Failed to create WAL writer: " ++ e), w₁)
    | .ok _ => (.ok (),
      { w₁ with
        writerOpt := some ⟨io.now, w.segmentCounter⟩
        currentSchema := some batch.schema })

variable [DecidableEq κ]

/-- `schema_changed || writer_opt.is_none()`. -/
def needsWriter (w : WalWorker κ ρ) (batch : RecordBatch κ ρ) : Bool :=
  w.currentSchema != some batch.schema || w.writerOpt.isNone

def ensureWriter (w : WalWorker κ ρ) (io : WalIo) (batch : RecordBatch κ ρ) :
    Except String Unit × WalWorker κ ρ :=
  if w.needsWriter batch then w.rotate io batch else (.ok (), w)

/-- The part of `Append` after a successful write. -/
def push (w : WalWorker κ ρ) (config : WalConfig) (io : WalIo) (file : SegmentFile)
    (op : LogOp κ ρ) : WalWorker κ ρ :=
  let w₁ := { w with pendingSyncs := w.pendingSyncs ++ [op], batchCount := w.batchCount + 1 }
  if config.syncBatchSize ≤ w₁.batchCount then
    let (res, w₂) := w₁.syncWal io file
    { w₂.replyPending res with batchCount := 0 }
  else w₁

/-- The part of `AppendSync` after a successful write. -/
def pushSync (w : WalWorker κ ρ) (io : WalIo) (file : SegmentFile) (op : LogOp κ ρ) :
    WalWorker κ ρ :=
  let (res, w₁) := w.syncWal io file
  { (w₁.reply op res).replyPending res with batchCount := 0 }

/-- `Append` and `AppendSync` up to the write, which `next` follows. -/
def writeThen (w : WalWorker κ ρ) (io : WalIo) (batch : RecordBatch κ ρ) (op : LogOp κ ρ)
    (next : WalWorker κ ρ → SegmentFile → WalWorker κ ρ) : WalWorker κ ρ :=
  let (res, w₁) := w.ensureWriter io batch
  match res with
  | .error msg => w₁.reply op (.error msg)
  | .ok _ =>
    match w₁.writerOpt with
    | none => w₁
    | some file =>
      match io.write with
      | .error e => w₁.reply op (.error ("WAL write failed: " ++ e))
      | .ok _ => next (w₁.emit (.wrote file op)) file

/-- The round of a received operation. -/
def handle (w : WalWorker κ ρ) (config : WalConfig) (io : WalIo) (op : LogOp κ ρ) :
    WalWorker κ ρ :=
  match op with
  | .append batch _ => w.writeThen io batch op fun w₁ file => w₁.push config io file op
  | .appendSync batch _ => w.writeThen io batch op fun w₁ file => w₁.pushSync io file op
  | .flush _ =>
    let (res, w₁) := w.syncWriter io
    { (w₁.replyPending res).reply op res with batchCount := 0 }

/-- The round of an elapsed `sync_interval_ms`. -/
def handleTimeout (w : WalWorker κ ρ) (io : WalIo) : WalWorker κ ρ :=
  if w.pendingSyncs.isEmpty then w
  else
    let (res, w₁) := w.syncWriter io
    { w₁.replyPending res with batchCount := 0 }

/-- One message of the loop that drains the channel after it was closed: the outcomes of the write
and of the rotation are ignored. -/
def drainOp (w : WalWorker κ ρ) (io : WalIo) (op : LogOp κ ρ) : WalWorker κ ρ :=
  match op.batch? with
  | some batch =>
    let w₁ := (w.ensureWriter io batch).2
    let w₂ :=
      match w₁.writerOpt, io.write with
      | some file, .ok _ => w₁.emit (.wrote file op)
      | _, _ => w₁
    w₂.reply op (.ok ())
  | none =>
    let (res, w₁) := w.syncWriter io
    w₁.reply op res

/-- The end of the task. What is still pending gets no reply: its senders are dropped. -/
def finish (w : WalWorker κ ρ) (io : WalIo) : WalWorker κ ρ :=
  let w₁ :=
    match w.writerOpt with
    | none => w
    | some file => { w.emit (syncEvent file io.syncAll) with writerOpt := none }
  { w₁ with pendingSyncs := [] }

end WalWorker

/-! ### Runs -/

/-- The worker and its channel. -/
structure WalSystem (κ ρ : Type) where
  worker : WalWorker κ ρ
  queue : List (LogOp κ ρ) := []
  /-- All senders were dropped. -/
  closed : Bool := false
  /-- The task has ended. -/
  stopped : Bool := false

inductive WalStep (κ ρ : Type)
  | send (op : LogOp κ ρ)
  | close
  | recv (io : WalIo)
  | timeout (io : WalIo)

namespace WalSystem

/-- `spawn_worker` with the writer and the schema that the log already has. -/
def spawnWorker (writer : Option SegmentFile) (schema : Option κ) : WalSystem κ ρ where
  worker := { writerOpt := writer, currentSchema := schema }

variable [DecidableEq κ]

/-- One event. `recv` gives `None` only when the channel is closed and empty; a step that cannot
happen changes nothing. -/
def step (config : WalConfig) (s : WalSystem κ ρ) : WalStep κ ρ → WalSystem κ ρ
  | .send op => if s.closed then s else { s with queue := s.queue ++ [op] }
  | .close => { s with closed := true }
  | .recv io =>
    if s.stopped then s
    else
      match s.queue with
      | op :: rest => { s with worker := s.worker.handle config io op, queue := rest }
      | [] =>
        if s.closed then
          { s with
            worker := (s.queue.foldl (fun w op => w.drainOp io op) s.worker).finish io
            queue := []
            stopped := true }
        else s
  | .timeout io => if s.stopped then s else { s with worker := s.worker.handleTimeout io }

def run (config : WalConfig) (s : WalSystem κ ρ) (steps : List (WalStep κ ρ)) : WalSystem κ ρ :=
  steps.foldl (step config) s

end WalSystem

/-! ### Durable batches -/

/-- The batch of `op` is in a segment that was synced after it was written. -/
def Durable (events : List (WalEvent κ ρ)) (op : LogOp κ ρ) : Prop :=
  ∃ file before after, events = before ++ .wrote file op :: after ∧ .synced file ∈ after

/-- No operation with a batch was answered with `Ok` before the batch was durable. -/
def AckedDurable (events : List (WalEvent κ ρ)) : Prop :=
  ∀ before op after, events = before ++ .replied op (.ok ()) :: after → op.batch?.isSome →
    Durable before op

lemma Durable.append {events : List (WalEvent κ ρ)} {op : LogOp κ ρ} (h : Durable events op)
    (later : List (WalEvent κ ρ)) : Durable (events ++ later) op := by
  obtain ⟨file, before, after, rfl, hsync⟩ := h
  exact ⟨file, before, after ++ later, by simp, List.mem_append_left _ hsync⟩

lemma Durable.mem {events : List (WalEvent κ ρ)} {op : LogOp κ ρ} (h : Durable events op) :
    ∃ file, .wrote file op ∈ events ∧ .synced file ∈ events := by
  obtain ⟨file, before, after, rfl, hsync⟩ := h
  exact ⟨file, by simp, by simp [hsync]⟩

lemma durable_of_synced {events later : List (WalEvent κ ρ)} {op : LogOp κ ρ} {file : SegmentFile}
    (hwrote : .wrote file op ∈ events) (hsync : .synced file ∈ later) :
    Durable (events ++ later) op := by
  obtain ⟨before, after, rfl⟩ := List.append_of_mem hwrote
  exact ⟨file, before, after ++ later, by simp, List.mem_append_right _ hsync⟩

lemma ackedDurable_nil : AckedDurable ([] : List (WalEvent κ ρ)) := by
  intro before op after h
  simp at h

lemma AckedDurable.concat {events : List (WalEvent κ ρ)} (h : AckedDurable events)
    {e : WalEvent κ ρ}
    (he : ∀ op, e = .replied op (.ok ()) → op.batch?.isSome → Durable events op) :
    AckedDurable (events ++ [e]) := by
  intro before op after heq hop
  rcases List.eq_nil_or_concat after with rfl | ⟨after', e', rfl⟩
  · obtain ⟨rfl, hlast⟩ := List.append_inj' heq rfl
    exact he op (List.singleton_inj.1 hlast) hop
  · have hsplit : events ++ [e] = (before ++ .replied op (.ok ()) :: after') ++ [e'] := by
      simpa using heq
    obtain ⟨heq', -⟩ := List.append_inj' hsplit rfl
    exact h before op after' heq' hop

lemma AckedDurable.append {events later : List (WalEvent κ ρ)} (h : AckedDurable events)
    (hlater : ∀ op, .replied op (.ok ()) ∈ later → op.batch?.isSome → Durable events op) :
    AckedDurable (events ++ later) := by
  induction later using List.reverseRecOn with
  | nil => simpa using h
  | append_singleton later e ih =>
    rw [← List.append_assoc]
    apply (ih fun op hop => hlater op (List.mem_append_left _ hop)).concat
    rintro op rfl hop
    exact (hlater op (by simp) hop).append later

/-! ### The invariant of the worker -/

namespace WalWorker

/-- The batch of `op` is durable, or in the segment that the worker writes to. -/
def Holds (w : WalWorker κ ρ) (op : LogOp κ ρ) : Prop :=
  Durable w.events op ∨ ∃ file, w.writerOpt = some file ∧ .wrote file op ∈ w.events

structure Sound (w : WalWorker κ ρ) : Prop where
  acked : AckedDurable w.events
  held : ∀ op ∈ w.pendingSyncs, w.Holds op

lemma Holds.of_append {w w' : WalWorker κ ρ} {op : LogOp κ ρ} (h : w.Holds op)
    (hwriter : w'.writerOpt = w.writerOpt) {later : List (WalEvent κ ρ)}
    (hevents : w'.events = w.events ++ later) : w'.Holds op := by
  rw [Holds, hevents, hwriter]
  rcases h with h | ⟨file, hfile, hwrote⟩
  · exact Or.inl (h.append later)
  · exact Or.inr ⟨file, hfile, List.mem_append_left _ hwrote⟩

lemma Sound.emit {w : WalWorker κ ρ} (h : w.Sound) {e : WalEvent κ ρ}
    (he : ∀ op, e = .replied op (.ok ()) → op.batch?.isSome → Durable w.events op) :
    (w.emit e).Sound where
  acked := h.acked.concat he
  held op hop := (h.held op hop).of_append rfl rfl

lemma Sound.reply {w : WalWorker κ ρ} (h : w.Sound) {op : LogOp κ ρ} {res : Except String Unit}
    (hres : res = .ok () → op.batch?.isSome → Durable w.events op) : (w.reply op res).Sound := by
  apply h.emit
  intro op' heq
  obtain ⟨rfl, rfl⟩ := WalEvent.replied.inj heq
  exact hres rfl

lemma Sound.replyPending {w : WalWorker κ ρ} (h : w.Sound) {res : Except String Unit}
    (hres : res = .ok () → ∀ op ∈ w.pendingSyncs, Durable w.events op) :
    (w.replyPending res).Sound where
  acked := by
    apply h.acked.append
    intro op hop _
    obtain ⟨op', hop', heq⟩ := List.mem_map.1 hop
    obtain ⟨rfl, rfl⟩ := WalEvent.replied.inj heq
    exact hres rfl op' hop'
  held := by simp [WalWorker.replyPending]

/-- A sync by `sync_wal`: the segment is synced if the result is `Ok`, and only events are added. -/
lemma syncWal_cases (w : WalWorker κ ρ) (io : WalIo) (file : SegmentFile) :
    ∃ later, (w.syncWal io file).2 = { w with events := w.events ++ later } ∧
      (∀ op res, .replied op res ∉ later) ∧
      ((w.syncWal io file).1 = .ok () → .synced file ∈ later) := by
  cases hdata : io.syncData with
  | ok u => exact ⟨[.synced file], by simp [syncWal, hdata, emit, syncEvent]⟩
  | error e =>
    cases hall : io.syncAll with
    | ok u =>
      exact ⟨[.syncFailed file, .synced file], by simp [syncWal, hdata, hall, emit, syncEvent]⟩
    | error e₂ =>
      exact ⟨[.syncFailed file, .syncFailed file],
        by simp [syncWal, hdata, hall, emit, syncEvent]⟩

/-- A sync of the current segment keeps the invariant, and makes all that is held durable. -/
lemma Sound.syncWal {w : WalWorker κ ρ} (h : w.Sound) (io : WalIo) {file : SegmentFile}
    (hfile : w.writerOpt = some file) :
    (w.syncWal io file).2.Sound ∧
      (w.syncWal io file).2.pendingSyncs = w.pendingSyncs ∧
      ((w.syncWal io file).1 = .ok () →
        ∀ op, w.Holds op → Durable (w.syncWal io file).2.events op) := by
  obtain ⟨later, heq, hno, hok⟩ := w.syncWal_cases io file
  rw [heq]
  refine ⟨⟨?_, ?_⟩, rfl, ?_⟩
  · exact h.acked.append fun op hop => absurd hop (hno op _)
  · intro op hop
    exact (h.held op hop).of_append rfl rfl
  · rintro hres op (hop | ⟨file', hfile', hwrote⟩)
    · exact hop.append later
    · obtain rfl : file = file' := by simpa [hfile] using hfile'
      exact durable_of_synced hwrote (hok hres)

lemma Sound.syncWriter {w : WalWorker κ ρ} (h : w.Sound) (io : WalIo) :
    (w.syncWriter io).2.Sound ∧
      ((w.syncWriter io).1 = .ok () →
        ∀ op ∈ (w.syncWriter io).2.pendingSyncs, Durable (w.syncWriter io).2.events op) := by
  cases hfile : w.writerOpt with
  | none =>
    -- without a segment what is pending has been synced before
    simp only [WalWorker.syncWriter, hfile]
    refine ⟨h, fun _ op hop => ?_⟩
    rcases h.held op hop with hdur | ⟨file, hsome, -⟩
    · exact hdur
    · simp [hfile] at hsome
  | some file =>
    simp only [WalWorker.syncWriter, hfile]
    obtain ⟨hsound, hpending, hdur⟩ := h.syncWal io hfile
    refine ⟨hsound, fun hres op hop => hdur hres op ?_⟩
    exact h.held op (hpending ▸ hop)

lemma Sound.batchCount {w : WalWorker κ ρ} (h : w.Sound) (n : ℕ) :
    Sound { w with batchCount := n } := ⟨h.acked, h.held⟩

/-- The writer may be taken if it is synced, or if nothing waits for it. -/
lemma Sound.takeWriter {w : WalWorker κ ρ} (h : w.Sound) {io : WalIo}
    (hold : w.writerOpt.isSome → w.pendingSyncs ≠ [] → io.oldSyncData = .ok ()) :
    (w.takeWriter io).Sound ∧ (w.takeWriter io).writerOpt = none := by
  cases hfile : w.writerOpt with
  | none => simp only [WalWorker.takeWriter, hfile]; exact ⟨h, trivial⟩
  | some file =>
    simp only [WalWorker.takeWriter, hfile]
    refine ⟨⟨?_, fun op hop => Or.inl ?_⟩, trivial⟩
    · apply h.acked.concat
      intro op heq
      cases hdata : io.oldSyncData <;> simp [syncEvent, hdata] at heq
    · have hdata : io.oldSyncData = .ok () := hold (by simp [hfile]) (List.ne_nil_of_mem hop)
      rcases h.held op hop with hdur | ⟨file', hfile', hwrote⟩
      · exact hdur.append _
      · obtain rfl : file = file' := by simpa [hfile] using hfile'
        exact durable_of_synced hwrote (by simp [syncEvent, hdata])

/-- What is pending with no writer at all was synced, so a new writer may follow. -/
lemma Sound.rotate {w : WalWorker κ ρ} (h : w.Sound) {io : WalIo}
    (hold : w.writerOpt.isSome → w.pendingSyncs ≠ [] → io.oldSyncData = .ok ())
    (batch : RecordBatch κ ρ) : (w.rotate io batch).2.Sound := by
  obtain ⟨hsound, hnone⟩ := h.takeWriter hold
  have hdur : ∀ op ∈ (w.takeWriter io).pendingSyncs, Durable (w.takeWriter io).events op := by
    intro op hop
    rcases hsound.held op hop with hdur | ⟨file, hsome, -⟩
    · exact hdur
    · simp [hnone] at hsome
  cases hopen : io.openFile with
  | error e => simp only [WalWorker.rotate, hopen]; exact ⟨hsound.acked, hsound.held⟩
  | ok u =>
    cases hnew : io.newWriter with
    | error e => simp only [WalWorker.rotate, hopen, hnew]; exact ⟨hsound.acked, hsound.held⟩
    | ok u =>
      simp only [WalWorker.rotate, hopen, hnew]
      exact ⟨hsound.acked, fun op hop => Or.inl (hdur op hop)⟩

lemma Sound.push {w : WalWorker κ ρ} (h : w.Sound) (config : WalConfig) (io : WalIo)
    {file : SegmentFile} (hfile : w.writerOpt = some file) {op : LogOp κ ρ}
    (hwrote : .wrote file op ∈ w.events) : (w.push config io file op).Sound := by
  have hpush : Sound { w with
      pendingSyncs := w.pendingSyncs ++ [op]
      batchCount := w.batchCount + 1 } := by
    refine ⟨h.acked, fun op' hop' => ?_⟩
    rcases List.mem_append.1 hop' with hop' | hop'
    · exact h.held op' hop'
    · rw [List.mem_singleton.1 hop']
      exact Or.inr ⟨file, hfile, hwrote⟩
  rw [WalWorker.push]
  split_ifs
  · obtain ⟨hsound, hpending, hdur⟩ := hpush.syncWal io hfile
    apply Sound.batchCount
    apply hsound.replyPending
    intro hres op' hop'
    exact hdur hres op' (hpush.held op' (hpending ▸ hop'))
  · exact hpush

lemma Sound.pushSync {w : WalWorker κ ρ} (h : w.Sound) (io : WalIo) {file : SegmentFile}
    (hfile : w.writerOpt = some file) {op : LogOp κ ρ} (hwrote : .wrote file op ∈ w.events) :
    (w.pushSync io file op).Sound := by
  obtain ⟨hsound, hpending, hdur⟩ := h.syncWal io hfile
  apply Sound.batchCount
  apply Sound.replyPending
  · exact hsound.reply fun hres _ => hdur hres op (Or.inr ⟨file, hfile, hwrote⟩)
  · intro hres op' hop'
    exact (hdur hres op' (h.held op' (hpending ▸ hop'))).append _

lemma Sound.handleTimeout {w : WalWorker κ ρ} (h : w.Sound) (io : WalIo) :
    (w.handleTimeout io).Sound := by
  rw [WalWorker.handleTimeout]
  split_ifs
  · exact h
  · obtain ⟨hsound, hdur⟩ := h.syncWriter io
    exact (hsound.replyPending hdur).batchCount 0

lemma Sound.finish {w : WalWorker κ ρ} (h : w.Sound) (io : WalIo) : (w.finish io).Sound := by
  refine ⟨?_, by simp [WalWorker.finish]⟩
  cases hfile : w.writerOpt with
  | none => simpa only [WalWorker.finish, hfile] using h.acked
  | some file =>
    simp only [WalWorker.finish, hfile]
    apply h.acked.concat
    intro op heq
    cases hall : io.syncAll <;> simp [syncEvent, hall] at heq

variable [DecidableEq κ]

/-- A writer that is replaced while replies are pending is synced. -/
def CleanRotation (w : WalWorker κ ρ) (io : WalIo) (op : LogOp κ ρ) : Prop :=
  ∀ batch, op.batch? = some batch → w.needsWriter batch → w.writerOpt.isSome →
    w.pendingSyncs ≠ [] → io.oldSyncData = .ok ()

lemma Sound.ensureWriter {w : WalWorker κ ρ} (h : w.Sound) {io : WalIo} {op : LogOp κ ρ}
    (hclean : w.CleanRotation io op) {batch : RecordBatch κ ρ} (hop : op.batch? = some batch) :
    (w.ensureWriter io batch).2.Sound := by
  rw [WalWorker.ensureWriter]
  split_ifs with hneeds
  · exact h.rotate (hclean batch hop hneeds) batch
  · exact h

lemma Sound.writeThen {w : WalWorker κ ρ} (h : w.Sound) {io : WalIo} {op : LogOp κ ρ}
    (hclean : w.CleanRotation io op) {batch : RecordBatch κ ρ} (hop : op.batch? = some batch)
    {next : WalWorker κ ρ → SegmentFile → WalWorker κ ρ}
    (hnext : ∀ w' : WalWorker κ ρ, w'.Sound → ∀ file, w'.writerOpt = some file →
      .wrote file op ∈ w'.events → (next w' file).Sound) :
    (w.writeThen io batch op next).Sound := by
  have hsound := h.ensureWriter hclean hop
  rw [WalWorker.writeThen]
  generalize w.ensureWriter io batch = r at hsound
  obtain ⟨res, w₁⟩ := r
  cases res with
  | error msg => exact hsound.reply (by simp)
  | ok u =>
    cases hfile : w₁.writerOpt with
    | none => simpa [hfile] using hsound
    | some file =>
      cases hwrite : io.write with
      | error e => simpa only [hfile] using hsound.reply (by simp)
      | ok u =>
        simp only [hfile]
        exact hnext _ (hsound.emit (by simp)) file hfile (by simp [WalWorker.emit])

/-- One received operation. -/
lemma Sound.handle {w : WalWorker κ ρ} (h : w.Sound) (config : WalConfig) {io : WalIo}
    {op : LogOp κ ρ} (hclean : w.CleanRotation io op) : (w.handle config io op).Sound := by
  cases op with
  | append batch r =>
    exact h.writeThen hclean rfl fun w' hw' file hfile hwrote => hw'.push config io hfile hwrote
  | appendSync batch r =>
    exact h.writeThen hclean rfl fun w' hw' file hfile hwrote => hw'.pushSync io hfile hwrote
  | flush r =>
    obtain ⟨hsound, hdur⟩ := h.syncWriter io
    apply Sound.batchCount
    exact (hsound.replyPending hdur).reply (by simp [LogOp.batch?])

end WalWorker

/-! ### Acknowledged batches are durable -/

namespace WalSystem

variable [DecidableEq κ]

/-- The condition on one event: see `WalWorker.CleanRotation`. -/
def CleanStep (s : WalSystem κ ρ) : WalStep κ ρ → Prop
  | .recv io => ∀ op ∈ s.queue.head?, s.worker.CleanRotation io op
  | _ => True

/-- Every event of a run meets the condition in the state in which it happens. -/
def CleanRun (config : WalConfig) : WalSystem κ ρ → List (WalStep κ ρ) → Prop
  | _, [] => True
  | s, e :: es => s.CleanStep e ∧ (s.step config e).CleanRun config es

lemma sound_step (config : WalConfig) {s : WalSystem κ ρ} (h : s.worker.Sound)
    {e : WalStep κ ρ} (hclean : s.CleanStep e) : (s.step config e).worker.Sound := by
  cases e with
  | send op =>
    rw [step]
    split_ifs <;> exact h
  | close => exact h
  | recv io =>
    cases hq : s.queue with
    | cons op rest =>
      simp only [step, hq]
      split_ifs
      · exact h
      · exact h.handle config (hclean op (by simp [hq]))
    | nil =>
      -- nothing is left to drain when the channel reports that it is closed
      simp only [step, hq, List.foldl_nil]
      split_ifs
      · exact h
      · exact h.finish io
      · exact h
  | timeout io =>
    rw [step]
    split_ifs
    · exact h
    · exact h.handleTimeout io

lemma sound_run (config : WalConfig) {s : WalSystem κ ρ} (h : s.worker.Sound)
    {steps : List (WalStep κ ρ)} (hclean : s.CleanRun config steps) :
    (s.run config steps).worker.Sound := by
  induction steps generalizing s with
  | nil => exact h
  | cons e es ih => exact ih (sound_step config h hclean.1) hclean.2

/-- In every run in which a replaced writer with unanswered batches is synced, an operation is
answered with `Ok` only after its batch was written to a segment that was synced afterwards. -/
theorem ackedDurable_run (config : WalConfig) (writer : Option SegmentFile) (schema : Option κ)
    {steps : List (WalStep κ ρ)} (hclean : (spawnWorker writer schema).CleanRun config steps) :
    AckedDurable ((spawnWorker writer schema).run config steps).worker.events := by
  apply WalWorker.Sound.acked
  apply sound_run config _ hclean
  exact ⟨ackedDurable_nil, by simp [spawnWorker]⟩

/-! A log with the two schemas 0 and 1: the batch of schema 0 waits for its sync when the batch of
schema 1 arrives. -/

def oldBatch : RecordBatch ℕ ℕ := ⟨0, [10]⟩

def newBatch : RecordBatch ℕ ℕ := ⟨1, [20]⟩

/-- Both batches are sent and received; `old` is the outcome of the sync at the rotation. -/
def rotation (old : Except String Unit) : List (WalStep ℕ ℕ) :=
  [.send (.append oldBatch 1), .recv {}, .send (.appendSync newBatch 2),
    .recv { now := 1, oldSyncData := old }]

lemma events_rotation (old : Except String Unit) :
    ((spawnWorker none none).run {} (rotation old)).worker.events =
      [.wrote ⟨0, 0⟩ (.append oldBatch 1), syncEvent ⟨0, 0⟩ old,
        .wrote ⟨1, 1⟩ (.appendSync newBatch 2), .synced ⟨1, 1⟩,
        .replied (.appendSync newBatch 2) (.ok ()), .replied (.append oldBatch 1) (.ok ())] := rfl

theorem ackedDurable_rotation :
    AckedDurable ((spawnWorker none none).run {} (rotation (.ok ()))).worker.events ∧
      .replied (.append oldBatch 1) (.ok ()) ∈
        ((spawnWorker none none).run {} (rotation (.ok ()))).worker.events := by
  refine ⟨ackedDurable_run {} none none ?_, by simp [events_rotation]⟩
  exact ⟨trivial, by rintro op - batch - - h; simp [spawnWorker, step] at h, trivial,
    fun op _ batch _ _ _ _ => rfl, trivial⟩

/-- With a failed sync at the rotation the batch of schema 0 is acknowledged and never synced. -/
theorem not_ackedDurable_rotation :
    ¬ AckedDurable
      ((spawnWorker none none).run {} (rotation (.error "No space left"))).worker.events := by
  intro h
  rw [events_rotation] at h
  obtain ⟨file, hwrote, hsync⟩ := (h [_, _, _, _, _] (.append oldBatch 1) [] rfl rfl).mem
  simp [syncEvent] at hwrote hsync
  simp [hsync] at hwrote

end WalSystem

end BenoStreamDB
