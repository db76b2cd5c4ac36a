import BenoStreamDB.Manifest.Load
import Mathlib.Data.List.GetD
import Mathlib.Data.List.SplitBy

/-!
# Scans of the SQL layer

The streams of `BenoStreamExec`, `VectorScanExec` and `VectorMergeExec` (`sql/physical_plan.rs` and
below) with `merge_and_rerank_vector_results` of `query.rs`, as lists of batches and errors.

A vector scan skips a segment whose search fails, on purpose; a plain scan loses a segment that
cannot be read. Every other failure reaches the consumer: `scans_of_failures`.

The filter and the projection of a plan only reach the reads of its segments, so a plan is modelled
with what these reads return.
-/

namespace BenoStreamDB

/-! ### Arrow -/

structure PlanField (τ : Type) where
  name : String
  dataType : τ
  nullable : Bool
  deriving DecidableEq

structure PlanBatch (τ κ : Type) where
  fields : List (PlanField τ)
  columns : List κ
  numRows : ℕ
  deriving DecidableEq

inductive DataFusionError where
  | internal (message : String)
  | execution (message : String)
  | arrow (message : String)
  deriving DecidableEq

/-- What the scans use of arrow, over types `τ`, arrays `κ` and 32-bit floats `δ`. -/
structure Arrow (τ κ δ : Type) where
  dataType : κ → τ
  cast : κ → τ → Except String κ
  take : κ → List ℕ → Except String κ
  /-- The values of a `Float32Array`. -/
  float32Values : κ → Option (List δ)
  float32Array : List δ → κ
  float32 : τ
  partialCmp : δ → δ → Option Ordering
  /-- `RecordBatch::try_new` -/
  tryNew : List (PlanField τ) → List κ → Except String (PlanBatch τ κ)
  /-- `RecordBatch::try_new_with_options` with a row count. -/
  tryNewWithRowCount : List (PlanField τ) → List κ → ℕ → Except String (PlanBatch τ κ)
  /-- The error of `Schema::index_of`. -/
  noField : List (PlanField τ) → String → String
  debug : List (PlanField τ) → String
  display : DataFusionError → String

variable {τ κ δ : Type}

/-- A stream of batches. -/
abbrev BatchStream (τ κ : Type) := List (Except DataFusionError (PlanBatch τ κ))

/-- What an `async_stream` yields of a sequence of results if an error ends the generator. -/
def untilError : BatchStream τ κ → BatchStream τ κ
  | [] => []
  | .ok b :: items => .ok b :: untilError items
  | .error e :: _ => [.error e]

/-- The batches before the first error, or that error. -/
def collectStream : BatchStream τ κ → Except DataFusionError (List (PlanBatch τ κ))
  | [] => .ok []
  | .ok b :: items => do
    let bs ← collectStream items
    return b :: bs
  | .error e :: _ => .error e

/-- What the reads of a table return. -/
structure Reads (τ κ : Type) where
  streamSegment : ManifestEntry → Except String (List (Except String (PlanBatch τ κ)))
  readWriteBuffer : Except String (List (PlanBatch τ κ))
  /-- `execute_multi_vector_search_with_config` for one segment. -/
  searchSegment : ManifestEntry → Except String (List (String × PlanBatch τ κ))

/-! ### BenoStreamExec -/

structure BenoStreamExec (τ : Type) where
  partitions : List (List ManifestEntry)
  schema : List (PlanField τ)

namespace BenoStreamExec

variable [DecidableEq τ] (A : Arrow τ κ δ)

/-- Cast the columns to the types of the plan; `none` if a cast fails. -/
def castColumns : List κ → List (PlanField τ) → Option (List κ)
  | col :: cols, field :: fields => do
    let c ← if A.dataType col = field.dataType then some col
      else (A.cast col field.dataType).toOption
    let cs ← castColumns cols fields
    return c :: cs
  | _, _ => some []

/-- Rebuild a batch with the schema of the plan. -/
def rebuild (schema : List (PlanField τ)) (b : PlanBatch τ κ) :
    Except DataFusionError (PlanBatch τ κ) :=
  if schema ≠ [] ∧ b.fields.length = schema.length then
    match castColumns A b.columns schema with
    | some cols => (A.tryNew schema cols).mapError .arrow
    | none => .ok b
  else .ok b

/-- A batch that cannot be read, and a segment that cannot be opened, are logged. -/
def segmentItems (schema : List (PlanField τ)) :
    Except String (List (Except String (PlanBatch τ κ))) → BatchStream τ κ
  | .ok items => items.flatMap fun
    | .ok b => [rebuild A schema b]
    | .error _ => []
  | .error _ => []

def schemasMatch (schema : List (PlanField τ)) (b : PlanBatch τ κ) : Bool :=
  b.fields.length = schema.length && (b.fields.zip schema).all fun f =>
    f.1.name = f.2.name && decide (f.1.dataType = f.2.dataType)

def bufferItem (schema : List (PlanField τ)) (b : PlanBatch τ κ) :
    Except DataFusionError (PlanBatch τ κ) :=
  if schemasMatch schema b then .ok b
  else .error (.execution ("Write buffer schema mismatch: expected " ++ A.debug schema ++
    ", got " ++ A.debug b.fields))

def bufferItems (schema : List (PlanField τ)) :
    Except String (List (PlanBatch τ κ)) → BatchStream τ κ
  | .ok batches => untilError (batches.map (bufferItem A schema))
  | .error e => [.error (.execution e)]

/-- The segments of a partition. -/
def entries (x : BenoStreamExec τ) (partition : ℕ) : List ManifestEntry :=
  x.partitions.getD partition []

def execute (x : BenoStreamExec τ) (reads : Reads τ κ) (partition : ℕ) :
    Except DataFusionError (BatchStream τ κ) :=
  if x.partitions.length ≤ partition ∧ x.partitions ≠ [] then
    .error (.internal ("BenoStreamExec invalid partition " ++ toString partition ++ " (count " ++
      toString x.partitions.length ++ ")"))
  else
    .ok ((x.entries partition).flatMap (fun e => segmentItems A x.schema (reads.streamSegment e)) ++
      if partition = 0 then bufferItems A x.schema reads.readWriteBuffer else [])

end BenoStreamExec

/-! ### VectorScanExec -/

structure VectorScanExec (τ : Type) where
  partitions : List (List ManifestEntry)
  /-- The schema of the plan with the distance appended. -/
  schema : List (PlanField τ)

namespace VectorScanExec

variable (A : Arrow τ κ δ)

def partitionCount (x : VectorScanExec τ) : ℕ := max x.partitions.length 1

def entries (x : VectorScanExec τ) (partition : ℕ) : List ManifestEntry :=
  x.partitions.getD partition []

/-- Give a batch the schema of the scan. -/
def hitItem (schema : List (PlanField τ)) (b : PlanBatch τ κ) :
    Except DataFusionError (PlanBatch τ κ) :=
  if b.columns.length = schema.length then
    (A.tryNewWithRowCount schema b.columns b.numRows).mapError fun e =>
      .execution ("Type mismatch in Vector Search: " ++ e ++ ". Expected " ++ A.debug schema ++
        " got " ++ A.debug b.fields)
  else
    .error (.execution ("Field count mismatch in Vector Search: Expected " ++
      toString schema.length ++ " fields, got " ++ toString b.fields.length))

/-- A segment whose search fails is skipped with a warning. -/
def hits : Except String (List (String × PlanBatch τ κ)) → List (PlanBatch τ κ)
  | .ok batches => batches.map Prod.snd
  | .error _ => []

def execute (x : VectorScanExec τ) (reads : Reads τ κ) (partition : ℕ) :
    Except DataFusionError (BatchStream τ κ) :=
  if x.partitions.length ≤ partition ∧ x.partitions ≠ [] then
    .error (.internal ("VectorScanExec invalid partition " ++ toString partition ++ " (count " ++
      toString x.partitions.length ++ ")"))
  else
    .ok (untilError (((x.entries partition).flatMap fun e => hits (reads.searchSegment e)).map
      (hitItem A x.schema)))

end VectorScanExec

/-! ### merge_and_rerank_vector_results -/

section Rerank

variable (A : Arrow τ κ δ)

/-- A row of the results: the index of its batch, its index in the batch and its distance. -/
abbrev RankedRow (δ : Type) := ℕ × ℕ × δ

/-- The order by distance, then by batch and row. A distance that cannot be compared is equal. -/
def rankCmp (partialCmp : δ → δ → Option Ordering) (a b : RankedRow δ) : Ordering :=
  ((partialCmp a.2.2 b.2.2).getD .eq).then ((compare a.1 b.1).then (compare a.2.1 b.2.1))

def flattenRows (distances : List (List δ)) : List (RankedRow δ) :=
  distances.zipIdx.flatMap fun ds => ds.1.zipIdx.map fun d => (ds.2, d.2, d.1)

/-- The rows that are returned, by distance. -/
def rankedRows (partialCmp : δ → δ → Option Ordering) (distances : List (List δ)) (k offset : ℕ) :
    List (RankedRow δ) :=
  (((flattenRows distances).mergeSort fun a b => rankCmp partialCmp a b != .gt).drop offset).take k

/-- The rows of one batch, with their distances unless the batch has them already. -/
def takeChunk (results : List (String × PlanBatch τ κ × List δ)) (chunk : List (RankedRow δ)) :
    Except String (String × PlanBatch τ κ) := do
  match chunk.head?.bind fun r => results[r.1]? with
  | none => .error "index out of bounds"
  | some (segId, batch, _) =>
    -- `*idx as u32`
    let indices := chunk.map fun r => r.2.1 % 2 ^ 32
    let columns ← batch.columns.mapM fun col =>
      (A.take col indices).mapError fun e => "Take error: " ++ e
    let distances := A.float32Array (chunk.map fun r => r.2.2)
    if batch.fields.any fun f => f.name = "distance" then
      let taken ← A.tryNew batch.fields columns
      return (segId, taken)
    else
      let fields := batch.fields ++ [⟨"distance", A.float32, false⟩]
      let taken ← A.tryNew fields (columns ++ [distances])
      return (segId, taken)

def mergeAndRerankVectorResults (results : List (String × PlanBatch τ κ × List δ)) (k offset : ℕ) :
    Except String (List (String × PlanBatch τ κ)) :=
  ((rankedRows A.partialCmp (results.map fun r => r.2.2) k offset).splitBy
    fun a b => a.1 == b.1).mapM (takeChunk A results)

end Rerank

/-! ### VectorMergeExec -/

structure VectorMergeExec (τ : Type) where
  input : VectorScanExec τ
  k : ℕ
  offset : ℕ
  schema : List (PlanField τ)

namespace VectorMergeExec

variable (A : Arrow τ κ δ)

/-- The schema check of a batch that is put together again. -/
def withSchema (schema : List (PlanField τ)) (columns : List κ) (numRows : ℕ) :
    Except DataFusionError (PlanBatch τ κ) :=
  (A.tryNewWithRowCount schema columns numRows).mapError fun e =>
    .execution ("Schema mismatch: " ++ e)

/-- Take the distances out of a batch. -/
def splitDistance (b : PlanBatch τ κ) : Except DataFusionError (PlanBatch τ κ × List δ) := do
  match b.fields.findIdx? fun f => f.name = "distance" with
  | none => .error (.execution ("Missing distance column: " ++ A.noField b.fields "distance"))
  | some idx =>
    match (b.columns[idx]?).bind A.float32Values with
    | none => .error (.execution "distance column is not Float32")
    | some distances =>
      let clean ← (A.tryNewWithRowCount (b.fields.eraseIdx idx) (b.columns.eraseIdx idx)
        b.numRows).mapError .execution
      return (clean, distances)

/-- The batches of a partition, without the empty ones. -/
def partitionResults (idx : ℕ) :
    List (PlanBatch τ κ) → Except DataFusionError (List (String × PlanBatch τ κ × List δ))
  | [] => .ok []
  | b :: bs =>
    if b.numRows = 0 then partitionResults idx bs
    else do
      let (clean, distances) ← splitDistance A b
      let rest ← partitionResults idx bs
      return ("segment_" ++ toString idx, clean, distances) :: rest

/-- The results of the partitions in the order in which they complete. -/
def allResults : List (ℕ × BatchStream τ κ) →
    Except DataFusionError (List (String × PlanBatch τ κ × List δ))
  | [] => .ok []
  | (idx, stream) :: streams => do
    let batches ← (collectStream stream).mapError fun e => .execution (A.display e)
    let results ← partitionResults A idx batches
    let rest ← allResults streams
    return results ++ rest

/-- Project a merged batch to the final schema. -/
def finalItem (schema : List (PlanField τ)) (b : PlanBatch τ κ) :
    Except DataFusionError (PlanBatch τ κ) :=
  match b.fields.findIdx? fun f => f.name = "distance" with
  | none => .ok b
  | some idx =>
    if schema.any fun f => f.name = "distance" then withSchema A schema b.columns b.numRows
    else withSchema A schema (b.columns.eraseIdx idx) b.numRows

def mergeItems (x : VectorMergeExec τ) (streams : List (ℕ × BatchStream τ κ)) :
    BatchStream τ κ :=
  match allResults A streams with
  | .error e => [.error e]
  | .ok results =>
    match mergeAndRerankVectorResults A results x.k x.offset with
    | .error e => [.error (.execution e)]
    | .ok merged => untilError (merged.map fun r => finalItem A x.schema r.2)

def execute (x : VectorMergeExec τ) (reads : Reads τ κ)
    (arrival : Arrival (ℕ × BatchStream τ κ)) (partition : ℕ) :
    Except DataFusionError (BatchStream τ κ) :=
  if partition ≠ 0 then .error (.internal "VectorMergeExec only supports partition 0")
  else do
    let streams ← (List.range x.input.partitionCount).mapM fun i => do
      let stream ← x.input.execute A reads i
      return (i, stream)
    return x.mergeItems A (arrival.order streams)

end VectorMergeExec

/-! ### Failures -/

/-- What the segments and the write buffer of a table hold for a plan. -/
structure Contents (τ κ : Type) where
  segment : ManifestEntry → List (PlanBatch τ κ)
  hits : ManifestEntry → List (String × PlanBatch τ κ)
  buffer : List (PlanBatch τ κ)

/-- Which reads fail, and how. -/
structure Failures where
  openSegment : ManifestEntry → Option String := fun _ => none
  streamBatch : ManifestEntry → ℕ → Option String := fun _ _ => none
  searchSegment : ManifestEntry → Option String := fun _ => none
  writeBuffer : Option String := none

def orFail {α : Type} (failure : Option String) (a : α) : Except String α :=
  match failure with
  | none => .ok a
  | some e => .error e

/-- The reads of a table under a pattern of failures. -/
def Contents.reads (c : Contents τ κ) (f : Failures) : Reads τ κ where
  streamSegment e := orFail (f.openSegment e)
    ((c.segment e).zipIdx.map fun b => orFail (f.streamBatch e b.2) b.1)
  readWriteBuffer := orFail f.writeBuffer c.buffer
  searchSegment e := orFail (f.searchSegment e) (c.hits e)

/-- The batches of a stream. -/
def BatchStream.batches (items : BatchStream τ κ) : List (PlanBatch τ κ) :=
  items.filterMap Except.toOption

/-- A stream under failures yields an error, or the batches it yields without failures. -/
def FailsClosed (failing ideal : Except DataFusionError (BatchStream τ κ)) : Prop :=
  (∃ e, failing = .error e) ∨ ∃ items, failing = .ok items ∧
    ((∃ e, .error e ∈ items) ∨ ∃ items', ideal = .ok items' ∧
      BatchStream.batches items = BatchStream.batches items')

section Results

variable (A : Arrow τ κ δ) (c : Contents τ κ) (f : Failures)

lemma Contents.streamSegment_eq {e : ManifestEntry} (hopen : f.openSegment e = none)
    (hstream : ∀ i, f.streamBatch e i = none) :
    (c.reads f).streamSegment e = (c.reads {}).streamSegment e := by
  simp only [Contents.reads, hopen, hstream]

/-- A scan whose segments can be read only depends on the write buffer. -/
lemma BenoStreamExec.segments_eq [DecidableEq τ] {entries : List ManifestEntry}
    {schema : List (PlanField τ)}
    (h : ∀ e ∈ entries, f.openSegment e = none ∧ ∀ i, f.streamBatch e i = none) :
    entries.flatMap (fun e => segmentItems A schema ((c.reads f).streamSegment e)) =
      entries.flatMap (fun e => segmentItems A schema ((c.reads {}).streamSegment e)) := by
  induction entries with
  | nil => rfl
  | cons e entries ih =>
    obtain ⟨hopen, hstream⟩ := h e List.mem_cons_self
    rw [List.flatMap_cons, List.flatMap_cons, c.streamSegment_eq f hopen hstream,
      ih fun e' he' => h e' (List.mem_cons_of_mem e he')]

lemma BenoStreamExec.failsClosed [DecidableEq τ] (x : BenoStreamExec τ) (partition : ℕ)
    (h : ∀ e ∈ x.entries partition, f.openSegment e = none ∧ ∀ i, f.streamBatch e i = none) :
    FailsClosed (x.execute A (c.reads f) partition) (x.execute A (c.reads {}) partition) := by
  by_cases hpart : x.partitions.length ≤ partition ∧ x.partitions ≠ []
  · exact .inl ⟨_, if_pos hpart⟩
  refine .inr ⟨_, if_neg hpart, ?_⟩
  rw [segments_eq A c f h]
  by_cases hzero : partition = 0
  · cases hbuffer : f.writeBuffer with
    | some e =>
      -- the failing write buffer is the last item of the stream
      left
      refine ⟨.execution e, List.mem_append_right _ ?_⟩
      simp [hzero, Contents.reads, hbuffer, orFail, bufferItems]
    | none =>
      right
      refine ⟨_, if_neg hpart, ?_⟩
      simp only [Contents.reads, hbuffer]
  · right
    refine ⟨_, if_neg hpart, ?_⟩
    simp only [hzero, if_false]

/-- The vector scan over the segments whose search succeeds. -/
def VectorScanExec.searchable (x : VectorScanExec τ) : VectorScanExec τ :=
  { x with partitions := x.partitions.map fun es => es.filter fun e => (f.searchSegment e).isNone }

def VectorMergeExec.searchable (x : VectorMergeExec τ) : VectorMergeExec τ :=
  { x with input := x.input.searchable f }

lemma VectorScanExec.hits_eq (entries : List ManifestEntry) :
    entries.flatMap (fun e => hits ((c.reads f).searchSegment e)) =
      (entries.filter fun e => (f.searchSegment e).isNone).flatMap
        (fun e => hits ((c.reads {}).searchSegment e)) := by
  induction entries with
  | nil => rfl
  | cons e entries ih =>
    rw [List.flatMap_cons, ih]
    cases he : f.searchSegment e with
    | none =>
      have hsearch : (c.reads f).searchSegment e = (c.reads {}).searchSegment e := by
        simp only [Contents.reads, he]
      rw [List.filter_cons_of_pos (by simp [he]), List.flatMap_cons, hsearch]
    | some msg =>
      have hsearch : hits ((c.reads f).searchSegment e) = [] := by
        simp only [Contents.reads, he, orFail, hits]
      rw [List.filter_cons_of_neg (by simp [he]), hsearch, List.nil_append]

lemma VectorScanExec.execute_eq (x : VectorScanExec τ) (partition : ℕ) :
    x.execute A (c.reads f) partition =
      (x.searchable f).execute A (c.reads {}) partition := by
  have hentries : (x.searchable f).entries partition =
      (x.entries partition).filter fun e => (f.searchSegment e).isNone :=
    List.getD_map x.partitions [] fun es => es.filter fun e => (f.searchSegment e).isNone
  simp only [execute, hentries, ← hits_eq]
  simp [searchable]

/-- Failing reads and the consumer of a scan. A plain scan whose segments can be read yields an
error or what it yields without failures. A vector scan skips the segments whose search fails, and
yields exactly what it yields without failures, errors included, for the others. -/
theorem scans_of_failures [DecidableEq τ] :
    (∀ (x : BenoStreamExec τ) (partition : ℕ),
      (∀ e ∈ x.entries partition, f.openSegment e = none ∧ ∀ i, f.streamBatch e i = none) →
      FailsClosed (x.execute A (c.reads f) partition) (x.execute A (c.reads {}) partition)) ∧
    ∀ (x : VectorMergeExec τ) (arrival : Arrival (ℕ × BatchStream τ κ)) (partition : ℕ),
      x.execute A (c.reads f) arrival partition =
        (x.searchable f).execute A (c.reads {}) arrival partition := by
  refine ⟨fun x partition h => x.failsClosed A c f partition h, fun x arrival partition => ?_⟩
  have hcount : (x.searchable f).input.partitionCount = x.input.partitionCount := by
    simp [VectorMergeExec.searchable, VectorScanExec.searchable, VectorScanExec.partitionCount]
  unfold VectorMergeExec.execute
  simp only [hcount, VectorScanExec.execute_eq A c f]
  rfl

end Results

/-! ### A segment that cannot be searched -/

section Sample

/-- Arrays of numbers, without types and errors. -/
def sampleArrow : Arrow Unit (List ℕ) ℕ where
  dataType _ := ()
  cast col _ := .ok col
  take col indices := .ok (indices.map fun i => col.getD i 0)
  float32Values col := some col
  float32Array := id
  float32 := ()
  partialCmp a b := some (compare a b)
  tryNew fields columns := .ok ⟨fields, columns, (columns.head?.getD []).length⟩
  tryNewWithRowCount fields columns numRows := .ok ⟨fields, columns, numRows⟩
  noField _ name := name
  debug _ := ""
  display _ := ""

def idField : PlanField Unit := ⟨"id", (), false⟩

def distanceField : PlanField Unit := ⟨"distance", (), false⟩

/-- One row with the id 7, at distance 0. -/
def sampleContents : Contents Unit (List ℕ) where
  segment _ := [⟨[idField], [[7]], 1⟩]
  hits _ := [("a", ⟨[idField, distanceField], [[7], [0]], 1⟩)]
  buffer := []

def sampleSearch : VectorMergeExec Unit where
  input := { partitions := [[{ filePath := [] }]], schema := [idField, distanceField] }
  k := 1
  offset := 0
  schema := [idField]

def sampleScan : BenoStreamExec Unit where
  partitions := [[{ filePath := [] }]]
  schema := [idField]

def bufferFails : Failures where
  writeBuffer := some "poisoned lock"

/-- The segment of the scan can be read, and the write buffer cannot. -/
theorem failsClosed_sampleScan :
    (sampleContents.reads bufferFails).streamSegment { filePath := [] } =
        .ok [.ok ⟨[idField], [[7]], 1⟩] ∧
      FailsClosed (sampleScan.execute sampleArrow (sampleContents.reads bufferFails) 0)
        (sampleScan.execute sampleArrow (sampleContents.reads {}) 0) :=
  ⟨rfl, (scans_of_failures sampleArrow sampleContents bufferFails).1 sampleScan 0
    fun _ _ => ⟨rfl, fun _ => rfl⟩⟩

def searchFails : Failures where
  searchSegment _ := some "connection reset"

lemma execute_sampleSearch_failing :
    sampleSearch.execute sampleArrow (sampleContents.reads searchFails) (Arrival.fifo _) 0 =
      .ok [] := by
  have hall : VectorMergeExec.allResults sampleArrow [(0, ([] : BatchStream Unit (List ℕ)))] =
      .ok [] := by decide
  have hitems : sampleSearch.mergeItems sampleArrow [(0, [])] = [] := by
    simp [VectorMergeExec.mergeItems, hall, mergeAndRerankVectorResults, rankedRows, flattenRows,
      untilError, pure, Except.pure]
  rw [← hitems]
  rfl

lemma execute_sampleSearch :
    sampleSearch.execute sampleArrow (sampleContents.reads {}) (Arrival.fifo _) 0 =
      .ok [.ok ⟨[idField], [[7]], 1⟩] := by
  have hall : VectorMergeExec.allResults sampleArrow
      [(0, [.ok ⟨[idField, distanceField], [[7], [0]], 1⟩])] =
        .ok [("segment_0", ⟨[idField], [[7]], 1⟩, [0])] := rfl
  have hranked : rankedRows sampleArrow.partialCmp [[0]] 1 0 = [(0, 0, 0)] := by
    simp [rankedRows, flattenRows]
  have hitems : sampleSearch.mergeItems sampleArrow
      [(0, [.ok ⟨[idField, distanceField], [[7], [0]], 1⟩])] =
        [.ok ⟨[idField], [[7]], 1⟩] := by
    simp only [VectorMergeExec.mergeItems, hall, mergeAndRerankVectorResults, List.map_cons,
      List.map_nil, sampleSearch, hranked]
    rfl
  rw [← hitems]
  rfl

/-- A search that fails leaves no trace in the result. -/
theorem not_failsClosed_search :
    ¬ FailsClosed
      (sampleSearch.execute sampleArrow (sampleContents.reads searchFails) (Arrival.fifo _) 0)
      (sampleSearch.execute sampleArrow (sampleContents.reads {}) (Arrival.fifo _) 0) := by
  rw [execute_sampleSearch_failing, execute_sampleSearch]
  rintro (⟨e, h⟩ | ⟨items, h, ⟨e, he⟩ | ⟨items', h', hbatches⟩⟩)
  · cases h
  · cases h
    cases he
  · cases h
    cases h'
    simp [BatchStream.batches, Except.toOption] at hbatches

end Sample

end BenoStreamDB
