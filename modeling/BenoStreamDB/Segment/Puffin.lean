import BenoStreamDB.Foundations.LittleEndian
import Mathlib.Data.Finmap

/-!
# Puffin containers

`PuffinWriter` and `PuffinReader` of `puffin.rs`. A container is a magic number, the bytes of the
blobs, and a footer in JSON with the place of each blob. The reader finds the footer from the end of
the file. It gives back the blobs that were written, whatever their bytes are: `puffin_roundTrip`.

The numbers of a file are `i64` and below `2 ^ 63`, so they are taken for integers.
-/

namespace BenoStreamDB

abbrev Bytes := List UInt8

/-- `PFA1` -/
def puffinMagic : Bytes := [0x50, 0x46, 0x41, 0x31]

structure PuffinBlobMetadata where
  type : String
  fields : List ℤ
  snapshotId : ℤ
  sequenceNumber : ℤ
  offset : ℤ
  length : ℤ
  compressionCodec : Option String
  properties : Finmap fun _ : String => String

structure PuffinFooter where
  blobs : List PuffinBlobMetadata
  properties : Finmap fun _ : String => String

/-- `serde_json` on footers, and `zstd::decode_all` -/
structure PuffinCodec where
  toString : PuffinFooter → Bytes
  fromSlice : Bytes → Option PuffinFooter
  decodeAll : Bytes → Option Bytes

/-! ### Places in a file -/

/-- The bytes `data` start at `offset`. -/
def PlacedAt (file : Bytes) (offset : ℕ) (data : Bytes) : Prop :=
  ∃ before after, file = before ++ data ++ after ∧ before.length = offset

namespace PlacedAt

variable {file data : Bytes} {offset : ℕ}

lemma append (h : PlacedAt file offset data) (more : Bytes) :
    PlacedAt (file ++ more) offset data := by
  obtain ⟨before, after, rfl, hlength⟩ := h
  exact ⟨before, after ++ more, by simp, hlength⟩

lemma at_end (file data : Bytes) : PlacedAt (file ++ data) file.length data :=
  ⟨file, [], by simp, rfl⟩

lemma take_drop (h : PlacedAt file offset data) :
    (file.drop offset).take data.length = data := by
  obtain ⟨before, after, rfl, rfl⟩ := h
  simp

end PlacedAt

/-! ### The writer -/

/-- The arguments of `add_blob`. -/
structure PuffinBlob where
  typeName : String
  fields : List ℤ
  snapshotId : ℤ
  sequenceNumber : ℤ
  data : Bytes
  properties : Finmap fun _ : String => String

/-- The metadata of a blob at an offset. -/
def PuffinBlob.metadata (b : PuffinBlob) (offset : ℤ) : PuffinBlobMetadata where
  type := b.typeName
  fields := b.fields
  snapshotId := b.snapshotId
  sequenceNumber := b.sequenceNumber
  offset := offset
  length := b.data.length
  compressionCodec := none
  properties := b.properties

structure PuffinWriter where
  /-- What is written so far. -/
  writer : Bytes
  blobs : List PuffinBlobMetadata
  currentOffset : ℤ

namespace PuffinWriter

/-- `new`, over an empty output -/
def new : PuffinWriter := ⟨puffinMagic, [], 4⟩

/-- `add_blob`, with the offset and the length that it returns -/
def addBlob (w : PuffinWriter) (b : PuffinBlob) : (ℤ × ℤ) × PuffinWriter :=
  ((w.currentOffset, b.data.length),
    { writer := w.writer ++ b.data
      blobs := w.blobs ++ [b.metadata w.currentOffset]
      currentOffset := w.currentOffset + b.data.length })

/-- The blobs are added in order. -/
def addBlobs (w : PuffinWriter) : List PuffinBlob → List (ℤ × ℤ) × PuffinWriter
  | [] => ([], w)
  | b :: bs =>
    let (place, w) := w.addBlob b
    let (places, w) := w.addBlobs bs
    (place :: places, w)

section Runs

variable {w : PuffinWriter} {blobs : List PuffinBlob}

/-- The writer knows where it stands. -/
def Positioned (w : PuffinWriter) : Prop := w.currentOffset = w.writer.length

lemma positioned_new : new.Positioned := rfl

lemma Positioned.addBlob (h : w.Positioned) (b : PuffinBlob) : (w.addBlob b).2.Positioned := by
  simp only [Positioned, PuffinWriter.addBlob, List.length_append, Nat.cast_add]
  rw [h]

/-- What is written stays where it is. -/
lemma placedAt_addBlobs {offset : ℕ} {data : Bytes} (h : PlacedAt w.writer offset data) :
    PlacedAt (w.addBlobs blobs).2.writer offset data := by
  induction blobs generalizing w with
  | nil => exact h
  | cons b blobs ih => exact ih (h.append b.data)

/-- The entries of the footer are only added to. -/
lemma blobs_addBlobs (w : PuffinWriter) (blobs : List PuffinBlob) :
    (w.addBlobs blobs).2.blobs =
      w.blobs ++ List.zipWith (fun b place => b.metadata place.1) blobs (w.addBlobs blobs).1 := by
  induction blobs generalizing w with
  | nil => simp [addBlobs]
  | cons b blobs ih => simp [addBlobs, ih, PuffinWriter.addBlob]

@[simp]
lemma length_addBlobs (w : PuffinWriter) (blobs : List PuffinBlob) :
    (w.addBlobs blobs).1.length = blobs.length := by
  induction blobs generalizing w with
  | nil => rfl
  | cons b blobs ih => simp [addBlobs, ih]

/-- Every blob is at the offset that was returned for it. -/
lemma Positioned.placedAt (h : w.Positioned) {i : ℕ} {b : PuffinBlob}
    (hi : blobs[i]? = some b) :
    ∃ offset : ℕ, (w.addBlobs blobs).1[i]? = some ((offset : ℤ), (b.data.length : ℤ)) ∧
      PlacedAt (w.addBlobs blobs).2.writer offset b.data := by
  induction blobs generalizing w i with
  | nil => simp at hi
  | cons head blobs ih =>
    cases i with
    | zero =>
      obtain rfl : head = b := by simpa using hi
      have hplaced := PlacedAt.at_end w.writer head.data
      refine ⟨w.writer.length, ?_, placedAt_addBlobs (w := (w.addBlob head).2) hplaced⟩
      simp only [addBlobs, PuffinWriter.addBlob, List.getElem?_cons_zero]
      rw [h]
    | succ i => exact ih (h.addBlob head) (by simpa using hi)

end Runs

def footer (w : PuffinWriter) : PuffinFooter := ⟨w.blobs, ∅⟩

/-- The size of the footer is a `u32`. -/
def finish (codec : PuffinCodec) (w : PuffinWriter) : Bytes :=
  let footerBytes := codec.toString w.footer
  w.writer ++ footerBytes ++ LittleEndian.toBytes 4 footerBytes.length ++
    LittleEndian.toBytes 4 0 ++ puffinMagic

end PuffinWriter

/-! ### The reader -/

inductive PuffinError where
  /-- An error of `seek` or `read_exact`. -/
  | reader
  | magic
  | footerZstd
  | footerJson
  | outOfRange
  | blobZstd (blobIdx : ℕ)
  | unsupported (blobIdx : ℕ) (codec : String)
  deriving DecidableEq

def PuffinError.message (reader : String) : PuffinError → String
  | .reader => reader
  | .magic => "Invalid Puffin magic at end of file"
  | .footerZstd => "Failed to decompress Puffin footer with Zstd"
  | .footerJson => "Failed to parse Puffin footer JSON"
  | .outOfRange => "Blob index out of range"
  | .blobZstd blobIdx => "Failed to decompress blob " ++ ToString.toString blobIdx ++ " with Zstd"
  | .unsupported blobIdx codec => "Blob " ++ ToString.toString blobIdx ++
      " uses compression codec '" ++ codec ++ "' which is not yet supported"

/-- The position of `SeekFrom::End(-n)`. -/
def seekEnd (file : Bytes) (n : ℕ) : Except PuffinError ℕ :=
  if n ≤ file.length then .ok (file.length - n) else .error .reader

/-- `read_exact` of `n` bytes at a position. -/
def readExact (file : Bytes) (pos n : ℕ) : Except PuffinError Bytes :=
  let data := (file.drop pos).take n
  if data.length = n then .ok data else .error .reader

lemma PlacedAt.readExact {file data : Bytes} {offset : ℕ} (h : PlacedAt file offset data) :
    readExact file offset data.length = .ok data := by
  simp [BenoStreamDB.readExact, h.take_drop]

structure PuffinReader where
  reader : Bytes
  header : PuffinFooter

namespace PuffinReader

def new (codec : PuffinCodec) (file : Bytes) : Except PuffinError PuffinReader := do
  let pos ← seekEnd file 12
  let footerSize := LittleEndian.ofBytes (← readExact file pos 4)
  let flags := LittleEndian.ofBytes (← readExact file (pos + 4) 4)
  let magic ← readExact file (pos + 8) 4
  if magic ≠ puffinMagic then throw .magic
  let payload ← readExact file (← seekEnd file (12 + footerSize)) footerSize
  let payload ← if flags % 2 = 1 then (codec.decodeAll payload).elim (throw .footerZstd) pure
    else pure payload
  match codec.fromSlice payload with
  | some footer => return ⟨file, footer⟩
  | none => throw .footerJson

/-- `as u64` and `as usize` of an `i64` -/
def toUnsigned (i : ℤ) : ℕ := if 0 ≤ i then i.toNat else (i + 2 ^ 64).toNat

@[simp]
lemma toUnsigned_natCast (n : ℕ) : toUnsigned n = n := by
  simp [toUnsigned]

def readBlob (codec : PuffinCodec) (r : PuffinReader) (blobIdx : ℕ) :
    Except PuffinError Bytes := do
  match r.header.blobs[blobIdx]? with
  | none => throw .outOfRange
  | some entry =>
    let data ← readExact r.reader (toUnsigned entry.offset) (toUnsigned entry.length)
    match entry.compressionCodec with
    | none => return data
    | some name =>
      if name = "zstd" then (codec.decodeAll data).elim (throw (.blobZstd blobIdx)) pure
      else throw (.unsupported blobIdx name)

/-- The footer is found from the end of the file. -/
lemma new_finish {codec : PuffinCodec} {w : PuffinWriter}
    (hjson : codec.fromSlice (codec.toString w.footer) = some w.footer)
    (hsize : (codec.toString w.footer).length < 2 ^ 32) :
    new codec (w.finish codec) = .ok ⟨w.finish codec, w.footer⟩ := by
  set payload := codec.toString w.footer with hpayload
  set size := LittleEndian.toBytes 4 payload.length with hsizeBytes
  set flags := LittleEndian.toBytes 4 0
  have hfile : w.finish codec = w.writer ++ payload ++ size ++ flags ++ puffinMagic := rfl
  have hlength : (w.finish codec).length = w.writer.length + payload.length + 12 := by
    simp [hfile, size, flags, puffinMagic, add_assoc]
  -- the four parts of the footer, each at its place
  have hp : PlacedAt (w.finish codec) w.writer.length payload :=
    (((PlacedAt.at_end _ payload).append size).append flags).append puffinMagic
  have hs : PlacedAt (w.finish codec) (w.writer.length + payload.length) size :=
    ⟨w.writer ++ payload, flags ++ puffinMagic, by simp [hfile], by simp⟩
  have hf : PlacedAt (w.finish codec) (w.writer.length + payload.length + 4) flags :=
    ⟨w.writer ++ payload ++ size, puffinMagic, by simp [hfile], by simp [size, add_assoc]⟩
  have hm : PlacedAt (w.finish codec) (w.writer.length + payload.length + 8) puffinMagic :=
    ⟨w.writer ++ payload ++ size ++ flags, [], by simp [hfile], by simp [size, flags, add_assoc]⟩
  have hofSize : LittleEndian.ofBytes size = payload.length :=
    LittleEndian.ofBytes_toBytes (by simpa using hsize)
  have hseek : seekEnd (w.finish codec) 12 = .ok (w.writer.length + payload.length) := by
    simp [seekEnd, hlength]
  have hseekPayload : seekEnd (w.finish codec) (12 + payload.length) = .ok w.writer.length := by
    rw [seekEnd, if_pos (by omega), hlength]
    congr 1
    omega
  have hreadSize := hs.readExact
  have hreadFlags := hf.readExact
  have hreadMagic : readExact (w.finish codec) (w.writer.length + payload.length + 8) 4 =
      .ok puffinMagic := hm.readExact
  rw [LittleEndian.length_toBytes] at hreadSize hreadFlags
  have hflags : LittleEndian.ofBytes flags % 2 ≠ 1 := by decide
  simp only [new, bind, Except.bind, hseek, hreadSize, hreadFlags, hreadMagic, hofSize,
    hseekPayload, hp.readExact, ne_eq, not_true_eq_false, if_false, if_neg hflags, pure,
    Except.pure, hjson]

variable {codec : PuffinCodec}

lemma readBlob_of_placedAt {r : PuffinReader} {i offset : ℕ} {b : PuffinBlob}
    (hentry : r.header.blobs[i]? = some (b.metadata offset))
    (hplaced : PlacedAt r.reader offset b.data) : r.readBlob codec i = .ok b.data := by
  simp [readBlob, hentry, PuffinBlob.metadata, hplaced.readExact, bind, Except.bind, pure,
    Except.pure]

end PuffinReader

/-! ### Round trip -/

/-- The writer after some blobs, over an empty output. -/
def writtenBlobs (blobs : List PuffinBlob) : PuffinWriter := (PuffinWriter.new.addBlobs blobs).2

/-- The pairs returned by `add_blob`. -/
def returnedPlaces (blobs : List PuffinBlob) : List (ℤ × ℤ) :=
  (PuffinWriter.new.addBlobs blobs).1

/-- A finished container opens. Its footer lists the blobs in order, each with the offset that
`add_blob` returned, where the file has the bytes of the blob, and `read_blob` returns them. -/
theorem puffin_roundTrip (codec : PuffinCodec) (blobs : List PuffinBlob)
    (hjson : codec.fromSlice (codec.toString (writtenBlobs blobs).footer) =
      some (writtenBlobs blobs).footer)
    (hsize : (codec.toString (writtenBlobs blobs).footer).length < 2 ^ 32) :
    ∃ r : PuffinReader, PuffinReader.new codec ((writtenBlobs blobs).finish codec) = .ok r ∧
      r.header.blobs.length = blobs.length ∧ (returnedPlaces blobs).length = blobs.length ∧
      ∀ i b, blobs[i]? = some b → ∃ offset : ℕ,
        (returnedPlaces blobs)[i]? = some ((offset : ℤ), (b.data.length : ℤ)) ∧
        r.header.blobs[i]? = some (b.metadata offset) ∧
        r.readBlob codec i = .ok b.data ∧
        PlacedAt ((writtenBlobs blobs).finish codec) offset b.data := by
  have hblobs : (writtenBlobs blobs).footer.blobs =
      List.zipWith (fun b place => b.metadata place.1) blobs (returnedPlaces blobs) :=
    PuffinWriter.blobs_addBlobs PuffinWriter.new blobs
  have hplaces : (returnedPlaces blobs).length = blobs.length :=
    PuffinWriter.length_addBlobs PuffinWriter.new blobs
  refine ⟨_, PuffinReader.new_finish hjson hsize, by simp [hblobs, hplaces], hplaces, ?_⟩
  intro i b hi
  obtain ⟨offset, hplace, hwritten⟩ := PuffinWriter.positioned_new.placedAt hi
  have hplaced : PlacedAt ((writtenBlobs blobs).finish codec) offset b.data :=
    ((((hwritten.append _).append _).append _).append _)
  have hentry : (writtenBlobs blobs).footer.blobs[i]? = some (b.metadata offset) := by
    rw [hblobs, List.getElem?_zipWith, hi, show (returnedPlaces blobs)[i]? = _ from hplace]
  exact ⟨offset, hplace, hentry, PuffinReader.readBlob_of_placedAt hentry hplaced, hplaced⟩

/-- An empty blob, and one that ends as a container with an empty footer does. -/
def trickyBlobs : List PuffinBlob :=
  [⟨"a", [1], 1, 1, [], ∅⟩, ⟨"a", [], 2, 1, List.replicate 8 0 ++ puffinMagic, ∅⟩]

/-- The footer of these blobs in JSON. -/
def trickyJson : Bytes :=
  ("\x7b\"blobs\":[\x7b\"type\":\"a\",\"fields\":[1],\"snapshot-id\":1,\"sequence-number\":1," ++
    "\"offset\":4,\"length\":0\x7d,\x7b\"type\":\"a\",\"fields\":[],\"snapshot-id\":2," ++
    "\"sequence-number\":1,\"offset\":4,\"length\":12\x7d]\x7d").toList.map
      fun c => UInt8.ofNat c.toNat

/-- A codec for this footer, without compression. -/
def trickyCodec : PuffinCodec where
  toString _ := trickyJson
  fromSlice bytes := if bytes = trickyJson then some (writtenBlobs trickyBlobs).footer else none
  decodeAll := some

theorem puffin_roundTrip_trickyBlobs :
    ∃ r : PuffinReader,
      PuffinReader.new trickyCodec ((writtenBlobs trickyBlobs).finish trickyCodec) = .ok r ∧
      r.readBlob trickyCodec 0 = .ok [] ∧
      r.readBlob trickyCodec 1 = .ok (List.replicate 8 0 ++ puffinMagic) := by
  obtain ⟨r, hnew, -, -, hblobs⟩ := puffin_roundTrip trickyCodec trickyBlobs
    (by simp [trickyCodec]) (by decide +kernel)
  obtain ⟨-, -, -, hfirst, -⟩ := hblobs 0 _ rfl
  obtain ⟨-, -, -, hsecond, -⟩ := hblobs 1 _ rfl
  exact ⟨r, hnew, hfirst, hsecond⟩

end BenoStreamDB
