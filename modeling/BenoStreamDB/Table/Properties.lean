import BenoStreamDB.Manifest.Types

/-!
# Embedding properties of a table

The part of `table/properties.rs` a commit goes through: filling in the embedding dimension of a
known model, and refusing to change the declared embedding space of a table with data.
-/

namespace BenoStreamDB

def embeddingModelProp : String := "benostream.embedding.model"
def embeddingDimProp : String := "benostream.embedding.dim"

/-- `char::is_whitespace` -/
def isWhitespace (c : Char) : Bool :=
  let n := c.toNat
  (0x9 ≤ n && n ≤ 0xD) || n == 0x20 || n == 0x85 || n == 0xA0 || n == 0x1680 ||
    (0x2000 ≤ n && n ≤ 0x200A) || n == 0x2028 || n == 0x2029 || n == 0x202F || n == 0x205F ||
    n == 0x3000

/-- `str::trim` -/
def trim (s : List Char) : List Char := (s.dropWhile isWhitespace).rdropWhile isWhitespace

/-- `to_ascii_lowercase` -/
def toAsciiLowercase (s : List Char) : List Char := s.map Char.toLower

def knownEmbeddingDims : List (String × ℕ) :=
  [("baai/bge-small-en-v1.5", 384), ("bge-small-en-v1.5", 384),
   ("baai/bge-base-en-v1.5", 768), ("bge-base-en-v1.5", 768),
   ("baai/bge-large-en-v1.5", 1024), ("bge-large-en-v1.5", 1024),
   ("baai/bge-m3", 1024), ("bge-m3", 1024),
   ("all-minilm", 384), ("all-minilm-l6-v2", 384),
   ("intfloat/multilingual-e5-small", 384), ("multilingual-e5-small", 384),
   ("intfloat/multilingual-e5-base", 768), ("multilingual-e5-base", 768),
   ("intfloat/multilingual-e5-large", 1024), ("multilingual-e5-large", 1024),
   ("nomic-ai/nomic-embed-text-v1.5", 768), ("nomic-embed-text-v1.5", 768),
   ("nomic-embed-text", 768),
   ("mixedbread-ai/mxbai-embed-large-v1", 1024), ("mxbai-embed-large", 1024),
   ("mxbai-embed-large-v1", 1024),
   ("jinaai/jina-embeddings-v2-base-code", 768), ("jina-embeddings-v2-base-code", 768),
   ("text-embedding-3-small", 1536), ("text-embedding-3-large", 3072),
   ("text-embedding-ada-002", 1536)]

/-- `known_embedding_dim` -/
def knownEmbeddingDim (model : String) : Option ℕ :=
  let model := toAsciiLowercase (trim model.toList)
  let model := (model.dropPrefix? "sentence-transformers/".toList).getD model
  knownEmbeddingDims.lookup (String.ofList model)

/-- `normalize_embedding_properties` -/
def normalizeEmbeddingProperties (p : Properties) : Properties :=
  if embeddingDimProp ∈ p then p
  else
    match p.lookup embeddingModelProp with
    | none => p
    | some model =>
      match knownEmbeddingDim model with
      | some dim => p.insert embeddingDimProp (toString dim)
      | none => p

inductive EmbeddingError where
  | modelChanged (currentModel : String)
  | dimChanged (currentDim proposedDim : Option String)
  deriving DecidableEq

def EmbeddingError.message : EmbeddingError → String
  | .modelChanged currentModel =>
    "refusing to change `" ++ embeddingModelProp ++
    "` on a non-empty table: stored vectors were produced by '" ++ currentModel ++
    "'. Re-ingest into a new table with the new model instead of mutating the property."
  | .dimChanged currentDim proposedDim =>
    "refusing to change `" ++ embeddingDimProp ++
    "` on a non-empty table: stored vectors use dimension '" ++ currentDim.getD "<none>" ++
    "', requested '" ++ proposedDim.getD "<none>" ++
    "'. Re-ingest into a new table instead of mutating the property."

/-- `validate_embedding_property_transition` -/
def validateEmbeddingPropertyTransition (current proposed : Properties) (hasData : Bool) :
    Except EmbeddingError Unit :=
  if hasData = false then .ok ()
  else
    match current.lookup embeddingModelProp with
    | none => .ok ()
    | some currentModel =>
      if proposed.lookup embeddingModelProp ≠ some currentModel then
        .error (.modelChanged currentModel)
      else if current.lookup embeddingDimProp ≠ proposed.lookup embeddingDimProp ∧
          (current.lookup embeddingDimProp).isSome then
        .error (.dimChanged (current.lookup embeddingDimProp) (proposed.lookup embeddingDimProp))
      else .ok ()

end BenoStreamDB
