import BenoStreamDB.Foundations.Router
import BenoStreamDB.Table.Properties

/-!
# Authentication of the search gateway

The gateway serves two routers, one of OpenSearch requests and one of Qdrant requests (`main.rs`,
`handlers/qdrant.rs`), behind one middleware (`auth.rs`). The middleware does not know which handler
a request goes to: it takes a request for a read or a write by its method and by how its path ends.

A write gets past the middleware without the role `admin` in two ways. The probes of Qdrant are
public for every method, and on the other router they are names of indexes; and the id of a document
or the name of a snapshot is the last segment of its path, so it can end like a search. Nothing else
is missed: `adminOnly_iff`.

Paths are compared as they arrive. The matching of routes and the signature and the claims of a JWT
are parameters.
-/

namespace BenoStreamDB

open Router

/-- The methods that a route can have; all others are `other`. -/
inductive HttpMethod where
  | get | head | post | put | patch | delete | other
  deriving DecidableEq

/-! ### Credentials -/

structure AuthClaims where
  subject : List Char
  roles : List String

structure AuthConfig where
  apiKey : Option (List Char) := none
  /-- `verify_jwt`, where a secret or a public key is configured. -/
  verifyJwt : Option (List Char → Except String AuthClaims) := none
  required : Bool := false
  metricsPublic : Bool := false

/-- The two headers that are read, where they are text. -/
structure AuthHeaders where
  authorization : Option (List Char) := none
  apiKey : Option (List Char) := none

def AuthConfig.enabled (cfg : AuthConfig) : Bool := cfg.apiKey.isSome || cfg.verifyJwt.isSome

def AuthConfig.verify (cfg : AuthConfig) (token : List Char) : Except String AuthClaims :=
  if cfg.apiKey = some token then .ok ⟨"api-key".toList, ["admin"]⟩
  else
    match cfg.verifyJwt with
    | some verifyJwt => verifyJwt token
    | none => .error "no credential configured"

/-- The token of a request. -/
def AuthHeaders.token (headers : AuthHeaders) : Option (List Char) :=
  ((headers.authorization.bind fun v =>
    (v.dropPrefix? "Bearer ".toList).or
      ((v.dropPrefix? "ApiKey ".toList).or (v.dropPrefix? "Api-Key ".toList))).or
    headers.apiKey).map trim

/-! ### The middleware -/

/-- The health checks of OpenSearch. -/
def healthPaths : List (List Char) :=
  ["/_health".toList, "/_cluster/health".toList, "/_cat/health".toList]

/-- The health probes of Qdrant. -/
def probePaths : List (List Char) := ["/healthz".toList, "/readyz".toList, "/livez".toList]

def isPublicPath (cfg : AuthConfig) (method : HttpMethod) (path : List Char) : Bool :=
  healthPaths.contains path || probePaths.contains path ||
    (method == .get && path == "/".toList) || (cfg.metricsPublic && path == "/metrics".toList)

def readSuffixes : List (List Char) :=
  ["_search".toList, "/search".toList, "/scroll".toList, "_count".toList, "/count".toList,
    "/_msearch".toList, "/_mget".toList]

def isWriteRequest (method : HttpMethod) (path : List Char) : Bool :=
  match method with
  | .put | .delete | .patch => true
  | .post => !readSuffixes.any fun w => w.isSuffixOf path
  | _ => false

/-- A refused request: its status and its text. -/
structure Refusal where
  status : ℕ
  text : String

/-- `auth_middleware`, up to the call of the handler: the claims that go with the request. -/
def authMiddleware (cfg : AuthConfig) (headers : AuthHeaders) (method : HttpMethod)
    (path : List Char) : Except Refusal (Option AuthClaims) :=
  if isPublicPath cfg method path then .ok none
  else if !cfg.enabled then
    if cfg.required then .error ⟨401, "authentication required"⟩ else .ok none
  else
    match headers.token with
    | some token =>
      match cfg.verify token with
      | .ok claims =>
        if isWriteRequest method path && !claims.roles.any (· == "admin") then
          .error ⟨403, "admin role required for writes"⟩
        else .ok (some claims)
      | .error _ => .error ⟨401, "invalid credentials"⟩
    | none => .error ⟨401, "missing bearer token"⟩

/-! ### The routers -/

inductive Handler where
  | clusterInfo | clusterHealth | clusterStats | getClusterSettings | putClusterSettings
  | catIndices | catClusterManager | catNodes | catShards | catHealth | nodesInfo | xpackInfo
  | licenseInfo | getIngestPipeline | putIngestPipeline | refreshAll | reindex | bulk | postAliases
  | getAllAliases | metrics | getIndexAliases | putSingleAlias | deleteSingleAlias | getIndex
  | createIndex | deleteIndex | indexDocument | getDocument | indexDocumentId | deleteDocument
  | updateDocument | deleteByQuery | refresh | bulkIndexed | count | fieldCapsAll | getMapping
  | putMapping | fieldCaps | search | searchGet | scrollPost | scrollGet | clearScroll
  | clearScrollPath | getAllRepositories | getRepository | putRepository | deleteRepository
  | verifyRepository | getAllSnapshots | getSnapshot | createSnapshot | deleteSnapshot
  | getSnapshotStatus | restoreSnapshot | graphSearch
  | serviceInfo | healthz | telemetry | listCollections | listAliases | updateAliases
  | getCollection | createCollection | updateCollection | deleteCollection
  | collectionExistsHandler | listSnapshots | createCollectionSnapshot | deleteCollectionSnapshot
  | recoverSnapshot | createPayloadIndex | deletePayloadIndex | upsertPoints | retrievePoints
  | searchPoints | queryPoints | scrollPoints | countPointsHandler | recommendPoints
  | discoverPoints | batchPoints | setPayload | overwritePayload | deletePayload | clearPayload
  | updateVectors | deletePoints | getPoint
  deriving DecidableEq

/-- The handlers that change documents, indexes, aliases, collections or payloads. A refresh commits
the buffered documents of an index, and creating a snapshot refreshes the indexes first.
Repositories and snapshots themselves are names only, and restoring a snapshot changes nothing. -/
def mutatingHandlers : List Handler :=
  [.refreshAll, .refresh, .createSnapshot, .createCollectionSnapshot, .reindex, .bulk,
    .postAliases, .putSingleAlias, .deleteSingleAlias, .createIndex, .deleteIndex,
    .indexDocument, .indexDocumentId, .deleteDocument, .updateDocument, .deleteByQuery,
    .bulkIndexed, .putMapping, .updateAliases, .createCollection, .updateCollection,
    .deleteCollection, .createPayloadIndex, .deletePayloadIndex, .upsertPoints, .batchPoints,
    .setPayload, .overwritePayload, .deletePayload, .clearPayload, .updateVectors, .deletePoints]

def Handler.mutates (h : Handler) : Bool := mutatingHandlers.contains h

abbrev MethodRouter := List (HttpMethod × Handler)

inductive Api where
  | openSearch | qdrant
  deriving DecidableEq

def route (path : String) (handlers : MethodRouter) : List Segment × MethodRouter :=
  (template path, handlers)

def openSearchRoutes : List (List Segment × MethodRouter) :=
  [ route "/" [(.get, .clusterInfo)],
    route "/_health" [(.get, .clusterHealth)],
    route "/_cluster/health" [(.get, .clusterHealth)],
    route "/_cluster/stats" [(.get, .clusterStats)],
    route "/_cluster/settings" [(.get, .getClusterSettings), (.put, .putClusterSettings)],
    route "/_cat/indices" [(.get, .catIndices)],
    route "/_cat/master" [(.get, .catClusterManager)],
    route "/_cat/cluster_manager" [(.get, .catClusterManager)],
    route "/_cat/nodes" [(.get, .catNodes)],
    route "/_cat/shards" [(.get, .catShards)],
    route "/_cat/health" [(.get, .catHealth)],
    route "/_nodes" [(.get, .nodesInfo)],
    route "/_nodes/_all" [(.get, .nodesInfo)],
    route "/_nodes/http" [(.get, .nodesInfo)],
    route "/_nodes/stats" [(.get, .nodesInfo)],
    route "/_xpack" [(.get, .xpackInfo)],
    route "/_license" [(.get, .licenseInfo)],
    route "/_ingest/pipeline" [(.get, .getIngestPipeline)],
    route "/_ingest/pipeline/:id" [(.get, .getIngestPipeline), (.put, .putIngestPipeline)],
    route "/_refresh" [(.post, .refreshAll)],
    route "/_reindex" [(.post, .reindex)],
    route "/_bulk" [(.post, .bulk)],
    route "/_aliases" [(.post, .postAliases)],
    route "/_alias" [(.get, .getAllAliases)],
    route "/metrics" [(.get, .metrics)],
    route "/:index/_alias" [(.get, .getIndexAliases)],
    route "/:index/_alias/:alias" [(.put, .putSingleAlias), (.delete, .deleteSingleAlias)],
    route "/:index" [(.get, .getIndex), (.put, .createIndex), (.delete, .deleteIndex)],
    route "/:index/_doc" [(.post, .indexDocument)],
    route "/:index/_doc/:id"
      [(.get, .getDocument), (.post, .indexDocumentId), (.delete, .deleteDocument)],
    route "/:index/_update/:id" [(.post, .updateDocument)],
    route "/:index/_delete_by_query" [(.post, .deleteByQuery)],
    route "/:index/_refresh" [(.post, .refresh)],
    route "/:index/_bulk" [(.post, .bulkIndexed)],
    route "/:index/_count" [(.get, .count)],
    route "/_field_caps" [(.get, .fieldCapsAll), (.post, .fieldCapsAll)],
    route "/:index/_mapping" [(.get, .getMapping), (.put, .putMapping)],
    route "/:index/_field_caps" [(.get, .fieldCaps), (.post, .fieldCaps)],
    route "/:index/_search" [(.post, .search), (.get, .searchGet)],
    route "/_search/scroll"
      [(.post, .scrollPost), (.get, .scrollGet), (.delete, .clearScroll)],
    route "/_search/scroll/:scroll_id" [(.delete, .clearScrollPath)],
    route "/_snapshot" [(.get, .getAllRepositories)],
    route "/_snapshot/:repository"
      [(.get, .getRepository), (.put, .putRepository), (.post, .putRepository),
        (.delete, .deleteRepository)],
    route "/_snapshot/:repository/_verify" [(.post, .verifyRepository)],
    route "/_snapshot/:repository/_all" [(.get, .getAllSnapshots)],
    route "/_snapshot/:repository/:snapshot"
      [(.get, .getSnapshot), (.put, .createSnapshot), (.post, .createSnapshot),
        (.delete, .deleteSnapshot)],
    route "/_snapshot/:repository/:snapshot/_status" [(.get, .getSnapshotStatus)],
    route "/_snapshot/:repository/:snapshot/_restore" [(.post, .restoreSnapshot)],
    route "/:index/_graph_search" [(.post, .graphSearch)] ]

/-- The routes of one collection, after its name. -/
def collectionRoutes : List (String × MethodRouter) :=
  [ ("", [(.get, .getCollection), (.put, .createCollection), (.patch, .updateCollection),
      (.delete, .deleteCollection)]),
    ("/exists", [(.get, .collectionExistsHandler)]),
    ("/snapshots", [(.get, .listSnapshots), (.post, .createCollectionSnapshot)]),
    ("/snapshots/:snapshot_name", [(.delete, .deleteCollectionSnapshot)]),
    ("/snapshots/recover", [(.put, .recoverSnapshot)]),
    ("/index", [(.put, .createPayloadIndex)]),
    ("/index/:field_name", [(.delete, .deletePayloadIndex)]),
    ("/points", [(.put, .upsertPoints), (.get, .retrievePoints), (.post, .retrievePoints)]),
    ("/points/search", [(.post, .searchPoints)]),
    ("/points/query", [(.post, .queryPoints)]),
    ("/points/scroll", [(.post, .scrollPoints)]),
    ("/points/count", [(.post, .countPointsHandler)]),
    ("/points/recommend", [(.post, .recommendPoints)]),
    ("/points/discover", [(.post, .discoverPoints)]),
    ("/points/batch", [(.post, .batchPoints)]),
    ("/points/payload", [(.post, .setPayload), (.put, .overwritePayload)]),
    ("/points/payload/delete", [(.post, .deletePayload)]),
    ("/points/payload/clear", [(.post, .clearPayload)]),
    ("/points/vectors", [(.put, .updateVectors)]),
    ("/points/delete", [(.post, .deletePoints)]),
    ("/points/:id", [(.get, .getPoint)]) ]

def qdrantRoutes : List (List Segment × MethodRouter) :=
  [ route "/" [(.get, .serviceInfo)],
    route "/healthz" [(.get, .healthz)],
    route "/livez" [(.get, .healthz)],
    route "/readyz" [(.get, .healthz)],
    route "/telemetry" [(.get, .telemetry)],
    route "/collections" [(.get, .listCollections)],
    route "/collections/aliases" [(.get, .listAliases), (.post, .updateAliases)] ] ++
  collectionRoutes.map fun r => route ("/collections/:collection_name" ++ r.1) r.2

def Api.routes : Api → List (List Segment × MethodRouter)
  | .openSearch => openSearchRoutes
  | .qdrant => qdrantRoutes

/-- The handler of a request. A route with `GET` serves `HEAD` as well, and a method that the route
of a path does not have is refused, also if another route has it. -/
def Api.dispatch (M : Matcher MethodRouter) (api : Api) (method : HttpMethod) :
    List Char → Option Handler
  | '/' :: rest =>
    (M.find api.routes (split rest)).bind fun handlers =>
      handlers.lookup (if method = .head then .get else method)
  | _ => none

/-! ### Ends of paths -/

/-- A path with this last segment ends like a search. -/
def readShaped (seg : List Char) : Bool :=
  ["_search".toList, "_count".toList].any (·.isSuffixOf seg) ||
    ["search".toList, "scroll".toList, "count".toList, "_msearch".toList, "_mget".toList].contains
      seg

lemma isSuffixOf_slash_cons (w rest : List Char) (hw : '/' ∉ w) :
    w.isSuffixOf ('/' :: rest) = w.isSuffixOf (lastSegment rest) := by
  rw [Bool.eq_iff_iff, List.isSuffixOf_iff_suffix, List.isSuffixOf_iff_suffix]
  exact suffix_iff_suffix_lastSegment hw rest

lemma slash_isSuffixOf_slash_cons (w rest : List Char) (hw : '/' ∉ w) :
    ('/' :: w).isSuffixOf ('/' :: rest) = (lastSegment rest == w) := by
  rw [Bool.eq_iff_iff, List.isSuffixOf_iff_suffix, beq_iff_eq]
  exact slash_suffix_iff hw rest

lemma any_readSuffixes (rest : List Char) :
    (readSuffixes.any fun w => w.isSuffixOf ('/' :: rest)) = readShaped (lastSegment rest) := by
  have split : readSuffixes =
      ["_search".toList, '/' :: "search".toList, '/' :: "scroll".toList, "_count".toList,
        '/' :: "count".toList, '/' :: "_msearch".toList, '/' :: "_mget".toList] := rfl
  rw [split]
  simp only [readShaped, List.any_cons, List.any_nil, List.contains_cons, List.contains_nil,
    isSuffixOf_slash_cons _ _ (show '/' ∉ "_search".toList by decide),
    isSuffixOf_slash_cons _ _ (show '/' ∉ "_count".toList by decide),
    slash_isSuffixOf_slash_cons _ _ (show '/' ∉ "search".toList by decide),
    slash_isSuffixOf_slash_cons _ _ (show '/' ∉ "scroll".toList by decide),
    slash_isSuffixOf_slash_cons _ _ (show '/' ∉ "count".toList by decide),
    slash_isSuffixOf_slash_cons _ _ (show '/' ∉ "_msearch".toList by decide),
    slash_isSuffixOf_slash_cons _ _ (show '/' ∉ "_mget".toList by decide), Bool.or_false]
  ac_rfl

/-! ### What the tables of routes have -/

/-- The handlers of routes that end with a name: the id of a document, or that of a snapshot. -/
def endsWithName (h : Handler) : Bool :=
  h == .indexDocumentId || h == .updateDocument || h == .createSnapshot

/-- A write of a table is not a read by its method, and if it is a `POST` then its template ends
with a text that no search ends with, or with a name. -/
def writeRecognised (t : List Segment) (method : HttpMethod) (h : Handler) : Bool :=
  match method with
  | .put | .delete | .patch => true
  | .post =>
    endsWithName h ||
      match t.getLast? with
      | some (.lit seg) => !readShaped seg
      | _ => false
  | _ => false

lemma writeRecognised_of_mem (api : Api) :
    ∀ r ∈ api.routes, ∀ e ∈ r.2, e.2.mutates → writeRecognised r.1 e.1 e.2 := by
  cases api <;> decide +kernel

/-- No public path has a write on a route that fits it, but for the probes and for routes that come
after others. -/
lemma not_mutates_public (api : Api) :
    ∀ rest ∈ ("/".toList :: "/metrics".toList :: healthPaths).map List.tail,
      ∀ r ∈ api.routes, fits r.1 (split rest) = true →
        (∀ r' ∈ api.routes, fits r'.1 (split rest) = true → prior r.1 r'.1 = true) →
          ∀ e ∈ r.2, e.2.mutates = false := by
  cases api <;> decide +kernel

section Dispatch

variable {M : Matcher MethodRouter} {api : Api} {method : HttpMethod} {path : List Char}
  {h : Handler}

lemma dispatch_eq_some_iff : api.dispatch M method path = some h ↔
    ∃ rest handlers, path = '/' :: rest ∧ M.find api.routes (split rest) = some handlers ∧
      handlers.lookup (if method = .head then .get else method) = some h := by
  constructor
  · intro hd
    unfold Api.dispatch at hd
    split at hd
    case h_1 rest =>
      obtain ⟨handlers, hfind, hlookup⟩ := Option.bind_eq_some_iff.1 hd
      exact ⟨rest, handlers, rfl, hfind, hlookup⟩
    case h_2 => cases hd
  · rintro ⟨rest, handlers, rfl, hfind, hlookup⟩
    exact Option.bind_eq_some_iff.2 ⟨handlers, hfind, hlookup⟩

lemma mem_of_lookup_eq_some {handlers : MethodRouter} (hl : handlers.lookup method = some h) :
    (method, h) ∈ handlers := by
  obtain ⟨l₁, l₂, rfl, -⟩ := List.lookup_eq_some_iff.1 hl
  exact List.mem_append_right _ List.mem_cons_self

/-- A path without writes on its route is not dispatched to one. -/
lemma not_mutates_of_public (hd : api.dispatch M method path = some h)
    (hpath : path ∈ "/".toList :: "/metrics".toList :: healthPaths) : h.mutates = false := by
  obtain ⟨rest, handlers, rfl, hfind, hlookup⟩ := dispatch_eq_some_iff.1 hd
  obtain ⟨t, ht, hfits, hprior⟩ := M.fits_of_find hfind
  exact not_mutates_public api rest (List.mem_map_of_mem (f := List.tail) hpath) _ ht hfits hprior _
    (mem_of_lookup_eq_some hlookup)

/-- A dispatched write: its method, and how its path ends. -/
lemma write_cases (hd : api.dispatch M method path = some h) (hm : h.mutates) :
    ∃ rest, path = '/' :: rest ∧ ((method = .put ∨ method = .delete ∨ method = .patch) ∨
      (method = .post ∧ (endsWithName h = true ∨ readShaped (lastSegment rest) = false))) := by
  obtain ⟨rest, handlers, rfl, hfind, hlookup⟩ := dispatch_eq_some_iff.1 hd
  obtain ⟨t, ht, hfits, -⟩ := M.fits_of_find hfind
  have hrec := writeRecognised_of_mem api _ ht _ (mem_of_lookup_eq_some hlookup) hm
  refine ⟨rest, rfl, ?_⟩
  cases method with
  | get | head | other => cases hrec
  | put => exact .inl (.inl rfl)
  | delete => exact .inl (.inr (.inl rfl))
  | patch => exact .inl (.inr (.inr rfl))
  | post =>
    refine .inr ⟨rfl, ?_⟩
    cases hname : endsWithName h with
    | true => exact .inl rfl
    | false =>
      rw [writeRecognised.eq_def] at hrec
      simp only [reduceCtorEq, if_false, hname, Bool.false_or] at hrec
      split at hrec
      case h_1 seg hlast =>
        rw [lastSegment_eq_of_fits hfits hlast]
        exact .inr (by simpa using hrec)
      case h_2 => cases hrec

end Dispatch

/-! ### Writes and the role `admin` -/

/-- A write on a path is let through only if the claims of its token have the role. -/
def AdminOnly (M : Matcher MethodRouter) (api : Api) (method : HttpMethod) (path : List Char) :
    Prop :=
  ∀ h, api.dispatch M method path = some h → h.mutates →
    ∀ (cfg : AuthConfig) (headers : AuthHeaders), cfg.enabled →
      ∀ claims, authMiddleware cfg headers method path = .ok claims →
        ∃ token verified, headers.token = some token ∧ cfg.verify token = .ok verified ∧
          "admin" ∈ verified.roles

/-- The handler `h` does not see what the middleware misses: the path is no probe, and the name at
the end of a `POST` does not end like a search. -/
def Recognised (method : HttpMethod) (path : List Char) (h : Handler) : Prop :=
  path ∉ probePaths ∧
    (method = .post → endsWithName h → readShaped (lastSegment path.tail) = false)

lemma isPublicPath_eq_true_iff {cfg : AuthConfig} {method : HttpMethod} {path : List Char} :
    isPublicPath cfg method path = true ↔ path ∈ healthPaths ∨ path ∈ probePaths ∨
      (method = .get ∧ path = "/".toList) ∨ (cfg.metricsPublic ∧ path = "/metrics".toList) := by
  simp only [isPublicPath, Bool.or_eq_true, Bool.and_eq_true, List.contains_iff_mem, beq_iff_eq,
    or_assoc]

/-- What is let through with authentication: public paths, and tokens that are verified, with the
role if it is a write. -/
lemma authMiddleware_eq_ok_iff {cfg : AuthConfig} {headers : AuthHeaders} {method : HttpMethod}
    {path : List Char} (hcfg : cfg.enabled) (hpublic : isPublicPath cfg method path = false)
    {claims : Option AuthClaims} :
    authMiddleware cfg headers method path = .ok claims ↔
      ∃ token verified, headers.token = some token ∧ cfg.verify token = .ok verified ∧
        (isWriteRequest method path → "admin" ∈ verified.roles) ∧ claims = some verified := by
  rw [authMiddleware, hpublic, hcfg]
  simp only [Bool.false_eq_true, if_false, Bool.not_true]
  cases headers.token with
  | none => simp
  | some token =>
    cases hverify : cfg.verify token with
    | error e => simp [hverify]
    | ok verified =>
      simp only [hverify]
      have hrefused : (isWriteRequest method path && !verified.roles.any (· == "admin")) = true ↔
          ¬ (isWriteRequest method path → "admin" ∈ verified.roles) := by
        rw [List.any_beq']
        simp
      constructor
      · intro h
        split_ifs at h with hwrite
        cases h
        exact ⟨token, verified, rfl, hverify, not_not.1 (mt hrefused.2 hwrite), rfl⟩
      · rintro ⟨token', verified', htoken, hverified, hadmin, rfl⟩
        cases htoken
        obtain rfl : verified = verified' := Except.ok.inj (hverify.symm.trans hverified)
        rw [if_neg (mt hrefused.1 (not_not.2 hadmin))]

/-- A write that the middleware recognises needs the role. -/
lemma adminOnly_of_recognised {M : Matcher MethodRouter} {api : Api} {method : HttpMethod}
    {path : List Char}
    (hall : ∀ h, api.dispatch M method path = some h → h.mutates → Recognised method path h) :
    AdminOnly M api method path := by
  intro h hd hm cfg headers hcfg claims hok
  obtain ⟨hprobe, hname⟩ := hall h hd hm
  have hpublic : isPublicPath cfg method path = false := by
    rw [← Bool.not_eq_true, isPublicPath_eq_true_iff]
    have hnot (hpath : path ∈ "/".toList :: "/metrics".toList :: healthPaths) : False := by
      have hread := not_mutates_of_public hd hpath
      exact absurd hm (by simp [hread])
    rintro (hpath | hpath | ⟨-, hpath⟩ | ⟨-, hpath⟩)
    · exact hnot (by simp [hpath])
    · exact hprobe hpath
    · exact hnot (by simp [hpath])
    · exact hnot (by simp [hpath])
  have hwrite : isWriteRequest method path := by
    obtain ⟨rest, rfl, (rfl | rfl | rfl) | ⟨rfl, hend⟩⟩ := write_cases hd hm
    · rfl
    · rfl
    · rfl
    · have hread : readShaped (lastSegment rest) = false :=
        hend.elim (fun hends => hname rfl hends) id
      rw [isWriteRequest, any_readSuffixes, hread]
      rfl
  obtain ⟨token, verified, htoken, hverify, hadmin, -⟩ :=
    (authMiddleware_eq_ok_iff hcfg hpublic).1 hok
  exact ⟨token, verified, htoken, hverify, hadmin hwrite⟩

/-- A configuration that takes every JWT, for a reader. -/
def readerConfig : AuthConfig where
  verifyJwt := some fun _ => .ok ⟨"reader".toList, ["reader"]⟩

/-- A request with a JWT. -/
def readerHeaders : AuthHeaders where
  authorization := some "Bearer jwt".toList

lemma roles_of_verify_readerConfig {token : List Char} {verified : AuthClaims}
    (h : readerConfig.verify token = .ok verified) : "admin" ∉ verified.roles := by
  cases h
  decide

/-- What is taken for a read is let through without the role. -/
lemma exists_authMiddleware_readerConfig {method : HttpMethod} {path : List Char}
    (h : isPublicPath readerConfig method path = true ∨ isWriteRequest method path = false) :
    ∃ claims, authMiddleware readerConfig readerHeaders method path = .ok claims := by
  cases hpublic : isPublicPath readerConfig method path with
  | true => exact ⟨none, by rw [authMiddleware, hpublic, if_pos rfl]⟩
  | false =>
    have hread := h.resolve_left (by simp [hpublic])
    refine ⟨_, (authMiddleware_eq_ok_iff rfl hpublic).2 ⟨"jwt".toList, _, ?_, rfl, ?_, rfl⟩⟩
    · decide +kernel
    · simp [hread]

theorem adminOnly_iff (M : Matcher MethodRouter) (api : Api) (method : HttpMethod)
    (path : List Char) :
    AdminOnly M api method path ↔
      ∀ h, api.dispatch M method path = some h → h.mutates → Recognised method path h := by
  refine ⟨?_, adminOnly_of_recognised⟩
  intro hadmin h hd hm
  have hrefused : ∀ claims, authMiddleware readerConfig readerHeaders method path ≠ .ok claims := by
    intro claims hok
    obtain ⟨token, verified, -, hverify, hrole⟩ :=
      hadmin h hd hm readerConfig readerHeaders rfl claims hok
    exact roles_of_verify_readerConfig hverify hrole
  have hcaught : ¬ (isPublicPath readerConfig method path = true ∨
      isWriteRequest method path = false) := by
    intro hmissed
    obtain ⟨claims, hok⟩ := exists_authMiddleware_readerConfig hmissed
    exact hrefused claims hok
  rw [not_or] at hcaught
  constructor
  · intro hprobe
    exact hcaught.1 (isPublicPath_eq_true_iff.2 (.inr (.inl hprobe)))
  · rintro rfl -
    obtain ⟨rest, rfl, -⟩ := write_cases hd hm
    have hwrite := hcaught.2
    rw [isWriteRequest, any_readSuffixes] at hwrite
    simpa using hwrite

/-- A document with the id `search` is written by a reader. -/
theorem not_adminOnly_document_search :
    ¬ AdminOnly (.backtracking MethodRouter) .openSearch .post "/books/_doc/search".toList := by
  intro hadmin
  obtain ⟨token, verified, -, hverify, hrole⟩ :=
    hadmin .indexDocumentId (by decide +kernel) rfl readerConfig readerHeaders rfl
      (some ⟨"reader".toList, ["reader"]⟩)
      ((authMiddleware_eq_ok_iff rfl (by decide +kernel)).2
        ⟨"jwt".toList, _, by decide +kernel, rfl, by decide +kernel, rfl⟩)
  exact roles_of_verify_readerConfig hverify hrole

end BenoStreamDB
