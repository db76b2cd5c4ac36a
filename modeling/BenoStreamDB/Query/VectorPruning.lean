import BenoStreamDB.Query.Pruning
import Mathlib.Analysis.Real.Sqrt

/-!
# Vector pruning

`might_match_vector` of `planner.rs`: a data file is skipped for a vector search with a radius if
the query is too far from the box around the file's vectors.

The distance from the box is the Euclidean one, whatever the metric of the search is. It is at most
the distance from each vector for the metrics L2 and L1, and the others have no such bound:
`prunesSoundly_iff`. The components are real numbers where the code has `f32`.
-/

namespace BenoStreamDB

/-! ### The code -/

/-- The statistics of the vectors of a column that the pruning reads. -/
structure VectorStats (φ : Type) where
  dimMin : Option (List φ)
  dimMax : Option (List φ)

/-- A manifest entry with the vector statistics of its columns. -/
structure VectorEntry (φ : Type) extends ScanEntry where
  vectorStats : String → Option (VectorStats φ)

/-- What the pruning reads of a search: without a radius the search is for any distance. -/
structure VectorSearchParams (φ : Type) where
  column : String
  query : VectorValue φ
  metric : VectorMetric
  radius : Option φ

section Code

variable {φ : Type} [Field φ] [LinearOrder φ]

/-- What the dimension `i` adds to the squared distance from the box. -/
def boxDiffSq (dimMin dimMax : List φ) (i : ℕ) (q : φ) : φ :=
  match dimMin[i]?, dimMax[i]? with
  | some lo, some hi => if q < lo then (lo - q) ^ 2 else if hi < q then (q - hi) ^ 2 else 0
  | _, _ => 0

/-- The loop over the components of the query, which returns when the sum exceeds the radius. -/
def nearBox (radiusSq : Option φ) (dimMin dimMax : List φ) : ℕ → φ → List φ → Bool
  | _, _, [] => true
  | i, total, q :: qs =>
    let total := total + boxDiffSq dimMin dimMax i q
    if radiusSq.any (· < total) then false else nearBox radiusSq dimMin dimMax (i + 1) total qs

/-- `might_match_vector` -/
def mightMatchVector (entry : VectorEntry φ) (params : VectorSearchParams φ) : Bool :=
  match entry.vectorStats params.column with
  | none => true
  | some vs =>
    match vs.dimMin, vs.dimMax, params.query with
    | some dimMin, some dimMax, .float32 q =>
      nearBox (params.radius.map (· ^ 2)) dimMin dimMax 0 0 q
    | _, _, _ => true

end Code

/-! ### Distances

The functions of `distance.rs`, for vectors of the same length. -/

namespace VectorMetric

/-- `l2_distance_squared` -/
def distanceSquared (a b : List ℝ) : ℝ := (List.zipWith (fun x y => (x - y) ^ 2) a b).sum

/-- `dot_product` -/
def dotProduct (a b : List ℝ) : ℝ := (List.zipWith (· * ·) a b).sum

/-- `cosine_similarity` -/
noncomputable def cosineSimilarity (a b : List ℝ) : ℝ :=
  let normA := √(dotProduct a a)
  let normB := √(dotProduct b b)
  if normA = 0 ∨ normB = 0 then 0 else dotProduct a b / (normA * normB)

/-- The dimensions with a positive component in one of the vectors. -/
noncomputable def unionCount (a b : List ℝ) : ℕ :=
  (a.zip b).countP fun p => decide (0 < p.1 ∨ 0 < p.2)

/-- The dimensions with the same positive component in both vectors. -/
noncomputable def intersectionCount (a b : List ℝ) : ℕ :=
  (a.zip b).countP fun p => decide (p.1 = p.2 ∧ 0 < p.1)

/-- `jaccard_distance` -/
noncomputable def jaccardDistance (a b : List ℝ) : ℝ :=
  if unionCount a b = 0 then 0 else 1 - intersectionCount a b / unionCount a b

/-- The distance that a search ranks by. -/
noncomputable def distance (metric : VectorMetric) (a b : List ℝ) : ℝ :=
  match metric with
  | l2 => √(distanceSquared a b)
  | cosine => max (1 - cosineSimilarity a b) 0
  | innerProduct => -dotProduct a b
  | l1 => (List.zipWith (fun x y => |x - y|) a b).sum
  | hamming => (a.zip b).countP fun p => decide (p.1 ≠ p.2)
  | jaccard => jaccardDistance a b

end VectorMetric

/-! ### The distance from a box -/

/-- The squared distance from the box, from the dimension `i` on. -/
def boxDistSq {φ : Type} [Field φ] [LinearOrder φ] (dimMin dimMax : List φ) : ℕ → List φ → φ
  | _, [] => 0
  | i, q :: qs => boxDiffSq dimMin dimMax i q + boxDistSq dimMin dimMax (i + 1) qs

lemma boxDiffSq_nonneg (dimMin dimMax : List ℝ) (i : ℕ) (q : ℝ) :
    0 ≤ boxDiffSq dimMin dimMax i q := by
  unfold boxDiffSq
  split
  · split_ifs <;> positivity
  · exact le_rfl

lemma boxDistSq_nonneg (dimMin dimMax : List ℝ) (i : ℕ) (q : List ℝ) :
    0 ≤ boxDistSq dimMin dimMax i q := by
  induction q generalizing i with
  | nil => exact le_rfl
  | cons x q ih => exact add_nonneg (boxDiffSq_nonneg dimMin dimMax i x) (ih (i + 1))

/-- The sums of the loop grow, so that it returns early only if the last one is too large. -/
lemma nearBox_eq_true_iff {radiusSq : ℝ} {dimMin dimMax : List ℝ} {i : ℕ} {total : ℝ} {q : List ℝ}
    (htotal : total ≤ radiusSq) : nearBox (some radiusSq) dimMin dimMax i total q = true ↔
      total + boxDistSq dimMin dimMax i q ≤ radiusSq := by
  induction q generalizing i total with
  | nil => simpa [nearBox, boxDistSq] using htotal
  | cons x q ih =>
    have hrest := boxDistSq_nonneg dimMin dimMax (i + 1) q
    simp only [nearBox, boxDistSq, Option.any_some, decide_eq_true_eq]
    split_ifs with hexceeds
    · simp only [false_iff, not_le]
      linarith
    · rw [ih (not_lt.1 hexceeds), add_assoc]

lemma nearBox_none (dimMin dimMax : List ℝ) (i : ℕ) (total : ℝ) (q : List ℝ) :
    nearBox none dimMin dimMax i total q = true := by
  induction q generalizing i total with
  | nil => rfl
  | cons x q ih => simpa [nearBox] using ih (i + 1) _

/-- The bounds hold for a vector, from the dimension `i` on. -/
def InBox (dimMin dimMax : List ℝ) (i : ℕ) (v : List ℝ) : Prop :=
  ∀ j x, v[j]? = some x →
    (∀ lo, dimMin[i + j]? = some lo → lo ≤ x) ∧ (∀ hi, dimMax[i + j]? = some hi → x ≤ hi)

lemma InBox.tail {dimMin dimMax : List ℝ} {i : ℕ} {x : ℝ} {v : List ℝ}
    (h : InBox dimMin dimMax i (x :: v)) : InBox dimMin dimMax (i + 1) v := by
  intro j y hy
  have hnext := h (j + 1) y (by simpa using hy)
  rwa [show i + (j + 1) = i + 1 + j by omega] at hnext

/-- A component is at least as far from that of a vector as from the box. -/
lemma InBox.boxDiffSq_le {dimMin dimMax : List ℝ} {i : ℕ} {x : ℝ} {v : List ℝ}
    (h : InBox dimMin dimMax i (x :: v)) (q : ℝ) : boxDiffSq dimMin dimMax i q ≤ (q - x) ^ 2 := by
  obtain ⟨hmin, hmax⟩ := h 0 x rfl
  unfold boxDiffSq
  split
  · next lo hi hlo hhi =>
    have hle := hmin lo hlo
    have hge := hmax hi hhi
    split_ifs <;> nlinarith
  · exact sq_nonneg _

lemma InBox.boxDistSq_le {dimMin dimMax : List ℝ} {i : ℕ} {q v : List ℝ}
    (h : InBox dimMin dimMax i v) (hlength : v.length = q.length) :
    boxDistSq dimMin dimMax i q ≤ VectorMetric.distanceSquared q v := by
  induction q generalizing i v with
  | nil => simp [boxDistSq, VectorMetric.distanceSquared]
  | cons y q ih =>
    cases v with
    | nil => simp at hlength
    | cons x v =>
      have hrest := ih h.tail (by simpa using hlength)
      have hhead := h.boxDiffSq_le y
      simp only [VectorMetric.distanceSquared] at hrest ⊢
      simp only [boxDistSq, List.zipWith_cons_cons, List.sum_cons]
      exact add_le_add hhead hrest

/-! ### Distances that bound the distance from a box -/

namespace VectorMetric

variable {a b : List ℝ} {r : ℝ}

lemma distanceSquared_le_of_l2 (h : l2.distance a b ≤ r) : distanceSquared a b ≤ r ^ 2 :=
  (Real.sqrt_le_iff.1 h).2

/-- The squares of numbers add up to at most the square of the sum of their absolute values. -/
lemma distanceSquared_le_l1_sq (a b : List ℝ) :
    0 ≤ l1.distance a b ∧ distanceSquared a b ≤ l1.distance a b ^ 2 := by
  induction a generalizing b with
  | nil => simp [distance, distanceSquared]
  | cons x a ih =>
    cases b with
    | nil => simp [distance, distanceSquared]
    | cons y b =>
      obtain ⟨hnonneg, hle⟩ := ih b
      simp only [distance, distanceSquared, List.zipWith_cons_cons, List.sum_cons] at *
      have habs := abs_nonneg (x - y)
      refine ⟨by positivity, ?_⟩
      calc (x - y) ^ 2 + (List.zipWith (fun x y => (x - y) ^ 2) a b).sum
          ≤ |x - y| ^ 2 + (List.zipWith (fun x y => |x - y|) a b).sum ^ 2 := by
            rw [sq_abs]
            gcongr
        _ ≤ (|x - y| + (List.zipWith (fun x y => |x - y|) a b).sum) ^ 2 := by nlinarith

lemma distanceSquared_le_of_l1 (h : l1.distance a b ≤ r) : distanceSquared a b ≤ r ^ 2 := by
  obtain ⟨hnonneg, hle⟩ := distanceSquared_le_l1_sq a b
  exact hle.trans (pow_le_pow_left₀ hnonneg h 2)

/-- Vectors that differ nowhere are at distance zero. -/
lemma distanceSquared_le_of_hamming (hr : r < 1) (h : hamming.distance a b ≤ r) :
    distanceSquared a b ≤ r ^ 2 := by
  have hcount : (a.zip b).countP (fun p => decide (p.1 ≠ p.2)) = 0 := by
    have hlt : ((a.zip b).countP (fun p => decide (p.1 ≠ p.2)) : ℝ) < 1 := h.trans_lt hr
    exact_mod_cast Nat.lt_one_iff.1 (by exact_mod_cast hlt)
  have hzero : distanceSquared a b = 0 := by
    rw [List.countP_eq_zero] at hcount
    rw [distanceSquared, ← List.map_uncurry_zip_eq_zipWith]
    apply List.sum_eq_zero
    intro d hd
    obtain ⟨p, hp, rfl⟩ := List.mem_map.1 hd
    have heq : p.1 = p.2 := by simpa using hcount p hp
    simp [Function.uncurry, heq]
  rw [hzero]
  positivity

lemma cosine_nonneg (a b : List ℝ) : 0 ≤ cosine.distance a b := le_max_right _ _

lemma intersectionCount_le (a b : List ℝ) : intersectionCount a b ≤ unionCount a b := by
  apply List.countP_mono_left
  intro p _ hp
  simp only [decide_eq_true_eq] at hp ⊢
  exact Or.inl hp.2

lemma jaccard_nonneg (a b : List ℝ) : 0 ≤ jaccard.distance a b := by
  simp only [distance, jaccardDistance]
  split_ifs with hunion
  · exact le_rfl
  · have hle : (intersectionCount a b : ℝ) ≤ unionCount a b := by
      exact_mod_cast intersectionCount_le a b
    have hpos : (0 : ℝ) < unionCount a b := by exact_mod_cast Nat.pos_of_ne_zero hunion
    linarith [(div_le_one hpos).2 hle]

end VectorMetric

/-! ### Soundness -/

/-- The bounds of a column's statistics hold for all of the file's vectors. -/
def VectorEntry.Bounds (entry : VectorEntry ℝ) (column : String) (file : List (List ℝ)) : Prop :=
  ∀ vs, entry.vectorStats column = some vs → ∀ dimMin ∈ vs.dimMin, ∀ dimMax ∈ vs.dimMax,
    ∀ v ∈ file, InBox dimMin dimMax 0 v

/-- A vector is within the radius, if there is one, of the query. -/
def VectorMetric.Reaches (metric : VectorMetric) (radius : Option ℝ) (q v : List ℝ) : Prop :=
  v.length = q.length ∧ ∀ r ∈ radius, metric.distance q v ≤ r

/-- A file with a vector within the radius is never skipped. -/
def VectorMetric.PrunesSoundly (metric : VectorMetric) (radius : Option ℝ) : Prop :=
  ∀ (entry : VectorEntry ℝ) (column : String) (q : List ℝ) (file : List (List ℝ)),
    entry.Bounds column file → (∃ v ∈ file, metric.Reaches radius q v) →
      mightMatchVector entry ⟨column, .float32 q, metric, radius⟩ = true

/-- The metrics and radii for which the Euclidean distance from the box is a lower bound. -/
def VectorMetric.SafeRadius : VectorMetric → ℝ → Prop
  | l2, _ => True
  | l1, _ => True
  | innerProduct, _ => False
  | hamming, r => r < 1
  | cosine, r => r < 0
  | jaccard, r => r < 0

/-- Without a radius no file is skipped. -/
def VectorMetric.Safe (metric : VectorMetric) (radius : Option ℝ) : Prop :=
  ∀ r ∈ radius, metric.SafeRadius r

lemma VectorMetric.SafeRadius.distanceSquared_le {metric : VectorMetric} {r : ℝ}
    (hsafe : metric.SafeRadius r) {q v : List ℝ} (hle : metric.distance q v ≤ r) :
    distanceSquared q v ≤ r ^ 2 := by
  cases metric with
  | l2 => exact distanceSquared_le_of_l2 hle
  | l1 => exact distanceSquared_le_of_l1 hle
  | hamming => exact distanceSquared_le_of_hamming hsafe hle
  | innerProduct => exact hsafe.elim
  | cosine => exact absurd ((cosine_nonneg q v).trans hle) (not_le.2 hsafe)
  | jaccard => exact absurd ((jaccard_nonneg q v).trans hle) (not_le.2 hsafe)

lemma VectorMetric.Safe.prunesSoundly {metric : VectorMetric} {radius : Option ℝ}
    (h : metric.Safe radius) : metric.PrunesSoundly radius := by
  rintro entry column q file hbounds ⟨v, hv, hlength, hreach⟩
  unfold mightMatchVector
  split
  · rfl
  · next vs hvs =>
    split
    · next dimMin dimMax q' hmin hmax hquery =>
      obtain rfl : q = q' := by simpa using hquery
      cases radius with
      | none => exact nearBox_none _ _ _ _ _
      | some r =>
        have hbox := hbounds vs hvs dimMin hmin dimMax hmax v hv
        have hle := (hbox.boxDistSq_le hlength).trans ((h r rfl).distanceSquared_le (hreach r rfl))
        rw [Option.map_some, nearBox_eq_true_iff (sq_nonneg r), zero_add]
        exact hle
    · rfl

/-- A file with one vector, whose box has no extent. -/
def oneVectorEntry {φ : Type} (v : List φ) : VectorEntry φ where
  filePath := "part-0.parquet".toList
  recordCount := 1
  vectorStats := fun _ => some ⟨some v, some v⟩

lemma oneVectorEntry_bounds (column : String) (v : List ℝ) :
    (oneVectorEntry v).Bounds column [v] := by
  intro vs hvs dimMin hmin dimMax hmax w hw j x hx
  obtain rfl := Option.some.inj hvs
  simp only [Option.mem_def, Option.some.injEq] at hmin hmax
  rw [List.mem_singleton] at hw
  subst hmin hmax hw
  rw [Nat.zero_add, hx]
  exact ⟨fun lo hlo => (Option.some.inj hlo).ge, fun hi hhi => (Option.some.inj hhi).le⟩

/-- The only vector of a file decides whether it is skipped, by its Euclidean distance. -/
lemma mightMatchVector_oneVectorEntry (metric : VectorMetric) (r x y : ℝ) :
    mightMatchVector (oneVectorEntry [y]) ⟨"v", .float32 [x], metric, some r⟩ = true ↔
      (x - y) ^ 2 ≤ r ^ 2 := by
  have hloop : mightMatchVector (oneVectorEntry [y]) ⟨"v", .float32 [x], metric, some r⟩ =
      nearBox (some (r ^ 2)) [y] [y] 0 0 [x] := rfl
  have hdist : boxDistSq [y] [y] 0 [x] = (x - y) ^ 2 := by
    simp only [boxDistSq, boxDiffSq, List.getElem?_cons_zero, add_zero]
    split_ifs with hlt hgt
    · ring
    · rfl
    · rw [le_antisymm (not_lt.1 hgt) (not_lt.1 hlt), sub_self, zero_pow two_ne_zero]
  rw [hloop, nearBox_eq_true_iff (sq_nonneg r), zero_add, hdist]

lemma VectorMetric.cosine_one {y : ℝ} (hy : 0 < y) : cosine.distance [1] [y] = 0 := by
  have hone : dotProduct [1] [1] = 1 := by simp [dotProduct]
  have hdot : dotProduct [1] [y] = y := by simp [dotProduct]
  have hnorm : √(dotProduct [y] [y]) = y := by simp [dotProduct, hy.le]
  have hsimilar : cosineSimilarity [1] [y] = 1 := by
    rw [cosineSimilarity, hone, hdot, hnorm, Real.sqrt_one]
    simp [hy.ne']
  simp [distance, hsimilar]

lemma VectorMetric.jaccard_zero {y : ℝ} (hy : y ≤ 0) : jaccard.distance [0] [y] = 0 := by
  have hunion : unionCount [0] [y] = 0 := by simp [unionCount, hy]
  simp [distance, jaccardDistance, hunion]

/-- For the other radii there are two numbers within the radius that are farther apart. -/
lemma VectorMetric.exists_far {metric : VectorMetric} {r : ℝ} (h : ¬metric.SafeRadius r) :
    ∃ x y, metric.distance [x] [y] ≤ r ∧ r ^ 2 < (x - y) ^ 2 := by
  cases metric with
  | l2 => exact absurd trivial h
  | l1 => exact absurd trivial h
  | innerProduct =>
    -- A vector far out in the direction of the query.
    refine ⟨1, |r| + 2, ?_, ?_⟩
    · simp only [distance, dotProduct, List.zipWith_cons_cons, List.zipWith_nil_right,
        List.sum_cons, List.sum_nil]
      linarith [neg_abs_le r]
    · rw [← sq_abs r]
      nlinarith [abs_nonneg r]
  | cosine =>
    simp only [SafeRadius, not_lt] at h
    refine ⟨1, r + 2, ?_, by nlinarith⟩
    rwa [cosine_one (by linarith)]
  | hamming =>
    simp only [SafeRadius, not_lt] at h
    refine ⟨0, r + 1, ?_, by nlinarith⟩
    have hne : (0 : ℝ) ≠ r + 1 := by linarith
    simpa [distance, hne] using h
  | jaccard =>
    simp only [SafeRadius, not_lt] at h
    refine ⟨0, -(r + 1), ?_, by nlinarith⟩
    rwa [jaccard_zero (by linarith)]

lemma VectorMetric.PrunesSoundly.safe {metric : VectorMetric} {radius : Option ℝ}
    (h : metric.PrunesSoundly radius) : metric.Safe radius := by
  intro r hr
  obtain rfl : radius = some r := hr
  by_contra hunsafe
  obtain ⟨x, y, hreach, hfar⟩ := exists_far hunsafe
  have hkept := h (oneVectorEntry [y]) "v" [x] [[y]] (oneVectorEntry_bounds "v" [y])
    ⟨[y], List.mem_singleton_self _, rfl, by simpa using hreach⟩
  exact hfar.not_ge ((mightMatchVector_oneVectorEntry metric r x y).1 hkept)

/-- Files with a vector within the radius are kept exactly for the metrics whose distances are at
least the Euclidean distance from the box, and for radii within which there is no vector, or only
the query itself. -/
theorem prunesSoundly_iff (metric : VectorMetric) (radius : Option ℝ) :
    metric.PrunesSoundly radius ↔ metric.Safe radius :=
  ⟨VectorMetric.PrunesSoundly.safe, VectorMetric.Safe.prunesSoundly⟩

/-- The query `[1]` and the vector `[10]` have the same direction, but the file is skipped. -/
theorem parallel_vector_pruned :
    (oneVectorEntry [(10 : ℝ)]).Bounds "v" [[10]] ∧
      VectorMetric.cosine.Reaches (some (1 / 2)) [1] [10] ∧
      mightMatchVector (oneVectorEntry [(10 : ℝ)]) ⟨"v", .float32 [1], .cosine, some (1 / 2)⟩ =
        false := by
  refine ⟨oneVectorEntry_bounds _ _, ⟨rfl, fun r hr => ?_⟩, ?_⟩
  · obtain rfl := Option.mem_some_iff.1 hr
    rw [VectorMetric.cosine_one (by norm_num)]
    norm_num
  · rw [Bool.eq_false_iff, ne_eq, mightMatchVector_oneVectorEntry]
    norm_num

end BenoStreamDB
