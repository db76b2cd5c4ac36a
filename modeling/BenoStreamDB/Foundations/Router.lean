import Mathlib.Data.List.Basic
import Mathlib.Data.List.Infix

/-!
# Routers of paths

A router takes a path apart at its slashes and looks for a template with the same segments. How it
looks is a `Matcher`: what it finds fits the path, it finds something if anything fits, and a
literal segment comes before a parameter. One that does so is `Matcher.backtracking`.

Texts are lists of characters. A text ends with a given one exactly if its last segment does, as far
as no slash is involved: `suffix_iff_suffix_lastSegment`, `slash_suffix_iff`.
-/

namespace Router

/-! ### Segments -/

/-- The texts between the slashes. -/
def split : List Char → List (List Char)
  | [] => [[]]
  | c :: cs =>
    if c = '/' then [] :: split cs
    else
      match split cs with
      | [] => [[c]]
      | s :: ss => (c :: s) :: ss

lemma split_ne_nil (cs : List Char) : split cs ≠ [] := by
  cases cs with
  | nil => exact List.cons_ne_nil _ _
  | cons c cs =>
    rw [split]
    split_ifs
    · exact List.cons_ne_nil _ _
    · cases split cs <;> exact List.cons_ne_nil _ _

lemma split_cons_of_ne {c : Char} (hc : c ≠ '/') {cs s : List Char} {ss : List (List Char)}
    (h : split cs = s :: ss) : split (c :: cs) = (c :: s) :: ss := by
  rw [split, if_neg hc, h]

/-- The segments, each after a slash, make up the text. -/
lemma flatMap_split (cs : List Char) : ((split cs).flatMap fun s => '/' :: s) = '/' :: cs := by
  induction cs with
  | nil => rfl
  | cons c cs ih =>
    by_cases hc : c = '/'
    · rw [split, if_pos hc, List.flatMap_cons, ih, hc]
      rfl
    · obtain ⟨s, ss, h⟩ := List.exists_cons_of_ne_nil (split_ne_nil cs)
      rw [h, List.flatMap_cons, List.cons_append] at ih
      rw [split_cons_of_ne hc h, List.flatMap_cons, List.cons_append, List.cons_append,
        List.cons.inj ih |>.2]

lemma slash_not_mem_of_mem_split {cs s : List Char} (h : s ∈ split cs) : '/' ∉ s := by
  induction cs generalizing s with
  | nil =>
    obtain rfl := List.mem_singleton.1 h
    exact List.not_mem_nil
  | cons c cs ih =>
    by_cases hc : c = '/'
    · rw [split, if_pos hc] at h
      rcases List.mem_cons.1 h with rfl | h
      · exact List.not_mem_nil
      · exact ih h
    · obtain ⟨t, ts, hsplit⟩ := List.exists_cons_of_ne_nil (split_ne_nil cs)
      rw [split_cons_of_ne hc hsplit] at h
      rw [hsplit] at ih
      rcases List.mem_cons.1 h with rfl | h
      · rw [List.mem_cons, not_or]
        exact ⟨Ne.symm hc, ih List.mem_cons_self⟩
      · exact ih (List.mem_cons_of_mem t h)

/-- The last segment of a text. -/
def lastSegment (cs : List Char) : List Char := (split cs).getLast (split_ne_nil cs)

lemma slash_not_mem_lastSegment (cs : List Char) : '/' ∉ lastSegment cs :=
  slash_not_mem_of_mem_split (List.getLast_mem _)

lemma slash_lastSegment_suffix (cs : List Char) : '/' :: lastSegment cs <:+ '/' :: cs := by
  refine ⟨(split cs).dropLast.flatMap fun s => '/' :: s, ?_⟩
  rw [← flatMap_split cs]
  nth_rewrite 2 [← List.dropLast_append_getLast (split_ne_nil cs)]
  rw [List.flatMap_append, List.flatMap_singleton]
  rfl

/-- A text without slashes is at the end of the last segment. -/
lemma suffix_iff_suffix_lastSegment {w : List Char} (hw : '/' ∉ w) (cs : List Char) :
    w <:+ '/' :: cs ↔ w <:+ lastSegment cs := by
  have hlast := slash_lastSegment_suffix cs
  constructor
  · intro hsuffix
    rcases List.suffix_or_suffix_of_suffix hsuffix hlast with hle | hle
    · rcases List.suffix_cons_iff.1 hle with rfl | hle
      · exact absurd List.mem_cons_self hw
      · exact hle
    · exact absurd (hle.subset List.mem_cons_self) hw
  · exact fun hsuffix => (hsuffix.trans (List.suffix_cons _ _)).trans hlast

/-- A text after a slash is the last segment. -/
lemma slash_suffix_iff {w : List Char} (hw : '/' ∉ w) (cs : List Char) :
    '/' :: w <:+ '/' :: cs ↔ lastSegment cs = w := by
  have hlast := slash_lastSegment_suffix cs
  constructor
  · intro hsuffix
    rcases List.suffix_or_suffix_of_suffix hsuffix hlast with hle | hle
    · rcases List.suffix_cons_iff.1 hle with heq | hle
      · exact (List.cons.inj heq).2.symm
      · exact absurd (hle.subset List.mem_cons_self) (slash_not_mem_lastSegment cs)
    · rcases List.suffix_cons_iff.1 hle with heq | hle
      · exact (List.cons.inj heq).2
      · exact absurd (hle.subset List.mem_cons_self) hw
  · rintro rfl
    exact hlast

/-! ### Templates -/

inductive Segment where
  | lit (s : List Char)
  | param
  deriving DecidableEq

/-- The segments of a template; a parameter starts with a colon. -/
def template (s : String) : List Segment :=
  (split (s.toList.drop 1)).map fun seg => if seg.head? = some ':' then .param else .lit seg

/-- The template fits the segments of a path. A parameter stands for any segment that is not
empty. -/
def fits : List Segment → List (List Char) → Bool
  | [], [] => true
  | .lit s :: t, seg :: segs => seg == s && fits t segs
  | .param :: t, seg :: segs => !seg.isEmpty && fits t segs
  | _, _ => false

/-- Of two templates that fit a path, this one has a text where they first differ. -/
def prior : List Segment → List Segment → Bool
  | .lit _ :: _, .param :: _ => true
  | .param :: _, .lit _ :: _ => false
  | _ :: t, _ :: u => prior t u
  | _, _ => true

/-- A template that ends with a text fits paths that end with it. -/
lemma getLast?_of_fits {t : List Segment} {segs : List (List Char)} {seg : List Char}
    (h : fits t segs = true) (hlast : t.getLast? = some (.lit seg)) :
    segs.getLast? = some seg := by
  induction t generalizing segs with
  | nil => cases hlast
  | cons s t ih =>
    rcases segs with _ | ⟨first, segs⟩
    · cases s <;> cases h
    · have htail : fits t segs = true := by
        cases s <;> exact ((Bool.and_eq_true _ _).mp h).2
      rcases t with _ | ⟨s', t⟩
      · obtain rfl : s = .lit seg := Option.some.inj hlast
        rcases segs with _ | ⟨second, segs⟩
        · have hfirst : first = seg := by simpa [fits] using h
          rw [hfirst]
          rfl
        · cases htail
      · rcases segs with _ | ⟨second, segs⟩
        · cases s' <;> cases htail
        · rw [List.getLast?_cons_cons] at hlast ⊢
          exact ih htail hlast

/-- A template that ends with a text fits paths whose last segment it is. -/
lemma lastSegment_eq_of_fits {t : List Segment} {cs seg : List Char}
    (h : fits t (split cs) = true) (hlast : t.getLast? = some (.lit seg)) :
    lastSegment cs = seg := by
  have hsplit := getLast?_of_fits h hlast
  rw [List.getLast?_eq_getLast_of_ne_nil (split_ne_nil cs), Option.some.injEq] at hsplit
  exact hsplit

/-! ### Matchers -/

/-- How a library finds the route of a path. Its choice between routes that fit is left to it, as
long as texts come before parameters. -/
structure Matcher (β : Type) where
  find : List (List Segment × β) → List (List Char) → Option β
  fits_of_find : ∀ {routes segs b}, find routes segs = some b →
    ∃ t, (t, b) ∈ routes ∧ fits t segs = true ∧
      ∀ r ∈ routes, fits r.1 segs = true → prior t r.1 = true
  not_fits_of_find : ∀ {routes segs}, find routes segs = none →
    ∀ r ∈ routes, fits r.1 segs = false

variable {β : Type}

/-! ### Backtracking -/

/-- What is left of the routes that start with the literal segment. -/
def afterLit (seg : List Char) (routes : List (List Segment × β)) : List (List Segment × β) :=
  routes.filterMap fun r =>
    match r.1 with
    | .lit s :: t => if s = seg then some (t, r.2) else none
    | _ => none

/-- What is left of the routes that start with a parameter. -/
def afterParam (seg : List Char) (routes : List (List Segment × β)) : List (List Segment × β) :=
  routes.filterMap fun r =>
    match r.1 with
    | .param :: t => if seg = [] then none else some (t, r.2)
    | _ => none

/-- The routes with a literal segment are tried first. -/
def backtrack (routes : List (List Segment × β)) : List (List Char) → Option β
  | [] => (routes.find? fun r => r.1.isEmpty).map Prod.snd
  | seg :: segs =>
    (backtrack (afterLit seg routes) segs).or (backtrack (afterParam seg routes) segs)

lemma mem_afterLit {seg : List Char} {routes : List (List Segment × β)} {t : List Segment} {b : β} :
    (t, b) ∈ afterLit seg routes ↔ (.lit seg :: t, b) ∈ routes := by
  rw [afterLit, List.mem_filterMap]
  constructor
  · rintro ⟨⟨u, b'⟩, hr, heq⟩
    rcases u with _ | ⟨s | _, u⟩
    · cases heq
    · simp only at heq
      split_ifs at heq with hs
      cases heq
      rwa [← hs]
    · cases heq
  · exact fun h => ⟨_, h, by simp⟩

lemma mem_afterParam {seg : List Char} {routes : List (List Segment × β)} {t : List Segment}
    {b : β} : (t, b) ∈ afterParam seg routes ↔ seg ≠ [] ∧ (.param :: t, b) ∈ routes := by
  rw [afterParam, List.mem_filterMap]
  constructor
  · rintro ⟨⟨u, b'⟩, hr, heq⟩
    rcases u with _ | ⟨s | _, u⟩
    · cases heq
    · cases heq
    · simp only at heq
      split_ifs at heq with hs
      cases heq
      exact ⟨hs, hr⟩
  · exact fun h => ⟨_, h.2, by simp [h.1]⟩

lemma not_fits_of_backtrack {routes : List (List Segment × β)} {segs : List (List Char)}
    (h : backtrack routes segs = none) : ∀ r ∈ routes, fits r.1 segs = false := by
  induction segs generalizing routes with
  | nil =>
    rw [backtrack, Option.map_eq_none_iff, List.find?_eq_none] at h
    rintro ⟨t, b⟩ hr
    rcases t with _ | ⟨s | _, t⟩
    · exact absurd rfl (h _ hr)
    · rfl
    · rfl
  | cons seg segs ih =>
    rw [backtrack, Option.or_eq_none_iff] at h
    rintro ⟨t, b⟩ hr
    rcases t with _ | ⟨s | _, t⟩
    · rfl
    · by_cases hs : seg = s
      · subst hs
        simp [fits, ih h.1 (t, b) (mem_afterLit.2 hr)]
      · simp [fits, hs]
    · by_cases hs : seg = []
      · simp [fits, hs]
      · simp [fits, ih h.2 (t, b) (mem_afterParam.2 ⟨hs, hr⟩)]

lemma fits_of_backtrack {routes : List (List Segment × β)} {segs : List (List Char)} {b : β}
    (h : backtrack routes segs = some b) : ∃ t, (t, b) ∈ routes ∧ fits t segs = true ∧
      ∀ r ∈ routes, fits r.1 segs = true → prior t r.1 = true := by
  induction segs generalizing routes with
  | nil =>
    rw [backtrack, Option.map_eq_some_iff] at h
    obtain ⟨r, hfind, rfl⟩ := h
    have hempty : r.1 = [] := by simpa using List.find?_some hfind
    refine ⟨r.1, List.mem_of_find?_eq_some hfind, by rw [hempty]; rfl, ?_⟩
    intro r' _ _
    rw [hempty]
    rfl
  | cons seg segs ih =>
    rw [backtrack, Option.or_eq_some_iff] at h
    rcases h with h | ⟨hnone, h⟩
    · obtain ⟨t, ht, hfits, hprior⟩ := ih h
      refine ⟨.lit seg :: t, mem_afterLit.1 ht, by simpa [fits] using hfits, ?_⟩
      rintro ⟨u, b'⟩ hr hu
      rcases u with _ | ⟨s | _, u⟩
      · cases hu
      · obtain ⟨rfl, htail⟩ : seg = s ∧ fits u segs = true := by simpa [fits] using hu
        exact hprior (u, b') (mem_afterLit.2 hr) htail
      · rfl
    · obtain ⟨t, ht, hfits, hprior⟩ := ih h
      obtain ⟨hseg, ht⟩ := mem_afterParam.1 ht
      refine ⟨.param :: t, ht, by simpa [fits, hseg] using hfits, ?_⟩
      rintro ⟨u, b'⟩ hr hu
      rcases u with _ | ⟨s | _, u⟩
      · cases hu
      · -- A route with the text would have been found before.
        obtain ⟨rfl, htail⟩ : seg = s ∧ fits u segs = true := by simpa [fits] using hu
        have hnot := not_fits_of_backtrack hnone (u, b') (mem_afterLit.2 hr)
        simp [htail] at hnot
      · have htail : fits u segs = true := ((Bool.and_eq_true _ _).mp hu).2
        exact hprior (u, b') (mem_afterParam.2 ⟨hseg, hr⟩) htail

/-- There are matchers: this one goes back to the parameters where the texts lead nowhere. -/
def Matcher.backtracking (β : Type) : Matcher β where
  find := backtrack
  fits_of_find := fits_of_backtrack
  not_fits_of_find := not_fits_of_backtrack

end Router
