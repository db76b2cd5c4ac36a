import BenoStreamDB.Segment.Postings
import Mathlib.Data.Fintype.EquivFin
import Mathlib.Tactic.IntervalCases

/-!
# Phrase search

`phrase_search_index` of `reader/scan.rs`, for a segment whose index has positions. A row matches if
after an occurrence of the first token each of the others has an occurrence near its place. The
occurrences are looked for one token at a time, so two tokens of the phrase may be found in one word
of the text: `findsPhrase_iff`. Places and slop are added in 32 bits, without a check, as in a
release build.
-/

namespace BenoStreamDB

/-- The rows of a token with the positions of the token in them, in the order of the entries. -/
def InvertedIndex.docPostings (idx : InvertedIndex) (token : String) : List (ℕ × List ℕ) :=
  idx.flatMap fun e => if e.key = .string token then e.decode.zip e.positions else []

/-- The positions of a token in a row. -/
def InvertedIndex.docPositions (idx : InvertedIndex) (token : String) (doc : ℕ) : List ℕ :=
  ((idx.docPostings token).filter fun d => d.1 = doc).flatMap Prod.snd

/-- The loop over the other tokens, with the place of the token before. -/
def phraseMatches (idx : InvertedIndex) (doc slop : ℕ) : ℕ → List String → Bool
  | _, [] => true
  | prevPos, token :: tokens =>
    let expectedPos := u32 (prevPos + 1)
    (idx.docPositions token doc).any
        (fun p => expectedPos ≤ p && p ≤ u32 (expectedPos + u32 slop)) &&
      phraseMatches idx doc slop expectedPos tokens

/-- The occurrences of the first token at which the phrase is found. -/
def phraseCount (idx : InvertedIndex) (slop : ℕ) (first : String) (others : List String)
    (doc : ℕ) : ℕ :=
  (idx.docPositions first doc).countP fun start => phraseMatches idx doc slop start others

/-- The number of matches in a row that has all tokens, if there are any. -/
def phraseScore (idx : InvertedIndex) (slop : ℕ) (first : String) (others : List String)
    (doc : ℕ) : Option (ℕ × ℕ) :=
  if others.all (fun token => doc ∈ (idx.docPostings token).map Prod.fst) then
    if 0 < phraseCount idx slop first others doc then
      some (doc, phraseCount idx slop first others doc)
    else none
  else none

/-- `phrase_search_index`, for the tokens of a phrase. The rows of the first token are visited in
the given order; the scores are single-precision numbers, made by `f32`. -/
def phraseSearchIndex (keywordSearchIndex : List (ℕ × ℕ)) (f32 : ℕ → ℚ) (order : List ℕ)
    (idx : InvertedIndex) (k slop : ℕ) : List String → List (ℕ × ℕ)
  | [] => []
  | [_] => keywordSearchIndex
  | first :: others =>
    let phraseScores := order.filterMap (phraseScore idx slop first others)
    (phraseScores.mergeSort fun a b => f32 b.2 ≤ f32 a.2).take k

/-! ### Phrases -/

/-- The text has different occurrences of the tokens of a phrase, each behind its place by no more
than `slop`. -/
def HasPhrase (phrase : List String) (slop : ℕ) (text : List String) : Prop :=
  ∃ p : ℕ → ℕ, (∀ i t, phrase[i]? = some t →
      text[p i]? = some t ∧ p 0 + i ≤ p i ∧ p i ≤ p 0 + i + slop) ∧
    ∀ i < phrase.length, ∀ j < phrase.length, p i = p j → i = j

/-- The index has the positions of all tokens in the texts of the rows. -/
def InvertedIndex.Truthful (idx : InvertedIndex) (texts : List (List String)) : Prop :=
  ∀ token doc pos, pos ∈ idx.docPositions token doc ↔
    ∃ text, texts[doc]? = some text ∧ text[pos]? = some token

/-- The places that are computed fit in 32 bits. -/
def PlacesFit (phrase : List String) (slop : ℕ) (texts : List (List String)) : Prop :=
  ∀ text ∈ texts, text.length + phrase.length + slop ≤ 2 ^ 32

/-- The search finds the rows that have the phrase, in whatever order the rows are visited. -/
def FindsPhrase (idx : InvertedIndex) (texts : List (List String)) (phrase : List String)
    (slop : ℕ) : Prop :=
  ∀ keywords f32 order k, order.Nodup →
    (∀ doc, doc ∈ order ↔ ∃ first ∈ phrase.head?, doc ∈ (idx.docPostings first).map Prod.fst) →
    texts.length ≤ k → ∀ doc,
      doc ∈ (phraseSearchIndex keywords f32 order idx k slop phrase).map Prod.fst ↔
        ∃ text, texts[doc]? = some text ∧ HasPhrase phrase slop text

/-- Two tokens behind the first are the same and not further apart than `slop`. -/
def RepeatsNearby (phrase : List String) (slop : ℕ) : Prop :=
  ∃ i j t, 0 < i ∧ i < j ∧ j ≤ i + slop ∧ phrase[i]? = some t ∧ phrase[j]? = some t

/-! ### What is found -/

/-- Every token of the phrase is near its place behind an occurrence of the first. -/
def FoundNear (first : String) (others : List String) (slop : ℕ) (text : List String) : Prop :=
  ∃ start, text[start]? = some first ∧ ∀ i t, others[i]? = some t →
    ∃ p, text[p]? = some t ∧ start + 1 + i ≤ p ∧ p ≤ start + 1 + i + slop

section Search

variable {idx : InvertedIndex} {texts : List (List String)} {slop doc : ℕ} {first : String}
  {others : List String}

lemma phraseMatches_iff {prev : ℕ} {tokens : List String}
    (hfit : prev + tokens.length + slop < 2 ^ 32) :
    phraseMatches idx doc slop prev tokens = true ↔
      ∀ i t, tokens[i]? = some t →
        ∃ p ∈ idx.docPositions t doc, prev + 1 + i ≤ p ∧ p ≤ prev + 1 + i + slop := by
  induction tokens generalizing prev with
  | nil => simp [phraseMatches]
  | cons token tokens ih =>
    rw [List.length_cons] at hfit
    have hexpected : u32 (prev + 1) = prev + 1 := u32_of_lt (by omega)
    have hlast : u32 (prev + 1 + u32 slop) = prev + 1 + slop := by
      rw [u32_of_lt (show slop < 2 ^ 32 by omega), u32_of_lt (by omega)]
    simp only [phraseMatches, hexpected, hlast, Bool.and_eq_true, List.any_eq_true,
      decide_eq_true_eq]
    rw [ih (by omega)]
    constructor
    · rintro ⟨hhead, htail⟩ i t hi
      cases i with
      | zero =>
        obtain rfl : token = t := by simpa using hi
        exact hhead
      | succ i =>
        obtain ⟨p, hp, hle, hge⟩ := htail i t (by simpa using hi)
        exact ⟨p, hp, by omega, by omega⟩
    · intro h
      refine ⟨h 0 token rfl, fun i t hi => ?_⟩
      obtain ⟨p, hp, hle, hge⟩ := h (i + 1) t (by simpa using hi)
      exact ⟨p, hp, by omega, by omega⟩

lemma phraseCount_pos_iff (htrue : idx.Truthful texts)
    (hfit : PlacesFit (first :: others) slop texts) :
    0 < phraseCount idx slop first others doc ↔
      ∃ text, texts[doc]? = some text ∧ FoundNear first others slop text := by
  have hmatches {text : List String} {start : ℕ} (htext : texts[doc]? = some text)
      (hstart : text[start]? = some first) :
      phraseMatches idx doc slop start others = true ↔ ∀ i t, others[i]? = some t →
        ∃ p, text[p]? = some t ∧ start + 1 + i ≤ p ∧ p ≤ start + 1 + i + slop := by
    have hlt := (List.getElem?_eq_some_iff.1 hstart).1
    have hplaces := hfit text (List.mem_of_getElem? htext)
    rw [List.length_cons] at hplaces
    rw [phraseMatches_iff (by omega)]
    simp only [htrue _ doc, htext, Option.some.injEq, exists_eq_left']
  rw [phraseCount, List.countP_pos_iff]
  constructor
  · rintro ⟨start, hmem, hfound⟩
    obtain ⟨text, htext, hstart⟩ := (htrue first doc start).1 hmem
    exact ⟨text, htext, start, hstart, (hmatches htext hstart).1 hfound⟩
  · rintro ⟨text, htext, start, hstart, hfound⟩
    exact ⟨start, (htrue first doc start).2 ⟨text, htext, hstart⟩,
      (hmatches htext hstart).2 hfound⟩

/-- A row with a position of a token is one of the rows of the token. -/
lemma mem_docPostings {token : String} {pos : ℕ} (h : pos ∈ idx.docPositions token doc) :
    doc ∈ (idx.docPostings token).map Prod.fst := by
  obtain ⟨d, hd, -⟩ := List.mem_flatMap.1 h
  obtain ⟨hmem, hdoc⟩ := List.mem_filter.1 hd
  exact List.mem_map.2 ⟨d, hmem, of_decide_eq_true hdoc⟩

/-- A row with a score has all tokens, so the test whether it has them is redundant. -/
lemma phraseScore_eq_some_iff (htrue : idx.Truthful texts)
    (hfit : PlacesFit (first :: others) slop texts) {score : ℕ × ℕ} :
    phraseScore idx slop first others doc = some score ↔
      score = (doc, phraseCount idx slop first others doc) ∧
        ∃ text, texts[doc]? = some text ∧ FoundNear first others slop text := by
  rw [phraseScore, ← phraseCount_pos_iff htrue hfit]
  constructor
  · intro h
    split_ifs at h with hall hpos
    exact ⟨(Option.some.inj h).symm, hpos⟩
  · rintro ⟨rfl, hpos⟩
    have hall : others.all (fun token => doc ∈ (idx.docPostings token).map Prod.fst) = true := by
      obtain ⟨text, htext, start, -, hfound⟩ := (phraseCount_pos_iff htrue hfit).1 hpos
      rw [List.all_eq_true]
      intro token htoken
      obtain ⟨i, hi⟩ := List.mem_iff_getElem?.1 htoken
      obtain ⟨p, hp, -⟩ := hfound i token hi
      exact decide_eq_true (mem_docPostings ((htrue token doc p).2 ⟨text, htext, hp⟩))
    rw [if_pos hall, if_pos hpos]

lemma mem_phraseSearchIndex (htrue : idx.Truthful texts)
    (hfit : PlacesFit (first :: others) slop texts) (hothers : others ≠ [])
    (keywords : List (ℕ × ℕ)) (f32 : ℕ → ℚ) {order : List ℕ} {k : ℕ} (horder : order.Nodup)
    (hlisted : ∀ doc, doc ∈ order ↔ doc ∈ (idx.docPostings first).map Prod.fst)
    (hk : texts.length ≤ k) :
    doc ∈ (phraseSearchIndex keywords f32 order idx k slop (first :: others)).map Prod.fst ↔
      ∃ text, texts[doc]? = some text ∧ FoundNear first others slop text := by
  have hsearch : phraseSearchIndex keywords f32 order idx k slop (first :: others) =
      ((order.filterMap (phraseScore idx slop first others)).mergeSort
        fun a b => f32 b.2 ≤ f32 a.2).take k := by
    cases others with
    | nil => exact absurd rfl hothers
    | cons second rest => rfl
  have hids : (order.filterMap (phraseScore idx slop first others)).map Prod.fst =
      order.filterMap fun doc => (phraseScore idx slop first others doc).map Prod.fst :=
    List.map_filterMap
  have hmem (d : ℕ) : d ∈ (order.filterMap (phraseScore idx slop first others)).map Prod.fst ↔
      d ∈ order ∧ ∃ text, texts[d]? = some text ∧ FoundNear first others slop text := by
    simp only [hids, List.mem_filterMap, Option.map_eq_some_iff,
      phraseScore_eq_some_iff htrue hfit]
    constructor
    · rintro ⟨_, hd, _, ⟨rfl, hfound⟩, rfl⟩
      exact ⟨hd, hfound⟩
    · rintro ⟨hd, hfound⟩
      exact ⟨d, hd, _, ⟨rfl, hfound⟩, rfl⟩
  -- the rows are distinct rows of the segment, so none is cut off
  have hlength : (order.filterMap (phraseScore idx slop first others)).length ≤ k := by
    have hnodup : ((order.filterMap (phraseScore idx slop first others)).map Prod.fst).Nodup := by
      rw [hids]
      refine horder.filterMap fun a b d ha hb => ?_
      simp only [Option.mem_def, Option.map_eq_some_iff, phraseScore_eq_some_iff htrue hfit]
        at ha hb
      obtain ⟨_, ⟨rfl, -⟩, rfl⟩ := ha
      obtain ⟨_, ⟨rfl, -⟩, heq⟩ := hb
      exact heq.symm
    have hsub : (order.filterMap (phraseScore idx slop first others)).map Prod.fst ⊆
        List.range texts.length := by
      intro d hd
      obtain ⟨-, text, htext, -⟩ := (hmem d).1 hd
      exact List.mem_range.2 (List.getElem?_eq_some_iff.1 htext).1
    have hle := (hnodup.subperm hsub).length_le
    rw [List.length_map, List.length_range] at hle
    exact hle.trans hk
  rw [hsearch, List.take_of_length_le (by rwa [List.length_mergeSort])]
  have hperm := (List.mergeSort_perm (order.filterMap (phraseScore idx slop first others))
    fun a b => f32 b.2 ≤ f32 a.2).map Prod.fst
  rw [hperm.mem_iff, hmem, and_iff_right_iff_imp]
  rintro ⟨text, htext, start, hstart, -⟩
  exact (hlisted doc).2 (mem_docPostings ((htrue first doc start).2 ⟨text, htext, hstart⟩))

end Search

/-! ### Different occurrences -/

section Phrases

variable {first : String} {others text : List String} {slop : ℕ}

lemma HasPhrase.foundNear (h : HasPhrase (first :: others) slop text) :
    FoundNear first others slop text := by
  obtain ⟨p, hp, -⟩ := h
  refine ⟨p 0, (hp 0 first rfl).1, fun i t hi => ?_⟩
  obtain ⟨htext, hge, hle⟩ := hp (i + 1) t (by simpa using hi)
  exact ⟨p (i + 1), htext, by omega, by omega⟩

/-- Occurrences that are chosen one by one are different if no token is repeated nearby. -/
lemma FoundNear.hasPhrase (h : FoundNear first others slop text)
    (hno : ¬ RepeatsNearby (first :: others) slop) : HasPhrase (first :: others) slop text := by
  obtain ⟨start, hstart, hfound⟩ := h
  have hchoice (i : ℕ) : ∃ p, i < others.length → ∃ t, others[i]? = some t ∧
      text[p]? = some t ∧ start + 1 + i ≤ p ∧ p ≤ start + 1 + i + slop := by
    by_cases hi : i < others.length
    · obtain ⟨p, hp⟩ := hfound i others[i] (List.getElem?_eq_getElem hi)
      exact ⟨p, fun _ => ⟨_, List.getElem?_eq_getElem hi, hp⟩⟩
    · exact ⟨0, fun hlt => absurd hlt hi⟩
  choose q hq using hchoice
  refine ⟨fun i => if i = 0 then start else q (i - 1), fun i t hi => ?_, ?_⟩
  · cases i with
    | zero =>
      obtain rfl : first = t := by simpa using hi
      exact ⟨hstart, le_rfl, Nat.le_add_right _ _⟩
    | succ i =>
      have hi' : others[i]? = some t := by simpa using hi
      obtain ⟨t', ht', htext, hge, hle⟩ := hq i (List.getElem?_eq_some_iff.1 hi').1
      obtain rfl := Option.some.inj (hi'.symm.trans ht')
      simp only [Nat.succ_ne_zero, if_false, if_true, Nat.add_sub_cancel]
      exact ⟨htext, by omega, by omega⟩
  · -- two equal occurrences would be of one token, and their places close to each other
    have hlt (i j : ℕ) (hij : i < j) (hj : j < (first :: others).length) :
        (if i = 0 then start else q (i - 1)) ≠ if j = 0 then start else q (j - 1) := by
      rw [List.length_cons] at hj
      obtain ⟨j, rfl⟩ : ∃ m, j = m + 1 := ⟨j - 1, by omega⟩
      obtain ⟨t, ht, htext, hge, hle⟩ := hq j (by omega)
      rw [if_neg (Nat.succ_ne_zero j), Nat.add_sub_cancel]
      cases i with
      | zero =>
        rw [if_pos rfl]
        omega
      | succ i =>
        obtain ⟨t', ht', htext', hge', hle'⟩ := hq i (by omega)
        rw [if_neg (Nat.succ_ne_zero i), Nat.add_sub_cancel]
        intro heq
        rw [heq, htext] at htext'
        obtain rfl := Option.some.inj htext'
        exact hno ⟨i + 1, j + 1, t, Nat.succ_pos i, hij, by omega, by simpa using ht',
          by simpa using ht⟩
    intro i hi j hj heq
    rcases Nat.lt_trichotomy i j with h | h | h
    · exact absurd heq (hlt i j h hj)
    · exact h
    · exact absurd heq.symm (hlt j i h hi)

/-- The last token is found behind all others. -/
lemma FoundNear.length_le (h : FoundNear first others slop text) :
    others.length + 1 ≤ text.length := by
  obtain ⟨start, hstart, hfound⟩ := h
  have hlt := (List.getElem?_eq_some_iff.1 hstart).1
  cases hlast : others.length with
  | zero => omega
  | succ n =>
    have hn : n < others.length := by omega
    obtain ⟨p, hp, hge, -⟩ := hfound n _ (List.getElem?_eq_getElem hn)
    have hplt := (List.getElem?_eq_some_iff.1 hp).1
    omega

/-- Without slop the occurrences stand one after the other. -/
lemma hasPhrase_zero_iff {phrase : List String} : HasPhrase phrase 0 text ↔ phrase <:+: text := by
  constructor
  · rintro ⟨p, hp, -⟩
    refine List.IsInfix.trans (List.IsPrefix.isInfix ?_) (List.drop_suffix (p 0) text).isInfix
    rw [List.prefix_iff_getElem?]
    intro i hi
    obtain ⟨htext, hge, hle⟩ := hp i _ (List.getElem?_eq_getElem hi)
    rw [List.getElem?_drop, show p 0 + i = p i by omega, htext]
  · rintro ⟨before, after, rfl⟩
    refine ⟨fun i => before.length + i, fun i t hi => ⟨?_, le_rfl, le_rfl⟩, fun i _ j _ h => ?_⟩
    · have hlt := (List.getElem?_eq_some_iff.1 hi).1
      rw [List.append_assoc, List.getElem?_append_right (Nat.le_add_right _ _),
        Nat.add_sub_cancel_left, List.getElem?_append_left hlt, hi]
    · exact Nat.add_left_cancel h

/-- A phrase with one of two nearby repeated tokens replaced by a new one: both tokens are found in
the other, but there are fewer words of the phrase than tokens. -/
lemma foundNear_set (h : RepeatsNearby (first :: others) slop) :
    ∃ text, text.length = others.length + 1 ∧ FoundNear first others slop text ∧
      ¬ HasPhrase (first :: others) slop text := by
  obtain ⟨i, j, t, hpos, hij, hnear, hi, hj⟩ := h
  obtain ⟨filler, hfiller⟩ := Infinite.exists_notMem_finset (first :: others).toFinset
  rw [List.mem_toFinset] at hfiller
  have hlt := (List.getElem?_eq_some_iff.1 hi).1
  refine ⟨(first :: others).set i filler, by simp, ⟨0, ?_, fun m t' hm => ?_⟩, ?_⟩
  · rw [List.getElem?_set_ne (by omega)]
    rfl
  · have hm' : (first :: others)[m + 1]? = some t' := by simpa using hm
    by_cases hmi : i = m + 1
    · rw [hmi, hm'] at hi
      obtain rfl := Option.some.inj hi
      refine ⟨j, ?_, by omega, by omega⟩
      rw [List.getElem?_set_ne (by omega), hj]
    · refine ⟨m + 1, ?_, by omega, by omega⟩
      rw [List.getElem?_set_ne hmi, hm']
  · rintro ⟨p, hp, hinj⟩
    -- the occurrences are different places of the text other than that of the new word
    have hmaps : ∀ m ∈ Finset.range (first :: others).length,
        p m ∈ (Finset.range (first :: others).length).erase i := by
      intro m hm
      have hm' := List.getElem?_eq_getElem (Finset.mem_range.1 hm)
      obtain ⟨htext, -⟩ := hp m _ hm'
      refine Finset.mem_erase.2 ⟨fun heq => hfiller ?_, ?_⟩
      · rw [heq, List.getElem?_set_self hlt] at htext
        rw [Option.some.inj htext]
        exact List.getElem_mem _
      · have hplt := (List.getElem?_eq_some_iff.1 htext).1
        rw [List.length_set] at hplt
        exact Finset.mem_range.2 hplt
    have hcard := Finset.card_le_card_of_injOn p hmaps fun a ha b hb heq =>
      hinj a (Finset.mem_range.1 ha) b (Finset.mem_range.1 hb) heq
    rw [Finset.card_erase_of_mem (Finset.mem_range.2 hlt), Finset.card_range] at hcard
    omega

end Phrases

/-- An index of one text with an entry for each word. -/
def wordIndex (text : List String) : InvertedIndex :=
  text.zipIdx.map fun word => ⟨.string word.1, [0], [[word.2]]⟩

lemma truthful_wordIndex (text : List String) : (wordIndex text).Truthful [text] := by
  intro token doc pos
  have hdecode (word : String × ℕ) : (InvertedEntry.decode ⟨.string word.1, [0], [[word.2]]⟩).zip
      [[word.2]] = [(0, [word.2])] := rfl
  have hpostings : (wordIndex text).docPostings token = text.zipIdx.flatMap fun word =>
      if word.1 = token then [(0, [word.2])] else [] := by
    simp only [InvertedIndex.docPostings, wordIndex, List.flatMap_map, hdecode, Cell.string.injEq]
  simp only [InvertedIndex.docPositions, hpostings, List.mem_flatMap, List.mem_filter,
    List.mem_ite_nil_right, List.mem_singleton, decide_eq_true_eq]
  constructor
  · rintro ⟨_, ⟨⟨word, hword, rfl, rfl⟩, rfl⟩, hpos⟩
    obtain rfl := List.mem_singleton.1 hpos
    exact ⟨text, rfl, List.mem_zipIdx_iff_getElem?.1 hword⟩
  · rintro ⟨text', htext, hpos⟩
    obtain ⟨rfl, rfl⟩ : doc = 0 ∧ text = text' := by
      cases doc with
      | zero => exact ⟨rfl, by simpa using htext⟩
      | succ doc => simp at htext
    exact ⟨(0, [pos]), ⟨⟨(token, pos), List.mem_zipIdx_iff_getElem?.2 hpos, rfl, rfl⟩, rfl⟩,
      List.mem_singleton.2 rfl⟩

/-- For a phrase of several tokens the search finds the rows with the phrase, in every truthful
index whose places fit, exactly if no token is repeated nearby or no text that could have the phrase
fits. Without slop the phrase is found where it stands in the text. -/
theorem findsPhrase_iff (phrase : List String) (slop : ℕ) (hphrase : 2 ≤ phrase.length) :
    ((∀ idx texts, InvertedIndex.Truthful idx texts → PlacesFit phrase slop texts →
        FindsPhrase idx texts phrase slop) ↔
      ¬ RepeatsNearby phrase slop ∨ 2 ^ 32 < 2 * phrase.length + slop) ∧
    ∀ text, HasPhrase phrase 0 text ↔ phrase <:+: text := by
  refine ⟨?_, fun _ => hasPhrase_zero_iff⟩
  obtain ⟨first, others, rfl⟩ := List.exists_cons_of_length_pos (show 0 < phrase.length by omega)
  have hothers : others ≠ [] := by
    rintro rfl
    simp at hphrase
  constructor
  · intro h
    by_contra hcond
    simp only [not_or, not_not, Nat.not_lt, List.length_cons] at hcond
    obtain ⟨text, hlength, hfound, hnot⟩ := foundNear_set hcond.1
    have hfit : PlacesFit (first :: others) slop [text] := by
      intro text' htext
      rw [List.mem_singleton.1 htext, hlength, List.length_cons]
      omega
    have htrue := truthful_wordIndex text
    have horder := List.nodup_dedup (((wordIndex text).docPostings first).map Prod.fst)
    have hmem : 0 ∈ (phraseSearchIndex [] (fun n => n) _ (wordIndex text) 1 slop
        (first :: others)).map Prod.fst :=
      (mem_phraseSearchIndex htrue hfit hothers [] (fun n => n) horder
        (fun _ => List.mem_dedup) le_rfl).2 ⟨text, rfl, hfound⟩
    obtain ⟨text', htext, hphrase⟩ :=
      (h _ _ htrue hfit [] _ _ 1 horder (by simp) le_rfl 0).1 hmem
    obtain rfl : text = text' := by simpa using htext
    exact hnot hphrase
  · intro hcond idx texts htrue hfit keywords f32 order k horder hlisted hk doc
    rw [mem_phraseSearchIndex htrue hfit hothers keywords f32 horder (by simpa using hlisted) hk]
    refine exists_congr fun text => and_congr_right fun htext => ⟨fun hfound => ?_, ?_⟩
    · refine hfound.hasPhrase (hcond.resolve_right fun hlarge => ?_)
      have hlength := hfound.length_le
      have hplaces := hfit text (List.mem_of_getElem? htext)
      rw [List.length_cons] at hlarge hplaces
      omega
    · exact HasPhrase.foundNear

lemma not_repeatsNearby_pair (s t : String) (slop : ℕ) : ¬ RepeatsNearby [s, t] slop := by
  rintro ⟨i, j, u, hpos, hij, -, -, hj⟩
  have hlt := (List.getElem?_eq_some_iff.1 hj).1
  simp only [List.length_cons, List.length_nil] at hlt
  omega

theorem findsPhrase_iff_pair :
    FindsPhrase (wordIndex ["a", "x", "b"]) [["a", "x", "b"]] ["a", "b"] 1 :=
  (findsPhrase_iff ["a", "b"] 1 (by decide)).1.2 (.inl (not_repeatsNearby_pair "a" "b" 1)) _ _
    (truthful_wordIndex _) (by simp [PlacesFit])

/-- Both of two tokens are found in one word. With the largest slop the last place wraps around and
nothing is found. -/
theorem not_findsPhrase_repeated :
    phraseSearchIndex [] (fun n => n) [0] (wordIndex ["a", "x", "b"]) 1 1 ["a", "b", "b"] =
        [(0, 1)] ∧
      ¬ HasPhrase ["a", "b", "b"] 1 ["a", "x", "b"] ∧
      ¬ FindsPhrase (wordIndex ["a", "x", "b"]) [["a", "x", "b"]] ["a", "b", "b"] 1 ∧
      phraseSearchIndex [] (fun n => n) [0] (wordIndex ["a", "b"]) 1 (2 ^ 32 - 1) ["a", "b"] = [] ∧
      HasPhrase ["a", "b"] (2 ^ 32 - 1) ["a", "b"] := by
  have hfound : phraseSearchIndex [] (fun n => n) [0] (wordIndex ["a", "x", "b"]) 1 1
      ["a", "b", "b"] = [(0, 1)] := by decide +kernel
  have hnot : ¬ HasPhrase ["a", "b", "b"] 1 ["a", "x", "b"] := by
    rintro ⟨p, hp, hinj⟩
    have hword (i : ℕ) (h : ["a", "x", "b"][i]? = some "b") : i = 2 := by
      have hlt := (List.getElem?_eq_some_iff.1 h).1
      simp only [List.length_cons, List.length_nil] at hlt
      interval_cases i <;> simp_all
    have hsame : p 1 = p 2 :=
      (hword _ (hp 1 "b" rfl).1).trans (hword _ (hp 2 "b" rfl).1).symm
    exact absurd (hinj 1 (by decide) 2 (by decide) hsame) (by decide)
  have hconsecutive : HasPhrase ["a", "b"] (2 ^ 32 - 1) ["a", "b"] :=
    ⟨id, fun i t hi => ⟨hi, by simp, by simp⟩, fun i _ j _ h => h⟩
  refine ⟨hfound, hnot, fun h => ?_, by decide +kernel, hconsecutive⟩
  have hpostings : (wordIndex ["a", "x", "b"]).docPostings "a" = [(0, [0])] := by decide +kernel
  have hlisted (doc : ℕ) : doc ∈ [0] ↔ ∃ first ∈ ["a", "b", "b"].head?,
      doc ∈ ((wordIndex ["a", "x", "b"]).docPostings first).map Prod.fst := by
    simp [hpostings]
  obtain ⟨text, htext, hphrase⟩ :=
    (h [] (fun n => n) [0] 1 (List.nodup_singleton 0) hlisted le_rfl 0).1 (by simp [hfound])
  cases htext
  exact hnot hphrase

end BenoStreamDB
