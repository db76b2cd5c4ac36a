import BenoStreamDB.Foundations.TopK
import Mathlib.Data.Finset.Card
import Mathlib.Tactic.Tauto

/-!
# Best-first search with a bounded result

A graph is searched for the points nearest to a query. The candidate that is nearest is expanded
next, and of the points that are met the `ef` nearest that are accepted are kept. The search stops
when the result is full and the nearest candidate is farther than all of it.

The result holds the nearest of the points that were met (`noneCloser_search`). It is a local
optimum: a neighbour of a result is in it or is not nearer than any of it (`local_search`). If at
most `ef` points that can be reached are accepted, it holds all of them (`mem_search_iff`).

The queues are left open, as which of several elements with one key comes first is up to them. The
loop takes fuel; the theorems ask for as much as the points that can be reached.
-/

namespace BestFirst

/-- A priority queue: an element with the greatest key is taken out first. -/
structure Queue (α : Type) {δ : Type*} [LE δ] (key : α → δ) where
  carrier : Type
  items : carrier → List α
  empty : carrier
  push : carrier → α → carrier
  pop : carrier → Option (α × carrier)
  items_empty : items empty = []
  items_push : ∀ q a, (items (push q a)).Perm (a :: items q)
  items_of_pop_eq_none : ∀ {q}, pop q = none → items q = []
  perm_of_pop : ∀ {q a q'}, pop q = some (a, q') → (items q).Perm (a :: items q')
  le_of_pop : ∀ {q a q'}, pop q = some (a, q') → ∀ b ∈ items q, key b ≤ key a

namespace Queue

variable {α : Type} {δ : Type*} [LE δ] {key : α → δ} (Q : Queue α key)

def peek (q : Q.carrier) : Option α := (Q.pop q).map Prod.fst

def size (q : Q.carrier) : ℕ := (Q.items q).length

lemma size_push (q : Q.carrier) (a : α) : Q.size (Q.push q a) = Q.size q + 1 :=
  (Q.items_push q a).length_eq

lemma mem_of_peek {q : Q.carrier} {a : α} (h : Q.peek q = some a) :
    a ∈ Q.items q ∧ ∀ b ∈ Q.items q, key b ≤ key a := by
  obtain ⟨⟨a', q'⟩, hpop, rfl⟩ := Option.map_eq_some_iff.1 h
  exact ⟨(Q.perm_of_pop hpop).mem_iff.2 List.mem_cons_self, Q.le_of_pop hpop⟩

lemma items_of_peek_eq_none {q : Q.carrier} (h : Q.peek q = none) : Q.items q = [] :=
  Q.items_of_pop_eq_none (Option.map_eq_none_iff.1 h)

end Queue

section Sorted

variable {α : Type} {δ : Type*} [LinearOrder δ]

/-- A queue as a sorted list. -/
def sortedQueue (key : α → δ) : Queue α key where
  carrier := { l : List α // TopK.Ordered (OrderDual.toDual ∘ key) l }
  items q := q.1
  empty := ⟨[], .nil⟩
  push q a := ⟨TopK.insertAfter (OrderDual.toDual ∘ key) a q.1, q.2.insertAfter a⟩
  pop q :=
    match q with
    | ⟨[], _⟩ => none
    | ⟨a :: l, h⟩ => some (a, ⟨l, (List.pairwise_cons.1 h).2⟩)
  items_empty := rfl
  items_push q a := TopK.perm_insertAfter a q.1
  items_of_pop_eq_none {q} h := by
    obtain ⟨_ | ⟨a, l⟩, hl⟩ := q
    · rfl
    · cases h
  perm_of_pop {q a q'} h := by
    obtain ⟨_ | ⟨b, l⟩, hl⟩ := q
    · cases h
    · cases h
      exact .refl _
  le_of_pop {q a q'} h := by
    obtain ⟨_ | ⟨c, l⟩, hl⟩ := q
    · cases h
    · cases h
      intro b hb
      rcases List.mem_cons.1 hb with rfl | hb
      · exact le_rfl
      · exact (List.pairwise_cons.1 hl).1 b hb

end Sorted

section Search

variable {α : Type} {δ : Type*} [LinearOrder δ] {dist : α → δ}
  (C : Queue α (OrderDual.toDual ∘ dist)) (R : Queue α dist) (next : α → List α)
  (accept : α → Bool) (ef : ℕ)

/-- The points that were met, those to expand and those that are kept. -/
structure State where
  visited : List α
  candidates : C.carrier
  results : R.carrier

variable {C R}

/-- The result has room, or the point is nearer than the farthest of it. -/
def promising (st : State C R) (x : α) : Bool :=
  R.size st.results < ef || (R.peek st.results).all (dist x < dist ·)

/-- The result with one more point, and without the farthest if there are too many. -/
def enter (results : R.carrier) (x : α) : R.carrier :=
  if ef < R.size (R.push results x) then
    ((R.pop (R.push results x)).map Prod.snd).getD (R.push results x)
  else R.push results x

/-- The result is full and the candidate is farther than all of it. -/
def finished (st : State C R) (c : α) : Bool :=
  ef ≤ R.size st.results && (R.peek st.results).any (dist · < dist c)

variable (C R) in
def start (entry : α) : State C R :=
  ⟨[entry], C.push C.empty entry, if accept entry then R.push R.empty entry else R.empty⟩

variable [DecidableEq α]

def visit (st : State C R) (x : α) : State C R :=
  if x ∈ st.visited then st
  else if promising ef st x then
    ⟨x :: st.visited, C.push st.candidates x,
      if accept x then enter ef st.results x else st.results⟩
  else { st with visited := x :: st.visited }

def loop : ℕ → State C R → R.carrier
  | 0, st => st.results
  | n + 1, st =>
    match C.pop st.candidates with
    | none => st.results
    | some (c, candidates) =>
      if finished ef st c then st.results
      else loop n ((next c).foldl (visit accept ef) { st with candidates := candidates })

variable (C R) in
def search (fuel : ℕ) (entry : α) : R.carrier := loop next accept ef fuel (start C R accept entry)

end Search

/-! ### One point -/

section Step

variable {α : Type} {δ : Type*} [LinearOrder δ] {dist : α → δ}
  {C : Queue α (OrderDual.toDual ∘ dist)} {R : Queue α dist} {accept : α → Bool} {ef : ℕ}

variable (ef) in
/-- The farthest goes if there are too many. -/
lemma enter_cases (results : R.carrier) (x : α) :
    R.size (R.push results x) ≤ ef ∧ enter ef results x = R.push results x ∨
      ef < R.size (R.push results x) ∧
        ∃ f, (R.items (R.push results x)).Perm (f :: R.items (enter ef results x)) ∧
          ∀ y ∈ R.items (R.push results x), dist y ≤ dist f := by
  unfold enter
  split_ifs with hlt
  · refine .inr ⟨hlt, ?_⟩
    cases hpop : R.pop (R.push results x) with
    | none =>
      have hempty : R.size (R.push results x) = 0 := by
        rw [Queue.size, R.items_of_pop_eq_none hpop]
        rfl
      omega
    | some p => exact ⟨p.1, R.perm_of_pop hpop, R.le_of_pop hpop⟩
  · exact .inl ⟨not_lt.1 hlt, rfl⟩

lemma mem_of_mem_enter {results : R.carrier} {x y : α} (h : y ∈ R.items (enter ef results x)) :
    y = x ∨ y ∈ R.items results := by
  have hpush : y ∈ R.items (R.push results x) := by
    obtain ⟨-, heq⟩ | ⟨-, f, hperm, -⟩ := enter_cases ef results x
    · rwa [heq] at h
    · exact hperm.mem_iff.2 (List.mem_cons_of_mem f h)
  exact List.mem_cons.1 ((R.items_push results x).mem_iff.1 hpush)

lemma noneCloser_enter {rows : List α} {results : R.carrier}
    (h : TopK.NoneCloser dist ef rows (R.items results)) (x : α) :
    TopK.NoneCloser dist ef (x :: rows) (R.items (enter ef results x)) := by
  have hpush := R.items_push results x
  have hsize := R.size_push results x
  obtain ⟨hle, heq⟩ | ⟨hlt, f, hperm, hmax⟩ := enter_cases ef results x
  · rw [heq]
    refine (h.cons_of_lt x ?_).perm_right hpush.symm
    change R.size results < ef
    omega
  · refine h.exchange ?_ (hpush.symm.trans hperm) fun y hy => hmax y (hpush.mem_iff.2 hy)
    change ef ≤ R.size results
    omega

lemma size_le_size_enter (results : R.carrier) (x : α) :
    R.size results ≤ R.size (enter ef results x) := by
  have hsize := R.size_push results x
  obtain ⟨-, heq⟩ | ⟨-, f, hperm, -⟩ := enter_cases ef results x
  · rw [heq]
    omega
  · have hlength : R.size (R.push results x) = R.size (enter ef results x) + 1 := hperm.length_eq
    omega

/-- A point that is not promising is not nearer than any of the result, which is full. -/
lemma le_of_not_promising {st : State C R} {x : α} (h : promising ef st x = false) :
    ef ≤ R.size st.results ∧ ∀ y ∈ R.items st.results, dist y ≤ dist x := by
  rw [promising, Bool.or_eq_false_iff, decide_eq_false_iff_not, not_lt] at h
  refine ⟨h.1, fun y hy => ?_⟩
  cases hpeek : R.peek st.results with
  | none =>
    rw [R.items_of_peek_eq_none hpeek] at hy
    cases hy
  | some f =>
    rw [hpeek] at h
    have hle : dist f ≤ dist x := by simpa using h.2
    exact ((R.mem_of_peek hpeek).2 y hy).trans hle

/-- What holds between two points; `done` are the ones that were expanded. -/
structure Inv (accept : α → Bool) (ef : ℕ) (done : List α) (st : State C R) : Prop where
  nodup_visited : st.visited.Nodup
  nodup : (done ++ C.items st.candidates).Nodup
  mem_visited : ∀ x ∈ done ++ C.items st.candidates, x ∈ st.visited
  best : TopK.NoneCloser dist ef (st.visited.filter accept) (R.items st.results)
  mem_results : ∀ x ∈ R.items st.results, x ∈ done ++ C.items st.candidates
  pushed : R.size st.results < ef → ∀ x ∈ st.visited, x ∈ done ++ C.items st.candidates

/-- A point that is pushed comes after the expanded ones and the candidates. -/
lemma perm_push (done : List α) (q : C.carrier) (x : α) :
    (done ++ C.items (C.push q x)).Perm (x :: (done ++ C.items q)) :=
  ((C.items_push q x).append_left done).trans List.perm_middle

variable [DecidableEq α]

lemma mem_visited_visit (st : State C R) (x y : α) :
    y ∈ (visit accept ef st x).visited ↔ y = x ∨ y ∈ st.visited := by
  unfold visit
  split
  · next hmem =>
    refine ⟨.inr, ?_⟩
    rintro (rfl | hy)
    · exact hmem
    · exact hy
  · split <;> exact List.mem_cons

lemma Inv.visit {done : List α} {st : State C R} (h : Inv accept ef done st) (x : α) :
    Inv accept ef done (visit accept ef st x) := by
  unfold BestFirst.visit
  split
  · exact h
  next hmem =>
  have hvisited : (x :: st.visited).Nodup := List.nodup_cons.2 ⟨hmem, h.nodup_visited⟩
  cases hpromising : promising ef st x with
  | true =>
    rw [if_pos rfl]
    have hperm := perm_push done st.candidates x
    refine ⟨hvisited, ?_, fun y hy => ?_, ?_, fun y hy => ?_, fun hlt y hy => ?_⟩
    · refine hperm.nodup_iff.2 (List.nodup_cons.2 ⟨fun hx => hmem (h.mem_visited x hx), h.nodup⟩)
    · rcases List.mem_cons.1 (hperm.mem_iff.1 hy) with rfl | hy
      · exact List.mem_cons_self
      · exact List.mem_cons_of_mem x (h.mem_visited y hy)
    · cases haccept : accept x with
      | true =>
        rw [List.filter_cons_of_pos haccept, if_pos rfl]
        exact noneCloser_enter h.best x
      | false =>
        rw [List.filter_cons_of_neg (by simp [haccept]), if_neg Bool.false_ne_true]
        exact h.best
    · refine hperm.mem_iff.2 (List.mem_cons.2 ?_)
      split_ifs at hy
      · exact (mem_of_mem_enter hy).imp_right (h.mem_results y)
      · exact .inr (h.mem_results y hy)
    · refine hperm.mem_iff.2 (List.mem_cons.2 ((List.mem_cons.1 hy).imp_right (h.pushed ?_ y)))
      split_ifs at hlt
      · exact (size_le_size_enter st.results x).trans_lt hlt
      · exact hlt
  | false =>
    rw [if_neg Bool.false_ne_true]
    obtain ⟨hfull, hle⟩ := le_of_not_promising hpromising
    refine ⟨hvisited, h.nodup, fun y hy => List.mem_cons_of_mem x (h.mem_visited y hy), ?_,
      h.mem_results, fun hlt => absurd hlt (not_lt.2 hfull)⟩
    cases haccept : accept x with
    | true =>
      rw [List.filter_cons_of_pos haccept]
      exact h.best.cons_of_le hfull hle
    | false =>
      rw [List.filter_cons_of_neg (by simp [haccept])]
      exact h.best

lemma Inv.foldl_visit {done : List α} {st : State C R} (h : Inv accept ef done st)
    (xs : List α) : Inv accept ef done (xs.foldl (BestFirst.visit accept ef) st) ∧
      ∀ y, y ∈ (xs.foldl (BestFirst.visit accept ef) st).visited ↔ y ∈ xs ∨ y ∈ st.visited := by
  induction xs generalizing st with
  | nil => exact ⟨h, by simp⟩
  | cons x xs ih =>
    obtain ⟨hinv, hvisited⟩ := ih (h.visit x)
    refine ⟨hinv, fun y => ?_⟩
    rw [List.foldl_cons, hvisited, mem_visited_visit, List.mem_cons]
    tauto

end Step

/-! ### The whole search -/

section Run

variable {α : Type} {δ : Type*} [LinearOrder δ] {dist : α → δ}
  {C : Queue α (OrderDual.toDual ∘ dist)} {R : Queue α dist} {next : α → List α}
  {accept : α → Bool} {ef : ℕ} {entry : α}

/-- The points that can be reached. -/
def Reach (next : α → List α) : α → α → Prop := Relation.ReflTransGen fun a b => b ∈ next a

/-- What holds between two expansions. -/
structure Running (next : α → List α) (accept : α → Bool) (ef : ℕ) (entry : α) (done : List α)
    (st : State C R) : Prop extends Inv accept ef done st where
  closed : ∀ x ∈ done, ∀ y ∈ next x, y ∈ st.visited
  reach : ∀ x ∈ st.visited, Reach next entry x
  entry_mem : entry ∈ st.visited

/-- Nothing is left to expand, or all that is left is farther than the result, which is full. -/
def Ended (ef : ℕ) (st : State C R) : Prop :=
  C.items st.candidates = [] ∨ ef ≤ R.size st.results ∧
    ∀ c ∈ C.items st.candidates, ∀ r ∈ R.items st.results, dist r < dist c

lemma ended_of_finished {st : State C R} {c : α} {q : C.carrier}
    (hpop : C.pop st.candidates = some (c, q)) (h : finished ef st c = true) : Ended ef st := by
  rw [finished, Bool.and_eq_true, decide_eq_true_eq] at h
  refine .inr ⟨h.1, fun c' hc' r hr => ?_⟩
  obtain ⟨f, hpeek, hlt⟩ := Option.any_eq_true _ _ |>.1 h.2
  calc dist r ≤ dist f := (R.mem_of_peek hpeek).2 r hr
    _ < dist c := of_decide_eq_true hlt
    _ ≤ dist c' := C.le_of_pop hpop c' hc'

lemma running_start (hef : 0 < ef) :
    Running next accept ef entry [] (start C R accept entry) := by
  have hcandidates : C.items (C.push C.empty entry) = [entry] := by
    have hperm := C.items_push C.empty entry
    rw [C.items_empty] at hperm
    exact List.perm_singleton.1 hperm
  have hresults : R.items (R.push R.empty entry) = [entry] := by
    have hperm := R.items_push R.empty entry
    rw [R.items_empty] at hperm
    exact List.perm_singleton.1 hperm
  have hqueued : [] ++ C.items (start C R accept entry).candidates = [entry] := hcandidates
  refine ⟨⟨List.nodup_singleton entry, ?_, ?_, ?_, ?_, ?_⟩, List.forall_mem_nil _, ?_,
    List.mem_cons_self⟩
  · rw [hqueued]
    exact List.nodup_singleton entry
  · rw [hqueued]
    exact fun x hx => hx
  · unfold start
    cases haccept : accept entry with
    | true =>
      simp only [List.filter_cons, haccept, if_true, List.filter_nil, hresults]
      refine ⟨[], .refl _, ?_, fun _ _ y hy => absurd hy List.not_mem_nil⟩
      simp only [List.length_singleton]
      omega
    | false =>
      simp only [List.filter_cons, haccept, List.filter_nil, R.items_empty, Bool.false_eq_true,
        if_false]
      exact ⟨[], .refl _, by simp, fun _ _ y hy => absurd hy List.not_mem_nil⟩
  · rw [hqueued]
    unfold start
    intro x hx
    split_ifs at hx
    · rwa [hresults] at hx
    · rw [R.items_empty] at hx
      cases hx
  · rw [hqueued]
    exact fun _ x hx => hx
  · intro x hx
    obtain rfl := List.mem_singleton.1 hx
    exact .refl

/-- Each point of the result was expanded: those that were not are farther. -/
lemma mem_done {done : List α} {st : State C R} (h : Running next accept ef entry done st)
    (hended : Ended ef st) {r : α} (hr : r ∈ R.items st.results) : r ∈ done := by
  rcases List.mem_append.1 (h.mem_results r hr) with hdone | hcandidate
  · exact hdone
  · rcases hended with hempty | ⟨-, hfar⟩
    · rw [hempty] at hcandidate
      cases hcandidate
    · exact absurd (hfar r hcandidate r hr) (lt_irrefl _)

/-- Where the result is not full, all that can be reached was expanded. -/
lemma mem_visited_of_reach {done : List α} {st : State C R}
    (h : Running next accept ef entry done st) (hended : Ended ef st)
    (hroom : R.size st.results < ef) {x : α} (hx : Reach next entry x) : x ∈ st.visited := by
  have hempty : C.items st.candidates = [] := by
    rcases hended with hempty | ⟨hfull, -⟩
    · exact hempty
    · omega
  induction hx with
  | refl => exact h.entry_mem
  | tail _ hnext ih =>
    have hdone := h.pushed hroom _ ih
    rw [hempty, List.append_nil] at hdone
    exact h.closed _ hdone _ hnext

variable [DecidableEq α]

lemma Running.expand {done : List α} {st : State C R} (h : Running next accept ef entry done st)
    {c : α} {q : C.carrier} (hpop : C.pop st.candidates = some (c, q)) :
    Running next accept ef entry (c :: done)
      ((next c).foldl (visit accept ef) { st with candidates := q }) := by
  have hperm : (done ++ C.items st.candidates).Perm (c :: done ++ C.items q) :=
    ((C.perm_of_pop hpop).append_left done).trans List.perm_middle
  have hinv : Inv accept ef (c :: done) ({ st with candidates := q } : State C R) :=
    ⟨h.nodup_visited, hperm.nodup_iff.1 h.nodup, fun x hx => h.mem_visited x (hperm.mem_iff.2 hx),
      h.best, fun x hx => hperm.mem_iff.1 (h.mem_results x hx),
      fun hlt x hx => hperm.mem_iff.1 (h.pushed hlt x hx)⟩
  obtain ⟨hnext, hvisited⟩ := hinv.foldl_visit (next c)
  have hc : Reach next entry c := h.reach c (h.mem_visited c (hperm.mem_iff.2 (by simp)))
  refine ⟨hnext, fun x hx y hy => (hvisited y).2 ?_, fun x hx => ?_, (hvisited entry).2 ?_⟩
  · rcases List.mem_cons.1 hx with rfl | hx
    · exact .inl hy
    · exact .inr (h.closed x hx y hy)
  · rcases (hvisited x).1 hx with hx | hx
    · exact hc.tail hx
    · exact h.reach x hx
  · exact .inr h.entry_mem

lemma Running.exists_loop {done : List α} {st : State C R}
    (h : Running next accept ef entry done st) (fuel : ℕ) :
    ∃ (done' : List α) (st' : State C R), loop next accept ef fuel st = st'.results ∧
      Running next accept ef entry done' st' := by
  induction fuel generalizing done st with
  | zero => exact ⟨done, st, rfl, h⟩
  | succ fuel ih =>
    rw [loop]
    split
    · exact ⟨done, st, rfl, h⟩
    · next c q hpop =>
      cases finished ef st c with
      | true => exact ⟨done, st, rfl, h⟩
      | false => exact ih (h.expand hpop)

variable (C R next accept) in
/-- What is found can be reached, whatever the fuel. -/
lemma search_sound (hef : 0 < ef) (fuel : ℕ) (entry : α) :
    (R.items (search C R next accept ef fuel entry)).Nodup ∧
      (∀ x ∈ R.items (search C R next accept ef fuel entry), Reach next entry x) ∧
      R.size (search C R next accept ef fuel entry) ≤ ef := by
  have hstart : Running next accept ef entry [] (start C R accept entry) := running_start hef
  obtain ⟨done, st, heq, h⟩ := hstart.exists_loop fuel
  obtain ⟨rest, hperm, hlength, -⟩ := h.best
  rw [search, heq]
  refine ⟨(List.nodup_append.1 (hperm.nodup_iff.1 (h.nodup_visited.filter accept))).1,
    fun x hx => ?_, hlength.trans_le (min_le_left _ _)⟩
  have hmem := hperm.mem_iff.2 (List.mem_append_left rest hx)
  exact h.reach x (List.mem_filter.1 hmem).1

/-- Each point is expanded once at most, so the fuel suffices. -/
lemma exists_ended {nodes : Finset α} (hnodes : ∀ x, Reach next entry x → x ∈ nodes) {fuel : ℕ}
    {done : List α} {st : State C R} (h : Running next accept ef entry done st)
    (hfuel : nodes.card ≤ fuel + done.length) : ∃ (done' : List α) (st' : State C R),
      loop next accept ef fuel st = st'.results ∧ Running next accept ef entry done' st' ∧
        Ended ef st' := by
  induction fuel generalizing done st with
  | zero =>
    refine ⟨done, st, rfl, h, .inl ?_⟩
    have hsubset : (done ++ C.items st.candidates).toFinset ⊆ nodes := fun x hx =>
      hnodes x (h.reach x (h.mem_visited x (List.mem_toFinset.1 hx)))
    have hcard := Finset.card_le_card hsubset
    rw [List.toFinset_card_of_nodup h.nodup, List.length_append] at hcard
    exact List.length_eq_zero_iff.1 (by omega)
  | succ fuel ih =>
    rw [loop]
    split
    · next hpop => exact ⟨done, st, rfl, h, .inl (C.items_of_pop_eq_none hpop)⟩
    · next c q hpop =>
      cases hfinished : finished ef st c with
      | true => exact ⟨done, st, rfl, h, ended_of_finished hpop hfinished⟩
      | false =>
        refine ih (h.expand hpop) ?_
        rw [List.length_cons]
        omega

variable {nodes : Finset α} {fuel : ℕ}

variable (C R accept) in
lemma exists_search (hef : 0 < ef) (hnodes : ∀ x, Reach next entry x → x ∈ nodes)
    (hfuel : nodes.card ≤ fuel) : ∃ (done : List α) (st : State C R),
      search C R next accept ef fuel entry = st.results ∧
        Running next accept ef entry done st ∧ Ended ef st :=
  exists_ended hnodes (running_start hef) hfuel

variable (C R accept) in
/-- The result holds the nearest of the points that were met. -/
theorem noneCloser_search (hef : 0 < ef) (hnodes : ∀ x, Reach next entry x → x ∈ nodes)
    (hfuel : nodes.card ≤ fuel) : ∃ visited : List α, visited.Nodup ∧ entry ∈ visited ∧
      (∀ x ∈ visited, Reach next entry x) ∧
      TopK.NoneCloser dist ef (visited.filter accept)
        (R.items (search C R next accept ef fuel entry)) := by
  obtain ⟨done, st, heq, h, -⟩ := exists_search C R accept hef hnodes hfuel
  exact ⟨st.visited, h.nodup_visited, h.entry_mem, h.reach, heq ▸ h.best⟩

/-- A neighbour of a result is in it, or is not nearer than any of it. -/
theorem local_search (hef : 0 < ef) (hnodes : ∀ x, Reach next entry x → x ∈ nodes)
    (hfuel : nodes.card ≤ fuel) {r y : α} (hr : r ∈ R.items (search C R next accept ef fuel entry))
    (hy : y ∈ next r) (haccept : accept y = true) :
    y ∈ R.items (search C R next accept ef fuel entry) ∨
      R.size (search C R next accept ef fuel entry) = ef ∧
        ∀ x ∈ R.items (search C R next accept ef fuel entry), dist x ≤ dist y := by
  obtain ⟨done, st, heq, h, hended⟩ := exists_search C R accept hef hnodes hfuel
  rw [heq] at hr ⊢
  have hvisited : y ∈ st.visited := h.closed r (mem_done h hended hr) y hy
  exact h.best.mem_or (List.mem_filter.2 ⟨hvisited, haccept⟩)

/-- All points are found if the result has room for them. -/
theorem mem_search_iff (hef : 0 < ef) (hnodes : ∀ x, x ∈ nodes ↔ Reach next entry x)
    (hfuel : nodes.card ≤ fuel) (hroom : (nodes.filter (accept · = true)).card ≤ ef) (x : α) :
    x ∈ R.items (search C R next accept ef fuel entry) ↔ Reach next entry x ∧ accept x = true := by
  obtain ⟨done, st, heq, h, hended⟩ := exists_search C R accept hef (fun x => (hnodes x).2) hfuel
  rw [heq]
  obtain ⟨rest, hperm, hlength, -⟩ := h.best
  have hnodup : (R.items st.results ++ rest).Nodup :=
    hperm.nodup_iff.1 (h.nodup_visited.filter accept)
  have hsound : ∀ y ∈ R.items st.results, Reach next entry y ∧ accept y = true := by
    intro y hy
    have hmem := List.mem_filter.1 (hperm.mem_iff.2 (List.mem_append_left rest hy))
    exact ⟨h.reach y hmem.1, hmem.2⟩
  refine ⟨hsound x, ?_⟩
  rintro ⟨hreach, haccept⟩
  by_cases hlt : R.size st.results < ef
  · have hvisited := mem_visited_of_reach h hended hlt hreach
    rcases h.best.mem_or (List.mem_filter.2 ⟨hvisited, haccept⟩) with hx | ⟨hfull, -⟩
    · exact hx
    · exact absurd hfull hlt.ne
  · -- the result is full, and there are no more than it holds
    have hsubset : (R.items st.results).toFinset ⊆ nodes.filter (accept · = true) := by
      intro y hy
      obtain ⟨hy, hyaccept⟩ := hsound y (List.mem_toFinset.1 hy)
      exact Finset.mem_filter.2 ⟨(hnodes y).2 hy, hyaccept⟩
    have hcard : (nodes.filter (accept · = true)).card ≤ (R.items st.results).toFinset.card := by
      rw [List.toFinset_card_of_nodup (List.nodup_append.1 hnodup).1]
      exact hroom.trans (not_lt.1 hlt)
    have hall := Finset.eq_of_subset_of_card_le hsubset hcard
    rw [← List.mem_toFinset, hall]
    exact Finset.mem_filter.2 ⟨(hnodes x).2 hreach, haccept⟩

end Run

end BestFirst
