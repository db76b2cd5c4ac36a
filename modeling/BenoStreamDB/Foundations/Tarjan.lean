import Mathlib.Data.Finset.Card
import Mathlib.Data.List.Nodup
import Mathlib.Logic.Relation

/-!
# Strongly connected components

Tarjan's search with an explicit stack of calls. Nodes are numbered as they are entered. `lowlink`
is the least number that is known to be reached, and when all neighbours of a node are scanned and
it reaches no lower number than its own, the nodes from the top of `stack` down to it are a
component.

The invariant `Inv` speaks of the open nodes, those with a frame. The key to it is what it says of a
scanned edge to a lower node: an open node between the two ends has a lowlink that accounts for it
(`Handled`). So if the lowlink of the last open node is its own number, no edge leaves the nodes
above it: `Inv.closed_above`.

The loop takes fuel; `exists_run` asks for three steps for each node.
-/

namespace Tarjan

open Relation

variable {α : Type} [DecidableEq α]

/-- `lowlink` is only read for nodes with an index. -/
structure State (α : Type) where
  index : α → Option ℕ
  lowlink : α → ℕ
  onStack : α → Bool
  stack : List α
  currentIndex : ℕ
  components : List (α × ℕ)
  currentSccId : ℕ

/-- A node with the neighbours that are still to be scanned, and whether the node was entered. -/
structure Frame (α : Type) where
  v : α
  neighbors : List α
  hasPushedChildren : Bool

namespace State

def init : State α where
  index _ := none
  lowlink _ := 0
  onStack _ := false
  stack := []
  currentIndex := 0
  components := []
  currentSccId := 1

def enter (st : State α) (v : α) : State α :=
  { st with
    index := Function.update st.index v (some st.currentIndex)
    lowlink := Function.update st.lowlink v st.currentIndex
    onStack := Function.update st.onStack v true
    stack := v :: st.stack
    currentIndex := st.currentIndex + 1 }

def lower (st : State α) (v : α) (low : ℕ) : State α :=
  { st with lowlink := Function.update st.lowlink v (min (st.lowlink v) low) }

/-- Scan the neighbours up to the first that has no index. -/
def scan (v : α) : State α → List α → State α × Option (α × List α)
  | st, [] => (st, none)
  | st, w :: ws =>
    match st.index w with
    | none => (st, some (w, ws))
    | some i => if st.onStack w then scan v (st.lower v i) ws else scan v st ws

/-- Pop the stack down to `v`: the popped nodes and what is left. -/
def popTo (v : α) : List α → List α × List α
  | [] => ([], [])
  | w :: stack => if w = v then ([w], stack) else (w :: (popTo v stack).1, (popTo v stack).2)

/-- The map of components with the nodes under the given id. -/
def assign (id : ℕ) (nodes : List α) (components : List (α × ℕ)) : List (α × ℕ) :=
  nodes.foldl (fun cs w => (w, id) :: cs.filter fun c => c.1 ≠ w) components

def close (st : State α) (v : α) : State α :=
  { st with
    stack := (popTo v st.stack).2
    onStack a := st.onStack a && !(popTo v st.stack).1.contains a
    components := assign st.currentSccId (popTo v st.stack).1 st.components
    currentSccId := st.currentSccId + 1 }

/-- All neighbours of `v` are scanned: the caller learns the lowlink, and a component is closed. -/
def finish (st : State α) (v : α) (calls : List (Frame α)) : State α :=
  let st := match calls with
    | [] => st
    | parent :: _ => st.lower parent.v (st.lowlink v)
  if some (st.lowlink v) = st.index v then st.close v else st

end State

/-- Descend to the first neighbour without an index, or finish the node. -/
def advance (succ : α → List α) (st : State α) (f : Frame α) (calls : List (Frame α)) :
    State α × List (Frame α) :=
  match st.scan f.v f.neighbors with
  | (st, some (w, ws)) => (st, ⟨w, succ w, false⟩ :: ⟨f.v, ws, true⟩ :: calls)
  | (st, none) => (st.finish f.v calls, calls)

/-- One turn of the loop, for the last frame. -/
def step (succ : α → List α) (st : State α) (f : Frame α) (calls : List (Frame α)) :
    State α × List (Frame α) :=
  advance succ (if f.hasPushedChildren then st else st.enter f.v) f calls

def loop (succ : α → List α) : ℕ → State α → List (Frame α) → Option (State α)
  | _, st, [] => some st
  | 0, _, _ :: _ => none
  | fuel + 1, st, f :: calls => loop succ fuel (step succ st f calls).1 (step succ st f calls).2

def search (succ : α → List α) (fuel : ℕ) (st : State α) (start : α) : Option (State α) :=
  if (st.index start).isNone then loop succ fuel st [⟨start, succ start, false⟩] else some st

/-- The searches from all nodes that have no index yet. -/
def run (succ : α → List α) (fuel : ℕ) (starts : List α) : Option (State α) :=
  starts.foldlM (search succ fuel) State.init

/-! ### The invariant -/

namespace State

/-- The number of an entered node. -/
def num (st : State α) (a : α) : ℕ := (st.index a).getD 0

/-- The node is in a closed component. -/
def Closed (st : State α) (a : α) : Prop := a ∈ st.components.map Prod.fst

end State

variable (succ : α → List α)

abbrev Reach : α → α → Prop := ReflTransGen fun a b => b ∈ succ a

/-- A scanned edge from `s` to `w`. If it leads below an open node `g`, then the lowlink of an open
node between `g` and `s` accounts for it. -/
def Handled (st : State α) (opened : List α) (s w : α) : Prop :=
  (st.index w).isSome ∧ (w ∈ st.stack → ∀ g ∈ opened, st.num w < st.num g → st.num g ≤ st.num s →
    ∃ o ∈ opened, st.num g ≤ st.num o ∧ st.num o ≤ st.num s ∧ st.lowlink o ≤ st.num w)

/-- The state with the open nodes, and the edges from them that are still to be scanned. -/
structure Inv (V : Finset α) (st : State α) (opened : List α) (Pending : α → α → Prop) : Prop where
  mem : ∀ a, (st.index a).isSome → a ∈ V
  index_lt : ∀ a i, st.index a = some i → i < st.currentIndex
  indexed_iff : ∀ a, (st.index a).isSome ↔ a ∈ st.stack ∨ st.Closed a
  not_closed : ∀ a ∈ st.stack, ¬ st.Closed a
  onStack_iff : ∀ a, st.onStack a = true ↔ a ∈ st.stack
  sorted : st.stack.Pairwise fun a b => st.num b < st.num a
  open_mem : ∀ g ∈ opened, g ∈ st.stack
  open_sorted : opened.Pairwise fun a b => st.num b < st.num a
  pending_open : ∀ a w, Pending a w → a ∈ opened ∧ w ∈ succ a
  /-- An open node reaches what was entered after it. -/
  reach_up : ∀ g ∈ opened, ∀ s ∈ st.stack, st.num g ≤ st.num s → Reach succ g s
  /-- A node on the stack reaches an open node entered before it. -/
  reach_open : ∀ s ∈ st.stack, ∃ g ∈ opened, st.num g ≤ st.num s ∧ Reach succ s g
  low_le : ∀ g ∈ opened, st.lowlink g ≤ st.num g
  low_reach : ∀ g ∈ opened, ∃ u ∈ st.stack, st.num u = st.lowlink g ∧ Reach succ g u
  handled : ∀ s ∈ st.stack, ∀ w ∈ succ s, Pending s w ∨ Handled st opened s w
  closed : ∀ a, st.Closed a → ∀ w ∈ succ a, st.Closed w
  nodup : (st.components.map Prod.fst).Nodup
  id_lt : ∀ c ∈ st.components, c.2 < st.currentSccId
  same_iff : ∀ c ∈ st.components, ∀ d ∈ st.components,
    c.2 = d.2 ↔ Reach succ c.1 d.1 ∧ Reach succ d.1 c.1

variable {succ} {V : Finset α} {st : State α} {opened : List α} {Pending : α → α → Prop}

namespace Inv

omit [DecidableEq α] in
lemma indexed (h : Inv succ V st opened Pending) {a : α} (ha : a ∈ st.stack) :
    (st.index a).isSome :=
  (h.indexed_iff a).2 (.inl ha)

omit [DecidableEq α] in
lemma num_lt (h : Inv succ V st opened Pending) {a : α} (ha : a ∈ st.stack) :
    st.num a < st.currentIndex := by
  obtain ⟨i, hi⟩ := Option.isSome_iff_exists.1 (h.indexed ha)
  rw [State.num, hi]
  exact h.index_lt a i hi

omit [DecidableEq α] in
/-- Only edges that are not handled have to be pending. -/
lemma scanned (h : Inv succ V st opened Pending) {Pending' : α → α → Prop}
    (hopen : ∀ a w, Pending' a w → a ∈ opened ∧ w ∈ succ a)
    (hall : ∀ a w, Pending a w → Pending' a w ∨ Handled st opened a w) :
    Inv succ V st opened Pending' :=
  { h with
    pending_open := hopen
    handled := fun s hs w hw => (h.handled s hs w hw).elim (hall s w) .inr }

/-- A node is entered, from the last open node or from outside. -/
lemma enter (h : Inv succ V st opened Pending) {v : α} (hv : st.index v = none) (hV : v ∈ V)
    (hreach : ∀ g ∈ opened, Reach succ g v) :
    Inv succ V (st.enter v) (v :: opened) fun a w => Pending a w ∨ a = v ∧ w ∈ succ v := by
  have hne : ∀ a ∈ st.stack, a ≠ v := by
    rintro a ha rfl
    have hsome := h.indexed ha
    simp [hv] at hsome
  have hnum : ∀ a ∈ st.stack, (st.enter v).num a = st.num a := fun a ha => by
    simp [State.num, State.enter, Function.update_of_ne (hne a ha)]
  have hself : (st.enter v).num v = st.currentIndex := by simp [State.num, State.enter]
  have hlt := fun a (ha : a ∈ st.stack) => h.num_lt ha
  have hlow : ∀ a ∈ st.stack, (st.enter v).lowlink a = st.lowlink a := fun a ha =>
    Function.update_of_ne (hne a ha) _ _
  have hlowself : (st.enter v).lowlink v = st.currentIndex := Function.update_self _ _ _
  have hstack : (st.enter v).stack = v :: st.stack := rfl
  have hindex : ∀ a, ((st.enter v).index a).isSome ↔ a = v ∨ (st.index a).isSome := by
    intro a
    by_cases hav : a = v
    · simp [State.enter, hav]
    · simp [State.enter, hav]
  have hopen := h.open_mem
  refine
    { mem := fun a ha => ?_
      index_lt := fun a i hi => ?_
      indexed_iff := fun a => ?_
      not_closed := ?_
      onStack_iff := fun a => ?_
      sorted := ?_
      open_mem := ?_
      open_sorted := ?_
      pending_open := ?_
      reach_up := ?_
      reach_open := ?_
      low_le := ?_
      low_reach := ?_
      handled := ?_
      closed := h.closed
      nodup := h.nodup
      id_lt := h.id_lt
      same_iff := h.same_iff }
  · rcases (hindex a).1 ha with rfl | ha
    · exact hV
    · exact h.mem a ha
  · by_cases hav : a = v
    · subst hav
      obtain rfl : st.currentIndex = i := by simpa [State.enter] using hi
      exact Nat.lt_succ_self _
    · have hi' : st.index a = some i := by simpa [State.enter, Function.update_of_ne hav] using hi
      exact (h.index_lt a i hi').trans (Nat.lt_succ_self _)
  · rw [hindex, h.indexed_iff, hstack, List.mem_cons, or_assoc]
    rfl
  · intro a ha hclosed
    rcases List.mem_cons.1 ha with rfl | ha
    · have hsome := (h.indexed_iff a).2 (.inr hclosed)
      simp [hv] at hsome
    · exact h.not_closed a ha hclosed
  · by_cases hav : a = v
    · simp [State.enter, hav]
    · simp [State.enter, hav, h.onStack_iff]
  · refine List.pairwise_cons.2 ⟨fun a ha => ?_, h.sorted.imp_of_mem fun ha hb hab => ?_⟩
    · rw [hnum a ha, hself]
      exact hlt a ha
    · rwa [hnum _ ha, hnum _ hb]
  · intro g hg
    rcases List.mem_cons.1 hg with rfl | hg
    · exact List.mem_cons_self
    · exact List.mem_cons_of_mem _ (hopen g hg)
  · refine List.pairwise_cons.2 ⟨fun a ha => ?_, h.open_sorted.imp_of_mem fun ha hb hab => ?_⟩
    · rw [hnum a (hopen a ha), hself]
      exact hlt a (hopen a ha)
    · rwa [hnum _ (hopen _ ha), hnum _ (hopen _ hb)]
  · rintro a w (haw | ⟨rfl, hw⟩)
    · exact ⟨List.mem_cons_of_mem _ (h.pending_open a w haw).1, (h.pending_open a w haw).2⟩
    · exact ⟨List.mem_cons_self, hw⟩
  · intro g hg s hs hle
    rcases List.mem_cons.1 hg with rfl | hg' <;> rcases List.mem_cons.1 hs with rfl | hs'
    · exact .refl
    · rw [hself, hnum s hs'] at hle
      exact absurd (hlt s hs') (Nat.not_lt.2 hle)
    · exact hreach g hg'
    · rw [hnum g (hopen g hg'), hnum s hs'] at hle
      exact h.reach_up g hg' s hs' hle
  · intro s hs
    rcases List.mem_cons.1 hs with rfl | hs
    · exact ⟨s, List.mem_cons_self, le_rfl, .refl⟩
    · obtain ⟨g, hg, hle, hsg⟩ := h.reach_open s hs
      refine ⟨g, List.mem_cons_of_mem _ hg, ?_, hsg⟩
      rwa [hnum g (hopen g hg), hnum s hs]
  · intro g hg
    rcases List.mem_cons.1 hg with rfl | hg
    · rw [hself, hlowself]
    · rw [hnum g (hopen g hg), hlow g (hopen g hg)]
      exact h.low_le g hg
  · intro g hg
    rcases List.mem_cons.1 hg with rfl | hg
    · exact ⟨g, List.mem_cons_self, hself.trans hlowself.symm, .refl⟩
    · obtain ⟨u, hu, heq, hgu⟩ := h.low_reach g hg
      refine ⟨u, List.mem_cons_of_mem _ hu, ?_, hgu⟩
      rw [hnum u hu, hlow g (hopen g hg), heq]
  · intro s hs' w hw
    rcases List.mem_cons.1 hs' with rfl | hs
    · exact .inl (.inr ⟨rfl, hw⟩)
    rcases h.handled s hs w hw with hpend | ⟨hwi, hcross⟩
    · exact .inl (.inl hpend)
    -- an edge that was scanned before does not lead to the new node
    refine .inr ⟨(hindex w).2 (.inr hwi), fun hmem' g hg' hlow' hle => ?_⟩
    rcases List.mem_cons.1 hmem' with rfl | hmem
    · simp [hv] at hwi
    rcases List.mem_cons.1 hg' with rfl | hg
    · rw [hself, hnum s hs] at hle
      exact absurd (hlt s hs) (Nat.not_lt.2 hle)
    · rw [hnum w hmem, hnum g (hopen g hg)] at hlow'
      rw [hnum g (hopen g hg), hnum s hs] at hle
      obtain ⟨o, ho, h₁, h₂, h₃⟩ := hcross hmem g hg hlow' hle
      refine ⟨o, List.mem_cons_of_mem _ ho, ?_⟩
      rw [hnum g (hopen g hg), hnum o (hopen o ho), hnum s hs, hlow o (hopen o ho), hnum w hmem]
      exact ⟨h₁, h₂, h₃⟩

/-- An open node learns of a node on the stack that it reaches. -/
lemma lower (h : Inv succ V st opened Pending) {v u : α} (hv : v ∈ opened) (hu : u ∈ st.stack)
    (hvu : Reach succ v u) : Inv succ V (st.lower v (st.num u)) opened Pending := by
  have hself : (st.lower v (st.num u)).lowlink v = min (st.lowlink v) (st.num u) :=
    Function.update_self _ _ _
  have hother : ∀ a, a ≠ v → (st.lower v (st.num u)).lowlink a = st.lowlink a := fun a ha =>
    Function.update_of_ne ha _ _
  have hle : ∀ a, (st.lower v (st.num u)).lowlink a ≤ st.lowlink a := by
    intro a
    by_cases hav : a = v
    · rw [hav, hself]
      exact min_le_left _ _
    · exact (hother a hav).le
  refine { h with
    low_le := fun g hg => (hle g).trans (h.low_le g hg)
    low_reach := fun g hg => ?_
    handled := fun s hs w hw => ?_ }
  · by_cases hgv : g = v
    · subst hgv
      rw [hself]
      rcases le_total (st.lowlink g) (st.num u) with hmin | hmin
      · rw [min_eq_left hmin]
        exact h.low_reach g hg
      · rw [min_eq_right hmin]
        exact ⟨u, hu, rfl, hvu⟩
    · rw [hother g hgv]
      exact h.low_reach g hg
  · refine (h.handled s hs w hw).imp_right fun hdone => ⟨hdone.1, fun hmem g hg hlow hgs => ?_⟩
    obtain ⟨o, ho, h₁, h₂, h₃⟩ := hdone.2 hmem g hg hlow hgs
    exact ⟨o, ho, h₁, h₂, (hle o).trans h₃⟩

end Inv

/-- The scan handles edges up to the first node without an index. -/
lemma exists_scan {v : α} (hv : v ∈ opened) (ws : List α)
    (h : Inv succ V st opened fun a w => Pending a w ∨ a = v ∧ w ∈ ws) :
    ∃ st', st'.index = st.index ∧
      (st.scan v ws = (st', none) ∧ Inv succ V st' opened Pending ∨
        ∃ w ws', st.scan v ws = (st', some (w, ws')) ∧ st.index w = none ∧
          Inv succ V st' opened fun a x => Pending a x ∨ a = v ∧ x ∈ w :: ws') := by
  induction ws generalizing st with
  | nil =>
    refine ⟨st, rfl, .inl ⟨rfl, h.scanned (fun a w haw => h.pending_open a w (.inl haw)) ?_⟩⟩
    intro a w haw
    rcases haw with haw | ⟨-, hw⟩
    · exact .inl haw
    · cases hw
  | cons w ws ih =>
    cases hw : st.index w with
    | none => exact ⟨st, rfl, .inr ⟨w, ws, by rw [State.scan, hw], hw, h⟩⟩
    | some i =>
      have hsucc : w ∈ succ v := (h.pending_open v w (.inr ⟨rfl, List.mem_cons_self⟩)).2
      have hi : st.num w = i := by rw [State.num, hw, Option.getD_some]
      -- what is left after the edge from `v` to `w`
      have hnext : ∀ {st'}, Inv succ V st' opened (fun a x => Pending a x ∨ a = v ∧ x ∈ w :: ws) →
          Handled st' opened v w →
            Inv succ V st' opened fun a x => Pending a x ∨ a = v ∧ x ∈ ws := by
        intro st' h' hdone
        refine h'.scanned (fun a x hax => h'.pending_open a x ?_) fun a x hax => ?_
        · exact hax.imp_right fun hx => ⟨hx.1, List.mem_cons_of_mem _ hx.2⟩
        · rcases hax with hax | ⟨rfl, hx⟩
          · exact .inl (.inl hax)
          rcases List.mem_cons.1 hx with rfl | hx
          · exact .inr hdone
          · exact .inl (.inr ⟨rfl, hx⟩)
      by_cases hon : st.onStack w = true
      · have hmem := (h.onStack_iff w).1 hon
        have hlower := h.lower hv hmem (.single hsucc)
        have hdone : Handled (st.lower v (st.num w)) opened v w := by
          refine ⟨h.indexed hmem, fun _ g _ _ hgv => ⟨v, hv, hgv, le_rfl, ?_⟩⟩
          exact (Function.update_self v _ st.lowlink).le.trans (min_le_right _ _)
        obtain ⟨st', hindex, hres⟩ := ih (hnext hlower hdone)
        rw [hi] at hres
        refine ⟨st', hindex, ?_⟩
        rw [State.scan, hw]
        simp only [if_pos hon]
        exact hres
      · have hdone : Handled st opened v w := by
          refine ⟨by rw [hw]; rfl, fun hmem => ?_⟩
          exact absurd ((h.onStack_iff w).2 hmem) hon
        obtain ⟨st', hindex, hres⟩ := ih (hnext h hdone)
        refine ⟨st', hindex, ?_⟩
        rw [State.scan, hw]
        simpa only [if_neg hon] using hres

namespace Inv

variable {v : α}

omit [DecidableEq α] in
lemma top (h : Inv succ V st (v :: opened) Pending) :
    v ∈ st.stack ∧ (∀ g ∈ opened, st.num g < st.num v) ∧
      ∀ g ∈ v :: opened, st.num v ≤ st.num g → g = v := by
  have hlt := (List.pairwise_cons.1 h.open_sorted).1
  refine ⟨h.open_mem v List.mem_cons_self, hlt, fun g hg hle => ?_⟩
  rcases List.mem_cons.1 hg with rfl | hg
  · rfl
  · exact absurd (hlt g hg) (Nat.not_lt.2 hle)

/-- The last open node is left, if it reaches a node below it. The caller accounts for its edges. -/
lemma leave {p : α} (h : Inv succ V st (v :: p :: opened) Pending) (hv : ∀ w, ¬ Pending v w)
    (hlow : st.lowlink v < st.num v) :
    Inv succ V (st.lower p (st.lowlink v)) (p :: opened) Pending := by
  obtain ⟨u, hu, hnum, hvu⟩ := h.low_reach v List.mem_cons_self
  obtain ⟨hmem, hlt, -⟩ := h.top
  have hpu : Reach succ p u := by
    refine (h.reach_up p ?_ v hmem (hlt p List.mem_cons_self).le).trans hvu
    exact List.mem_cons_of_mem _ List.mem_cons_self
  have hp := h.lower (List.mem_cons_of_mem _ List.mem_cons_self) hu hpu
  rw [hnum] at hp
  have hpv : p ≠ v := fun heq => (hlt p List.mem_cons_self).ne (congrArg st.num heq)
  refine { hp with
    open_mem := fun g hg => hp.open_mem g (List.mem_cons_of_mem _ hg)
    open_sorted := (List.pairwise_cons.1 hp.open_sorted).2
    pending_open := fun a w haw => ?_
    reach_up := fun g hg => hp.reach_up g (List.mem_cons_of_mem _ hg)
    reach_open := fun s hs => ?_
    low_le := fun g hg => hp.low_le g (List.mem_cons_of_mem _ hg)
    low_reach := fun g hg => hp.low_reach g (List.mem_cons_of_mem _ hg)
    handled := fun s hs w hw => ?_ }
  · obtain ⟨ha, hw⟩ := h.pending_open a w haw
    rcases List.mem_cons.1 ha with rfl | ha
    · exact absurd haw (hv w)
    · exact ⟨ha, hw⟩
  · obtain ⟨g, hg, hle, hsg⟩ := h.reach_open s hs
    rcases List.mem_cons.1 hg with rfl | hg
    · -- over the lowlink to an open node below
      obtain ⟨g', hg', hle', hug⟩ := h.reach_open u hu
      have hlt' : st.num g' < st.num g := hle'.trans_lt (hnum ▸ hlow)
      rcases List.mem_cons.1 hg' with rfl | hg'
      · exact absurd hlt' (lt_irrefl _)
      · exact ⟨g', hg', hlt'.le.trans hle, hsg.trans (hvu.trans hug)⟩
    · exact ⟨g, hg, hle, hsg⟩
  · refine (hp.handled s hs w hw).imp_right fun hdone => ⟨hdone.1, fun hw' g hg hwg hgs => ?_⟩
    obtain ⟨o, ho, h₁, h₂, h₃⟩ := hdone.2 hw' g (List.mem_cons_of_mem _ hg) hwg hgs
    rcases List.mem_cons.1 ho with rfl | ho
    · -- the caller takes the place of the node that is left
      have hgp : st.num g ≤ st.num p := by
        rcases List.mem_cons.1 hg with rfl | hg
        · exact le_rfl
        · exact ((List.pairwise_cons.1 (List.pairwise_cons.1 h.open_sorted).2).1 g hg).le
      refine ⟨p, List.mem_cons_self, hgp, (hlt p List.mem_cons_self).le.trans h₂, ?_⟩
      have hlow' : (st.lower p (st.lowlink o)).lowlink o = st.lowlink o :=
        Function.update_of_ne hpv.symm _ _
      calc (st.lower p (st.lowlink o)).lowlink p
          = min (st.lowlink p) (st.lowlink o) := Function.update_self _ _ _
        _ ≤ st.lowlink o := min_le_right _ _
        _ ≤ st.num w := hlow' ▸ h₃
    · exact ⟨o, ho, h₁, h₂, h₃⟩

end Inv

/-! ### Components -/

lemma mem_popTo (num : α → ℕ) {v : α} {stack : List α}
    (hsorted : stack.Pairwise fun a b => num b < num a) (hv : v ∈ stack) (a : α) :
    (a ∈ (State.popTo v stack).1 ↔ a ∈ stack ∧ num v ≤ num a) ∧
      (a ∈ (State.popTo v stack).2 ↔ a ∈ stack ∧ num a < num v) := by
  induction stack with
  | nil => cases hv
  | cons w stack ih =>
    obtain ⟨hw, hsorted⟩ := List.pairwise_cons.1 hsorted
    by_cases hwv : w = v
    · subst hwv
      simp only [State.popTo, if_pos, List.mem_cons, List.not_mem_nil, or_false]
      constructor
      · constructor
        · rintro rfl
          exact ⟨.inl rfl, le_rfl⟩
        · rintro ⟨rfl | ha, hle⟩
          · rfl
          · exact absurd (hw a ha) (Nat.not_lt.2 hle)
      · constructor
        · exact fun ha => ⟨.inr ha, hw a ha⟩
        · rintro ⟨rfl | ha, hlt⟩
          · exact absurd hlt (lt_irrefl _)
          · exact ha
    · have hv' : v ∈ stack := (List.mem_cons.1 hv).resolve_left (Ne.symm hwv)
      obtain ⟨ih₁, ih₂⟩ := ih hsorted hv'
      have hlt := hw v hv'
      simp only [State.popTo, if_neg hwv, List.mem_cons, ih₁, ih₂]
      constructor
      · constructor
        · rintro (rfl | ⟨ha, hle⟩)
          · exact ⟨.inl rfl, hlt.le⟩
          · exact ⟨.inr ha, hle⟩
        · rintro ⟨rfl | ha, hle⟩
          · exact .inl rfl
          · exact .inr ⟨ha, hle⟩
      · constructor
        · exact fun ha => ⟨.inr ha.1, ha.2⟩
        · rintro ⟨rfl | ha, hlt'⟩
          · exact absurd (hlt'.trans hlt) (lt_irrefl _)
          · exact ⟨ha, hlt'⟩

lemma popTo_sublist (v : α) (stack : List α) : ((State.popTo v stack).2).Sublist stack := by
  induction stack with
  | nil => exact .slnil
  | cons w stack ih =>
    rw [State.popTo]
    split_ifs
    · exact List.sublist_cons_self w stack
    · exact ih.cons w

lemma mem_assign {id : ℕ} {nodes : List α} {cs : List (α × ℕ)} {c : α × ℕ} :
    c ∈ State.assign id nodes cs ↔ c.1 ∈ nodes ∧ c.2 = id ∨ c.1 ∉ nodes ∧ c ∈ cs := by
  rw [State.assign]
  induction nodes generalizing cs with
  | nil => simp
  | cons w nodes ih =>
    rw [List.foldl_cons, ih, List.mem_cons, List.mem_filter, List.mem_cons, Prod.ext_iff]
    by_cases hmem : c.1 ∈ nodes
    · simp [hmem]
    · by_cases hw : c.1 = w
      · subst hw
        simp [hmem]
      · simp [hmem, hw]

lemma nodup_assign {id : ℕ} {nodes : List α} {cs : List (α × ℕ)} (h : (cs.map Prod.fst).Nodup) :
    ((State.assign id nodes cs).map Prod.fst).Nodup := by
  rw [State.assign]
  induction nodes generalizing cs with
  | nil => exact h
  | cons w nodes ih =>
    refine ih (List.nodup_cons.2 ⟨fun hmem => ?_, h.sublist (List.filter_sublist.map _)⟩)
    obtain ⟨c, hc, rfl⟩ := List.mem_map.1 hmem
    simp at hc

namespace Inv

variable {v : α}

omit [DecidableEq α] in
lemma closed_of_reach (h : Inv succ V st opened Pending) {a b : α} (ha : st.Closed a)
    (hab : Reach succ a b) : st.Closed b := by
  induction hab with
  | refl => exact ha
  | tail _ hstep ih => exact h.closed _ ih _ hstep

omit [DecidableEq α] in
/-- No edge leaves the nodes above the last open node, if its lowlink is its number. -/
lemma closed_above (h : Inv succ V st (v :: opened) Pending) (hv : ∀ w, ¬ Pending v w)
    (hlow : st.lowlink v = st.num v) {s w : α} (hs : s ∈ st.stack) (hle : st.num v ≤ st.num s)
    (hw : w ∈ succ s) : w ∈ st.stack ∧ st.num v ≤ st.num w ∨ st.Closed w := by
  obtain ⟨hmem, hlt, htop⟩ := h.top
  have hdone : Handled st (v :: opened) s w := by
    refine (h.handled s hs w hw).resolve_left fun hpend => ?_
    obtain rfl := htop s (h.pending_open s w hpend).1 hle
    exact hv w hpend
  rcases (h.indexed_iff w).1 hdone.1 with hstack | hclosed
  · refine .inl ⟨hstack, Nat.not_lt.1 fun hwv => ?_⟩
    obtain ⟨o, ho, hvo, -, how⟩ := hdone.2 hstack v List.mem_cons_self hwv hle
    obtain rfl := htop o ho hvo
    exact absurd (hlow ▸ how) (Nat.not_le.2 hwv)
  · exact .inr hclosed

omit [DecidableEq α] in
lemma reach_above (h : Inv succ V st (v :: opened) Pending) (hv : ∀ w, ¬ Pending v w)
    (hlow : st.lowlink v = st.num v) {s t : α} (hs : s ∈ st.stack) (hle : st.num v ≤ st.num s)
    (hst : Reach succ s t) : t ∈ st.stack ∧ st.num v ≤ st.num t ∨ st.Closed t := by
  induction hst with
  | refl => exact .inl ⟨hs, hle⟩
  | tail _ hstep ih =>
    rcases ih with ⟨hmem, hle'⟩ | hclosed
    · exact h.closed_above hv hlow hmem hle' hstep
    · exact .inr (h.closed _ hclosed _ hstep)

omit [DecidableEq α] in
/-- The nodes above the last open node are its component. -/
lemma component (h : Inv succ V st (v :: opened) Pending) (hv : ∀ w, ¬ Pending v w)
    (hlow : st.lowlink v = st.num v) {s : α} (hs : s ∈ st.stack) (hle : st.num v ≤ st.num s) :
    Reach succ v s ∧ Reach succ s v := by
  refine ⟨h.reach_up v List.mem_cons_self s hs hle, ?_⟩
  obtain ⟨g, hg, -, hsg⟩ := h.reach_open s hs
  rcases h.reach_above hv hlow hs hle hsg with ⟨-, hvg⟩ | hclosed
  · obtain rfl := h.top.2.2 g hg hvg
    exact hsg
  · exact absurd hclosed (h.not_closed g (h.open_mem g hg))

/-- The component of the last open node is closed. -/
lemma close (h : Inv succ V st (v :: opened) Pending) (hv : ∀ w, ¬ Pending v w)
    (hlow : st.lowlink v = st.num v) : Inv succ V (st.close v) opened Pending := by
  obtain ⟨hmem, hlt, htop⟩ := h.top
  have hpop := fun a => mem_popTo st.num h.sorted hmem a
  have hstack : ∀ a, a ∈ (st.close v).stack ↔ a ∈ st.stack ∧ st.num a < st.num v :=
    fun a => (hpop a).2
  have hcomp : ∀ c, c ∈ (st.close v).components ↔
      (c.1 ∈ st.stack ∧ st.num v ≤ st.num c.1) ∧ c.2 = st.currentSccId ∨ c ∈ st.components := by
    intro c
    rw [State.close, mem_assign, (hpop c.1).1]
    refine or_congr_right ⟨And.right, fun hc => ⟨fun habove => ?_, hc⟩⟩
    exact h.not_closed c.1 habove.1 (List.mem_map_of_mem hc)
  have hclosed : ∀ a, (st.close v).Closed a ↔
      a ∈ st.stack ∧ st.num v ≤ st.num a ∨ st.Closed a := by
    intro a
    simp only [State.Closed, List.mem_map, hcomp]
    constructor
    · rintro ⟨c, ⟨hc, -⟩ | hc, rfl⟩
      · exact .inl hc
      · exact .inr ⟨c, hc, rfl⟩
    · rintro (ha | ⟨c, hc, rfl⟩)
      · exact ⟨(a, st.currentSccId), .inl ⟨ha, rfl⟩, rfl⟩
      · exact ⟨c, .inr hc, rfl⟩
  refine
    { mem := h.mem
      index_lt := h.index_lt
      indexed_iff := fun a => ?_
      not_closed := fun a ha => ?_
      onStack_iff := fun a => ?_
      sorted := h.sorted.sublist (popTo_sublist v st.stack)
      open_mem := fun g hg => (hstack g).2 ⟨h.open_mem g (List.mem_cons_of_mem _ hg), hlt g hg⟩
      open_sorted := (List.pairwise_cons.1 h.open_sorted).2
      pending_open := fun a w haw => ?_
      reach_up := fun g hg s hs => h.reach_up g (List.mem_cons_of_mem _ hg) s ((hstack s).1 hs).1
      reach_open := fun s hs => ?_
      low_le := fun g hg => h.low_le g (List.mem_cons_of_mem _ hg)
      low_reach := fun g hg => ?_
      handled := fun s hs w hw => ?_
      closed := fun a ha w hw => ?_
      nodup := nodup_assign h.nodup
      id_lt := fun c hc => ?_
      same_iff := ?_ }
  · rw [hstack, hclosed, ← or_assoc, ← and_or_left, and_iff_left (lt_or_ge _ _)]
    exact h.indexed_iff a
  · obtain ⟨ha, hav⟩ := (hstack a).1 ha
    rw [hclosed, not_or]
    exact ⟨fun habove => absurd hav (Nat.not_lt.2 habove.2), h.not_closed a ha⟩
  · have hpop' := (hpop a).1
    rw [hstack, State.close]
    simp only [Bool.and_eq_true, h.onStack_iff, Bool.not_eq_true', List.contains_eq_mem,
      decide_eq_false_iff_not, hpop', not_and, not_le]
    exact ⟨fun ha => ⟨ha.1, ha.2 ha.1⟩, fun ha => ⟨ha.1, fun _ => ha.2⟩⟩
  · obtain ⟨ha, hw⟩ := h.pending_open a w haw
    rcases List.mem_cons.1 ha with rfl | ha
    · exact absurd haw (hv w)
    · exact ⟨ha, hw⟩
  · obtain ⟨hs, hsv⟩ := (hstack s).1 hs
    obtain ⟨g, hg, hle, hsg⟩ := h.reach_open s hs
    rcases List.mem_cons.1 hg with rfl | hg
    · exact absurd hsv (Nat.not_lt.2 hle)
    · exact ⟨g, hg, hle, hsg⟩
  · have hg' := List.mem_cons_of_mem v hg
    obtain ⟨u, hu, hnum, hgu⟩ := h.low_reach g hg'
    refine ⟨u, (hstack u).2 ⟨hu, ?_⟩, hnum, hgu⟩
    rw [hnum]
    exact (h.low_le g hg').trans_lt (hlt g hg)
  · obtain ⟨hs, hsv⟩ := (hstack s).1 hs
    refine (h.handled s hs w hw).imp_right fun hdone => ⟨hdone.1, fun hw' g hg hwg hgs => ?_⟩
    obtain ⟨o, ho, h₁, h₂, h₃⟩ :=
      hdone.2 ((hstack w).1 hw').1 g (List.mem_cons_of_mem _ hg) hwg hgs
    rcases List.mem_cons.1 ho with rfl | ho
    · exact absurd hsv (Nat.not_lt.2 h₂)
    · exact ⟨o, ho, h₁, h₂, h₃⟩
  · rw [hclosed] at ha ⊢
    rcases ha with ⟨ha, hle⟩ | ha
    · exact h.closed_above hv hlow ha hle hw
    · exact .inr (h.closed a ha w hw)
  · rcases (hcomp c).1 hc with ⟨-, hid⟩ | hc
    · rw [hid]
      exact Nat.lt_succ_self _
    · exact (h.id_lt c hc).trans (Nat.lt_succ_self _)
  · -- a closed node does not reach the new component
    have hnew : ∀ c d : α × ℕ, (c.1 ∈ st.stack ∧ st.num v ≤ st.num c.1) ∧ c.2 = st.currentSccId →
        d ∈ st.components → c.2 ≠ d.2 ∧ ¬ Reach succ d.1 c.1 := by
      rintro c d ⟨⟨hc, -⟩, hid⟩ hd
      refine ⟨fun heq => (h.id_lt d hd).ne (heq.symm.trans hid), fun hreach => ?_⟩
      exact h.not_closed c.1 hc (h.closed_of_reach (List.mem_map_of_mem hd) hreach)
    intro c hc d hd
    rcases (hcomp c).1 hc with hc | hc <;> rcases (hcomp d).1 hd with hd | hd
    · obtain ⟨hvc, hcv⟩ := h.component hv hlow hc.1.1 hc.1.2
      obtain ⟨hvd, hdv⟩ := h.component hv hlow hd.1.1 hd.1.2
      exact iff_of_true (hc.2.trans hd.2.symm) ⟨hcv.trans hvd, hdv.trans hvc⟩
    · obtain ⟨hne, hnot⟩ := hnew c d hc hd
      exact iff_of_false hne fun hreach => hnot hreach.2
    · obtain ⟨hne, hnot⟩ := hnew d c hd hc
      exact iff_of_false hne.symm fun hreach => hnot hreach.1
    · exact h.same_iff c hc d hd

lemma finish {calls : List (Frame α)} (h : Inv succ V st (v :: calls.map Frame.v) Pending)
    (hv : ∀ w, ¬ Pending v w) :
    Inv succ V (st.finish v calls) (calls.map Frame.v) Pending ∧
      (st.finish v calls).index = st.index := by
  obtain ⟨hmem, hlt, -⟩ := h.top
  have hindex : st.index v = some (st.num v) := by
    obtain ⟨i, hi⟩ := Option.isSome_iff_exists.1 (h.indexed hmem)
    rw [State.num, hi, Option.getD_some]
  have hle := h.low_le v List.mem_cons_self
  cases calls with
  | nil =>
    have hroot : st.lowlink v = st.num v := by
      -- the lowlink belongs to a node that reaches an open node, and there is no other
      obtain ⟨u, hu, hnum, -⟩ := h.low_reach v List.mem_cons_self
      obtain ⟨g, hg, hgu, -⟩ := h.reach_open u hu
      obtain rfl : g = v := List.mem_singleton.1 hg
      exact le_antisymm hle (hnum ▸ hgu)
    have heq : st.finish v [] = st.close v := by
      simp only [State.finish]
      rw [if_pos (hindex ▸ congrArg some hroot)]
    rw [heq]
    exact ⟨h.close hv hroot, rfl⟩
  | cons parent calls =>
    have hpv : v ≠ parent.v := fun heq => (hlt parent.v List.mem_cons_self).ne (heq ▸ rfl)
    have hlow : (st.lower parent.v (st.lowlink v)).lowlink v = st.lowlink v :=
      Function.update_of_ne hpv _ _
    by_cases hroot : st.lowlink v = st.num v
    · -- the caller's lowlink is lower already
      have hparent : st.lower parent.v (st.lowlink v) = st := by
        have hmin : min (st.lowlink parent.v) (st.lowlink v) = st.lowlink parent.v := by
          rw [hroot]
          have hp := h.low_le parent.v (List.mem_cons_of_mem _ List.mem_cons_self)
          exact min_eq_left (hp.trans (hlt parent.v List.mem_cons_self).le)
        rw [State.lower, hmin, Function.update_eq_self]
      have heq : st.finish v (parent :: calls) = st.close v := by
        simp only [State.finish, hparent]
        rw [if_pos (hindex ▸ congrArg some hroot)]
      rw [heq]
      exact ⟨h.close hv hroot, rfl⟩
    · have heq : st.finish v (parent :: calls) = st.lower parent.v (st.lowlink v) := by
        simp only [State.finish, hlow]
        refine if_neg fun heq => hroot ?_
        exact Option.some.inj (heq.trans hindex)
      rw [heq]
      exact ⟨h.leave hv (lt_of_le_of_ne hle hroot), rfl⟩

end Inv

/-! ### Runs -/

/-- The edges that the frames have still to scan. -/
def PendingIn (calls : List (Frame α)) (a w : α) : Prop :=
  ∃ f ∈ calls, f.v = a ∧ w ∈ f.neighbors

/-- The nodes that are not entered. -/
def unvisited (V : Finset α) (st : State α) : ℕ := (V.filter fun a => st.index a = none).card

/-- The loop ends within `n` turns from here. Either all nodes with a frame are entered, or all but
the last. An edge to a node that is about to be entered counts as pending. -/
inductive Ready (succ : α → List α) (V : Finset α) (n : ℕ) (st : State α) :
    List (Frame α) → Prop
  | entered {calls : List (Frame α)} (hall : ∀ f ∈ calls, f.hasPushedChildren = true)
    (hinv : Inv succ V st (calls.map Frame.v) (PendingIn calls))
    (hn : 3 * unvisited V st + calls.length ≤ n) : Ready succ V n st calls
  | fresh {calls : List (Frame α)} {v : α} (hall : ∀ f ∈ calls, f.hasPushedChildren = true)
    (hv : st.index v = none) (hV : v ∈ V) (hreach : ∀ g ∈ calls.map Frame.v, Reach succ g v)
    (hinv : Inv succ V st (calls.map Frame.v) fun a w =>
      PendingIn calls a w ∨ a ∈ calls.map Frame.v ∧ w = v ∧ v ∈ succ a)
    (hn : 3 * unvisited V st + calls.length ≤ n + 1) :
    Ready succ V n st (⟨v, succ v, false⟩ :: calls)

omit [DecidableEq α] in
lemma unvisited_congr {st st' : State α} (h : st'.index = st.index) :
    unvisited V st' = unvisited V st := by
  rw [unvisited, unvisited, h]

lemma unvisited_enter {v : α} (hv : st.index v = none) (hV : v ∈ V) :
    unvisited V (st.enter v) + 1 = unvisited V st := by
  have heq : (V.filter fun a => (st.enter v).index a = none) =
      (V.filter fun a => st.index a = none).erase v := by
    ext a
    rw [Finset.mem_erase, Finset.mem_filter, Finset.mem_filter]
    by_cases hav : a = v
    · simp [State.enter, hav]
    · simp [State.enter, hav]
  rw [unvisited, unvisited, heq]
  exact Finset.card_erase_add_one (Finset.mem_filter.2 ⟨hV, hv⟩)

/-- The last node is entered, and the loop descends from it or leaves it. -/
lemma exists_advance (hV : ∀ a ∈ V, ∀ w ∈ succ a, w ∈ V) {n : ℕ} {f : Frame α}
    {calls : List (Frame α)} (hall : ∀ g ∈ calls, g.hasPushedChildren = true)
    (h : Inv succ V st (f.v :: calls.map Frame.v) fun a w =>
      PendingIn calls a w ∨ a = f.v ∧ w ∈ f.neighbors)
    (hn : 3 * unvisited V st + calls.length ≤ n) :
    ∃ st' calls', advance succ st f calls = (st', calls') ∧ Ready succ V n st' calls' ∧
      st'.index = st.index := by
  have hopen : ∀ w, ¬ PendingIn calls f.v w := by
    rintro w ⟨g, hg, hgv, -⟩
    exact ((h.top).2.1 g.v (List.mem_map_of_mem hg)).ne (congrArg st.num hgv)
  obtain ⟨st', hindex, ⟨hscan, hinv⟩ | ⟨w, ws, hscan, hw, hinv⟩⟩ :=
    exists_scan List.mem_cons_self f.neighbors h
  · obtain ⟨hfinish, hindex'⟩ := hinv.finish hopen
    refine ⟨st'.finish f.v calls, calls, by rw [advance, hscan], .entered hall hfinish ?_,
      hindex'.trans hindex⟩
    rwa [unvisited_congr (hindex'.trans hindex)]
  · obtain ⟨-, hsucc⟩ := hinv.pending_open f.v w (.inr ⟨rfl, List.mem_cons_self⟩)
    have hmem := hinv.top.1
    refine ⟨st', _, by rw [advance, hscan], .fresh ?_ (hindex ▸ hw) ?_ ?_ ?_ ?_, hindex⟩
    · intro g hg
      rcases List.mem_cons.1 hg with rfl | hg
      · rfl
      · exact hall g hg
    · exact hV f.v (hinv.mem f.v (hinv.indexed hmem)) w hsucc
    · intro g hg
      rcases List.mem_cons.1 hg with rfl | hg'
      · exact .single hsucc
      · exact (hinv.reach_up g hg f.v hmem (hinv.top.2.1 g hg').le).tail hsucc
    · refine hinv.scanned ?_ ?_
      · rintro a x (⟨g, hg, rfl, hx⟩ | ⟨ha, rfl, hx⟩)
        · rcases List.mem_cons.1 hg with rfl | hg
          · exact hinv.pending_open _ _ (.inr ⟨rfl, List.mem_cons_of_mem _ hx⟩)
          · exact hinv.pending_open _ _ (.inl ⟨g, hg, rfl, hx⟩)
        · exact ⟨ha, hx⟩
      · rintro a x (⟨g, hg, rfl, hx⟩ | ⟨rfl, hx⟩)
        · exact .inl (.inl ⟨g, List.mem_cons_of_mem _ hg, rfl, hx⟩)
        · rcases List.mem_cons.1 hx with rfl | hx
          · exact .inl (.inr ⟨List.mem_cons_self, rfl, hsucc⟩)
          · exact .inl (.inl ⟨_, List.mem_cons_self, rfl, hx⟩)
    · rw [unvisited_congr hindex, List.length_cons]
      omega

lemma exists_step (hV : ∀ a ∈ V, ∀ w ∈ succ a, w ∈ V) {n : ℕ} {f : Frame α}
    {calls : List (Frame α)} (h : Ready succ V (n + 1) st (f :: calls)) :
    ∃ st' calls', step succ st f calls = (st', calls') ∧ Ready succ V n st' calls' ∧
      ∀ a, a = f.v ∨ (st.index a).isSome → (st'.index a).isSome := by
  rw [step]
  cases h with
  | entered hall hinv hn =>
    have hf := hall f List.mem_cons_self
    have hscan : Inv succ V st (f.v :: calls.map Frame.v) fun a w =>
        PendingIn calls a w ∨ a = f.v ∧ w ∈ f.neighbors := by
      refine hinv.scanned ?_ ?_
      · rintro a w (⟨g, hg, rfl, hw⟩ | ⟨rfl, hw⟩)
        · exact hinv.pending_open _ _ ⟨g, List.mem_cons_of_mem _ hg, rfl, hw⟩
        · exact hinv.pending_open _ _ ⟨f, List.mem_cons_self, rfl, hw⟩
      · rintro a w ⟨g, hg, rfl, hw⟩
        rcases List.mem_cons.1 hg with rfl | hg
        · exact .inl (.inr ⟨rfl, hw⟩)
        · exact .inl (.inl ⟨g, hg, rfl, hw⟩)
    have hn' : 3 * unvisited V st + calls.length ≤ n := Nat.le_of_succ_le_succ hn
    obtain ⟨st', calls', heq, hready, hindex⟩ :=
      exists_advance hV (fun g hg => hall g (List.mem_cons_of_mem _ hg)) hscan hn'
    rw [if_pos hf]
    refine ⟨st', calls', heq, hready, fun a ha => ?_⟩
    rw [hindex]
    rcases ha with rfl | ha
    · exact hinv.indexed hinv.top.1
    · exact ha
  | @fresh calls v hall hv hVv hreach hinv hn =>
    have henter := hinv.enter hv hVv hreach
    have hscan : Inv succ V (st.enter v) (v :: calls.map Frame.v) fun a w =>
        PendingIn calls a w ∨ a = v ∧ w ∈ succ v := by
      refine henter.scanned (fun a w haw => henter.pending_open a w (haw.imp_left .inl)) ?_
      rintro a w ((hpend | ⟨-, rfl, -⟩) | hself)
      · exact .inl (.inl hpend)
      · -- the node just entered has the highest number
        refine .inr ⟨henter.indexed List.mem_cons_self, fun _ g hg hlt _ => ?_⟩
        rcases List.mem_cons.1 hg with rfl | hg
        · exact absurd hlt (lt_irrefl _)
        · exact absurd hlt (henter.top.2.1 g hg).asymm
      · exact .inl (.inr hself)
    have hcard := unvisited_enter hv hVv
    have hn' : 3 * unvisited V (st.enter v) + calls.length ≤ n := by omega
    obtain ⟨st', calls', heq, hready, hindex⟩ :=
      exists_advance (f := ⟨v, succ v, false⟩) hV hall hscan hn'
    refine ⟨st', calls', heq, hready, fun a ha => ?_⟩
    rw [hindex]
    by_cases hav : a = v
    · simp [State.enter, hav]
    · have hsome := ha.resolve_left hav
      simpa [State.enter, Function.update_of_ne hav] using hsome

lemma Ready.eq_nil {calls : List (Frame α)} (h : Ready succ V 0 st calls) : calls = [] := by
  cases h with
  | entered hall hinv hn => exact List.length_eq_zero_iff.1 (by omega)
  | fresh hall hv hVv hreach hinv hn =>
    have hcard := unvisited_enter hv hVv
    omega

omit [DecidableEq α] in
lemma Ready.done {n : ℕ} (h : Ready succ V n st []) : Inv succ V st [] fun _ _ => False := by
  cases h with
  | entered hall hinv hn =>
    refine hinv.scanned (fun _ _ hfalse => hfalse.elim) ?_
    rintro a w ⟨f, hf, -⟩
    cases hf

/-- The loop ends, with all frames left. -/
lemma exists_loop (hV : ∀ a ∈ V, ∀ w ∈ succ a, w ∈ V) {n : ℕ} {calls : List (Frame α)}
    (h : Ready succ V n st calls) :
    ∃ st', loop succ n st calls = some st' ∧ Inv succ V st' [] (fun _ _ => False) ∧
      ∀ a, calls.head?.map Frame.v = some a ∨ (st.index a).isSome → (st'.index a).isSome := by
  induction n generalizing st calls with
  | zero =>
    obtain rfl := h.eq_nil
    exact ⟨st, rfl, h.done, fun a ha => ha.resolve_left (by simp)⟩
  | succ n ih =>
    cases calls with
    | nil => exact ⟨st, rfl, h.done, fun a ha => ha.resolve_left (by simp)⟩
    | cons f calls =>
      obtain ⟨st₁, calls₁, hstep, hready, hindex⟩ := exists_step hV h
      obtain ⟨st', hloop, hinv, hindex'⟩ := ih hready
      refine ⟨st', by rw [loop, hstep]; exact hloop, hinv, fun a ha => hindex' a (.inr ?_)⟩
      refine hindex a (ha.imp_left fun hf => ?_)
      exact (Option.some.inj hf).symm

omit [DecidableEq α] in
lemma inv_init : Inv succ V (State.init : State α) [] fun _ _ => False where
  mem _ h := by simp [State.init] at h
  index_lt _ _ h := by simp [State.init] at h
  indexed_iff a := by simp [State.init, State.Closed]
  not_closed _ h := by simp [State.init] at h
  onStack_iff _ := by simp [State.init]
  sorted := .nil
  open_mem _ h := by cases h
  open_sorted := .nil
  pending_open _ _ h := h.elim
  reach_up _ h := by cases h
  reach_open _ h := by simp [State.init] at h
  low_le _ h := by cases h
  low_reach _ h := by cases h
  handled _ h := by simp [State.init] at h
  closed _ h := by simp [State.init, State.Closed] at h
  nodup := .nil
  id_lt _ h := by simp [State.init] at h
  same_iff _ h := by simp [State.init] at h

/-- A search closes the components of all that the start reaches. -/
lemma exists_search (hV : ∀ a ∈ V, ∀ w ∈ succ a, w ∈ V) {fuel : ℕ} (hfuel : 3 * V.card ≤ fuel)
    (h : Inv succ V st [] fun _ _ => False) {start : α} (hstart : start ∈ V) :
    ∃ st', search succ fuel st start = some st' ∧ Inv succ V st' [] (fun _ _ => False) ∧
      ∀ a, a = start ∨ (st.index a).isSome → (st'.index a).isSome := by
  rw [search]
  cases hindex : st.index start with
  | some i =>
    refine ⟨st, if_neg (by simp), h, ?_⟩
    rintro a (rfl | ha)
    · rw [hindex]
      rfl
    · exact ha
  | none =>
    have hcard : unvisited V st ≤ V.card := Finset.card_filter_le _ _
    have hready : Ready succ V fuel st [⟨start, succ start, false⟩] := by
      refine .fresh (fun f hf => by cases hf) hindex hstart (fun g hg => by cases hg) ?_ ?_
      · refine h.scanned ?_ fun _ _ hfalse => hfalse.elim
        rintro a w (⟨f, hf, -⟩ | ⟨ha, -⟩)
        · cases hf
        · cases ha
      · rw [List.length_nil]
        omega
    obtain ⟨st', hloop, hinv, hmono⟩ := exists_loop hV hready
    refine ⟨st', by simpa using hloop, hinv, fun a ha => hmono a (ha.imp_left fun heq => ?_)⟩
    rw [heq]
    rfl

/-- The searches close the components of all nodes that are reached. -/
theorem exists_run (hV : ∀ a ∈ V, ∀ w ∈ succ a, w ∈ V) {fuel : ℕ} (hfuel : 3 * V.card ≤ fuel)
    (starts : List α) (hstarts : ∀ s ∈ starts, s ∈ V) :
    ∃ st, run succ fuel starts = some st ∧ (st.components.map Prod.fst).Nodup ∧
      (∀ s ∈ starts, st.Closed s) ∧ (∀ a, st.Closed a → a ∈ V ∧ ∀ w ∈ succ a, st.Closed w) ∧
      ∀ c ∈ st.components, ∀ d ∈ st.components,
        c.2 = d.2 ↔ Reach succ c.1 d.1 ∧ Reach succ d.1 c.1 := by
  suffices hrun : ∀ st₀, Inv succ V st₀ [] (fun _ _ => False) →
      ∃ st, starts.foldlM (search succ fuel) st₀ = some st ∧
        Inv succ V st [] (fun _ _ => False) ∧
        ∀ a, a ∈ starts ∨ (st₀.index a).isSome → (st.index a).isSome by
    obtain ⟨st, hrun, hinv, hindex⟩ := hrun State.init inv_init
    -- a node on the stack would reach an open node
    have hclosed : ∀ a, (st.index a).isSome → st.Closed a := by
      intro a ha
      refine ((hinv.indexed_iff a).1 ha).resolve_left fun hmem => ?_
      obtain ⟨g, hg, -⟩ := hinv.reach_open a hmem
      cases hg
    refine ⟨st, hrun, hinv.nodup, fun s hs => hclosed s (hindex s (.inl hs)), fun a ha => ?_,
      hinv.same_iff⟩
    exact ⟨hinv.mem a ((hinv.indexed_iff a).2 (.inr ha)), hinv.closed a ha⟩
  induction starts with
  | nil => exact fun st₀ h => ⟨st₀, rfl, h, fun a ha => ha.resolve_left (by simp)⟩
  | cons start starts ih =>
    intro st₀ h
    obtain ⟨st₁, hsearch, h₁, hmono₁⟩ := exists_search hV hfuel h (hstarts _ List.mem_cons_self)
    obtain ⟨st, hfold, hinv, hmono⟩ :=
      ih (fun s hs => hstarts s (List.mem_cons_of_mem _ hs)) st₁ h₁
    refine ⟨st, by rw [List.foldlM_cons, hsearch]; exact hfold, hinv, fun a ha => ?_⟩
    rcases ha with ha | ha
    · rcases List.mem_cons.1 ha with rfl | ha
      · exact hmono a (.inr (hmono₁ a (.inl rfl)))
      · exact hmono a (.inl ha)
    · exact hmono a (.inr (hmono₁ a (.inr ha)))

end Tarjan
