import Mathlib.Data.Finset.Card
import Mathlib.Order.Bounds.Basic
import Mathlib.Logic.Relation

/-!
# Components by labels

Nodes carry labels, which start as the nodes themselves. In a round each node takes the least label
at an incident edge (`IsStep`), labels are replaced twice by the labels of the labels, and the edges
are contracted to the labels of their ends (`Contracted`). The invariant is kept by a round:
`Inv.round`. If a round changes no label, the labels are the least nodes of the components:
`Inv.isLeast_of_unchanged`.

A node at an edge may leave its old label for a smaller one. The old label stays connected, as the
two are connected by edges: this is `Inv.label_edges`.
-/

namespace Labels

open Relation

variable {α : Type} [LinearOrder α]

/-- Each node takes the least of its label and the labels of its neighbours. -/
structure IsStep (V : Finset α) (label : α → α) (E : α → α → Prop) (p : α → α) : Prop where
  pick : ∀ v ∈ V, p v = label v ∨ ∃ u, E u v ∧ p v = label u
  le : ∀ v ∈ V, p v ≤ label v
  le_neighbor : ∀ u v, E u v → p v ≤ label u

/-- Four steps to the labels of labels, as two jumps make them. -/
def jumps (p : α → α) (v : α) : α := p (p (p (p v)))

/-- The edges between the labels of the ends. -/
def Contracted (label : α → α) (E : α → α → Prop) (a b : α) : Prop :=
  a ≠ b ∧ ∃ u v, E u v ∧ a = label u ∧ b = label v

/-- The edges and the labels connect what the relation `R` on `V` does. -/
structure Inv (R : α → α → Prop) (V : Finset α) (label : α → α) (E : α → α → Prop) : Prop where
  label_mem : ∀ v ∈ V, label v ∈ V
  label_le : ∀ v ∈ V, label v ≤ v
  label_connected : ∀ v ∈ V, EqvGen R v (label v)
  symm : ∀ u v, E u v → E v u
  mem : ∀ u v, E u v → u ∈ V
  edge_connected : ∀ u v, E u v → EqvGen R u v
  /-- A node at an edge is connected by edges to its label. -/
  label_edges : ∀ u v, E u v → EqvGen E u (label u)
  complete : ∀ u v, R u v → EqvGen (fun a b => E a b ∨ a ∈ V ∧ b = label a) u v

variable {R : α → α → Prop} {V : Finset α} {label p : α → α} {E : α → α → Prop}

omit [LinearOrder α] in
lemma eqvGen_of_forall {r s : α → α → Prop} (h : ∀ a b, r a b → EqvGen s a b) {a b : α}
    (hab : EqvGen r a b) : EqvGen s a b := by
  induction hab with
  | rel _ _ hab => exact h _ _ hab
  | refl => exact .refl _
  | symm _ _ _ ih => exact ih.symm
  | trans _ _ _ _ _ ih ih' => exact ih.trans _ _ _ ih'

namespace Inv

lemma step_mem (h : Inv R V label E) (hp : IsStep V label E p) : ∀ v ∈ V, p v ∈ V := by
  intro v hv
  rcases hp.pick v hv with heq | ⟨u, hu, heq⟩
  · rw [heq]
    exact h.label_mem v hv
  · rw [heq]
    exact h.label_mem u (h.mem u v hu)

lemma step_le (h : Inv R V label E) (hp : IsStep V label E p) : ∀ v ∈ V, p v ≤ v :=
  fun v hv => (hp.le v hv).trans (h.label_le v hv)

lemma step_connected (h : Inv R V label E) (hp : IsStep V label E p) :
    ∀ v ∈ V, EqvGen R v (p v) := by
  intro v hv
  rcases hp.pick v hv with heq | ⟨u, hu, heq⟩
  · rw [heq]
    exact h.label_connected v hv
  · rw [heq]
    exact (h.edge_connected u v hu).symm.trans _ _ _ (h.label_connected u (h.mem u v hu))

/-- A step from a node at an edge is along edges, and leads to a node at an edge or nowhere. -/
lemma step_edges (h : Inv R V label E) (hp : IsStep V label E p) {v : α}
    (hv : ∃ u, E u v) : EqvGen E v (p v) := by
  obtain ⟨u, hu⟩ := hv
  rcases hp.pick v (h.mem v u (h.symm u v hu)) with heq | ⟨w, hw, heq⟩
  · rw [heq]
    exact h.label_edges v u (h.symm u v hu)
  · rw [heq]
    exact (EqvGen.rel w v hw).symm.trans _ _ _ (h.label_edges w v hw)

/-- The four steps keep what a step keeps. -/
lemma jumps_edges (h : Inv R V label E) (hp : IsStep V label E p) {v : α} (hv : ∃ u, E u v) :
    EqvGen E v (jumps p v) := by
  -- a node that edges connect to a node at an edge is itself at an edge
  have hend : ∀ a b, EqvGen E a b → ((∃ u, E u a) ↔ ∃ u, E u b) := by
    intro a b hab
    induction hab with
    | rel a b hab => exact ⟨fun _ => ⟨a, hab⟩, fun _ => ⟨b, h.symm a b hab⟩⟩
    | refl => rfl
    | symm _ _ _ ih => exact ih.symm
    | trans _ _ _ _ _ ih ih' => exact ih.trans ih'
  have hstep : ∀ a, (∃ u, E u a) → EqvGen E a (p a) ∧ ∃ u, E u (p a) := fun a ha =>
    ⟨h.step_edges hp ha, (hend _ _ (h.step_edges hp ha)).1 ha⟩
  obtain ⟨h₁, hv₁⟩ := hstep v hv
  obtain ⟨h₂, hv₂⟩ := hstep _ hv₁
  obtain ⟨h₃, hv₃⟩ := hstep _ hv₂
  obtain ⟨h₄, -⟩ := hstep _ hv₃
  exact ((h₁.trans _ _ _ h₂).trans _ _ _ h₃).trans _ _ _ h₄

/-- The four steps alone connect a node with its next one: going on by four from either, both reach
the end of their common chain. -/
lemma eqvGen_jumps (h : Inv R V label E) (hp : IsStep V label E p) {v : α} (hv : v ∈ V) :
    EqvGen (fun a b => a ∈ V ∧ b = jumps p a) v (p v) := by
  suffices hall : ∃ r, ∀ k, EqvGen (fun a b => a ∈ V ∧ b = jumps p a) (p^[k] v) r by
    obtain ⟨r, hr⟩ := hall
    exact (hr 0).trans _ _ _ (hr 1).symm
  -- induction on the number of smaller nodes
  generalize hn : (V.filter (· < v)).card = n
  induction n using Nat.strong_induction_on generalizing v with
  | _ n ih =>
    by_cases hfix : p v = v
    · refine ⟨v, fun k => ?_⟩
      rw [Function.iterate_fixed hfix]
      exact .refl _
    · have hlt : p v < v := lt_of_le_of_ne (h.step_le hp v hv) hfix
      have hmem := h.step_mem hp v hv
      have hcard : (V.filter (· < p v)).card < n := by
        rw [← hn]
        refine Finset.card_lt_card ⟨fun w hw => ?_, fun hsub => ?_⟩
        · rw [Finset.mem_filter] at hw ⊢
          exact ⟨hw.1, hw.2.trans hlt⟩
        · exact lt_irrefl _ (Finset.mem_filter.1 (hsub (Finset.mem_filter.2 ⟨hmem, hlt⟩))).2
      obtain ⟨r, hr⟩ := ih _ hcard hmem rfl
      refine ⟨r, fun k => ?_⟩
      cases k with
      | zero => exact (EqvGen.rel v (jumps p v) ⟨hv, rfl⟩).trans _ _ _ (hr 3)
      | succ k => exact hr k

/-- An edge joins its ends also after the contraction. -/
lemma eqvGen_contracted (q : α → α) {u v : α} (huv : EqvGen E u v) :
    EqvGen (Contracted q E) (q u) (q v) := by
  induction huv with
  | rel u v huv =>
    by_cases heq : q u = q v
    · rw [heq]
      exact .refl _
    · exact .rel _ _ ⟨heq, u, v, huv, rfl, rfl⟩
  | refl => exact .refl _
  | symm _ _ _ ih => exact ih.symm
  | trans _ _ _ _ _ ih ih' => exact ih.trans _ _ _ ih'

/-- What edges connected is connected after a round. -/
lemma eqvGen_round (h : Inv R V label E) (q : α → α) {u v : α} (huv : EqvGen E u v) :
    EqvGen (fun a b => Contracted q E a b ∨ a ∈ V ∧ b = q a) u v := by
  refine eqvGen_of_forall (fun a b hab => ?_) huv
  have ha := EqvGen.rel (r := fun a b => Contracted q E a b ∨ a ∈ V ∧ b = q a) a (q a)
    (Or.inr ⟨h.mem a b hab, rfl⟩)
  have hb := EqvGen.rel (r := fun a b => Contracted q E a b ∨ a ∈ V ∧ b = q a) b (q b)
    (Or.inr ⟨h.mem b a (h.symm a b hab), rfl⟩)
  have hmid := (eqvGen_contracted q (EqvGen.rel a b hab)).mono
    fun c d hcd => Or.inl (b := c ∈ V ∧ d = q c) hcd
  exact (ha.trans _ _ _ hmid).trans _ _ _ hb.symm

lemma jumps_mem (h : Inv R V label E) (hp : IsStep V label E p) : ∀ v ∈ V, jumps p v ∈ V :=
  have hmem := h.step_mem hp
  fun v hv => hmem _ (hmem _ (hmem _ (hmem v hv)))

lemma jumps_le (h : Inv R V label E) (hp : IsStep V label E p) :
    ∀ v ∈ V, jumps p v ≤ p (p v) ∧ p (p v) ≤ p v := by
  intro v hv
  have hmem := h.step_mem hp
  have hle := h.step_le hp
  have h₁ := hmem v hv
  have h₂ := hmem _ h₁
  exact ⟨(hle _ (hmem _ h₂)).trans (hle _ h₂), hle _ h₁⟩

lemma jumps_connected (h : Inv R V label E) (hp : IsStep V label E p) :
    ∀ v ∈ V, EqvGen R v (jumps p v) := by
  intro v hv
  have hmem := h.step_mem hp
  have hcon := h.step_connected hp
  have h₁ := hmem v hv
  have h₂ := hmem _ h₁
  have h₃ := hmem _ h₂
  exact (((hcon v hv).trans _ _ _ (hcon _ h₁)).trans _ _ _ (hcon _ h₂)).trans _ _ _ (hcon _ h₃)

/-- A round keeps the invariant. -/
lemma round (h : Inv R V label E) (hp : IsStep V label E p) :
    Inv R V (jumps p) (Contracted (jumps p) E) where
  label_mem := h.jumps_mem hp
  label_le v hv := by
    obtain ⟨h₁, h₂⟩ := h.jumps_le hp v hv
    exact (h₁.trans h₂).trans (h.step_le hp v hv)
  label_connected := h.jumps_connected hp
  symm := by
    rintro _ _ ⟨hne, u, v, huv, rfl, rfl⟩
    exact ⟨hne.symm, v, u, h.symm u v huv, rfl, rfl⟩
  mem := by
    rintro _ _ ⟨-, u, v, huv, rfl, rfl⟩
    exact h.jumps_mem hp u (h.mem u v huv)
  edge_connected := by
    rintro _ _ ⟨-, u, v, huv, rfl, rfl⟩
    have hu := h.jumps_connected hp u (h.mem u v huv)
    have hv := h.jumps_connected hp v (h.mem v u (h.symm u v huv))
    exact (hu.symm.trans _ _ _ (h.edge_connected u v huv)).trans _ _ _ hv
  label_edges := by
    rintro _ _ ⟨-, u, v, huv, rfl, rfl⟩
    exact eqvGen_contracted (jumps p) (h.jumps_edges hp ⟨v, h.symm u v huv⟩)
  complete u v huv := by
    refine eqvGen_of_forall (fun a b hab => ?_) (h.complete u v huv)
    rcases hab with hab | ⟨ha, rfl⟩
    · exact h.eqvGen_round (jumps p) (.rel a b hab)
    by_cases hend : ∃ c, E c a
    · obtain ⟨c, hc⟩ := hend
      exact h.eqvGen_round (jumps p) (h.label_edges a c (h.symm c a hc))
    · -- without an edge the step is to the label
      have hstep : p a = label a := by
        rcases hp.pick a ha with heq | ⟨c, hc, -⟩
        · exact heq
        · exact absurd ⟨c, hc⟩ hend
      rw [← hstep]
      exact (h.eqvGen_jumps hp ha).mono fun c d hcd => Or.inr hcd

/-- The labels that a round leaves as they are. -/
lemma isLeast_of_unchanged (h : Inv R V label E) (hp : IsStep V label E p)
    (hsame : ∀ v ∈ V, jumps p v = label v) {v : α} (hv : v ∈ V) :
    IsLeast {u | u ∈ V ∧ EqvGen R v u} (label v) := by
  -- the four steps go down from the label, so none of them moves
  have hfirst : ∀ a ∈ V, p a = label a ∧ p (p a) = label a := by
    intro a ha
    obtain ⟨h₁, h₂⟩ := h.jumps_le hp a ha
    rw [hsame a ha] at h₁
    exact ⟨le_antisymm (hp.le a ha) (h₁.trans h₂), le_antisymm (h₂.trans (hp.le a ha)) h₁⟩
  have hidem : ∀ a ∈ V, label (label a) = label a := by
    intro a ha
    obtain ⟨h₁, h₂⟩ := hfirst a ha
    rw [← (hfirst _ (h.label_mem a ha)).1, ← h₁, h₂, h₁]
  have hedge : ∀ a b, E a b → label a = label b := by
    intro a b hab
    have hba := h.symm a b hab
    have hle := hp.le_neighbor a b hab
    have hge := hp.le_neighbor b a hba
    rw [(hfirst b (h.mem b a hba)).1] at hle
    rw [(hfirst a (h.mem a b hab)).1] at hge
    exact le_antisymm hge hle
  have hconst : ∀ a b, EqvGen R a b → label a = label b := by
    intro a b hab
    have hgen := eqvGen_of_forall h.complete hab
    clear hab
    induction hgen with
    | rel a b hab =>
      rcases hab with hab | ⟨ha, rfl⟩
      · exact hedge a b hab
      · exact (hidem a ha).symm
    | refl => rfl
    | symm _ _ _ ih => exact ih.symm
    | trans _ _ _ _ _ ih ih' => exact ih.trans ih'
  refine ⟨⟨h.label_mem v hv, h.label_connected v hv⟩, ?_⟩
  rintro u ⟨hu, hvu⟩
  rw [hconst v u hvu]
  exact h.label_le u hu

end Inv

end Labels
