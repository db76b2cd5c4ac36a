import Mathlib.Init

/-!
# Computations that may fail

What a result of a sequence of computations in `Except` or `Option` says about its parts.
-/

namespace Failing

variable {α β ε : Type*}

lemma exists_of_bind_eq_ok {x : Except ε α} {f : α → Except ε β} {b : β}
    (h : x.bind f = .ok b) : ∃ a, x = .ok a ∧ f a = .ok b := by
  cases x with
  | error e => cases h
  | ok a => exact ⟨a, rfl, h⟩

lemma exists_of_map_eq_ok {x : Except ε α} {f : α → β} {b : β} (h : x.map f = .ok b) :
    ∃ a, x = .ok a ∧ f a = b := by
  cases x with
  | error e => cases h
  | ok a => exact ⟨a, rfl, Except.ok.inj h⟩

lemma mapM_eq_ok {f : α → Except ε β} {g : α → β} {l : List α}
    (h : ∀ a ∈ l, f a = .ok (g a)) : l.mapM f = .ok (l.map g) := by
  induction l with
  | nil => rfl
  | cons a l ih =>
    rw [List.mapM_cons, h a List.mem_cons_self, ih fun b hb => h b (List.mem_cons_of_mem _ hb)]
    rfl

lemma mapM_eq_some_map {f : α → Option β} {g : α → β} {l : List α}
    (h : ∀ a ∈ l, f a = some (g a)) : l.mapM f = some (l.map g) := by
  induction l with
  | nil => rfl
  | cons a l ih =>
    rw [List.mapM_cons, h a List.mem_cons_self, ih fun b hb => h b (List.mem_cons_of_mem _ hb)]
    rfl

lemma exists_of_mapM_eq_some {f : α → Option β} {l : List α} {ys : List β}
    (h : l.mapM f = some ys) {a : α} (ha : a ∈ l) : ∃ b, f a = some b := by
  induction l generalizing ys with
  | nil => cases ha
  | cons x l ih =>
    rw [List.mapM_cons] at h
    obtain ⟨y, hy, h⟩ := Option.bind_eq_some_iff.1 h
    obtain ⟨zs, hzs, -⟩ := Option.bind_eq_some_iff.1 h
    rcases List.mem_cons.1 ha with rfl | ha
    · exact ⟨y, hy⟩
    · exact ih hzs ha

/-- If one call fails and all failures are alike, all calls fail so. -/
lemma mapM_eq_error {f : α → Except ε β} {e : ε} {l : List α} {a : α} (ha : a ∈ l)
    (hfail : f a = .error e) (h : ∀ b ∈ l, ∀ e', f b = .error e' → e' = e) :
    l.mapM f = .error e := by
  induction l with
  | nil => simp at ha
  | cons b l ih =>
    rw [List.mapM_cons]
    cases hb : f b with
    | error e' => rw [h b List.mem_cons_self e' hb]; rfl
    | ok y =>
      have hmem : a ∈ l := (List.mem_cons.1 ha).resolve_left fun heq => by
        rw [← heq, hfail] at hb
        cases hb
      rw [ih hmem fun c hc => h c (List.mem_cons_of_mem _ hc)]
      rfl

lemma exists_of_mapM_eq_error {f : α → Except ε β} {e : ε} {l : List α}
    (h : l.mapM f = .error e) : ∃ a ∈ l, f a = .error e := by
  induction l with
  | nil => cases h
  | cons b l ih =>
    rw [List.mapM_cons] at h
    cases hb : f b with
    | error e' =>
      rw [hb] at h
      exact ⟨b, List.mem_cons_self, hb.trans (by cases h; rfl)⟩
    | ok y =>
      cases hl : l.mapM f with
      | error e' =>
        obtain ⟨a, ha, hfail⟩ := ih (by rw [hb, hl] at h; cases h; exact hl)
        exact ⟨a, List.mem_cons_of_mem _ ha, hfail⟩
      | ok ys => rw [hb, hl] at h; cases h

lemma exists_of_mapM_cons_eq_ok {f : α → Except ε β} {a : α} {l : List α} {ys : List β}
    (h : (a :: l).mapM f = .ok ys) : ∃ y zs, f a = .ok y ∧ l.mapM f = .ok zs ∧ y :: zs = ys := by
  rw [List.mapM_cons] at h
  obtain ⟨y, hy, h⟩ := exists_of_bind_eq_ok h
  obtain ⟨zs, hzs, h⟩ := exists_of_bind_eq_ok h
  exact ⟨y, zs, hy, hzs, Except.ok.inj h⟩

lemma exists_of_mapM_eq_ok {f : α → Except ε β} {l : List α} {ys : List β}
    (h : l.mapM f = .ok ys) {y : β} (hy : y ∈ ys) : ∃ a ∈ l, f a = .ok y := by
  induction l generalizing ys with
  | nil => cases h; simp at hy
  | cons b l ih =>
    obtain ⟨z, zs, hz, hzs, rfl⟩ := exists_of_mapM_cons_eq_ok h
    rcases List.mem_cons.1 hy with rfl | hy
    · exact ⟨b, List.mem_cons_self, hz⟩
    · obtain ⟨a, ha, hfa⟩ := ih hzs hy
      exact ⟨a, List.mem_cons_of_mem _ ha, hfa⟩

lemma exists_ok_of_mem {f : α → Except ε β} {l : List α} {ys : List β} (h : l.mapM f = .ok ys)
    {a : α} (ha : a ∈ l) : ∃ y, f a = .ok y := by
  induction l generalizing ys with
  | nil => simp at ha
  | cons b l ih =>
    obtain ⟨y, zs, hy, hzs, -⟩ := exists_of_mapM_cons_eq_ok h
    rcases List.mem_cons.1 ha with rfl | ha
    · exact ⟨y, hy⟩
    · exact ih hzs ha

lemma mem_of_mapM_eq_ok {f : α → Except ε β} {l : List α} {ys : List β} (h : l.mapM f = .ok ys)
    {a : α} (ha : a ∈ l) {y : β} (hy : f a = .ok y) : y ∈ ys := by
  induction l generalizing ys with
  | nil => simp at ha
  | cons b l ih =>
    obtain ⟨z, zs, hz, hzs, rfl⟩ := exists_of_mapM_cons_eq_ok h
    rcases List.mem_cons.1 ha with rfl | ha
    · obtain rfl : z = y := Except.ok.inj (hz.symm.trans hy)
      exact List.mem_cons_self
    · exact List.mem_cons_of_mem _ (ih hzs ha)

/-- A run over a list adds what each element adds. -/
lemma exists_foldlM_of_step {σ β κ : Type} {f : σ → β → Option σ} {l : List β}
    {P : (κ → κ → Prop) → σ → Prop} {Q : β → κ → κ → Prop}
    (hcongr : ∀ R R' st, (∀ a b, R a b ↔ R' a b) → P R st → P R' st)
    (hstep : ∀ x ∈ l, ∀ R st, P R st → ∃ st', f st x = some st' ∧
      P (fun a b => R a b ∨ Q x a b) st') {R : κ → κ → Prop} {st : σ} (h : P R st) :
    ∃ st', l.foldlM f st = some st' ∧ P (fun a b => R a b ∨ ∃ x ∈ l, Q x a b) st' := by
  induction l generalizing R st with
  | nil => exact ⟨st, rfl, hcongr R _ st (fun a b => by simp) h⟩
  | cons x l ih =>
    obtain ⟨st₁, hrun₁, h₁⟩ := hstep x List.mem_cons_self R st h
    obtain ⟨st₂, hrun₂, h₂⟩ := ih (fun y hy => hstep y (List.mem_cons_of_mem x hy)) h₁
    refine ⟨st₂, ?_, hcongr _ _ st₂ (fun a b => ?_) h₂⟩
    · rw [List.foldlM_cons, hrun₁]
      exact hrun₂
    · simp only [List.mem_cons, exists_eq_or_imp, or_assoc]

/-- A run that ends has got past every element. -/
lemma exists_of_foldlM_eq_some {σ β : Type} {f : σ → β → Option σ} {l : List β} {st st' : σ}
    (h : l.foldlM f st = some st') {x : β} (hx : x ∈ l) : ∃ s s', f s x = some s' := by
  induction l generalizing st with
  | nil => exact absurd hx List.not_mem_nil
  | cons y l ih =>
    rw [List.foldlM_cons] at h
    obtain ⟨st₁, h₁, h₂⟩ := Option.bind_eq_some_iff.1 h
    rcases List.mem_cons.1 hx with rfl | hx
    · exact ⟨st, st₁, h₁⟩
    · exact ih h₂ hx

end Failing
