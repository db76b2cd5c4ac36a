import Mathlib.Logic.Function.Basic

/-!
# Interleaved programs

Asynchronous code as programs that work on a shared state by atomic calls, the interleavings of
any number of such programs, and a rely-guarantee rule for invariants of all of them.

A `Prog` is a tree: it ends with a result, or it makes a call and continues with the answer. A
`System` answers calls. Between two calls of one client the others, and the environment, may do
anything; what a client may rely on meanwhile is a preorder on shared states.
-/

namespace Interleaving

/-! ### Programs -/

/-- A program with result in `α`; the answers to the call `a` are in `R a`. -/
inductive Prog {A : Type} (R : A → Type) (α : Type) : Type
  | done (x : α)
  | call (a : A) (k : R a → Prog R α)

namespace Prog

variable {A : Type} {R : A → Type} {α β : Type}

def bind : Prog R α → (α → Prog R β) → Prog R β
  | done x, f => f x
  | call a k, f => call a fun r => (k r).bind f

instance : Monad (Prog R) where
  pure := done
  bind := bind

@[simp]
lemma pure_eq (x : α) : (pure x : Prog R α) = done x := rfl

@[simp]
lemma done_bind (x : α) (f : α → Prog R β) : (done x >>= f) = f x := rfl

@[simp]
lemma call_bind (a : A) (k : R a → Prog R α) (f : α → Prog R β) :
    (call a k >>= f) = call a fun r => k r >>= f := rfl

end Prog

/-! ### Systems -/

/-- How a shared state in `σ` answers the calls of the clients in `ι`. -/
structure System (ι ω ε σ : Type) {A : Type} (R : A → Type) (α : Type) where
  /-- The answer to a call and the new state; `none` if the client has to wait. What the
  environment chooses (a failure, an order) is in `ω`. -/
  exec : ι → ω → (a : A) → σ → Option (R a × σ)
  /-- What is recorded when the program of a client ends. -/
  finish : ι → α → σ → σ
  /-- What the environment does on its own. -/
  env : ε → σ → σ
  /-- The clients whose programs end with an event of the environment. -/
  kills : ε → ι → Bool

/-- A shared state and the programs of the clients that are at work. -/
structure Config (ι σ : Type) {A : Type} (R : A → Type) (α : Type) where
  shared : σ
  running : ι → Option (Prog R α)

inductive Event (ι ω ε : Type) {A : Type} (R : A → Type) (α : Type) where
  | start (i : ι) (p : Prog R α)
  | act (i : ι) (o : ω)
  | env (e : ε)

namespace System

variable {ι ω ε σ : Type} [DecidableEq ι] {A : Type} {R : A → Type} {α : Type}
  (S : System ι ω ε σ R α)

/-- One event, if it is possible. -/
def step (c : Config ι σ R α) : Event ι ω ε R α → Option (Config ι σ R α)
  | .start i p =>
    match c.running i with
    | none => some { c with running := Function.update c.running i (some p) }
    | some _ => none
  | .act i o =>
    match c.running i with
    | none => none
    | some (.done x) => some ⟨S.finish i x c.shared, Function.update c.running i none⟩
    | some (.call a k) =>
      match S.exec i o a c.shared with
      | none => none
      | some (r, s) => some ⟨s, Function.update c.running i (some (k r))⟩
  | .env e => some ⟨S.env e c.shared, fun i => if S.kills e i then none else c.running i⟩

/-- The events one after the other, as long as each is possible and passes the check. -/
def run (check : Config ι σ R α → Event ι ω ε R α → Bool) :
    List (Event ι ω ε R α) → Config ι σ R α → Option (Config ι σ R α)
  | [], c => some c
  | e :: es, c => if check c e then (S.step c e).bind (run check es) else none

/-- The states reached from `c₀` by events that are all `ok` where they happen. -/
inductive Reachable (ok : Config ι σ R α → Event ι ω ε R α → Prop) (c₀ : Config ι σ R α) :
    Config ι σ R α → Prop
  | init : Reachable ok c₀ c₀
  | step {c c' : Config ι σ R α} {e : Event ι ω ε R α} (h : Reachable ok c₀ c) (hok : ok c e)
      (he : S.step c e = some c') : Reachable ok c₀ c'

variable {S}

lemma Reachable.trans {ok : Config ι σ R α → Event ι ω ε R α → Prop} {c₀ c c' : Config ι σ R α}
    (h : S.Reachable ok c₀ c) (h' : S.Reachable ok c c') : S.Reachable ok c₀ c' := by
  induction h' with
  | init => exact h
  | step _ hok he ih => exact ih.step hok he

/-- A run whose check implies `ok`. -/
lemma reachable_of_run {ok : Config ι σ R α → Event ι ω ε R α → Prop}
    {check : Config ι σ R α → Event ι ω ε R α → Bool}
    {es : List (Event ι ω ε R α)} {c c' : Config ι σ R α} (hrun : S.run check es c = some c')
    (hok : ∀ e ∈ es, ∀ c, check c e = true → ok c e) : S.Reachable ok c c' := by
  induction es generalizing c with
  | nil =>
    cases hrun
    exact .init
  | cons e es ih =>
    rw [run, Option.ite_none_right_eq_some] at hrun
    obtain ⟨hcheck, hrun⟩ := hrun
    obtain ⟨c₁, hstep, hrest⟩ := Option.bind_eq_some_iff.1 hrun
    have hfirst : S.Reachable ok c c₁ := .step .init (hok e List.mem_cons_self c hcheck) hstep
    exact hfirst.trans (ih hrest fun e' he' => hok e' (List.mem_cons_of_mem e he'))

end System

/-! ### Rely and guarantee -/

/-- What the clients of a system agree on: an invariant of the shared state, what each client
may rely on while others work, which calls it makes at all, and when a call happens. -/
structure Protocol (ι σ A : Type) where
  inv : σ → Prop
  rely : ι → σ → σ → Prop
  may : ι → A → Prop
  guard : σ → ι → A → Prop
  rely_refl : ∀ i s, rely i s s
  rely_trans : ∀ {i s t u}, rely i s t → rely i t u → rely i s u

section Protocol

variable {ι ω ε σ : Type} {A : Type} {R : A → Type} {α β : Type}
  (S : System ι ω ε σ R β) (P : Protocol ι σ A)

/-- From the state `s` on, the program makes only calls that it may make, keeps the invariant and
what the others rely on, and ends in a state with `Q`, as long as the others do the same. -/
def Prog.Safe (i : ι) (Q : α → σ → Prop) : Prog R α → σ → Prop
  | .done x, s => ∀ t, P.rely i s t → P.inv t → Q x t
  | .call a k, s => ∀ t, P.rely i s t → P.inv t → P.may i a ∧ (P.guard t i a →
      ∀ o r u, S.exec i o a t = some (r, u) →
        P.inv u ∧ (∀ j, j ≠ i → P.rely j t u) ∧ (k r).Safe i Q u)

variable {S P} {i : ι}

lemma Prog.Safe.mono {Q : α → σ → Prop} {p : Prog R α} {s t : σ} (h : p.Safe S P i Q s)
    (hst : P.rely i s t) : p.Safe S P i Q t := by
  cases p with
  | done x => exact fun u htu => h u (P.rely_trans hst htu)
  | call a k => exact fun u htu => h u (P.rely_trans hst htu)

end Protocol

section Rule

variable {ι ω ε σ : Type} [DecidableEq ι] {A : Type} {R : A → Type} {α : Type}

/-- The steps that are `ok` follow the protocol: only safe programs are started, guards hold
where calls are made, and the environment and the recorded results keep the agreement. -/
structure System.Upholds (S : System ι ω ε σ R α) (P : Protocol ι σ A)
    (ok : Config ι σ R α → Event ι ω ε R α → Prop) (Q : ι → α → σ → Prop) : Prop where
  start : ∀ {c i p}, ok c (.start i p) → P.inv c.shared → p.Safe S P i (Q i) c.shared
  guard : ∀ {c i o a k}, ok c (.act i o) → c.running i = some (.call a k) → P.inv c.shared →
    P.may i a → P.guard c.shared i a
  finish : ∀ {i x s}, P.inv s → Q i x s →
    P.inv (S.finish i x s) ∧ ∀ j, j ≠ i → P.rely j s (S.finish i x s)
  env : ∀ {c e}, ok c (.env e) → P.inv c.shared → P.inv (S.env e c.shared) ∧
    ∀ j, S.kills e j = false → P.rely j c.shared (S.env e c.shared)

variable {S : System ι ω ε σ R α} {P : Protocol ι σ A}
  {ok : Config ι σ R α → Event ι ω ε R α → Prop} {Q : ι → α → σ → Prop}

/-- The invariant holds and every program at work is safe. -/
structure System.Good (S : System ι ω ε σ R α) (P : Protocol ι σ A) (Q : ι → α → σ → Prop)
    (c : Config ι σ R α) : Prop where
  inv : P.inv c.shared
  safe : ∀ {i p}, c.running i = some p → p.Safe S P i (Q i) c.shared

/-- A client moves to the shared state `s` and the program `q`, if any. -/
lemma System.Good.update {c : Config ι σ R α} (hc : S.Good P Q c) {s : σ} {i : ι}
    {q : Option (Prog R α)} (hinv : P.inv s) (hrely : ∀ j, j ≠ i → P.rely j c.shared s)
    (hq : ∀ p, q = some p → p.Safe S P i (Q i) s) :
    S.Good P Q ⟨s, Function.update c.running i q⟩ := by
  refine ⟨hinv, fun {j p} hj => ?_⟩
  by_cases hji : j = i
  · subst hji
    exact hq p ((Function.update_self j q c.running).symm.trans hj)
  · exact (hc.safe ((Function.update_of_ne hji q c.running).symm.trans hj)).mono (hrely j hji)

/-- One event keeps the configuration good. -/
lemma System.Good.step (hup : S.Upholds P ok Q) {c c' : Config ι σ R α} {e : Event ι ω ε R α}
    (hc : S.Good P Q c) (hok : ok c e) (he : S.step c e = some c') : S.Good P Q c' := by
  cases e with
  | start i p =>
    simp only [System.step] at he
    cases hi : c.running i with
    | some q => simp [hi] at he
    | none =>
      simp only [hi, Option.some.injEq] at he
      subst he
      refine hc.update hc.inv (fun j _ => P.rely_refl j _) ?_
      rintro _ ⟨⟩
      exact hup.start hok hc.inv
  | act i o =>
    simp only [System.step] at he
    cases hi : c.running i with
    | none => simp [hi] at he
    | some q =>
      cases q with
      | done x =>
        simp only [hi, Option.some.injEq] at he
        subst he
        obtain ⟨hinv, hrely⟩ :=
          hup.finish hc.inv (hc.safe hi c.shared (P.rely_refl i _) hc.inv)
        exact hc.update hinv hrely (by simp)
      | call a k =>
        simp only [hi] at he
        cases hexec : S.exec i o a c.shared with
        | none => simp [hexec] at he
        | some ru =>
          simp only [hexec, Option.some.injEq] at he
          subst he
          obtain ⟨hmay, hsafe⟩ := hc.safe hi c.shared (P.rely_refl i _) hc.inv
          obtain ⟨hinv, hrely, hk⟩ := hsafe (hup.guard hok hi hc.inv hmay) o ru.1 ru.2 hexec
          refine hc.update hinv hrely ?_
          rintro _ ⟨⟩
          exact hk
  | env e =>
    simp only [System.step, Option.some.injEq] at he
    subst he
    obtain ⟨hinv, hrely⟩ := hup.env hok hc.inv
    refine ⟨hinv, fun {j q} hj => ?_⟩
    simp only [Option.ite_none_left_eq_some, Bool.not_eq_true] at hj
    exact (hc.safe hj.2).mono (hrely j hj.1)

/-- The invariant rule: what a protocol that is upheld promises holds in every state reached. -/
theorem System.Reachable.good (hup : S.Upholds P ok Q) {c₀ c : Config ι σ R α}
    (h : S.Reachable ok c₀ c) (h₀ : S.Good P Q c₀) : S.Good P Q c := by
  induction h with
  | init => exact h₀
  | step _ hok he ih => exact ih.step hup hok he

end Rule

end Interleaving
