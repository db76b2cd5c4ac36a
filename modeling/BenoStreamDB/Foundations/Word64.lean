import Mathlib.Data.List.Forall2
import Mathlib.Data.List.Lex
import Mathlib.Data.Nat.Bitwise
import Mathlib.Tactic.Ring

/-!
# Numbers in 64-bit words

Unsigned arithmetic of 64 bits that fails where it overflows, and numbers that are put together
digit by digit. As long as the digits fit into a word nothing is lost (`foldlM_push`), and numbers
of the same length are ordered as their digits are, from the first on (`value_le_value_iff`).
-/

namespace Word64

/-! ### Digits -/

/-- The number with the digits, the most significant first. -/
def value (b : ℕ) (ds : List ℕ) : ℕ := ds.foldl (fun n d => n * b + d) 0

lemma foldl_digits (b n : ℕ) (ds : List ℕ) :
    ds.foldl (fun n d => n * b + d) n = n * b ^ ds.length + value b ds := by
  induction ds generalizing n with
  | nil => simp [value]
  | cons d ds ih =>
    have hvalue : value b (d :: ds) = (0 * b + d) * b ^ ds.length + value b ds := ih (0 * b + d)
    rw [List.foldl_cons, ih, hvalue, List.length_cons]
    ring

lemma value_cons (b d : ℕ) (ds : List ℕ) :
    value b (d :: ds) = d * b ^ ds.length + value b ds := by
  rw [value, List.foldl_cons, foldl_digits, Nat.zero_mul, Nat.zero_add]

lemma value_lt_pow {b : ℕ} {ds : List ℕ} (h : ∀ d ∈ ds, d < b) : value b ds < b ^ ds.length := by
  induction ds with
  | nil => simp [value]
  | cons d ds ih =>
    obtain ⟨hd, hds⟩ := List.forall_mem_cons.1 h
    calc value b (d :: ds) = d * b ^ ds.length + value b ds := value_cons b d ds
      _ < d * b ^ ds.length + b ^ ds.length := Nat.add_lt_add_left (ih hds) _
      _ = (d + 1) * b ^ ds.length := by ring
      _ ≤ b * b ^ ds.length := Nat.mul_le_mul_right _ hd
      _ = b ^ (d :: ds).length := by rw [List.length_cons, pow_succ']

/-- A number with a smaller first digit is smaller. -/
lemma value_cons_lt {b d e : ℕ} {ds es : List ℕ} (hlength : ds.length = es.length)
    (hds : ∀ d ∈ ds, d < b) (h : d < e) : value b (d :: ds) < value b (e :: es) := by
  rw [value_cons, value_cons, ← hlength]
  calc d * b ^ ds.length + value b ds < d * b ^ ds.length + b ^ ds.length :=
        Nat.add_lt_add_left (value_lt_pow hds) _
    _ = (d + 1) * b ^ ds.length := by ring
    _ ≤ e * b ^ ds.length := Nat.mul_le_mul_right _ h
    _ ≤ e * b ^ ds.length + value b es := Nat.le_add_right _ _

lemma value_lt_value_iff {b : ℕ} {ds es : List ℕ} (hlength : ds.length = es.length)
    (hds : ∀ d ∈ ds, d < b) (hes : ∀ e ∈ es, e < b) : value b ds < value b es ↔ ds < es := by
  induction ds generalizing es with
  | nil =>
    obtain rfl := List.eq_nil_of_length_eq_zero hlength.symm
    simp
  | cons d ds ih =>
    cases es with
    | nil => simp at hlength
    | cons e es =>
      have hlen : ds.length = es.length := by simpa using hlength
      replace hds := (List.forall_mem_cons.1 hds).2
      replace hes := (List.forall_mem_cons.1 hes).2
      rw [List.cons_lt_cons_iff]
      rcases lt_trichotomy d e with h | rfl | h
      · simp [h, value_cons_lt hlen hds h]
      · simp [value_cons, hlen, ih hlen hds hes]
      · have hgt := value_cons_lt hlen.symm hes h
        simp [h.not_gt, h.ne', hgt.not_gt]

/-- Numbers of the same length are ordered as their digits are. -/
lemma value_le_value_iff {b : ℕ} {ds es : List ℕ} (hlength : ds.length = es.length)
    (hds : ∀ d ∈ ds, d < b) (hes : ∀ e ∈ es, e < b) : value b ds ≤ value b es ↔ ds ≤ es := by
  rw [← not_lt, value_lt_value_iff hlength.symm hes hds, not_lt]

/-- Numbers of the same length are equal only if their digits are. -/
lemma value_inj {b : ℕ} {ds es : List ℕ} (hlength : ds.length = es.length)
    (hds : ∀ d ∈ ds, d < b) (hes : ∀ e ∈ es, e < b) (h : value b ds = value b es) : ds = es :=
  le_antisymm ((value_le_value_iff hlength hds hes).1 h.le)
    ((value_le_value_iff hlength.symm hes hds).1 h.ge)

lemma value_append (b : ℕ) (ds es : List ℕ) :
    value b (ds ++ es) = value b ds * b ^ es.length + value b es := by
  rw [value, List.foldl_append, foldl_digits]
  rfl

/-- A number does not decrease if no digit does. -/
lemma value_le_value_of_forall₂ (b : ℕ) {ds es : List ℕ} (h : List.Forall₂ (· ≤ ·) ds es) :
    value b ds ≤ value b es := by
  induction h with
  | nil => exact le_rfl
  | cons hd htail ih =>
    rw [value_cons, value_cons, htail.length_eq]
    exact Nat.add_le_add (Nat.mul_le_mul_right _ hd) ih

/-! ### Arithmetic that fails where it overflows -/

/-- `x << k` -/
def shl (x k : ℕ) : Option ℕ := if k < 64 then some (x * 2 ^ k % 2 ^ 64) else none

/-- `x >> k` -/
def shr (x k : ℕ) : Option ℕ := if k < 64 then some (x / 2 ^ k) else none

/-- `x - y` -/
def sub (x y : ℕ) : Option ℕ := if y ≤ x then some (x - y) else none

/-- `(x << k) | d` -/
def push (k x d : ℕ) : Option ℕ := (shl x k).map (· ||| d)

lemma push_eq {k x d : ℕ} (hk : k < 64) (hx : x < 2 ^ (64 - k)) (hd : d < 2 ^ k) :
    push k x d = some (x * 2 ^ k + d) := by
  have hfits : x * 2 ^ k < 2 ^ 64 := by
    calc x * 2 ^ k < 2 ^ (64 - k) * 2 ^ k := Nat.mul_lt_mul_of_pos_right hx (Nat.two_pow_pos k)
      _ = 2 ^ 64 := by rw [← pow_add, Nat.sub_add_cancel hk.le]
  rw [push, shl, if_pos hk, Option.map_some, Nat.mod_eq_of_lt hfits, Nat.mul_comm,
    Nat.two_pow_add_eq_or_of_lt hd]

/-- Digits of `k` bits are put together without loss if they fit into a word. -/
lemma foldlM_push {k x : ℕ} {ds : List ℕ} (hk : k < 64) (hlength : k * ds.length ≤ 64)
    (hx : x < 2 ^ (64 - k * ds.length)) (hds : ∀ d ∈ ds, d < 2 ^ k) :
    ds.foldlM (push k) x = some (x * (2 ^ k) ^ ds.length + value (2 ^ k) ds) := by
  induction ds generalizing x with
  | nil => simp [value]
  | cons d ds ih =>
    obtain ⟨hd, hds⟩ := List.forall_mem_cons.1 hds
    rw [List.length_cons, Nat.mul_succ] at hlength hx
    have hpow : 2 ^ (64 - (k * ds.length + k)) * 2 ^ k = 2 ^ (64 - k * ds.length) := by
      rw [← pow_add]
      congr 1
      omega
    have hnext : x * 2 ^ k + d < 2 ^ (64 - k * ds.length) := by
      calc x * 2 ^ k + d < (x + 1) * 2 ^ k := by rw [Nat.succ_mul]; omega
        _ ≤ 2 ^ (64 - (k * ds.length + k)) * 2 ^ k := Nat.mul_le_mul_right _ hx
        _ = 2 ^ (64 - k * ds.length) := hpow
    have hroom : x < 2 ^ (64 - k) :=
      hx.trans_le (Nat.pow_le_pow_right (by decide) (by omega))
    rw [List.foldlM_cons, push_eq hk hroom hd, Option.bind_eq_bind, Option.bind_some,
      ih (by omega) hnext hds, value_cons, List.length_cons, pow_succ]
    congr 1
    ring

end Word64
