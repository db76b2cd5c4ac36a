import Mathlib.Data.List.Perm.Basic
import Mathlib.Order.Nat

/-!
# Broadcast channels

A channel keeps the last values that were sent to it, up to its capacity. A receiver has a position
in what was sent. If its value is no longer kept, it is told how many it has missed and goes on with
the oldest that is. That is all that `Channel` says of a channel.

`Seen` says what a receiver has seen between two positions; it is kept by whatever is sent and
received. Without misses a receiver sees every value, once and in order (`Seen.eq`).
-/

namespace Broadcast

variable {ε : Type*}

inductive Received (ε : Type*) where
  | value (e : ε)
  | lagged (missed : ℕ)
  | empty

/-- A channel: what is received at a position in what was sent, and the next position. -/
structure Channel (ε : Type*) (capacity : ℕ) where
  receive : List ε → ℕ → Received ε × ℕ
  receive_of_lt {sent : List ε} {next : ℕ} : next < sent.length - capacity →
    receive sent next = (.lagged (sent.length - capacity - next), sent.length - capacity)
  receive_of_getElem? {sent : List ε} {next : ℕ} {e : ε} : sent.length - capacity ≤ next →
    sent[next]? = some e → receive sent next = (.value e, next + 1)
  receive_length (sent : List ε) : receive sent sent.length = (.empty, sent.length)

namespace Channel

variable {capacity : ℕ} {sent : List ε} {next : ℕ}

/-- What a receiver can be given. -/
lemma receive_cases (C : Channel ε capacity) (h : next ≤ sent.length) :
    (∃ e, sent[next]? = some e ∧ C.receive sent next = (.value e, next + 1)) ∨
      (∃ n, 0 < n ∧ next + n ≤ sent.length ∧ C.receive sent next = (.lagged n, next + n)) ∨
      (next = sent.length ∧ C.receive sent next = (.empty, next)) := by
  by_cases hlag : next < sent.length - capacity
  · refine .inr (.inl ⟨sent.length - capacity - next, by omega, by omega, ?_⟩)
    rw [C.receive_of_lt hlag, Nat.add_sub_cancel' hlag.le]
  · rcases h.lt_or_eq with hlt | rfl
    · have he := List.getElem?_eq_getElem hlt
      exact .inl ⟨_, he, C.receive_of_getElem? (Nat.not_lt.1 hlag) he⟩
    · exact .inr (.inr ⟨rfl, C.receive_length sent⟩)

variable (ε capacity) in
/-- The channel that keeps all that was sent, and gives the last values of it. -/
def ofList : Channel ε capacity where
  receive sent next :=
    if next < sent.length - capacity then
      (.lagged (sent.length - capacity - next), sent.length - capacity)
    else (sent[next]?.elim .empty .value, if next < sent.length then next + 1 else next)
  receive_of_lt h := if_pos h
  receive_of_getElem? h he := by
    rw [if_neg (Nat.not_lt.2 h), he, if_pos (List.getElem?_eq_some_iff.1 he).1]
    rfl
  receive_length sent := by simp

end Channel

/-- The values that a receiver has seen on its way from one position to another, and how many it has
missed. -/
structure Seen (sent : List ε) (start next : ℕ) (values : List ε) (missed : ℕ) : Prop where
  le : start ≤ next
  le_length : next ≤ sent.length
  sublist : values.Sublist ((sent.take next).drop start)
  count : values.length + missed = next - start

namespace Seen

variable {sent values : List ε} {start next missed : ℕ}

lemma refl (h : start ≤ sent.length) : Seen sent start start [] 0 :=
  ⟨le_rfl, h, List.nil_sublist _, by simp⟩

lemma send (h : Seen sent start next values missed) (l : List ε) :
    Seen (sent ++ l) start next values missed where
  le := h.le
  le_length := h.le_length.trans (by simp)
  sublist := by rw [List.take_append_of_le_length h.le_length]; exact h.sublist
  count := h.count

lemma value (h : Seen sent start next values missed) {e : ε} (he : sent[next]? = some e) :
    Seen sent start (next + 1) (values ++ [e]) missed := by
  have hlt : next < sent.length := (List.getElem?_eq_some_iff.1 he).1
  refine ⟨h.le.trans (Nat.le_succ next), hlt, ?_, ?_⟩
  · rw [List.take_add_one, he, List.drop_append_of_le_length (by simp [h.le, h.le_length])]
    exact h.sublist.append (List.Sublist.refl _)
  · have := h.count
    have := h.le
    rw [List.length_append, List.length_singleton]
    omega

lemma lagged (h : Seen sent start next values missed) {n : ℕ} (hn : next + n ≤ sent.length) :
    Seen sent start (next + n) values (missed + n) := by
  have hle := h.le
  refine ⟨by omega, hn, h.sublist.trans ?_, by have := h.count; omega⟩
  exact (List.take_prefix_take_left (Nat.le_add_right next n)).sublist.drop start

/-- A receiver that has missed nothing has seen everything. -/
lemma eq (h : Seen sent start next values 0) : values = (sent.take next).drop start := by
  refine h.sublist.eq_of_length ?_
  have := h.count
  have := h.le_length
  rw [List.length_drop, List.length_take]
  omega

end Seen

end Broadcast
