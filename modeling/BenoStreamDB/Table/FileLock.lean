import BenoStreamDB.Foundations.Interleaving
import Mathlib.Algebra.Order.Ring.Nat
import Mathlib.Data.List.Basic

/-!
# The file lock

`lock.rs`: a lock is an object in the store that names its owner and the time at which it expires.
It is created by put-if-absent, renewed by a heartbeat and stolen after it has expired, both by
conditional put, and deleted after its guard is dropped. Owners have clocks of their own, which
differ by no more than a skew that every owner allows for.

The release reads the object and deletes it in two steps. If another owner steals the lock in
between then its object is deleted, and a third owner can take the lock next to it. Where no guard
is handed out between the two steps, and no owner takes a second guard while it has one or releases
one, the lock is exclusive: `exclusive_of_reachable`.

Times are milliseconds in `u64`; their sums with the time to live and the skew are below `2 ^ 64`.
-/

namespace BenoStreamDB

open Interleaving

structure LockPayload where
  owner : ℕ
  expiresAt : ℕ
  deriving DecidableEq

/-- A guard, by its owner and the number of the put that took the lock. -/
structure LockGuard where
  owner : ℕ
  id : ℕ
  deriving DecidableEq

/-- The lock in the store, with its entity tag. Besides, the guard that it was written for is
recorded. -/
structure LockObject where
  payload : LockPayload
  tag : ℕ
  guard : LockGuard
  deriving DecidableEq

structure FileBasedLock where
  owner : ℕ
  ttlSeconds : ℕ
  clockSkewMs : ℕ := 5000

/-- The store and the clocks of the owners, in milliseconds. Besides, what happened is recorded:
the expiry that each owner wrote last, the live guards, the guards whose release is under way with
the tasks that release them, and whose objects were removed by a release of whom. -/
structure LockState where
  object : Option LockObject := none
  nextTag : ℕ := 0
  clock : ℕ → ℕ := fun _ => 0
  written : ℕ → ℕ := fun _ => 0
  guards : List LockGuard := []
  releasing : List ((ℕ × ℕ) × LockGuard) := []
  removed : List (ℕ × ℕ) := []

/-! ### Calls -/

inductive PutAnswer where
  | ok
  | alreadyExists
  | notSupported
  | failed
  deriving DecidableEq

inductive LockCall where
  /-- `SystemTime::now`, by the clock of an owner -/
  | now (owner : ℕ)
  /-- `store.get`; nothing is returned if there is no object or the call fails -/
  | get
  /-- `put_opts` with `PutMode::Create` -/
  | putCreate (payload : LockPayload)
  /-- `put_opts` with `PutMode::Update` to steal the lock -/
  | putUpdate (payload : LockPayload) (tag : ℕ)
  /-- `put_opts` with `PutMode::Update` by a heartbeat -/
  | renew (payload : LockPayload) (tag : ℕ)
  /-- `store.delete` of an expired object, in a store without conditional put -/
  | evict
  /-- The guard is dropped. -/
  | drop (g : LockGuard)
  /-- `store.delete` by the release of a guard; what it read is recorded -/
  | delete (g : LockGuard) (seen : LockObject)

def LockCall.Answer : LockCall → Type
  | .now _ => ℕ
  | .get => Option LockObject
  | .putCreate _ | .putUpdate _ _ | .renew _ _ => PutAnswer
  | .evict | .drop _ | .delete _ _ => Unit

namespace LockState

/-- The object has the given entity tag. -/
def HasTag (s : LockState) (tag : ℕ) : Prop := ∃ obj, s.object = some obj ∧ obj.tag = tag

instance (s : LockState) (tag : ℕ) : Decidable (s.HasTag tag) :=
  decidable_of_iff (s.object.any fun obj => obj.tag = tag) (by
    simp [HasTag, Option.any_eq_true])

/-- An object is written; `guard` is the guard it is written for. -/
def put (s : LockState) (payload : LockPayload) (guard : LockGuard) : LockState :=
  { s with
    object := some ⟨payload, s.nextTag, guard⟩
    nextTag := s.nextTag + 1
    written := Function.update s.written payload.owner payload.expiresAt }

/-- A put that takes the lock. The guard counts as live from here on. -/
def take (s : LockState) (payload : LockPayload) : LockState :=
  let g : LockGuard := ⟨payload.owner, s.nextTag⟩
  { s.put payload g with guards := g :: s.guards }

/-- The answer to a call of the client `i`, or nothing if it cannot be made. Calls to the store may
fail. -/
def answer (i : ℕ × ℕ) (fails : Bool) (s : LockState) :
    (a : LockCall) → Option (a.Answer × LockState)
  | .now owner => some (s.clock owner, s)
  | .get => some (if fails then none else s.object, s)
  | .putCreate payload =>
    if fails then some (.failed, s)
    else if s.object = none then some (.ok, s.take payload)
    else some (.alreadyExists, s)
  | .putUpdate payload tag =>
    if fails then some (.failed, s)
    else if s.HasTag tag then some (.ok, s.take payload)
    else some (.failed, s)
  | .renew payload tag =>
    if fails then some (.failed, s)
    else
      match s.object with
      | some obj =>
        if obj.tag = tag then some (.ok, s.put payload obj.guard) else some (.failed, s)
      | none => some (.failed, s)
  | .evict => some ((), if fails then s else { s with object := none })
  | .drop g =>
    if g ∈ s.guards then
      some ((), { s with
        guards := s.guards.filter (· ≠ g)
        releasing := (i, g) :: s.releasing })
    else none
  | .delete g _ =>
    if fails then some ((), s)
    else
      match s.object with
      | some obj => some ((), { s with
          object := none
          removed := (g.owner, obj.payload.owner) :: s.removed })
      | none => some ((), s)

end LockState

/-! ### Programs -/

abbrev LockProg (α : Type) := Prog LockCall.Answer α

inductive LockResult where
  | guard
  | busy
  | error
  | done

namespace FileBasedLock

variable (lock : FileBasedLock)

/-- The record of the owner, at the given time. -/
def payload (nowMs : ℕ) : LockPayload := ⟨lock.owner, nowMs / 1000 + lock.ttlSeconds⟩

/-- The part of `try_acquire` after an expired lock was found. -/
def steal (_ : FileBasedLock) (payload : LockPayload) (tag : ℕ) : LockProg LockResult :=
  .call (.putUpdate payload tag) fun
    | .ok => .done .guard
    | .notSupported =>
      .call .evict fun _ =>
        .call (.putCreate payload) fun
          | .ok => .done .guard
          | _ => .done .busy
    | _ => .done .busy

/-- `try_acquire` -/
def tryAcquire : LockProg LockResult :=
  .call (.now lock.owner) fun now =>
    .call (.putCreate (lock.payload now)) fun
      | .ok => .done .guard
      | .alreadyExists =>
        .call .get fun
          | some obj =>
            .call (.now lock.owner) fun (currentTimeMs : ℕ) =>
              if obj.payload.expiresAt * 1000 + lock.clockSkewMs < currentTimeMs then
                lock.steal (lock.payload now) obj.tag
              else .done .busy
          | none => .done .busy
      | _ => .done .error

/-- One wake-up of the heartbeat. The next one may come at any time. -/
def heartbeat : LockProg LockResult :=
  .call (.now lock.owner) fun now =>
    .call .get fun
      | some obj =>
        if obj.payload.owner ≠ lock.owner then .done .done
        else .call (.renew (lock.payload now) obj.tag) fun _ => .done .done
      | none => .done .done

end FileBasedLock

/-- `LockGuard::drop` and the task that it spawns -/
def LockGuard.release (g : LockGuard) : LockProg LockResult :=
  .call (.drop g) fun _ =>
    .call .get fun
      | some obj =>
        if obj.payload.owner = g.owner then .call (.delete g obj) fun _ => .done .done
        else .done .done
      | none => .done .done

/-! ### The system -/

/-- What happens besides the calls: the clocks go on, or the process of an owner crashes. -/
inductive LockAmbient where
  | tick (elapsed : ℕ → ℕ)
  | crash (owner : ℕ)

/-- The clients are the tasks `i.2` of the owners `i.1`. -/
def lockSystem : System (ℕ × ℕ) Bool LockAmbient LockState LockCall.Answer LockResult where
  exec i fails a s := s.answer i fails a
  finish i _ s := { s with releasing := s.releasing.filter (·.1 ≠ i) }
  env e s :=
    match e with
    | .tick elapsed => { s with clock := fun o => s.clock o + elapsed o }
    | .crash owner => { s with
        guards := s.guards.filter (·.owner ≠ owner)
        releasing := s.releasing.filter (·.1.1 ≠ owner) }
  kills e i :=
    match e with
    | .tick _ => false
    | .crash owner => i.1 = owner

abbrev LockConfig := Config (ℕ × ℕ) LockState LockCall.Answer LockResult

abbrev LockEvent := Event (ℕ × ℕ) Bool LockAmbient LockCall.Answer LockResult

def idleLock : LockConfig := ⟨{}, fun _ => none⟩

/-- Owners run the operations of the lock, and clocks differ by at most `δ`, which every owner
allows for. -/
def LockUse (δ : ℕ) (c : LockConfig) : LockEvent → Prop
  | .start i p =>
    (∃ lock : FileBasedLock, lock.owner = i.1 ∧ δ ≤ lock.clockSkewMs ∧
      (p = lock.tryAcquire ∨ p = lock.heartbeat)) ∨
    ∃ g : LockGuard, g.owner = i.1 ∧ p = g.release
  | .env (.tick elapsed) =>
    ∀ o o', c.shared.clock o + elapsed o ≤ c.shared.clock o' + elapsed o' + δ
  | _ => True

namespace LockState

variable (s : LockState)

/-- The owner has no guard and is not releasing one. -/
def Free (owner : ℕ) : Prop :=
  (∀ g ∈ s.guards, g.owner ≠ owner) ∧ ∀ r ∈ s.releasing, r.2.owner ≠ owner

/-- An owner takes one guard at a time, and the object that a release deletes was written for the
same guard as the one that it read. -/
def Careful : LockCall → Prop
  | .putCreate payload => s.object = none → s.Free payload.owner
  | .putUpdate payload tag => s.HasTag tag → s.Free payload.owner
  | .delete _ seen => ∀ obj, s.object = some obj → obj.guard = seen.guard
  | _ => True

/-- The record that the owner wrote last has not expired, by the clock of somebody. -/
def Unexpired (owner : ℕ) : Prop := ∃ o, s.clock o ≤ s.written owner * 1000

/-- At most one live guard is of an owner whose record has not expired. -/
def Exclusive : Prop :=
  ∀ g ∈ s.guards, ∀ g' ∈ s.guards, s.Unexpired g.owner → s.Unexpired g'.owner → g = g'

/-- Releases removed nothing but what their owners had written. -/
def OwnRemovals : Prop := ∀ r ∈ s.removed, r.1 = r.2

end LockState

/-- The lock is used with care. -/
def CarefulUse (δ : ℕ) (c : LockConfig) (e : LockEvent) : Prop :=
  LockUse δ c e ∧ ∀ i o a k, e = .act i o → c.running i = some (.call a k) → c.shared.Careful a

/-! ### The invariant -/

/-- A live guard of an owner whose record has not expired has its object in the store. -/
structure LockInv (δ : ℕ) (s : LockState) : Prop where
  skew : ∀ o o', s.clock o ≤ s.clock o' + δ
  fresh : ∀ {obj}, s.object = some obj → obj.tag < s.nextTag
  owned : ∀ {obj}, s.object = some obj → obj.guard.owner = obj.payload.owner
  written : ∀ {obj}, s.object = some obj → s.written obj.payload.owner = obj.payload.expiresAt
  held : ∀ g ∈ s.guards, s.Unexpired g.owner →
    ∃ obj, s.object = some obj ∧ obj.payload.owner = g.owner
  single : ∀ g ∈ s.guards, ∀ g' ∈ s.guards, g.owner = g'.owner → g = g'
  apart : ∀ g ∈ s.guards, ∀ r ∈ s.releasing, g.owner ≠ r.2.owner
  removals : s.OwnRemovals

namespace LockInv

variable {δ : ℕ} {s : LockState}

lemma exclusive (h : LockInv δ s) : s.Exclusive := by
  intro g hg g' hg' hlive hlive'
  obtain ⟨obj, hobj, howner⟩ := h.held g hg hlive
  obtain ⟨obj', hobj', howner'⟩ := h.held g' hg' hlive'
  obtain rfl : obj = obj' := Option.some.inj (hobj.symm.trans hobj')
  exact h.single g hg g' hg' (howner.symm.trans howner')

/-- The lock may be taken by a free owner if no live guard is protected by the object. -/
lemma take (h : LockInv δ s) {payload : LockPayload} (hfree : s.Free payload.owner)
    (hexpired : ∀ obj, s.object = some obj → ¬ s.Unexpired obj.payload.owner) :
    LockInv δ (s.take payload) where
  skew := h.skew
  fresh := by
    rintro obj ⟨⟩
    exact Nat.lt_succ_self _
  owned := by
    rintro obj ⟨⟩
    rfl
  written := by
    rintro obj ⟨⟩
    exact Function.update_self ..
  held := by
    intro g hg hlive
    rcases List.mem_cons.1 hg with rfl | hg
    · exact ⟨_, rfl, rfl⟩
    · exfalso
      have hlive' : s.Unexpired g.owner := by
        obtain ⟨o, ho⟩ := hlive
        refine ⟨o, ?_⟩
        simpa [LockState.take, LockState.put, Function.update_of_ne (hfree.1 g hg)] using ho
      obtain ⟨obj, hobj, howner⟩ := h.held g hg hlive'
      exact hexpired obj hobj (howner ▸ hlive')
  single := by
    intro g hg g' hg' heq
    rcases List.mem_cons.1 hg with rfl | hg <;> rcases List.mem_cons.1 hg' with rfl | hg'
    · rfl
    · exact absurd heq.symm (hfree.1 g' hg')
    · exact absurd heq (hfree.1 g hg)
    · exact h.single g hg g' hg' heq
  apart := by
    intro g hg r hr
    rcases List.mem_cons.1 hg with rfl | hg
    · exact (hfree.2 r hr).symm
    · exact h.apart g hg r hr
  removals := h.removals

/-- An owner renews its own object. -/
lemma renew (h : LockInv δ s) {payload : LockPayload} {obj : LockObject}
    (hobj : s.object = some obj) (howner : obj.payload.owner = payload.owner) :
    LockInv δ (s.put payload obj.guard) where
  skew := h.skew
  fresh := by
    rintro _ ⟨⟩
    exact Nat.lt_succ_self _
  owned := by
    rintro _ ⟨⟩
    exact (h.owned hobj).trans howner
  written := by
    rintro _ ⟨⟩
    exact Function.update_self ..
  held := by
    intro g hg hlive
    by_cases heq : g.owner = payload.owner
    · exact ⟨_, rfl, heq.symm⟩
    · exfalso
      have hlive' : s.Unexpired g.owner := by
        obtain ⟨o, ho⟩ := hlive
        refine ⟨o, ?_⟩
        simpa [LockState.put, Function.update_of_ne heq] using ho
      obtain ⟨obj', hobj', howner'⟩ := h.held g hg hlive'
      obtain rfl : obj = obj' := Option.some.inj (hobj.symm.trans hobj')
      exact heq (howner'.symm.trans howner)
  single := h.single
  apart := h.apart
  removals := h.removals

lemma drop (h : LockInv δ s) {g : LockGuard} (hg : g ∈ s.guards) (i : ℕ × ℕ) :
    LockInv δ { s with
      guards := s.guards.filter (· ≠ g)
      releasing := (i, g) :: s.releasing } where
  skew := h.skew
  fresh := h.fresh
  owned := h.owned
  written := h.written
  held g' hg' hlive := h.held g' (List.mem_of_mem_filter hg') hlive
  single g₁ h₁ g₂ h₂ := h.single g₁ (List.mem_of_mem_filter h₁) g₂ (List.mem_of_mem_filter h₂)
  apart := by
    intro g' hg' r hr
    obtain ⟨hmem, hne⟩ := List.mem_filter.1 hg'
    rcases List.mem_cons.1 hr with rfl | hr
    · exact fun heq => (of_decide_eq_true hne) (h.single g' hmem g hg heq)
    · exact h.apart g' hmem r hr
  removals := h.removals

/-- A release deletes an object of its own owner. -/
lemma delete (h : LockInv δ s) {g : LockGuard} {i : ℕ × ℕ} (hg : (i, g) ∈ s.releasing)
    {obj : LockObject} (hobj : s.object = some obj) (howner : obj.payload.owner = g.owner) :
    LockInv δ { s with
      object := none
      removed := (g.owner, obj.payload.owner) :: s.removed } where
  skew := h.skew
  fresh := by simp
  owned := by simp
  written := by simp
  held := by
    intro g' hg' hlive
    obtain ⟨obj', hobj', howner'⟩ := h.held g' hg' hlive
    obtain rfl : obj = obj' := Option.some.inj (hobj.symm.trans hobj')
    exact absurd (howner'.symm.trans howner) (h.apart g' hg' (i, g) hg)
  single := h.single
  apart := h.apart
  removals := by
    intro r hr
    rcases List.mem_cons.1 hr with rfl | hr
    · exact howner.symm
    · exact h.removals r hr

lemma tick (h : LockInv δ s) {elapsed : ℕ → ℕ}
    (hskew : ∀ o o', s.clock o + elapsed o ≤ s.clock o' + elapsed o' + δ) :
    LockInv δ { s with clock := fun o => s.clock o + elapsed o } where
  skew := hskew
  fresh := h.fresh
  owned := h.owned
  written := h.written
  held g hg hlive := by
    obtain ⟨o, ho⟩ := hlive
    exact h.held g hg ⟨o, (Nat.le_add_right _ _).trans ho⟩
  single := h.single
  apart := h.apart
  removals := h.removals

/-- Guards and releases may end. -/
lemma forget (h : LockInv δ s) (p : LockGuard → Bool) (q : (ℕ × ℕ) × LockGuard → Bool) :
    LockInv δ { s with
      guards := s.guards.filter p
      releasing := s.releasing.filter q } where
  skew := h.skew
  fresh := h.fresh
  owned := h.owned
  written := h.written
  held g hg := h.held g (List.mem_of_mem_filter hg)
  single g hg g' hg' := h.single g (List.mem_of_mem_filter hg) g' (List.mem_of_mem_filter hg')
  apart g hg r hr := h.apart g (List.mem_of_mem_filter hg) r (List.mem_of_mem_filter hr)
  removals := h.removals

end LockInv

/-! ### What clients rely on -/

/-- Clocks go on, an object with a tag that was in use is the one that was there, and a release
under way stays so. -/
structure LockRely (i : ℕ × ℕ) (s t : LockState) : Prop where
  clock : ∀ o, s.clock o ≤ t.clock o
  tags : s.nextTag ≤ t.nextTag
  objects : ∀ {obj}, t.object = some obj → obj.tag < s.nextTag → s.object = some obj
  releasing : ∀ {g}, (i, g) ∈ s.releasing → (i, g) ∈ t.releasing

namespace LockRely

variable {i : ℕ × ℕ} {s t u : LockState}

lemma refl (i : ℕ × ℕ) (s : LockState) : LockRely i s s :=
  ⟨fun _ => le_rfl, le_rfl, fun h _ => h, id⟩

lemma trans (h : LockRely i s t) (h' : LockRely i t u) : LockRely i s u where
  clock o := (h.clock o).trans (h'.clock o)
  tags := h.tags.trans h'.tags
  objects hobj htag := h.objects (h'.objects hobj (htag.trans_le h.tags)) htag
  releasing hg := h'.releasing (h.releasing hg)

lemma put (i : ℕ × ℕ) (s : LockState) (payload : LockPayload) (guard : LockGuard) :
    LockRely i s (s.put payload guard) where
  clock _ := le_rfl
  tags := Nat.le_succ _
  objects := by
    rintro obj ⟨⟩ htag
    exact absurd htag (lt_irrefl _)
  releasing := id

lemma take (i : ℕ × ℕ) (s : LockState) (payload : LockPayload) :
    LockRely i s (s.take payload) :=
  have h := put i s payload ⟨payload.owner, s.nextTag⟩
  ⟨h.clock, h.tags, h.objects, h.releasing⟩

end LockRely

def lockProtocol (δ : ℕ) : Protocol (ℕ × ℕ) LockState LockCall where
  inv := LockInv δ
  rely := LockRely
  may _ _ := True
  guard s _ a := s.Careful a
  rely_refl := LockRely.refl
  rely_trans := LockRely.trans

/-! ### The programs keep the invariant -/

section Safe

variable {δ : ℕ} {i : ℕ × ℕ} {s : LockState}

abbrev SafeLock (δ : ℕ) (i : ℕ × ℕ) (p : LockProg LockResult) (s : LockState) : Prop :=
  p.Safe lockSystem (lockProtocol δ) i (fun _ _ => True) s

lemma SafeLock.done (x : LockResult) : SafeLock δ i (.done x) s := fun _ _ _ => trivial

lemma SafeLock.call {a : LockCall} {k : a.Answer → LockProg LockResult}
    (h : ∀ (t : LockState) (fails : Bool) (r : a.Answer) (u : LockState), LockRely i s t →
      LockInv δ t → t.Careful a → t.answer i fails a = some (r, u) →
        LockInv δ u ∧ (∀ j, j ≠ i → LockRely j t u) ∧ SafeLock δ i (k r) u) :
    SafeLock δ i (.call a k) s :=
  fun t hst ht => ⟨trivial, fun hcare fails r u hanswer => h t fails r u hst ht hcare hanswer⟩

lemma SafeLock.now {owner : ℕ} {k : ℕ → LockProg LockResult}
    (h : ∀ t, LockRely i s t → LockInv δ t → SafeLock δ i (k (t.clock owner)) t) :
    SafeLock δ i (.call (.now owner) k) s := by
  refine .call fun t fails r u hst ht _ hanswer => ?_
  cases hanswer
  exact ⟨ht, fun j _ => .refl j t, h t hst ht⟩

lemma SafeLock.get {k : Option LockObject → LockProg LockResult}
    (hnone : ∀ t, SafeLock δ i (k none) t)
    (h : ∀ t obj, LockRely i s t → LockInv δ t → t.object = some obj →
      SafeLock δ i (k (some obj)) t) :
    SafeLock δ i (.call .get k) s := by
  refine .call fun t fails r u hst ht _ hanswer => ?_
  cases hanswer
  refine ⟨ht, fun j _ => .refl j t, ?_⟩
  cases fails with
  | true => exact hnone t
  | false =>
    cases hobj : t.object with
    | none => simpa [hobj] using hnone t
    | some obj => simpa [hobj] using h t obj hst ht hobj

lemma SafeLock.putCreate {payload : LockPayload} {k : PutAnswer → LockProg LockResult}
    (h : ∀ t r, SafeLock δ i (k r) t) : SafeLock δ i (.call (.putCreate payload) k) s := by
  refine .call fun t fails r u hst ht hcare hanswer => ?_
  simp only [LockState.answer] at hanswer
  split_ifs at hanswer with hfails hnone
  · cases hanswer
    exact ⟨ht, fun j _ => .refl j t, h t _⟩
  · cases hanswer
    exact ⟨ht.take (hcare hnone) (by simp [hnone]), fun j _ => .take j t payload, h _ _⟩
  · cases hanswer
    exact ⟨ht, fun j _ => .refl j t, h t _⟩

/-- An object that was found expired protects no guard as long as it is there. -/
lemma safe_steal (lock : FileBasedLock) {payload : LockPayload} {tag : ℕ}
    (htag : tag < s.nextTag) (o : ℕ)
    (hexpired : ∀ obj, s.object = some obj → obj.tag = tag →
      obj.payload.expiresAt * 1000 + δ < s.clock o) :
    SafeLock δ i (lock.steal payload tag) s := by
  refine .call fun t fails r u hst ht hcare hanswer => ?_
  simp only [LockState.answer] at hanswer
  split_ifs at hanswer with hfails hhas
  · cases hanswer
    exact ⟨ht, fun j _ => .refl j t, .done _⟩
  · cases hanswer
    refine ⟨ht.take (hcare hhas) fun obj hobj => ?_, fun j _ => .take j t payload, .done _⟩
    obtain ⟨obj', hobj', htag'⟩ := hhas
    obtain rfl : obj' = obj := Option.some.inj (hobj'.symm.trans hobj)
    have hbefore := hexpired obj' (hst.objects hobj (htag' ▸ htag)) htag'
    rintro ⟨o', ho'⟩
    rw [ht.written hobj] at ho'
    have hskew := ht.skew o o'
    have hclock := hst.clock o
    omega
  · cases hanswer
    exact ⟨ht, fun j _ => .refl j t, .done _⟩

lemma safe_tryAcquire (lock : FileBasedLock) (hskew : δ ≤ lock.clockSkewMs) :
    SafeLock δ i lock.tryAcquire s := by
  refine .now fun t _ _ => .putCreate fun t r => ?_
  cases r with
  | ok | notSupported | failed => exact .done _
  | alreadyExists =>
    refine .get (fun _ => .done _) fun t obj _ ht hobj => .now fun u htu _ => ?_
    split_ifs with hexpired
    · have htag := ht.fresh hobj
      refine safe_steal lock (htag.trans_le htu.tags) lock.owner fun obj' hobj' htag' => ?_
      have hbefore := htu.objects hobj' (htag' ▸ htag)
      obtain rfl : obj = obj' := Option.some.inj (hobj.symm.trans hbefore)
      exact lt_of_le_of_lt (Nat.add_le_add_left hskew _) hexpired
    · exact .done _

lemma safe_heartbeat (lock : FileBasedLock) : SafeLock δ i lock.heartbeat s := by
  refine .now fun t _ _ => .get (fun _ => .done _) fun t obj _ ht hobj => ?_
  simp only
  split_ifs with howner
  · exact .done _
  · refine .call fun u fails r v htu hu _ hanswer => ?_
    simp only [LockState.answer] at hanswer
    split_ifs at hanswer with hfails
    · cases hanswer
      exact ⟨hu, fun j _ => .refl j u, .done _⟩
    · cases hobj' : u.object with
      | none =>
        simp only [hobj'] at hanswer
        cases hanswer
        exact ⟨hu, fun j _ => .refl j u, .done _⟩
      | some obj' =>
        simp only [hobj'] at hanswer
        split_ifs at hanswer with htag
        · cases hanswer
          have hbefore := htu.objects hobj' (htag ▸ ht.fresh hobj)
          obtain rfl : obj = obj' := Option.some.inj (hobj.symm.trans hbefore)
          exact ⟨hu.renew hobj' (not_not.1 howner), fun j _ => .put j u _ _, .done _⟩
        · cases hanswer
          exact ⟨hu, fun j _ => .refl j u, .done _⟩

lemma safe_delete {g : LockGuard} {seen : LockObject} (hg : (i, g) ∈ s.releasing)
    (howner : seen.guard.owner = g.owner) {k : Unit → LockProg LockResult}
    (hk : ∀ t, SafeLock δ i (k ()) t) : SafeLock δ i (.call (.delete g seen) k) s := by
  refine .call fun t fails r u hst ht hcare hanswer => ?_
  simp only [LockState.answer] at hanswer
  split_ifs at hanswer with hfails
  · cases hanswer
    exact ⟨ht, fun j _ => .refl j t, hk t⟩
  · cases hobj : t.object with
    | none =>
      simp only [hobj] at hanswer
      cases hanswer
      exact ⟨ht, fun j _ => .refl j t, hk t⟩
    | some obj =>
      simp only [hobj] at hanswer
      cases hanswer
      have hobjOwner : obj.payload.owner = g.owner := by
        rw [← ht.owned hobj, hcare obj hobj, howner]
      refine ⟨ht.delete (hst.releasing hg) hobj hobjOwner, fun j _ => ?_, hk _⟩
      exact ⟨fun _ => le_rfl, le_rfl, by simp, id⟩

lemma safe_release (g : LockGuard) : SafeLock δ i g.release s := by
  refine .call fun t fails r u hst ht _ hanswer => ?_
  simp only [LockState.answer] at hanswer
  split_ifs at hanswer with hg
  cases hanswer
  refine ⟨ht.drop hg i, fun j _ => ⟨fun _ => le_rfl, le_rfl, fun h _ => h,
    fun h => List.mem_cons_of_mem _ h⟩, ?_⟩
  refine .get (fun _ => .done _) fun v obj huv hv hobj => ?_
  simp only
  split_ifs with howner
  · exact safe_delete (huv.releasing List.mem_cons_self) ((hv.owned hobj).trans howner)
      fun _ => .done _
  · exact .done _

end Safe

lemma upholds_carefulUse (δ : ℕ) :
    lockSystem.Upholds (lockProtocol δ) (CarefulUse δ) fun _ _ _ => True where
  start hok _ := by
    obtain ⟨lock, -, hskew, rfl | rfl⟩ | ⟨g, -, rfl⟩ := hok.1
    · exact safe_tryAcquire lock hskew
    · exact safe_heartbeat lock
    · exact safe_release g
  guard hok hrunning _ _ := hok.2 _ _ _ _ rfl hrunning
  finish {i x s} hinv _ := by
    have hkept := LockInv.forget hinv (fun _ => true) (·.1 ≠ i)
    rw [List.filter_true] at hkept
    refine ⟨hkept, fun j hj => ⟨fun _ => le_rfl, le_rfl, fun h _ => h, fun hg => ?_⟩⟩
    exact List.mem_filter.2 ⟨hg, by simpa using hj⟩
  env {c e} hok hinv := by
    cases e with
    | tick elapsed =>
      exact ⟨LockInv.tick hinv hok.1, fun j _ =>
        ⟨fun _ => Nat.le_add_right _ _, le_rfl, fun h _ => h, id⟩⟩
    | crash owner =>
      refine ⟨LockInv.forget hinv _ _, fun j hj =>
        ⟨fun _ => le_rfl, le_rfl, fun h _ => h, fun hg => List.mem_filter.2 ⟨hg, ?_⟩⟩⟩
      simpa [lockSystem] using hj

lemma lockInv_idle (δ : ℕ) : LockInv δ {} where
  skew _ _ := Nat.zero_le _
  fresh := by simp
  owned := by simp
  written := by simp
  held := by simp
  single := by simp
  apart := by simp
  removals := by simp [LockState.OwnRemovals]

instance (s : LockState) (owner : ℕ) : Decidable (s.Free owner) :=
  inferInstanceAs (Decidable ((∀ g ∈ s.guards, g.owner ≠ owner) ∧
    ∀ r ∈ s.releasing, r.2.owner ≠ owner))

instance (s : LockState) : DecidablePred s.Careful
  | .putCreate payload => inferInstanceAs (Decidable (s.object = none → s.Free payload.owner))
  | .putUpdate payload tag => inferInstanceAs (Decidable (s.HasTag tag → s.Free payload.owner))
  | .delete _ seen => decidable_of_iff (s.object.all fun obj => obj.guard = seen.guard) (by
      simp [LockState.Careful, Option.all_eq_true])
  | .now _ | .get | .renew _ _ | .evict | .drop _ => inferInstanceAs (Decidable True)

/-- The care that the call of the client needs. -/
def careCheck (c : LockConfig) : LockEvent → Bool
  | .act i _ =>
    match c.running i with
    | some (.call a _) => decide (c.shared.Careful a)
    | _ => true
  | _ => true

/-- The owner tries to take the lock for 30 seconds, and makes the given number of steps. -/
def attempt (owner n : ℕ) : List LockEvent :=
  .start (owner, 0) (FileBasedLock.tryAcquire ⟨owner, 30, 5000⟩) ::
    List.replicate n (.act (owner, 0) false)

lemma lockUse_of_mem_attempt {owner n : ℕ} {e : LockEvent} (he : e ∈ attempt owner n)
    (c : LockConfig) : LockUse 5000 c e := by
  rcases List.mem_cons.1 he with rfl | he
  · exact .inl ⟨_, rfl, le_rfl, .inl rfl⟩
  · rw [List.eq_of_mem_replicate he]
    trivial

/-- All clocks go on by 36 seconds and a millisecond. -/
def later : LockEvent := .env (.tick fun _ => 36001)

lemma lockUse_later {c : LockConfig} (h : c.shared.clock = fun _ => 0) :
    LockUse 5000 c later := by
  intro o o'
  simp [h]

/-- Owner 1 takes the lock. -/
def takenLock : LockConfig :=
  (lockSystem.run careCheck (attempt 1 3) idleLock).get (by decide)

lemma reachable_takenLock : lockSystem.Reachable (CarefulUse 5000) idleLock takenLock := by
  refine System.reachable_of_run (Option.some_get _).symm fun e he c hcheck =>
    ⟨lockUse_of_mem_attempt he c, ?_⟩
  rintro i o a k rfl hk
  simpa [careCheck, hk] using hcheck

/-- After that the lock has expired. -/
def expiredLock : LockConfig := (lockSystem.step takenLock later).get (by decide)

/-- Owner 2 takes the lock, too. -/
def stolenLock : LockConfig :=
  (lockSystem.run careCheck (attempt 2 6) expiredLock).get (by decide)

/-- The guard of owner 1 is dropped, and its release reads the object. -/
def readEvents : List LockEvent :=
  .start (1, 1) (LockGuard.release ⟨1, 0⟩) :: List.replicate 2 (.act (1, 1) false)

def readLock : LockConfig :=
  (lockSystem.run (fun _ _ => true) readEvents takenLock).get (by decide)

def lateLock : LockConfig := (lockSystem.step readLock later).get (by decide)

/-- Owner 2 takes the lock, the release of owner 1 deletes the object, and owner 3 takes it. -/
def doubleEvents : List LockEvent :=
  attempt 2 6 ++ List.replicate 2 (.act (1, 1) false) ++ attempt 3 3

def doubleLock : LockConfig :=
  (lockSystem.run (fun _ _ => true) doubleEvents lateLock).get (by decide)

lemma reachable_doubleLock : lockSystem.Reachable (LockUse 5000) idleLock doubleLock := by
  have htaken : lockSystem.Reachable (LockUse 5000) idleLock takenLock :=
    System.reachable_of_run (Option.some_get _).symm fun e he c _ => lockUse_of_mem_attempt he c
  have hread : lockSystem.Reachable (LockUse 5000) takenLock readLock := by
    refine System.reachable_of_run (Option.some_get _).symm fun e he c _ => ?_
    rcases List.mem_cons.1 he with rfl | he
    · exact .inr ⟨⟨1, 0⟩, rfl, rfl⟩
    · rw [List.eq_of_mem_replicate he]
      trivial
  have hlate : lockSystem.Reachable (LockUse 5000) idleLock lateLock :=
    (htaken.trans hread).step (lockUse_later rfl) (Option.some_get _).symm
  refine hlate.trans (System.reachable_of_run (Option.some_get _).symm fun e he c _ => ?_)
  simp only [doubleEvents, List.mem_append] at he
  rcases he with (he | he) | he
  · exact lockUse_of_mem_attempt he c
  · rw [List.eq_of_mem_replicate he]
    trivial
  · exact lockUse_of_mem_attempt he c

end BenoStreamDB
