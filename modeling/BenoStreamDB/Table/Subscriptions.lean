import BenoStreamDB.Foundations.Broadcast
import BenoStreamDB.Table.Properties
import Mathlib.Algebra.Order.Ring.Nat

/-!
# Subscriptions

`table/subscribe.rs`: after a commit the batches are sent to a channel, one by one and with a marker
at their end, from which each subscription takes them. Commits, subscriptions and the passes of
their loops are interleaved in any way; two commits may also send at the same time.

A subscription that misses nothing and has taken all there is has been given the batches of all
commits since it was made, each once, or their rows that match its filter (`run_gets_commits`). But
a subscription is not told that it has missed events (`drain_recv`), and `try_recv` says that there
is no event when the next one does not match the filter (`drain_tryRecv`). The table function of
`sql/subscribe_table_function.rs` is silent about an invalid filter (`drainEvents_of_invalid`).

That the table is dropped is left out. A batch is the list of its rows.
-/

namespace BenoStreamDB

namespace Subscribe

open Broadcast

variable {ρ : Type}

/-- `SUBSCRIBER_CAPACITY` -/
def subscriberCapacity : ℕ := 1024

inductive TableEvent (ρ : Type) where
  | batch (rows : List ρ)
  | commit (rows : ℕ)

/-- A query that cannot be planned, or that fails when it is executed. -/
inductive SqlError where
  | plan (text : String)
  | execution (text : String)

/-- What the code calls: the query engine and the channel of the runtime. -/
structure Libraries (ρ : Type) where
  /-- The rows of `SELECT * FROM t WHERE {filter}` for the rows of a batch. -/
  query : String → List ρ → Except SqlError (List ρ)
  channel : Channel (TableEvent ρ) subscriberCapacity

/-- `filter_batch` -/
def filterBatch (E : Libraries ρ) (rows : List ρ) (filter : String) :
    Except String (Option (List ρ)) :=
  if rows.isEmpty then .ok none
  else
    match E.query filter rows with
    | .error (.plan e) => .error s!"invalid subscription filter '{filter}': {e}"
    | .error (.execution e) => .error e
    | .ok matching => .ok (if matching.isEmpty then none else some matching)

/-- `Subscription`: the position in the channel, and the filter. -/
structure Subscription where
  rx : Option ℕ
  filter : Option String

/-- What one pass of the loop of `recv` ends with. -/
inductive Taken (ρ : Type) where
  | event (e : TableEvent ρ)
  | skipped
  | lagged (missed : ℕ)
  | empty
  | failed (message : String)

/-- An event, as the filter has it. -/
def outcome (E : Libraries ρ) : Option String → TableEvent ρ → Taken ρ
  | none, e => .event e
  | some _, .commit _ => .skipped
  | some filter, .batch rows =>
    match filterBatch E rows filter with
    | .error message => .failed message
    | .ok none => .skipped
    | .ok (some matching) => .event (.batch matching)

namespace Subscription

variable (E : Libraries ρ) (sent : List (TableEvent ρ))

/-- One pass of the loop. -/
def take (sub : Subscription) : Taken ρ × Subscription :=
  match sub.rx with
  | none => (.failed "subscription closed", sub)
  | some next =>
    let r := E.channel.receive sent next
    (match r.1 with
      | .value e => outcome E sub.filter e
      | .lagged missed => .lagged missed
      | .empty => .empty, { sub with rx := some r.2 })

/-- `try_recv` -/
def tryRecv (sub : Subscription) : Except String (Option (TableEvent ρ)) × Subscription :=
  let r := sub.take E sent
  (match r.1 with
    | .event e => .ok (some e)
    | .failed message => .error message
    | .skipped | .lagged _ | .empty => .ok none, r.2)

/-- The loop of `recv`; `none` if it waits. -/
def recvLoop : ℕ → Subscription → Except String (Option (TableEvent ρ)) × Subscription
  | 0, sub => (.ok none, sub)
  | n + 1, sub =>
    let r := sub.take E sent
    match r.1 with
    | .event e => (.ok (some e), r.2)
    | .failed message => (.error message, r.2)
    | .skipped | .lagged _ => recvLoop n r.2
    | .empty => (.ok none, r.2)

/-- `recv`, as long as nothing else is sent: a pass for each event, one for those that were missed
and the last one. -/
def recv (sub : Subscription) : Except String (Option (TableEvent ρ)) × Subscription :=
  recvLoop E sent (sent.length + 2) sub

end Subscription

/-! ### The feed of a table -/

/-- The channel, the events that commits are about to send, and the subscriptions. -/
structure Feed (ρ : Type) where
  sent : List (TableEvent ρ)
  sending : List (List (TableEvent ρ))
  subs : List Subscription

inductive Action (ρ : Type) where
  | publish (batches : List (List ρ))
  | send (i : ℕ)
  | subscribe (filter : Option String)
  | take (k : ℕ)
  | close (k : ℕ)

/-- The events of a commit. -/
def committedEvents (batches : List (List ρ)) : List (TableEvent ρ) :=
  batches.map .batch ++ [.commit (batches.map List.length).sum]

namespace Feed

/-- There are receivers. -/
def hasReceivers (F : Feed ρ) : Bool := F.subs.any fun sub => sub.rx.isSome

/-- `publish_committed`, up to the first event. -/
def publish (F : Feed ρ) (batches : List (List ρ)) : Feed ρ :=
  if F.hasReceivers then { F with sending := F.sending ++ [committedEvents batches] } else F

/-- One event of a commit is sent; without receivers it is lost. -/
def send (F : Feed ρ) (i : ℕ) : Feed ρ :=
  match F.sending[i]? with
  | none | some [] => F
  | some (e :: rest) =>
    { F with
      sent := if F.hasReceivers then F.sent ++ [e] else F.sent
      sending := F.sending.set i rest }

/-- `subscribe` and `subscribe_filtered` -/
def subscribe (F : Feed ρ) (filter : Option String) : Feed ρ :=
  { F with subs := F.subs ++ [⟨some F.sent.length, filter⟩] }

def close (F : Feed ρ) (k : ℕ) : Feed ρ :=
  { F with subs := F.subs.modify k fun sub => { sub with rx := none } }

/-- A pass of the loop of a subscription. -/
def take (E : Libraries ρ) (F : Feed ρ) (k : ℕ) : List (ℕ × Taken ρ) × Feed ρ :=
  match F.subs[k]? with
  | none => ([], F)
  | some sub =>
    let r := sub.take E F.sent
    ([(k, r.1)], { F with subs := F.subs.set k r.2 })

def step (E : Libraries ρ) (F : Feed ρ) : Action ρ → List (ℕ × Taken ρ) × Feed ρ
  | .publish batches => ([], F.publish batches)
  | .send i => ([], F.send i)
  | .subscribe filter => ([], F.subscribe filter)
  | .take k => F.take E k
  | .close k => ([], F.close k)

/-- What the subscriptions take, and the feed afterwards. -/
def run (E : Libraries ρ) : Feed ρ → List (Action ρ) → List (ℕ × Taken ρ) × Feed ρ
  | F, [] => ([], F)
  | F, a :: actions =>
    let r := F.step E a
    let rest := run E r.2 actions
    (r.1 ++ rest.1, rest.2)

end Feed

/-! ### What a subscription sees -/

/-- What a subscription takes in a run. -/
def taken (k : ℕ) (outs : List (ℕ × Taken ρ)) : List (Taken ρ) :=
  (outs.filter fun out => out.1 = k).map Prod.snd

namespace Taken

/-- The events that were missed. -/
def missed : Taken ρ → ℕ
  | .lagged n => n
  | _ => 0

/-- An event was taken from the channel. -/
def isConsumed : Taken ρ → Bool
  | .event _ | .skipped | .failed _ => true
  | .lagged _ | .empty => false

def rows : Taken ρ → List ρ
  | .event (.batch rows) => rows
  | _ => []

end Taken

section Run

variable {E : Libraries ρ} {F : Feed ρ} {k start next : ℕ} {filter : Option String}

variable (E filter) in
lemma isConsumed_outcome (e : TableEvent ρ) : (outcome E filter e).isConsumed = true := by
  cases filter with
  | none => rfl
  | some filter =>
    cases e with
    | commit n => rfl
    | batch rows =>
      rw [outcome]
      split <;> rfl

lemma missed_outcome (e : TableEvent ρ) : (outcome E filter e).missed = 0 := by
  have hconsumed := isConsumed_outcome E filter e
  cases h : outcome E filter e with
  | lagged n => rw [h] at hconsumed; cases hconsumed
  | event | skipped | empty | failed => rfl

variable (E) in
/-- What one pass does with an open subscription. -/
lemma take_cases {sent : List (TableEvent ρ)} (h : next ≤ sent.length) (filter : Option String) :
    (∃ e, sent[next]? = some e ∧ Subscription.take E sent ⟨some next, filter⟩ =
        (outcome E filter e, ⟨some (next + 1), filter⟩)) ∨
      (∃ n, next + n ≤ sent.length ∧ Subscription.take E sent ⟨some next, filter⟩ =
        (.lagged n, ⟨some (next + n), filter⟩)) ∨
      (next = sent.length ∧ Subscription.take E sent ⟨some next, filter⟩ =
        (.empty, ⟨some next, filter⟩)) := by
  rcases E.channel.receive_cases h with
    ⟨e, he, hreceive⟩ | ⟨n, -, hn, hreceive⟩ | ⟨heq, hreceive⟩
  · exact .inl ⟨e, he, by simp only [Subscription.take, hreceive]⟩
  · exact .inr (.inl ⟨n, hn, by simp only [Subscription.take, hreceive]⟩)
  · exact .inr (.inr ⟨heq, by simp only [Subscription.take, hreceive]⟩)

lemma taken_append (k : ℕ) (outs outs' : List (ℕ × Taken ρ)) :
    taken k (outs ++ outs') = taken k outs ++ taken k outs' := by
  simp [taken]

variable (E) in
/-- Other actions leave a subscription as it is, and what was sent stays. -/
lemma step_frame (hk : k < F.subs.length) {a : Action ρ} (hclose : a ≠ .close k)
    (htake : a ≠ .take k) : F.sent <+: (F.step E a).2.sent ∧
      (F.step E a).2.subs[k]? = F.subs[k]? ∧ taken k (F.step E a).1 = [] := by
  cases a with
  | publish batches =>
    rw [Feed.step, Feed.publish]
    split_ifs <;> exact ⟨List.prefix_refl _, rfl, rfl⟩
  | send i =>
    rw [Feed.step, Feed.send]
    split
    · exact ⟨List.prefix_refl _, rfl, rfl⟩
    · exact ⟨List.prefix_refl _, rfl, rfl⟩
    · refine ⟨?_, rfl, rfl⟩
      simp only
      split_ifs
      · exact List.prefix_append _ _
      · exact List.prefix_refl _
  | subscribe filter => exact ⟨List.prefix_refl _, List.getElem?_append_left hk, rfl⟩
  | take k' =>
    have hne : k' ≠ k := fun heq => htake (heq ▸ rfl)
    rw [Feed.step, Feed.take]
    split
    · exact ⟨List.prefix_refl _, rfl, rfl⟩
    · refine ⟨List.prefix_refl _, List.getElem?_set_ne hne, ?_⟩
      simp [taken, hne]
  | close k' =>
    have hne : k' ≠ k := fun heq => hclose (heq ▸ rfl)
    exact ⟨List.prefix_refl _, List.getElem?_modify_ne _ _ hne, rfl⟩

/-- A subscription with its position, and what it has seen since a start. -/
structure Follows (E : Libraries ρ) (F : Feed ρ) (k start : ℕ) (filter : Option String) (next : ℕ)
    (values : List (TableEvent ρ)) (l : List (Taken ρ)) : Prop where
  sub : F.subs[k]? = some ⟨some next, filter⟩
  seen : Seen F.sent start next values (l.map Taken.missed).sum
  consumed : l.filter Taken.isConsumed = values.map (outcome E filter)

namespace Follows

variable {values : List (TableEvent ρ)} {l : List (Taken ρ)}

lemma of_prefix (h : Follows E F k start filter next values l) {F' : Feed ρ}
    (hsent : F.sent <+: F'.sent) (hsub : F'.subs[k]? = F.subs[k]?) :
    Follows E F' k start filter next values l := by
  obtain ⟨more, hmore⟩ := hsent
  exact ⟨hsub.trans h.sub, hmore ▸ h.seen.send more, h.consumed⟩

/-- The subscription takes what there is. -/
lemma take_self (h : Follows E F k start filter next values l) : ∃ next' values',
    Follows E (F.take E k).2 k start filter next' values' (l ++ taken k (F.take E k).1) := by
  have hk : k < F.subs.length := (List.getElem?_eq_some_iff.1 h.sub).1
  have htaken : ∀ t : Taken ρ, taken k [(k, t)] = [t] := fun t => by simp [taken]
  unfold Feed.take
  rw [h.sub]
  simp only [htaken]
  rcases take_cases E h.seen.le_length filter with ⟨e, he, htake⟩ | ⟨n, hn, htake⟩ | ⟨-, htake⟩
  · refine ⟨next + 1, values ++ [e], ?_, ?_, ?_⟩
    · simp only [htake, List.getElem?_set_self hk]
    · simpa [htake, missed_outcome] using h.seen.value he
    · simp [htake, isConsumed_outcome, h.consumed]
  · refine ⟨next + n, values, ?_, ?_, ?_⟩
    · simp only [htake, List.getElem?_set_self hk]
    · simpa [htake, Taken.missed] using h.seen.lagged hn
    · simp [htake, Taken.isConsumed, h.consumed]
  · refine ⟨next, values, ?_, ?_, ?_⟩
    · simp only [htake, List.getElem?_set_self hk]
    · simpa [htake, Taken.missed] using h.seen
    · simp [htake, Taken.isConsumed, h.consumed]

lemma step (h : Follows E F k start filter next values l) {a : Action ρ} (ha : a ≠ .close k) :
    ∃ next' values',
      Follows E (F.step E a).2 k start filter next' values' (l ++ taken k (F.step E a).1) := by
  by_cases htake : a = .take k
  · subst htake
    exact h.take_self
  · have hk : k < F.subs.length := (List.getElem?_eq_some_iff.1 h.sub).1
    obtain ⟨hsent, hsub, hnone⟩ := step_frame E hk ha htake
    rw [hnone, List.append_nil]
    exact ⟨next, values, h.of_prefix hsent hsub⟩

lemma run (h : Follows E F k start filter next values l) {actions : List (Action ρ)}
    (hopen : .close k ∉ actions) : ∃ next' values',
      Follows E (F.run E actions).2 k start filter next' values'
        (l ++ taken k (F.run E actions).1) := by
  induction actions generalizing F next values l with
  | nil => exact ⟨next, values, by simpa [Feed.run, taken] using h⟩
  | cons a actions ih =>
    rw [List.mem_cons, not_or] at hopen
    obtain ⟨next₁, values₁, h₁⟩ := h.step (Ne.symm hopen.1)
    obtain ⟨next', values', h'⟩ := ih h₁ hopen.2
    refine ⟨next', values', ?_⟩
    rwa [List.append_assoc, ← taken_append] at h'

end Follows

/-! ### Nothing is lost or sent twice -/

/-- The events from a position on, and those that are still to be sent. -/
def Feed.pending (F : Feed ρ) (start : ℕ) : List (TableEvent ρ) :=
  F.sent.drop start ++ F.sending.flatten

def Action.events : Action ρ → List (TableEvent ρ)
  | .publish batches => committedEvents batches
  | .send _ | .subscribe _ | .take _ | .close _ => []

lemma hasReceivers_of_sub (h : F.subs[k]? = some ⟨some next, filter⟩) : F.hasReceivers = true :=
  List.any_eq_true.2 ⟨_, List.mem_of_getElem? h, rfl⟩

lemma perm_flatten_set {ε : Type} {ls : List (List ε)} {i : ℕ} {e : ε} {rest : List ε}
    (h : ls[i]? = some (e :: rest)) : ls.flatten.Perm (e :: (ls.set i rest).flatten) := by
  obtain ⟨hi, hget⟩ := List.getElem?_eq_some_iff.1 h
  rw [List.set_eq_take_append_cons_drop, if_pos hi]
  conv_lhs => rw [← List.take_append_drop i ls, List.drop_eq_getElem_cons hi, hget]
  simp only [List.flatten_append, List.flatten_cons, List.cons_append]
  exact List.perm_middle

variable (E) in
lemma perm_step (h : F.hasReceivers = true) (hstart : start ≤ F.sent.length) (a : Action ρ) :
    ((F.step E a).2.pending start).Perm (F.pending start ++ a.events) := by
  cases a with
  | publish batches =>
    rw [Feed.step, Feed.publish, if_pos h]
    simp [Feed.pending, Action.events]
  | send i =>
    simp only [Action.events, List.append_nil, Feed.step, Feed.send]
    split
    · exact .refl _
    · exact .refl _
    · next e rest hget =>
      simp only [Feed.pending, h, if_true, List.drop_append_of_le_length hstart,
        List.append_assoc, List.singleton_append]
      exact (perm_flatten_set hget).symm.append_left _
  | subscribe filter => exact .of_eq (List.append_nil _).symm
  | take k =>
    simp only [Action.events, List.append_nil, Feed.step, Feed.take]
    split <;> exact .refl _
  | close k => exact .of_eq (List.append_nil _).symm

lemma Follows.perm_run {values : List (TableEvent ρ)} {l : List (Taken ρ)}
    (h : Follows E F k start filter next values l) {actions : List (Action ρ)}
    (hopen : .close k ∉ actions) : ((F.run E actions).2.pending start).Perm
      (F.pending start ++ actions.flatMap Action.events) := by
  induction actions generalizing F next values l with
  | nil => exact .of_eq (List.append_nil _).symm
  | cons a actions ih =>
    rw [List.mem_cons, not_or] at hopen
    obtain ⟨next₁, values₁, h₁⟩ := h.step (Ne.symm hopen.1)
    rw [List.flatMap_cons, ← List.append_assoc]
    have hstep := perm_step E (hasReceivers_of_sub h.sub) (h.seen.le.trans h.seen.le_length) a
    exact (ih h₁ hopen.2).trans (hstep.append_right _)

variable (E F filter) in
lemma follows_subscribe :
    Follows E (F.subscribe filter) F.subs.length F.sent.length filter F.sent.length [] [] :=
  ⟨List.getElem?_concat_length, .refl le_rfl, rfl⟩

/-! ### The rows of the commits -/

def TableEvent.rows : TableEvent ρ → List ρ
  | .batch rows => rows
  | .commit _ => []

def Action.rows : Action ρ → List ρ
  | .publish batches => batches.flatten
  | .send _ | .subscribe _ | .take _ | .close _ => []

lemma rows_events (a : Action ρ) : a.events.flatMap TableEvent.rows = a.rows := by
  cases a with
  | publish batches =>
    rw [Action.events, committedEvents, List.flatMap_append, List.flatMap_map]
    exact (List.append_nil _).trans List.flatMap_id
  | send | subscribe | take | close => rfl

/-- The rows that the filter selects are those with a property. -/
def Selects (E : Libraries ρ) (p : ρ → Bool) : Option String → Prop
  | none => ∀ r, p r = true
  | some filter => ∀ rows, ∃ matching, E.query filter rows = .ok matching ∧
      matching.Perm (rows.filter p)

lemma rows_outcome {p : ρ → Bool} (hp : Selects E p filter) (e : TableEvent ρ) :
    (outcome E filter e).rows.Perm (e.rows.filter p) := by
  cases filter with
  | none =>
    rw [List.filter_eq_self.2 fun r _ => hp r]
    cases e <;> exact .refl _
  | some filter =>
    cases e with
    | commit n => exact .refl _
    | batch rows =>
      obtain ⟨matching, hE, hperm⟩ := hp rows
      refine .trans (.of_eq ?_) hperm
      rw [outcome, filterBatch, hE]
      cases rows with
      | nil => exact hperm.eq_nil.symm
      | cons => cases matching <;> rfl

lemma flatMap_rows_filter (l : List (Taken ρ)) :
    (l.filter Taken.isConsumed).flatMap Taken.rows = l.flatMap Taken.rows := by
  induction l with
  | nil => rfl
  | cons t l ih =>
    rw [List.flatMap_cons]
    cases t with
    | event | skipped | failed =>
      rw [List.filter_cons_of_pos rfl, List.flatMap_cons, ih]
    | lagged | empty =>
      rw [List.filter_cons_of_neg Bool.false_ne_true, ih]
      rfl

/-- A subscription that misses nothing and has taken all there is has been given the rows of each
commit once: of those that were sending when it was made, what was left to send, and of the later
ones everything. -/
theorem run_gets_commits (F : Feed ρ) {p : ρ → Bool} (hp : Selects E p filter)
    {actions : List (Action ρ)} (hopen : .close F.subs.length ∉ actions)
    {outs : List (ℕ × Taken ρ)} {F' : Feed ρ}
    (hrun : (F.subscribe filter).run E actions = (outs, F'))
    (hmissed : ((taken F.subs.length outs).map Taken.missed).sum = 0)
    (hsending : F'.sending.flatten = [])
    (hend : F'.subs[F.subs.length]? = some ⟨some F'.sent.length, filter⟩) :
    ((taken F.subs.length outs).flatMap Taken.rows).Perm
      ((F.sending.flatten.flatMap TableEvent.rows ++ actions.flatMap Action.rows).filter p) := by
  have hstart := follows_subscribe E F filter
  obtain ⟨next, values, hfollows⟩ := hstart.run hopen
  have hperm := hstart.perm_run hopen
  rw [hrun] at hfollows hperm
  rw [List.nil_append] at hfollows
  have hseen := hfollows.seen
  rw [hmissed] at hseen
  -- the subscription is at the end of the channel
  obtain rfl : next = F'.sent.length := by simpa using hfollows.sub.symm.trans hend
  have hvalues : values.Perm (F.sending.flatten ++ actions.flatMap Action.events) := by
    simpa [Feed.pending, Feed.subscribe, hsending, hseen.eq] using hperm
  rw [← flatMap_rows_filter, hfollows.consumed, List.flatMap_map]
  have hrows : (values.flatMap fun e => (outcome E filter e).rows).Perm
      (values.flatMap fun e => e.rows.filter p) :=
    List.Perm.flatMap_left _ fun e _ => rows_outcome hp e
  refine hrows.trans ((hvalues.flatMap_right _).trans (.of_eq ?_))
  rw [← List.filter_flatMap, List.flatMap_append, List.flatMap_assoc]
  simp only [rows_events]

/-- The rows from ten on. -/
def fromTen : Libraries ℕ where
  query _ rows := .ok (rows.filter (10 ≤ ·))
  channel := .ofList _ _

/-- Two commits that send in turn, and a subscription that follows. -/
def twoCommits : List (Action ℕ) :=
  [.publish [[1, 12], [15]], .publish [[20]], .send 0, .send 1, .take 0, .send 0, .send 1, .send 0,
    .take 0, .take 0, .take 0, .take 0, .take 0]

theorem run_gets_commits_twoCommits :
    ((taken 0 ((Feed.subscribe ⟨[], [], []⟩ (some "v >= 10")).run fromTen twoCommits).1).flatMap
      Taken.rows).Perm [12, 15, 20] := by
  have hp : Selects fromTen (fun r => 10 ≤ r) (some "v >= 10") := fun rows => ⟨_, rfl, .refl _⟩
  exact run_gets_commits ⟨[], [], []⟩ hp (by simp [twoCommits]) rfl rfl rfl rfl

end Run

/-! ### Successive calls -/

namespace Taken

/-- What a call that ends with it gives. -/
def reply : Taken ρ → Except String (Option (TableEvent ρ))
  | .event e => .ok (some e)
  | .failed message => .error message
  | .skipped | .lagged _ | .empty => .ok none

/-- The event or the error, if it is one. -/
def answer : Taken ρ → Option (Except String (TableEvent ρ))
  | .event e => some (.ok e)
  | .failed message => some (.error message)
  | .skipped | .lagged _ | .empty => none

end Taken

/-- What a call gives that takes the event. -/
def deliver (E : Libraries ρ) (filter : Option String) (e : TableEvent ρ) :
    Option (Except String (TableEvent ρ)) := (outcome E filter e).answer

/-- A receiving function is called until it gives no event. -/
def drain (receiver : Subscription → Except String (Option (TableEvent ρ)) × Subscription) :
    ℕ → Subscription → List (Except String (TableEvent ρ))
  | 0, _ => []
  | n + 1, sub =>
    let r := receiver sub
    match r.1 with
    | .ok none => []
    | .ok (some e) => .ok e :: drain receiver n r.2
    | .error message => .error message :: drain receiver n r.2

section Drain

variable {receiver : Subscription → Except String (Option (TableEvent ρ)) × Subscription}
  {sub sub' : Subscription} {t : Taken ρ} {n : ℕ}

lemma drain_of_none (h : receiver sub = (t.reply, sub')) (ht : t.answer = none) (n : ℕ) :
    drain receiver n sub = [] := by
  cases n with
  | zero => rfl
  | succ n =>
    rw [drain, h]
    cases t with
    | event | failed => cases ht
    | skipped | lagged | empty => rfl

lemma drain_of_some (h : receiver sub = (t.reply, sub')) {a : Except String (TableEvent ρ)}
    (ht : t.answer = some a) (n : ℕ) :
    drain receiver (n + 1) sub = a :: drain receiver n sub' := by
  rw [drain, h]
  cases t with
  | event | failed => cases ht; rfl
  | skipped | lagged | empty => cases ht

lemma drain_congr (h : receiver sub = receiver sub') (n : ℕ) :
    drain receiver n sub = drain receiver n sub' := by
  cases n with
  | zero => rfl
  | succ n => rw [drain, drain, h]

variable {E : Libraries ρ} {sent : List (TableEvent ρ)} {next : ℕ} {filter : Option String}

lemma tryRecv_of_take (h : sub.take E sent = (t, sub')) :
    sub.tryRecv E sent = (t.reply, sub') := by
  rw [Subscription.tryRecv, h]
  cases t <;> rfl

lemma recvLoop_of_some (h : sub.take E sent = (t, sub')) {a : Except String (TableEvent ρ)}
    (ht : t.answer = some a) (n : ℕ) :
    Subscription.recvLoop E sent (n + 1) sub = (t.reply, sub') := by
  rw [Subscription.recvLoop, h]
  cases t with
  | event | failed => rfl
  | skipped | lagged | empty => cases ht

lemma recvLoop_of_none (h : sub.take E sent = (t, sub')) (ht : t.answer = none) (hne : t ≠ .empty)
    (n : ℕ) : Subscription.recvLoop E sent (n + 1) sub = Subscription.recvLoop E sent n sub' := by
  rw [Subscription.recvLoop, h]
  cases t with
  | event | failed => cases ht
  | skipped | lagged => rfl
  | empty => exact absurd rfl hne

lemma recvLoop_of_empty (h : sub.take E sent = (.empty, sub')) (n : ℕ) :
    Subscription.recvLoop E sent (n + 1) sub = (.ok none, sub') := by
  rw [Subscription.recvLoop, h]

lemma outcome_ne_empty (E : Libraries ρ) (filter : Option String) (e : TableEvent ρ) :
    outcome E filter e ≠ .empty := by
  intro h
  have hconsumed := isConsumed_outcome E filter e
  rw [h] at hconsumed
  cases hconsumed

variable (E filter) in
lemma take_of_getElem? (h : sent.length - subscriberCapacity ≤ next) {e : TableEvent ρ}
    (he : sent[next]? = some e) : Subscription.take E sent ⟨some next, filter⟩ =
      (outcome E filter e, ⟨some (next + 1), filter⟩) := by
  simp only [Subscription.take, E.channel.receive_of_getElem? h he]

variable (E filter) in
lemma take_of_lt (h : next < sent.length - subscriberCapacity) :
    Subscription.take E sent ⟨some next, filter⟩ =
      (.lagged (sent.length - subscriberCapacity - next),
        ⟨some (sent.length - subscriberCapacity), filter⟩) := by
  simp only [Subscription.take, E.channel.receive_of_lt h]

variable (E sent filter) in
lemma take_length : Subscription.take E sent ⟨some sent.length, filter⟩ =
    (.empty, ⟨some sent.length, filter⟩) := by
  simp only [Subscription.take, E.channel.receive_length]

lemma recv_of_some (h : sub.take E sent = (t, sub')) {a : Except String (TableEvent ρ)}
    (ht : t.answer = some a) : sub.recv E sent = (t.reply, sub') := recvLoop_of_some h ht _

variable (E filter) in
/-- Once there are enough passes for all events, one more changes nothing. -/
lemma recvLoop_succ (h : sent.length - subscriberCapacity ≤ next) (hle : next ≤ sent.length)
    (hn : sent.length - next < n) : Subscription.recvLoop E sent (n + 1) ⟨some next, filter⟩ =
      Subscription.recvLoop E sent n ⟨some next, filter⟩ := by
  induction n generalizing next with
  | zero => omega
  | succ n ih =>
    rcases hle.eq_or_lt with rfl | hlt
    · have hempty := take_length E sent filter
      rw [recvLoop_of_empty hempty, recvLoop_of_empty hempty]
    · have htake := take_of_getElem? E filter h (List.getElem?_eq_getElem hlt)
      cases ht : deliver E filter sent[next] with
      | none =>
        have hne := outcome_ne_empty E filter sent[next]
        rw [recvLoop_of_none htake ht hne, recvLoop_of_none htake ht hne]
        exact ih (by omega) hlt (by omega)
      | some a => rw [recvLoop_of_some htake ht, recvLoop_of_some htake ht]

/-- A pass without an answer leaves the call to the next position. -/
lemma recv_of_none {next' : ℕ} (h : Subscription.take E sent ⟨some next, filter⟩ =
      (t, ⟨some next', filter⟩)) (ht : t.answer = none) (hne : t ≠ .empty)
    (hle : sent.length - subscriberCapacity ≤ next') (hle' : next' ≤ sent.length) :
    Subscription.recv E sent ⟨some next, filter⟩ =
      Subscription.recv E sent ⟨some next', filter⟩ := by
  rw [Subscription.recv, Subscription.recv, recvLoop_of_none h ht hne]
  exact (recvLoop_succ E filter hle hle' (by omega)).symm

lemma drain_recv_of_le (h : sent.length - subscriberCapacity ≤ next) (hle : next ≤ sent.length)
    (hn : sent.length - next ≤ n) :
    drain (Subscription.recv E sent) n ⟨some next, filter⟩ =
      (sent.drop next).filterMap (deliver E filter) := by
  induction hd : sent.length - next generalizing next n with
  | zero =>
    obtain rfl : next = sent.length := by omega
    rw [List.drop_length]
    exact drain_of_none (t := .empty) (recvLoop_of_empty (take_length E sent filter) _) rfl n
  | succ d ih =>
    have hlt : next < sent.length := by omega
    have htake := take_of_getElem? E filter h (List.getElem?_eq_getElem hlt)
    rw [List.drop_eq_getElem_cons hlt]
    cases ht : deliver E filter sent[next] with
    | none =>
      have hne := outcome_ne_empty E filter sent[next]
      rw [List.filterMap_cons_none ht, drain_congr (recv_of_none htake ht hne (by omega) hlt)]
      exact ih (by omega) hlt (by omega) (by omega)
    | some a =>
      obtain ⟨m, rfl⟩ : ∃ m, n = m + 1 := ⟨n - 1, by omega⟩
      rw [List.filterMap_cons_some ht, drain_of_some (recv_of_some htake ht) ht,
        ih (by omega) hlt (by omega) (by omega)]

variable (E filter) in
lemma drain_tryRecv_of_le (h : sent.length - subscriberCapacity ≤ next) (hle : next ≤ sent.length)
    (hn : sent.length - next ≤ n) :
    drain (Subscription.tryRecv E sent) n ⟨some next, filter⟩ =
      ((sent.drop next).takeWhile fun e => (deliver E filter e).isSome).filterMap
        (deliver E filter) := by
  induction hd : sent.length - next generalizing next n with
  | zero =>
    obtain rfl : next = sent.length := by omega
    rw [List.drop_length]
    exact drain_of_none (tryRecv_of_take (take_length E sent filter)) rfl n
  | succ d ih =>
    have hlt : next < sent.length := by omega
    have hcall := tryRecv_of_take (take_of_getElem? E filter h (List.getElem?_eq_getElem hlt))
    rw [List.drop_eq_getElem_cons hlt]
    cases ht : deliver E filter sent[next] with
    | none =>
      rw [List.takeWhile_cons_of_neg (by simp [ht])]
      exact drain_of_none hcall ht n
    | some a =>
      obtain ⟨m, rfl⟩ : ∃ m, n = m + 1 := ⟨n - 1, by omega⟩
      rw [List.takeWhile_cons_of_pos (by simp [ht]), List.filterMap_cons_some ht,
        drain_of_some hcall ht, ih (by omega) hlt (by omega) (by omega)]

/-- Successive calls of `recv` give what the kept events after the position give. Nothing in it says
that others were missed. -/
theorem drain_recv (E : Libraries ρ) (filter : Option String) (hle : next ≤ sent.length)
    (hn : sent.length - next ≤ n) :
    drain (Subscription.recv E sent) n ⟨some next, filter⟩ =
      (sent.drop (max next (sent.length - subscriberCapacity))).filterMap (deliver E filter) := by
  by_cases hlag : next < sent.length - subscriberCapacity
  · have hrecv := recv_of_none (take_of_lt E filter hlag) rfl (fun h => by cases h) le_rfl
      (Nat.sub_le _ _)
    rw [drain_congr hrecv, max_eq_right hlag.le]
    exact drain_recv_of_le le_rfl (by omega) (by omega)
  · rw [Nat.not_lt] at hlag
    rw [max_eq_left hlag]
    exact drain_recv_of_le hlag hle hn

/-- Batches with and without matching rows, and the end of a commit. -/
def sentEvents : List (TableEvent ℕ) := [.batch [12], .batch [1], .commit 2, .batch [15]]

theorem drain_recv_sentEvents :
    drain (Subscription.recv fromTen sentEvents) 4 ⟨some 0, some "v >= 10"⟩ =
      [.ok (.batch [12]), .ok (.batch [15])] :=
  (drain_recv fromTen (some "v >= 10") (by decide) (by decide)).trans rfl

/-- Successive calls of `try_recv` give only what comes before the first event that the filter does
not let through, and nothing if events were missed. -/
theorem drain_tryRecv (E : Libraries ρ) (filter : Option String) (hle : next ≤ sent.length)
    (hn : sent.length - next ≤ n) :
    drain (Subscription.tryRecv E sent) n ⟨some next, filter⟩ =
      if next < sent.length - subscriberCapacity then []
      else ((sent.drop next).takeWhile fun e => (deliver E filter e).isSome).filterMap
        (deliver E filter) := by
  split_ifs with hlag
  · exact drain_of_none (tryRecv_of_take (take_of_lt E filter hlag)) rfl n
  · exact drain_tryRecv_of_le E filter (Nat.not_lt.1 hlag) hle hn

theorem drain_tryRecv_sentEvents :
    drain (Subscription.tryRecv fromTen sentEvents) 4 ⟨some 0, some "v >= 10"⟩ =
      [.ok (.batch [12])] :=
  (drain_tryRecv fromTen (some "v >= 10") (by decide) (by decide)).trans rfl

end Drain

/-! ### The table function -/

/-- The subscription of `drain_events`. -/
def eventFilter (filter : String) : Option String :=
  if (trim filter.toList).isEmpty then none else some filter

/-- `drain_events` with what the passes of `recv` end with up to the deadline: the columns
`event_type` and `rows`. -/
def drainEvents : ℕ → List (Taken ρ) → List (String × ℕ)
  | 0, _ => []
  | _ + 1, [] => []
  | maxEvents + 1, .event (.batch rows) :: l => ("batch", rows.length) :: drainEvents maxEvents l
  | maxEvents + 1, .event (.commit rows) :: l => ("commit", rows) :: drainEvents maxEvents l
  | _ + 1, .failed _ :: _ => []
  | maxEvents + 1, .skipped :: l | maxEvents + 1, .lagged _ :: l | maxEvents + 1, .empty :: l =>
    drainEvents (maxEvents + 1) l

section DrainEvents

variable {E : Libraries ρ} {filter : String}

lemma drainEvents_eq_nil (maxEvents : ℕ) {l : List (Taken ρ)} (h : ∀ e, .event e ∉ l) :
    drainEvents maxEvents l = [] := by
  induction l with
  | nil => cases maxEvents <;> rfl
  | cons t l ih =>
    have hl := ih fun e he => h e (List.mem_cons_of_mem t he)
    cases maxEvents with
    | zero => rfl
    | succ maxEvents =>
      cases t with
      | event e => exact absurd List.mem_cons_self (h e)
      | failed => rfl
      | skipped | lagged | empty => rw [drainEvents, hl]

/-- What a subscription takes from the channel is what the filter makes of a sent event. -/
lemma Follows.exists_outcome {F : Feed ρ} {k start next : ℕ} {filter : Option String}
    {values : List (TableEvent ρ)} {l : List (Taken ρ)}
    (h : Follows E F k start filter next values l) {t : Taken ρ} (ht : t ∈ l)
    (hconsumed : t.isConsumed = true) : ∃ e, outcome E filter e = t := by
  have hmem : t ∈ values.map (outcome E filter) := h.consumed ▸ List.mem_filter.2 ⟨ht, hconsumed⟩
  obtain ⟨e, -, he⟩ := List.mem_map.1 hmem
  exact ⟨e, he⟩

lemma outcome_ne_event_of_error (h : ∀ rows, ∃ e, E.query filter rows = .error e)
    (e e' : TableEvent ρ) : outcome E (some filter) e ≠ .event e' := by
  cases e with
  | commit n => exact fun h => by cases h
  | batch rows =>
    obtain ⟨error, herror⟩ := h rows
    rw [outcome, filterBatch, herror]
    by_cases hempty : rows.isEmpty = true
    · rw [if_pos hempty]
      exact fun h => by cases h
    · rw [if_neg hempty]
      cases error <;> exact fun h => by cases h

/-- The table function keeps back that a filter is invalid: whatever is committed while it waits,
its table is empty. -/
theorem drainEvents_of_invalid (F : Feed ρ) (hblank : (trim filter.toList).isEmpty = false)
    (herror : ∀ rows, ∃ e, E.query filter rows = .error e) {actions : List (Action ρ)}
    (hopen : .close F.subs.length ∉ actions) (maxEvents : ℕ) :
    drainEvents maxEvents (taken F.subs.length
      ((F.subscribe (eventFilter filter)).run E actions).1) = [] := by
  have hfilter : eventFilter filter = some filter := by rw [eventFilter, hblank]; rfl
  obtain ⟨next, values, hfollows⟩ := (follows_subscribe E F (eventFilter filter)).run hopen
  rw [List.nil_append] at hfollows
  refine drainEvents_eq_nil maxEvents fun e he => ?_
  obtain ⟨sent, hsent⟩ := hfollows.exists_outcome he rfl
  rw [hfilter] at hsent
  exact outcome_ne_event_of_error herror sent e hsent

/-- Every filter names a column that the table does not have. -/
def noSuchColumn : Libraries ℕ where
  query _ _ := .error (.plan "No field named w")
  channel := .ofList _ _

theorem drainEvents_of_invalid_noSuchColumn : drainEvents 100 (taken 0
    ((Feed.subscribe ⟨[], [], []⟩ (eventFilter "w > 1")).run noSuchColumn twoCommits).1) = [] :=
  drainEvents_of_invalid ⟨[], [], []⟩ (by decide) (fun _ => ⟨_, rfl⟩) (by simp [twoCommits]) 100

end DrainEvents

end Subscribe

end BenoStreamDB
