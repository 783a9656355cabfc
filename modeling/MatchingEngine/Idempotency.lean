import Mathlib.Data.List.DropRight
import MatchingEngine.Rejection
import MatchingEngine.Returns

/-!
# Idempotency: a key is executed once inside the window

`Dedup` keeps a set of keys and, per account, a queue of ids. The two stay in
step: the queue of an account is the window of the ids it had accepted, and
the set holds exactly the ids of the queues (`Dedup.Windowed`). So a command
is answered `Duplicate` exactly when its id is in the window
(`exactly_once`).
-/

namespace MatchingEngine

open RustArith HashModel

/-! ## A sliding window -/

section Window

variable {α : Type} {xs q : List α} {x : α} {n : ℕ}

theorem length_rtake (xs : List α) (n : ℕ) : (xs.rtake n).length = min n xs.length := by
  rw [List.rtake, List.length_drop]
  omega

/-- A window that is not full holds everything. -/
theorem rtake_of_length_lt (h : (xs.rtake n).length < n) : xs.rtake n = xs := by
  rw [length_rtake] at h
  have hzero : xs.length - n = 0 := by omega
  rw [List.rtake, hzero, List.drop_zero]

/-- A full window moves on by losing its front. -/
theorem rtake_of_rtake_succ (h : xs.rtake (n + 1) = x :: q) (hlen : q.length = n) :
    xs.rtake n = q := by
  have hfull : n + 1 ≤ xs.length := by
    have hcount := congrArg List.length h
    rw [length_rtake, List.length_cons] at hcount
    omega
  have hdrop : xs.length - n = xs.length - (n + 1) + 1 := by omega
  have htail := congrArg List.tail h
  rwa [List.rtake, List.tail_drop, ← hdrop, List.tail_cons] at htail

end Window

/-! ## `Dedup` -/

/-- The queue of an account. -/
def Dedup.recent (d : Dedup) (accountId : AccountId) : List UInt64 :=
  (d.order.lookup accountId).getD []

/-- The queues are the windows of what was accepted, and the set is what the
queues hold. -/
structure Dedup.Windowed (d : Dedup) (accepted : AccountId → List UInt64) : Prop where
  recent : ∀ a, d.recent a = (accepted a).rtake dedupWindow
  nodup : ∀ a, (d.recent a).Nodup
  seen : ∀ a id, (a, id) ∈ d.seen ↔ id ∈ d.recent a

namespace Dedup

variable {d d' : Dedup} {accountId : AccountId} {clientOrderId : UInt64}

theorem recent_insert (order : HashMap AccountId (List UInt64)) (seen : Finset (AccountId × UInt64))
    (queue : List UInt64) (a : AccountId) :
    ({ seen := seen, order := order.insert accountId queue } : Dedup).recent a
      = if a = accountId then queue else (order.lookup a).getD [] := by
  rw [recent]
  dsimp only
  rw [lookup_insert_ite]
  split <;> rfl

/-- A key that was seen is refused, and nothing changes. -/
theorem insert_seen (h : (accountId, clientOrderId) ∈ d.seen) :
    d.insert accountId clientOrderId = .ok (d, false) := by
  unfold Dedup.insert
  rw [if_pos h]
  rfl

/-- **A new key** goes to the back of its account's queue; a queue that was
full loses its front, and so does the set. -/
theorem insert_ok (h : d.insert accountId clientOrderId = .ok (d', true)) :
    (accountId, clientOrderId) ∉ d.seen ∧
      (((d.recent accountId).length < dedupWindow ∧
          d' = { seen := Insert.insert (accountId, clientOrderId) d.seen
                 order := d.order.insert accountId (d.recent accountId ++ [clientOrderId]) }) ∨
        ∃ evicted rest, dedupWindow ≤ (d.recent accountId).length ∧
          d.recent accountId ++ [clientOrderId] = evicted :: rest ∧
          d' =
            { seen := (Insert.insert (accountId, clientOrderId) d.seen).erase (accountId, evicted)
              order := d.order.insert accountId rest }) := by
  unfold Dedup.insert at h
  split at h
  · cases h
  · rename_i hfresh
    refine ⟨hfresh, ?_⟩
    dsimp only at h
    have hlen : (((d.order.lookup accountId).getD []) ++ [clientOrderId]).length
        = (d.recent accountId).length + 1 := by simp [recent]
    rw [hlen] at h
    split at h
    · rename_i hfull
      split at h
      · rename_i evicted rest hqueue
        cases h
        exact .inr ⟨evicted, rest, by omega, hqueue, rfl⟩
      · cases h
    · rename_i hroom
      cases h
      exact .inl ⟨by omega, rfl⟩

end Dedup

/-- **The set and the queues stay in step** when a new key comes in. -/
theorem Dedup.Windowed.insert {d d' : Dedup} {accepted : AccountId → List UInt64}
    {accountId : AccountId} {clientOrderId : UInt64} (hd : d.Windowed accepted)
    (h : d.insert accountId clientOrderId = .ok (d', true)) :
    d'.Windowed (Function.update accepted accountId (accepted accountId ++ [clientOrderId])) := by
  obtain ⟨hfresh, hcase⟩ := Dedup.insert_ok h
  have hnew : clientOrderId ∉ d.recent accountId := fun hin =>
    hfresh ((hd.seen accountId clientOrderId).mpr hin)
  have hsnoc : (d.recent accountId ++ [clientOrderId]).Nodup :=
    List.nodup_append.mpr ⟨hd.nodup accountId, List.nodup_singleton _, by
      rintro id hid _ hmem rfl
      exact hnew (List.mem_singleton.mp hmem ▸ hid)⟩
  rcases hcase with ⟨hroom, rfl⟩ | ⟨evicted, rest, hfull, hqueue, rfl⟩
  · -- the window was not full: it holds all that was accepted
    have hall : (accepted accountId).rtake dedupWindow = accepted accountId :=
      rtake_of_length_lt (by rw [← hd.recent]; exact hroom)
    constructor
    case recent =>
      intro a
      rw [Dedup.recent_insert]
      by_cases ha : a = accountId
      · subst ha
        rw [if_pos rfl, Function.update_self, dedupWindow, List.rtake_concat_succ, hd.recent, hall]
        have hlen : (accepted a).length ≤ 999 := by
          rw [hd.recent, hall] at hroom
          exact Nat.le_of_lt_succ hroom
        rw [List.rtake, Nat.sub_eq_zero_of_le hlen, List.drop_zero]
      · rw [if_neg ha, Function.update_of_ne ha]
        exact hd.recent a
    case nodup =>
      intro a
      rw [Dedup.recent_insert]
      split
      · exact hsnoc
      · exact hd.nodup a
    case seen =>
      intro a id
      rw [Dedup.recent_insert, Finset.mem_insert, hd.seen, Prod.mk.injEq]
      by_cases ha : a = accountId
      · subst ha
        simp [or_comm]
      · simp [ha, Dedup.recent]
  · -- the window was full: its front makes room
    obtain ⟨queue, hold, hrest⟩ : ∃ queue, d.recent accountId = evicted :: queue ∧
        rest = queue ++ [clientOrderId] := by
      cases hrecent : d.recent accountId with
      | nil =>
          rw [hrecent] at hfull
          exact absurd hfull (by decide)
      | cons front queue =>
          rw [hrecent, List.cons_append] at hqueue
          obtain ⟨rfl, rfl⟩ := List.cons.inj hqueue
          exact ⟨queue, rfl, rfl⟩
    have hlen : queue.length = 999 := by
      have hle : (d.recent accountId).length ≤ 1000 := by
        rw [hd.recent, length_rtake]
        exact Nat.min_le_left _ _
      rw [hold, List.length_cons] at hle hfull
      have : 1000 ≤ queue.length + 1 := hfull
      omega
    have hwindow : (accepted accountId).rtake 999 = queue :=
      rtake_of_rtake_succ ((hd.recent accountId).symm.trans hold) hlen
    have hgone : evicted ∉ rest := by
      rw [hqueue] at hsnoc
      exact (List.nodup_cons.mp hsnoc).1
    constructor
    case recent =>
      intro a
      rw [Dedup.recent_insert]
      by_cases ha : a = accountId
      · subst ha
        rw [if_pos rfl, Function.update_self, dedupWindow, List.rtake_concat_succ, hwindow, hrest]
      · rw [if_neg ha, Function.update_of_ne ha]
        exact hd.recent a
    case nodup =>
      intro a
      rw [Dedup.recent_insert]
      split
      · rw [hqueue] at hsnoc
        exact (List.nodup_cons.mp hsnoc).2
      · exact hd.nodup a
    case seen =>
      intro a id
      rw [Dedup.recent_insert, Finset.mem_erase, Finset.mem_insert, hd.seen]
      by_cases ha : a = accountId
      · subst ha
        have hmem : id = clientOrderId ∨ id ∈ d.recent a ↔ id = evicted ∨ id ∈ rest := by
          rw [← List.mem_cons (l := rest), ← hqueue, List.mem_append, List.mem_singleton,
            or_comm]
        simp only [ne_eq, Prod.mk.injEq, true_and, if_true, hmem]
        constructor
        · rintro ⟨hne, rfl | hin⟩
          · exact absurd rfl hne
          · exact hin
        · intro hin
          exact ⟨fun heq => hgone (heq ▸ hin), .inr hin⟩
      · simp [ha, Dedup.recent]

/-! ## Every run -/

/-- The ids of an account whose commands were accepted as new, in order;
rejected commands are among them. -/
def acceptedIds (h : List Record) (a : AccountId) : List UInt64 :=
  ((callsOf h a).filter fun r => r.response ≠ .duplicate).map Record.clientOrderId

theorem acceptedIds_duplicate {h : List Record} {r : Record} (hr : r.response = .duplicate) :
    acceptedIds (h ++ [r]) = acceptedIds h := by
  funext a
  by_cases ha : r.accountId = a <;> simp [acceptedIds, callsOf, ha, hr]

theorem acceptedIds_new {h : List Record} {r : Record} (hr : r.response ≠ .duplicate) :
    acceptedIds (h ++ [r]) = Function.update (acceptedIds h) r.accountId
      (acceptedIds h r.accountId ++ [r.clientOrderId]) := by
  funext a
  by_cases ha : a = r.accountId
  · subst ha
    simp [acceptedIds, callsOf, hr]
  · rw [Function.update_of_ne ha]
    simp [acceptedIds, callsOf, Ne.symm ha]

section Runs

variable {b : Build} {limits : Limits} {h : List Record} {e e' : Engine} {o : Drains}
  {accountId : AccountId} {clientOrderId : UInt64} {command : Command}
  {response : CommandResponse} {batch : Option EventBatch}

/-- **One call**: a key that was seen is answered `Duplicate` and changes
nothing; any other is recorded, whatever the answer. -/
theorem apply_key
    (happly : apply b o e accountId clientOrderId command = .ok (e', response, batch)) :
    ((accountId, clientOrderId) ∈ e.dedup.seen ∧ response = .duplicate ∧ batch = none ∧
        e' = e) ∨
      (response ≠ .duplicate ∧
        e.dedup.insert accountId clientOrderId = .ok (e'.dedup, true)) := by
  rcases apply_ok happly with ⟨rfl, rfl, rfl⟩ |
    ⟨dedup, e₁, events, bevs, hdedup, hdispatch, _, hend⟩
  · refine .inl ⟨?_, rfl, rfl, rfl⟩
    by_contra hfresh
    -- a new key would have been dispatched, and no command answers `Duplicate`
    obtain ⟨dedup, hdedup, _⟩ := Dedup.insert_fresh hfresh
    obtain ⟨r, hinsert, h⟩ := bind_ok.mp happly
    rw [hdedup] at hinsert
    cases hinsert
    obtain ⟨⟨e₁, response, events⟩, hdispatch, h⟩ := bind_ok.mp h
    obtain ⟨bevs, _, h⟩ := bind_ok.mp h
    refine dispatch_ne_duplicate hdispatch ?_
    dsimp only at h
    split at h
    · cases h
      rfl
    · obtain ⟨n, _, h⟩ := bind_ok.mp h
      cases h
  · have hkept : e₁.dedup = dedup := (dispatch_frame hdispatch).2.2
    refine .inr ⟨dispatch_ne_duplicate hdispatch, ?_⟩
    rcases hend with ⟨_, _, rfl⟩ | ⟨_, _, _, _, rfl⟩
    · rw [hdedup, ← hkept]
    · rw [hdedup, ← hkept]

theorem Reaches.windowed (hr : Reaches b limits h e) : e.dedup.Windowed (acceptedIds h) := by
  refine hr.invariant (motive := fun h e => e.dedup.Windowed (acceptedIds h)) ?_ ?_
  · have hempty : ∀ a, (Engine.new limits).dedup.recent a = [] := fun _ => rfl
    have hnone : ∀ a, acceptedIds [] a = [] := fun _ => rfl
    constructor
    case recent => intro a; rw [hempty, hnone, List.rtake_nil]
    case nodup => intro a; rw [hempty]; exact List.nodup_nil
    case seen =>
      intro a id
      rw [hempty]
      exact iff_of_false (Finset.notMem_empty _) (List.not_mem_nil)
  · intro h e o a cid cmd e' response batch hd happly
    rcases apply_key happly with ⟨_, hdup, _, rfl⟩ | ⟨hnew, hinsert⟩
    · rw [acceptedIds_duplicate hdup]
      exact hd
    · rw [acceptedIds_new hnew]
      exact hd.insert hinsert

/-- **Exactly once inside the window**: in every reachable engine the queue of
an account is the window of its accepted ids and the set holds exactly the
queued keys; a call is answered `Duplicate` exactly when its id is in the
window, and then it returns no batch and changes nothing. -/
theorem exactly_once (hr : Reaches b limits h e) :
    (∀ a, e.dedup.recent a = (acceptedIds h a).rtake 1000 ∧ (e.dedup.recent a).Nodup ∧
        (e.dedup.recent a).length ≤ 1000 ∧
        ∀ id, (a, id) ∈ e.dedup.seen ↔ id ∈ e.dedup.recent a) ∧
      ∀ (o : Drains) (a : AccountId) (id : UInt64) (command : Command),
        (id ∈ (acceptedIds h a).rtake 1000 →
          apply b o e a id command = .ok (e, .duplicate, none)) ∧
        ∀ e' response batch, apply b o e a id command = .ok (e', response, batch) →
          (response = .duplicate ↔ id ∈ (acceptedIds h a).rtake 1000) ∧
            (response = .duplicate → batch = none ∧ e' = e) := by
  have hd := hr.windowed
  have hkey : ∀ a id, (a, id) ∈ e.dedup.seen ↔ id ∈ (acceptedIds h a).rtake 1000 := by
    intro a id
    rw [hd.seen, hd.recent]
    rfl
  constructor
  · intro a
    refine ⟨hd.recent a, hd.nodup a, ?_, hd.seen a⟩
    rw [hd.recent, length_rtake]
    exact Nat.min_le_left _ _
  · intro o a id command
    refine ⟨fun hin => ?_, fun e' response batch happly => ?_⟩
    · exact bind_ok.mpr ⟨_, Dedup.insert_seen ((hkey a id).mpr hin), rfl⟩
    · rcases apply_key happly with ⟨hseen, rfl, rfl, rfl⟩ | ⟨hnew, hinsert⟩
      · exact ⟨iff_of_true rfl ((hkey a id).mp hseen), fun _ => ⟨rfl, rfl⟩⟩
      · have hfresh := (Dedup.insert_ok hinsert).1
        exact ⟨iff_of_false hnew fun hin => hfresh ((hkey a id).mpr hin),
          fun hdup => absurd hdup hnew⟩

end Runs

/-- Sent again, the last bid of the trading run does nothing. -/
theorem exactly_once_trading :
    let e := (finish .default (runCalls .release .default tradingCalls)).1
    apply .release .sorted e 2 2 (limitOrder { base := .SOL, quote := .USD } .bid 11 8)
      = .ok (e, .duplicate, none) := by
  intro e
  exact ((exactly_once (reaches_runCalls tradingCalls_returned)).2 .sorted 2 2 _).1
    (by decide +kernel)

end MatchingEngine
