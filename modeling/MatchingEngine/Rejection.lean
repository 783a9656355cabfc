import MatchingEngine.Conservation
import MatchingEngine.Dirty

/-!
# Rejection: a refused command changes nothing

A command that is answered with a refusal leaves the engine as it was, but for
the dedup window and for ledger entries of zeros, and emits nothing; a command
that is answered with an effect emits one batch under the old sequence number
(`rejection_atomic`). The one branch that could break this is the error of the
surplus release, which comes after the book and the ledger were changed: it is
dead while the totals are words, and alive beyond (`conflicted_mutates`).
-/

namespace MatchingEngine

open RustArith HashModel Bank

/-- Answers of a command that had its effect. -/
def CommandResponse.accepted : CommandResponse → Bool
  | .place (.ok _) => true
  | .cancel found => found
  | .deposit (.ok _) => true
  | .withdraw (.ok _) => true
  | _ => false

/-- Answers of a command that was refused. -/
def CommandResponse.rejected : CommandResponse → Bool
  | .place (.error _) => true
  | .cancel found => !found
  | .deposit (.error _) => true
  | .withdraw (.error _) => true
  | .listPair (.error _) => true
  | .delistPair removed => !removed
  | .duplicate => true
  | _ => false

theorem accepted_of_rejected {response : CommandResponse} (h : response.rejected = true) :
    response.accepted = false := by
  cases response with
  | place res => cases res <;> first | rfl | cases h
  | cancel found => simpa [CommandResponse.rejected, CommandResponse.accepted] using h
  | deposit res => cases res <;> first | rfl | cases h
  | withdraw res => cases res <;> first | rfl | cases h
  | listPair res => rfl
  | delistPair removed => rfl
  | duplicate => rfl

/-- The same engine: only the dedup window may differ, and entries of zeros
may have appeared in the ledger. -/
structure Engine.Unchanged (e e' : Engine) : Prop where
  books : e'.books = e.books
  orderPair : e'.orderPair = e.orderPair
  nextOrderId : e'.nextOrderId = e.nextOrderId
  nextSeq : e'.nextSeq = e.nextSeq
  listedPairs : e'.listedPairs = e.listedPairs
  limits : e'.limits = e.limits
  dirty : e'.ledger.dirty = e.ledger.dirty
  balance : ∀ a c, e'.ledger.balance a c = e.ledger.balance a c

theorem Engine.Unchanged.refl (e : Engine) : e.Unchanged e :=
  ⟨rfl, rfl, rfl, rfl, rfl, rfl, rfl, fun _ _ => rfl⟩

theorem Ledger.Quiet.unchanged {e : Engine} {l : Ledger} (h : e.ledger.Quiet l) :
    e.Unchanged { e with ledger := l } :=
  ⟨rfl, rfl, rfl, rfl, rfl, rfl, h.dirty, h.balance⟩

/-! ## One command -/

section Command

variable {b : Build} {o : Drains} {e e' : Engine} {accountId : AccountId}

theorem deposit_dirty {l l' : Ledger} {a : AccountId} {c : Currency} {x y : UInt64}
    (h : l.deposit b c a x = .ok (l', y)) : l'.dirty ≠ ∅ := by
  obtain ⟨l₁, _, rfl, _⟩ := deposit_ok h
  exact Finset.insert_ne_empty _ _

/-- Only the dedup window answers `Duplicate`. -/
theorem dispatch_ne_duplicate {command : Command} {response : CommandResponse}
    {events : List Event}
    (h : Engine.dispatch b o e accountId command = .ok (e', response, events)) :
    response ≠ .duplicate := by
  have h := dispatch_ok h
  rintro rfl
  cases command with
  | place req =>
      obtain ⟨r, _, h⟩ := h
      cases r with
      | error reason => cases h.1
      | ok m =>
          obtain ⟨_, _, h, _⟩ := h
          cases h
  | cancel req =>
      obtain ⟨r, _, h⟩ := h
      cases r with
      | none => cases h.1
      | some r =>
          obtain ⟨_, _, h, _⟩ := h
          cases h
  | deposit req =>
      obtain ⟨_, _, h, _⟩ := h
      cases h
  | withdraw req =>
      obtain ⟨_, _, _, _, h, _⟩ := h
      cases h
  | listPair pair =>
      obtain ⟨_, ⟨_, _, h⟩ | ⟨_, _, h⟩⟩ := h
      · cases h
      · cases h
  | delistPair pair =>
      obtain ⟨_, _, h⟩ := h
      cases h

/-- What a command answers, against what it changed and what it has to
report. -/
structure Settled (e e' : Engine) (response : CommandResponse) (events : List Event) :
    Prop where
  accepted : response.accepted = true → events ≠ [] ∨ e'.ledger.dirty ≠ ∅
  silent : response.accepted = false → events = [] ∧ e'.ledger.dirty = e.ledger.dirty
  unchanged : response.rejected = true → e.Unchanged e'
  nextSeq : e'.nextSeq = e.nextSeq

/-- A refusal that left the engine alone. -/
theorem Settled.refused {response : CommandResponse} (h : e.Unchanged e')
    (hresponse : response.accepted = false) : Settled e e' response [] where
  accepted haccepted := by rw [hresponse] at haccepted; cases haccepted
  silent _ := ⟨rfl, h.dirty⟩
  unchanged _ := h
  nextSeq := h.nextSeq

/-- An effect that has something to report. -/
theorem Settled.effected {response : CommandResponse} {events : List Event}
    (hresponse : response.accepted = true) (hreport : events ≠ [] ∨ e'.ledger.dirty ≠ ∅)
    (hseq : e'.nextSeq = e.nextSeq) : Settled e e' response events where
  accepted _ := hreport
  silent h := by rw [hresponse] at h; cases h
  unchanged h := by rw [accepted_of_rejected h] at hresponse; cases hresponse
  nextSeq := hseq

/-- **One command**, dispatched. -/
theorem dispatch_settled {command : Command} {response : CommandResponse}
    {events : List Event} (hs : e.Shape) (hb : e.Backed) (hfit : e.Fits b)
    (h : Engine.dispatch b o e accountId command = .ok (e', response, events)) :
    Settled e e' response events := by
  have h := dispatch_ok h
  cases command with
  | place req =>
      obtain ⟨r, hplace, hanswer⟩ := h
      rcases placeOrder_ok hplace with ⟨reason, l, rfl, rfl, hquiet⟩ | ⟨t, rfl, rfl⟩
      · obtain ⟨rfl, rfl⟩ := hanswer
        exact .refused hquiet.unchanged rfl
      · -- the releases at the end succeed, so an order that was matched is accepted
        rw [t.result_eq hs hb hfit] at hanswer
        obtain ⟨p, _, rfl, rfl⟩ := hanswer
        exact .effected rfl (.inl (List.cons_ne_nil _ _)) rfl
  | cancel req =>
      obtain ⟨r, hcancel, hanswer⟩ := h
      rcases engineCancel_ok hcancel with ⟨rfl, rfl⟩ | ⟨t, rfl, rfl⟩
      · obtain ⟨rfl, rfl⟩ := hanswer
        exact .refused (.refl _) rfl
      · obtain ⟨q, _, rfl, rfl⟩ := hanswer
        exact .effected rfl (.inl (List.cons_ne_nil _ _)) rfl
  | deposit req =>
      obtain ⟨r, hdeposit, rfl, rfl⟩ := h
      rcases engineDeposit_ok hdeposit with
        ⟨reason, rfl, rfl⟩ | ⟨held, l, y, _, _, _, hl, rfl, rfl⟩
      · exact .refused (.refl _) rfl
      · exact .effected rfl (.inr (deposit_dirty hl)) rfl
  | withdraw req =>
      obtain ⟨l, r, hwithdraw, rfl, rfl, rfl⟩ := h
      rcases withdraw_ok hwithdraw with ⟨rfl, _, rfl⟩ | ⟨rfl, _, _, rfl, _⟩
      · exact .refused (Ledger.quiet_put_self _ _ _).unchanged rfl
      · exact .effected rfl (.inr (Finset.insert_ne_empty _ _)) rfl
  | listPair pair =>
      rcases h.2 with ⟨_, rfl, rfl⟩ | ⟨_, rfl, rfl⟩
      · rw [h.1]
        exact .refused (.refl _) rfl
      · rw [h.1]
        exact ⟨nofun, fun _ => ⟨rfl, rfl⟩, nofun, rfl⟩
  | delistPair pair =>
      obtain ⟨rfl, rfl, rfl⟩ := h
      refine ⟨nofun, fun _ => ⟨rfl, rfl⟩, fun h => ?_, rfl⟩
      have habsent : pair ∉ e.listedPairs := by
        simpa [CommandResponse.rejected] using h
      rw [Finset.erase_eq_of_notMem habsent]
      exact .refl _

/-- Something to report: an event or a dirty entry. -/
theorem report_eq_nil (events : List Event) {bevs : List Event} {l : Ledger}
    {dirty : Finset (AccountId × Currency)} (drain : DrainOrder (AccountId × Currency))
    (hbev : (drain.toList dirty).mapM (balanceEvent l) = .ok bevs) :
    events ++ bevs = [] ↔ events = [] ∧ dirty = ∅ := by
  have hnil : bevs = [] ↔ dirty = ∅ := by
    have hlen := (mapM_ok.mp hbev).length_eq
    rw [← DrainOrder.toList_eq_nil (o := drain), ← List.length_eq_zero_iff, ← hlen,
      List.length_eq_zero_iff]
  rw [List.append_eq_nil_iff, hnil]

end Command

/-! ## Every run -/

/-- **Rejections are atomic and silent**: a batch comes exactly with an
accepted command, under the old sequence number, which it advances; a refused
command changes nothing observable, and a duplicate nothing at all. -/
theorem rejection_atomic {b : Build} {limits : Limits} {h : List Record} {e e' : Engine}
    (hr : Reaches b limits h e) (hnet : b.Checks (NetBelow h)) {o : Drains}
    {accountId : AccountId} {clientOrderId : UInt64} {command : Command}
    {response : CommandResponse} {batch : Option EventBatch}
    (happly : apply b o e accountId clientOrderId command = .ok (e', response, batch)) :
    batch.isSome = response.accepted ∧
      (∀ emitted, batch = some emitted → emitted.seq = e.nextSeq ∧
        e'.nextSeq = e.nextSeq + 1 ∧
        (b = .debug → e'.nextSeq.toNat = e.nextSeq.toNat + 1)) ∧
      (batch = none → e'.nextSeq = e.nextSeq) ∧
      (response.rejected = true → e.Unchanged e') ∧
      (response = .duplicate → e' = e) := by
  have hacc := hr.accounted hnet
  rcases apply_ok happly with ⟨rfl, rfl, rfl⟩ |
    ⟨dedup, e₁, events, bevs, _, hdispatch, hbev, hend⟩
  · exact ⟨rfl, nofun, fun _ => rfl, fun _ => .refl _, fun _ => rfl⟩
  · have hsettled := dispatch_settled (e := { e with dedup := dedup })
      (hacc.shape.of_books rfl) hacc.backed (hacc.fits hnet) hdispatch
    have hclean : e.ledger.dirty = ∅ := hr.clean
    have hreport := report_eq_nil events o.dirty hbev
    have hfresh := dispatch_ne_duplicate hdispatch
    have hunchanged : response.rejected = true → e.Unchanged { e₁ with
        ledger := { e₁.ledger with dirty := ∅ } } := fun hrejected => by
      have hu := hsettled.unchanged hrejected
      exact ⟨hu.books, hu.orderPair, hu.nextOrderId, hu.nextSeq, hu.listedPairs, hu.limits,
        hclean.symm, hu.balance⟩
    rcases hend with ⟨hnil, rfl, rfl⟩ | ⟨n, hne, hn, rfl, rfl⟩
    · obtain ⟨hevents, hdirty⟩ := hreport.mp hnil
      refine ⟨?_, nofun, fun _ => hsettled.nextSeq, hunchanged,
        fun h => absurd h hfresh⟩
      cases hacc' : response.accepted with
      | false => rfl
      | true =>
          rcases hsettled.accepted hacc' with h | h
          · exact absurd hevents h
          · exact absurd hdirty h
    · have haccepted : response.accepted = true := by
        cases hacc' : response.accepted with
        | true => rfl
        | false =>
            obtain ⟨hevents, hdirty⟩ := hsettled.silent hacc'
            exact absurd (hreport.mpr ⟨hevents, hdirty.trans hclean⟩) hne
      have hseq : e₁.nextSeq = e.nextSeq := hsettled.nextSeq
      refine ⟨haccepted.symm, fun emitted hemitted => ?_, nofun,
        fun hrejected => ?_, fun h => absurd h hfresh⟩
      · cases hemitted
        rw [← hseq]
        refine ⟨rfl, Build.add_ok hn, fun hdebug => ?_⟩
        exact Build.add_toNat hn (.inl hdebug)
      · exact absurd haccepted (by rw [accepted_of_rejected hrejected]; decide)

/-- The next bid of the trading run is refused for want of funds. -/
theorem rejection_atomic_trading :
    okWith (apply .release .sorted (finish .default
      (runCalls .release .default tradingCalls)).1 2 3
        (limitOrder { base := .SOL, quote := .USD } .bid 11 1000)) (fun r =>
          r.2.1 = .place (.error .insufficientFunds) ∧ r.2.2.isSome = r.2.1.accepted) = true := by
  have hreject : ∃ r, apply .release .sorted (finish .default
      (runCalls .release .default tradingCalls)).1 2 3
        (limitOrder { base := .SOL, quote := .USD } .bid 11 1000) = .ok r ∧
          decide (r.2.1 = .place (.error .insufficientFunds)) = true :=
    okWith_iff.mp (by decide +kernel)
  obtain ⟨⟨e', response, batch⟩, happly, hresponse⟩ := hreject
  refine okWith_iff.mpr ⟨_, happly, ?_⟩
  have hatomic := rejection_atomic (reaches_runCalls tradingCalls_returned)
    (.inr tradingCalls_net) happly
  simp only [decide_eq_true_eq] at hresponse ⊢
  exact ⟨hresponse, hatomic.1⟩

/-! ## Beyond a word -/

/-- A release run after which account 1 holds more than a word of USD: all of
a word is reserved for its bid, and it was paid a hundred for its SOL. -/
def conflictedCalls : List (AccountId × UInt64 × Command) :=
  let market : Pair := { base := .SOL, quote := .USD }
  let word : UInt64 := UInt64.ofNat (2 ^ 64 - 1)
  [(9, 1, .listPair market),
    (1, 1, .deposit { amount := word, currency := .USD }),
    (1, 2, limitOrder market .bid 1 word),
    (2, 1, .deposit { amount := 100, currency := .USD }),
    (1, 3, .deposit { amount := 50, currency := .SOL }),
    (2, 2, limitOrder market .bid 2 50),
    (1, 4, limitOrder market .ask 2 50),
    (3, 1, .deposit { amount := 10, currency := .SOL }),
    (3, 2, limitOrder market .ask 5 10)]

/-- The engine after that run. -/
def conflicted : Engine := (finish .none (runCalls .release .none conflictedCalls)).1

/-- The next bid of account 1 reserves past a word, so that the surplus is not
found: the order is refused after it was matched. -/
theorem conflicted_mutates :
    Reaches .release .none (finish .none (runCalls .release .none conflictedCalls)).2
        conflicted ∧
      okWith (apply .release .sorted conflicted 1 5
          (limitOrder { base := .SOL, quote := .USD } .bid 10 10)) (fun r =>
        r.2.1 = .place (.error .invalidAmount) ∧
          (r.1.book { base := .SOL, quote := .USD }).asks.entries = [] ∧
          (conflicted.book { base := .SOL, quote := .USD }).asks.entries ≠ [] ∧
          (r.1.ledger.balance 1 .SOL).available
            ≠ (conflicted.ledger.balance 1 .SOL).available ∧
          r.1.nextSeq ≠ conflicted.nextSeq) = true :=
  ⟨reaches_runCalls (by decide +kernel), by decide +kernel⟩

end MatchingEngine
