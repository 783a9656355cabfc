import MatchingEngine.Cancellation
import MatchingEngine.Idempotency

/-!
# Exit: every account can leave

From every state a run reaches, an account can cancel its open orders one by
one and then withdraw all it has (`funds_withdrawable`). A cancel leaves one
open order less (`Reaches.cancels`); with none left nothing is reserved, and a
withdrawal of what is available leaves nothing (`Reaches.withdraws`). What an
account does on its way out is not visible to the others (`Leaving`).
-/

namespace MatchingEngine

open RustArith HashModel Bank

/-- How many orders of an account rest, over all books. -/
def Engine.openCount (e : Engine) (a : AccountId) : ℕ :=
  ∑ pair, (e.book pair).orders.countP fun o => o.accountId = a

/-- The orders of the other accounts in a book. -/
def OrderBook.ordersOfOthers (book : OrderBook) (a : AccountId) : List Order :=
  book.orders.filter fun o => o.accountId ≠ a

/-- The run is within the words: its net deposits are, and in a release build
they always were and its ids did not wrap. -/
structure Unwrapped (b : Build) (h : List Record) : Prop where
  now : ∀ c, netDeposits h c < 2 ^ 64
  net : b.Checks (NetBelow h)
  places : b.Checks (places h < 2 ^ 64)

/-- What an account does on its way out: cancels and withdrawals that are
accepted, and that leave the other accounts what they have. -/
structure Leaving (a : AccountId) (e e' : Engine) (h : List Record) : Prop where
  calls : ∀ r ∈ h, r.accountId = a ∧ r.response.accepted = true ∧
    ((∃ req, r.command = .cancel req) ∨ ∃ req, r.command = .withdraw req)
  held : ∀ c, e'.held a c + withdrawals h c = e.held a c
  others : ∀ a' ≠ a, ∀ c, e'.ledger.balance a' c = e.ledger.balance a' c
  orders : ∀ pair, ((e.book pair).ordersOfOthers a).Perm ((e'.book pair).ordersOfOthers a)

section

variable {a : AccountId} {e e' e'' : Engine} {h h' : List Record} {b : Build}

theorem Leaving.refl (a : AccountId) (e : Engine) : Leaving a e e [] where
  calls _ hr := absurd hr List.not_mem_nil
  held _ := rfl
  others _ _ _ := rfl
  orders _ := List.Perm.refl _

theorem withdrawals_append (h h' : List Record) (c : Currency) :
    withdrawals (h ++ h') c = withdrawals h c + withdrawals h' c := by simp [withdrawals]

theorem Leaving.trans (hl : Leaving a e e' h) (hl' : Leaving a e' e'' h') :
    Leaving a e e'' (h ++ h') where
  calls r hr := (List.mem_append.mp hr).elim (hl.calls r) (hl'.calls r)
  held c := by
    have hfirst := hl.held c
    have hsecond := hl'.held c
    rw [withdrawals_append]
    omega
  others a' hne c := (hl'.others a' hne c).trans (hl.others a' hne c)
  orders pair := (hl.orders pair).trans (hl'.orders pair)

/-- A call that is no deposit and no order keeps the run within the words. -/
theorem Unwrapped.snoc (hu : Unwrapped b h) {r : Record} (hdep : ∀ c, r.deposited c = 0)
    (hplace : r.command.isPlace = false) : Unwrapped b (h ++ [r]) := by
  have hnet : ∀ c, netDeposits (h ++ [r]) c ≤ netDeposits h c := by
    intro c
    have hdeposits : deposits (h ++ [r]) c = deposits h c := by
      rw [deposits_append]
      simp [deposits, hdep]
    rw [netDeposits, netDeposits, hdeposits, withdrawals_append]
    omega
  constructor
  case now => exact fun c => (hnet c).trans_lt (hu.now c)
  case net =>
    refine hu.net.imp fun hbelow h' hprefix c => ?_
    rcases List.prefix_concat_iff.mp hprefix with rfl | hprefix
    · exact (hnet c).trans_lt (hbelow.now c)
    · exact hbelow h' hprefix c
  case places =>
    refine hu.places.imp fun hplaces => ?_
    rw [places_snoc, hplace]
    simpa using hplaces

/-- There is a client order id outside the window. -/
theorem Reaches.fresh_key {limits : Limits} (hr : Reaches b limits h e) (a : AccountId) :
    ∃ cid, (a, cid) ∉ e.dedup.seen := by
  have hw := hr.windowed
  by_contra hall
  have hlen : (e.dedup.recent a).length ≤ dedupWindow := by
    rw [hw.recent, length_rtake]
    exact Nat.min_le_left _ _
  -- one id more than the window holds
  have hsub : (List.range (dedupWindow + 1)).map UInt64.ofNat ⊆ e.dedup.recent a := by
    intro cid _
    refine (hw.seen a cid).mp ?_
    by_contra hnew
    exact hall ⟨cid, hnew⟩
  have hnodup : ((List.range (dedupWindow + 1)).map UInt64.ofNat).Nodup := by
    refine List.Nodup.map_on (fun i hi j hj hij => ?_) List.nodup_range
    rw [List.mem_range, dedupWindow] at hi hj
    have heq := congrArg UInt64.toNat hij
    rwa [UInt64.toNat_ofNat_of_lt' (show i < 2 ^ 64 by omega),
      UInt64.toNat_ofNat_of_lt' (show j < 2 ^ 64 by omega)] at heq
  have hle := (List.subperm_of_subset hnodup hsub).length_le
  rw [List.length_map, List.length_range] at hle
  omega

end

/-! ## One call -/

theorem Balance.eq_of_toNat {x y : Balance} (havail : x.available.toNat = y.available.toNat)
    (hresv : x.reserved.toNat = y.reserved.toNat) : x = y := by
  obtain ⟨available, reserved⟩ := x
  obtain ⟨available', reserved'⟩ := y
  cases UInt64.toNat_inj.mp havail
  cases UInt64.toNat_inj.mp hresv
  rfl

/-- Without open orders nothing is committed. -/
theorem committed_of_openCount {e : Engine} (hs : e.Shape) {a : AccountId}
    (hnone : e.openCount a = 0) (c : Currency) : e.committed a c = 0 := by
  refine Finset.sum_eq_zero fun pair _ => ?_
  rw [committed_eq_worth (hs.wf pair)]
  refine worth_eq_zero fun o ho => ?_
  have hcount := Finset.sum_eq_zero_iff.mp hnone pair (Finset.mem_univ pair)
  have hother : ¬ o.accountId = a := by
    simpa using List.countP_eq_zero.mp hcount o ho
  rw [Order.rate, if_neg hother]

section

variable {a : AccountId} {e : Engine} {h : List Record} {b : Build} {limits : Limits}

/-- **A cancel of an open order** leaves one open order less. -/
theorem Reaches.cancels (hr : Reaches b limits h e) (hu : Unwrapped b h)
    (hseq : b.Room (h.length + 1 < 2 ^ 64)) {pair : Pair} {order : Order}
    (ho : order ∈ (e.book pair).orders) (howner : order.accountId = a) :
    ∃ r e', Reaches b limits (h ++ [r]) e' ∧ Leaving a e e' [r] ∧ Unwrapped b (h ++ [r]) ∧
      e'.openCount a + 1 = e.openCount a := by
  have hacc := hr.accounted hu.net
  have htotal := hacc.total_lt hu.now
  have hi := (hr.indexed hu.places).1
  have hfit : ∀ pair, b.Room (e.book pair).LevelsFit := fun pair => by
    cases b with
    | debug => exact .inr (hr.levelsFit pair)
    | release => exact .inl rfl
  obtain ⟨cid, hkey⟩ := hr.fresh_key a
  obtain ⟨⟨e', response, batch⟩, happly⟩ := apply_cancel_returns hacc.shape hacc.backed
    hr.dirtyHas htotal hfit hkey
    (hseq.imp fun hlen => Nat.lt_of_le_of_lt (Nat.succ_le_succ hr.nextSeq_le) hlen) .sorted
    { orderId := order.id }
  obtain ⟨pre, post, hlocates⟩ := hi.locates hacc.shape ho
  obtain rfl := hlocates.answered howner rfl hkey happly
  have hr' := hr.snoc happly
  obtain ⟨dedup, n, t, _, rfl⟩ := apply_cancelled happly
  have hi' : (e.keyed dedup).Indexed := hi.of_books rfl rfl rfl
  have hs' : (e.keyed dedup).Shape := hacc.shape.of_books rfl
  have hb' : (e.keyed dedup).Backed := hacc.backed
  have hlocates' : (e.keyed dedup).Locates pair order pre post := hlocates.of_books rfl rfl
  obtain ⟨hpair, horder, _⟩ := hlocates'.removes t howner rfl
  obtain ⟨_, _, hperm⟩ := t.removed_order hi'
  have hc := t.cancelled hs' hb' (.inr htotal)
  have hbook : ∀ pair', t.engine.book pair' = if pair' = t.pair then t.book else e.book pair' :=
    book_insert rfl
  rw [horder] at hc hperm
  have hperm : (e.book t.pair).orders.Perm (order :: t.book.orders) := hperm
  refine ⟨_, _, hr', ?_, hu.snoc (fun _ => rfl) rfl, ?_⟩
  · constructor
    case calls =>
      intro r hr
      cases List.mem_singleton.mp hr
      exact ⟨rfl, rfl, .inl ⟨_, rfl⟩⟩
    case held =>
      intro c
      have havail := hc.available a c
      have hresv := hc.reserved a c
      change (t.engine.ledger.balance a c).available.toNat
        + (t.engine.ledger.balance a c).reserved.toNat + 0
        = (e.ledger.balance a c).available.toNat + (e.ledger.balance a c).reserved.toNat
      have hkept : ((e.keyed dedup).ledger.balance a c) = e.ledger.balance a c := rfl
      rw [hkept] at havail hresv
      omega
    case others =>
      intro a' hne c
      have hnot : ¬ (a' = order.accountId ∧ c = t.pair.reserves order.side) := fun hof =>
        hne (hof.1.trans howner)
      have havail := hc.available a' c
      have hresv := hc.reserved a' c
      rw [if_neg hnot, Nat.add_zero] at havail hresv
      exact Balance.eq_of_toNat havail hresv
    case orders =>
      intro pair'
      change (List.filter _ _).Perm (List.filter _ (t.engine.book pair').orders)
      rw [hbook]
      split
      · rename_i heq
        rw [heq]
        have hfiltered := hperm.filter fun o => decide (o.accountId ≠ a)
        rwa [List.filter_cons_of_neg (by simp [howner])] at hfiltered
      · exact List.Perm.refl _
  · -- the sum over the books loses one order in one book
    change (∑ pair', (t.engine.book pair').orders.countP _) + 1 = _
    rw [Engine.openCount, ← Finset.add_sum_erase _ _ (Finset.mem_univ t.pair),
      ← Finset.add_sum_erase _ _ (Finset.mem_univ t.pair), hperm.countP_eq,
      List.countP_cons_of_pos (by simp [howner]), hbook, if_pos rfl]
    have hrest : ∀ pair' ∈ Finset.univ.erase t.pair,
        (t.engine.book pair').orders.countP (fun o => decide (o.accountId = a))
          = (e.book pair').orders.countP fun o => decide (o.accountId = a) := by
      intro pair' hpair'
      rw [hbook, if_neg (Finset.ne_of_mem_erase hpair')]
    rw [Finset.sum_congr rfl hrest]
    omega

/-- **A withdrawal of all that is available**, once nothing is open. -/
theorem Reaches.withdraws (hr : Reaches b limits h e) (hu : Unwrapped b h)
    (hseq : b.Room (h.length + 1 < 2 ^ 64)) (hopen : e.openCount a = 0) (c : Currency) :
    ∃ r e', Reaches b limits (h ++ [r]) e' ∧ Leaving a e e' [r] ∧ Unwrapped b (h ++ [r]) ∧
      e'.openCount a = 0 ∧
      ∀ c', e'.ledger.balance a c' = if c' = c then {} else e.ledger.balance a c' := by
  have hacc := hr.accounted hu.net
  obtain ⟨cid, hkey⟩ := hr.fresh_key a
  obtain ⟨dedup, hdedup, _⟩ := Dedup.insert_fresh hkey
  let req : WithdrawRequest := { amount := (e.ledger.balance a c).available, currency := c }
  obtain ⟨⟨l, res⟩, hwithdraw⟩ := withdraw_eq b e.ledger a c req.amount
  rcases withdraw_ok hwithdraw with ⟨_, hlt, _⟩ | ⟨rfl, _, bal, hl, hbank⟩
  · exact absurd hlt (Nat.lt_irrefl _)
  have hdispatch : Engine.dispatch b .sorted (e.keyed dedup) a (.withdraw req)
      = .ok ({ e.keyed dedup with ledger := l }, .withdraw (.ok ()), []) := by
    change (e.ledger.withdraw b a c req.amount >>= _) = _
    rw [hwithdraw]
    rfl
  obtain ⟨n, batch, happly⟩ := apply_eq hdedup hdispatch
    (dispatch_dirtyHas (e := e.keyed dedup) hr.dirtyHas hdispatch)
    (hseq.imp fun hlen => Nat.lt_of_le_of_lt (Nat.succ_le_succ hr.nextSeq_le) hlen)
  have havail : ∀ a' c', (l.balance a' c').available.toNat
      = (e.ledger.balance a' c').available.toNat
        - if a' = a ∧ c' = c then (e.ledger.balance a c).available.toNat else 0 := by
    intro a' c'
    change l.bank.avail a' c' = _
    rw [hbank, Accounts.avail_withdraw]
    rfl
  have hresv : ∀ a' c', (l.balance a' c').reserved.toNat
      = (e.ledger.balance a' c').reserved.toNat := by
    intro a' c'
    change l.bank.resv a' c' = _
    rw [hbank]
    rfl
  refine ⟨_, _, hr.snoc happly, ?_, hu.snoc (fun _ => rfl) rfl, hopen, fun c' => ?_⟩
  · constructor
    case calls =>
      intro r hr
      cases List.mem_singleton.mp hr
      exact ⟨rfl, rfl, .inr ⟨_, rfl⟩⟩
    case held =>
      intro c'
      have havail := havail a c'
      have hresv := hresv a c'
      change (l.balance a c').available.toNat + (l.balance a c').reserved.toNat
        + ((if c' = c then (e.ledger.balance a c).available.toNat else 0) + 0)
        = (e.ledger.balance a c').available.toNat + (e.ledger.balance a c').reserved.toNat
      by_cases hc : c' = c
      · subst hc
        rw [if_pos ⟨rfl, rfl⟩] at havail
        rw [if_pos rfl]
        omega
      · rw [if_neg fun hof => hc hof.2] at havail
        rw [if_neg hc]
        omega
    case others =>
      intro a' hne c'
      have havail := havail a' c'
      rw [if_neg fun hof => hne hof.1] at havail
      exact Balance.eq_of_toNat havail (hresv a' c')
    case orders => exact fun pair => List.Perm.refl _
  · change l.balance a c' = _
    have havail := havail a c'
    by_cases hc : c' = c
    · subst hc
      rw [if_pos ⟨rfl, rfl⟩, Nat.sub_self] at havail
      have hnothing : (e.ledger.balance a c').reserved.toNat = 0 :=
        (hacc.backed a c').trans (committed_of_openCount hacc.shape hopen c')
      rw [if_pos rfl]
      exact Balance.eq_of_toNat havail ((hresv a c').trans hnothing)
    · rw [if_neg fun hof => hc hof.2] at havail
      rw [if_neg hc]
      exact Balance.eq_of_toNat havail (hresv a c')

/-! ## All of them -/

/-- Cancel one open order after the other. -/
theorem Reaches.cancels_all {n : ℕ} : ∀ {h : List Record} {e : Engine}, Reaches b limits h e →
    Unwrapped b h → e.openCount a = n → b.Room (h.length + n < 2 ^ 64) →
    ∃ h' e', Reaches b limits (h ++ h') e' ∧ Leaving a e e' h' ∧ Unwrapped b (h ++ h') ∧
      h'.length = n ∧ e'.openCount a = 0 := by
  induction n with
  | zero =>
      intro h e hr hu hopen _
      exact ⟨[], e, by rwa [List.append_nil], .refl a e, by rwa [List.append_nil], rfl, hopen⟩
  | succ n ih =>
      intro h e hr hu hopen hseq
      obtain ⟨pair, _, hpair⟩ := Finset.exists_ne_zero_of_sum_ne_zero
        (show ∑ pair, (e.book pair).orders.countP (fun o => decide (o.accountId = a)) ≠ 0 from
          fun hzero => by rw [Engine.openCount, hzero] at hopen; cases hopen)
      obtain ⟨order, ho, howner⟩ := List.countP_pos_iff.mp (Nat.pos_of_ne_zero hpair)
      obtain ⟨r, e₁, hr₁, hl₁, hu₁, hless⟩ := hr.cancels hu
        (hseq.imp fun hlen => by omega) ho (of_decide_eq_true howner)
      obtain ⟨h', e', hr', hl', hu', hlen, hnone⟩ := ih hr₁ hu₁ (by omega)
        (hseq.imp fun hlen => by rw [List.length_append, List.length_singleton]; omega)
      refine ⟨[r] ++ h', e', ?_, hl₁.trans hl', ?_, ?_, hnone⟩
      · rwa [← List.append_assoc]
      · rwa [← List.append_assoc]
      · rw [List.length_append, List.length_singleton, hlen, Nat.add_comm]

end

/-- **No funds are stuck.** From every state a run reaches, an account can
leave with all it has, by cancelling its open orders and two withdrawals: each
call is accepted, what is withdrawn is what it held, available and reserved,
and the other accounts keep their balances and orders. -/
theorem funds_withdrawable {b : Build} {limits : Limits} {h : List Record} {e : Engine}
    (hr : Reaches b limits h e) (hnow : ∀ c, netDeposits h c < 2 ^ 64)
    (hnet : b.Checks (NetBelow h)) (hplaces : b.Checks (places h < 2 ^ 64)) (a : AccountId)
    (hseq : b.Room (h.length + e.openCount a + 2 < 2 ^ 64)) :
    ∃ h' e', Reaches b limits (h ++ h') e' ∧ h'.length = e.openCount a + 2 ∧
      (∀ r ∈ h', r.accountId = a ∧ r.response.accepted = true ∧
        ((∃ req, r.command = .cancel req) ∨ ∃ req, r.command = .withdraw req)) ∧
      (∀ c, withdrawals h' c = (e.ledger.balance a c).available.toNat
        + (e.ledger.balance a c).reserved.toNat) ∧
      (∀ c, e'.ledger.balance a c = {}) ∧
      (∀ pair, ∀ o ∈ (e'.book pair).orders, o.accountId ≠ a) ∧
      (∀ a' ≠ a, ∀ c, e'.ledger.balance a' c = e.ledger.balance a' c) ∧
      ∀ pair, ((e.book pair).ordersOfOthers a).Perm (e'.book pair).orders := by
  obtain ⟨h₁, e₁, hr₁, hl₁, hu₁, hlen₁, hopen₁⟩ := hr.cancels_all (a := a) ⟨hnow, hnet, hplaces⟩ rfl
    (hseq.imp fun hlen => by omega)
  obtain ⟨r₂, e₂, hr₂, hl₂, hu₂, hopen₂, hbal₂⟩ := hr₁.withdraws hu₁
    (hseq.imp fun hlen => by rw [List.length_append, hlen₁]; omega) hopen₁ .USD
  obtain ⟨r₃, e₃, hr₃, hl₃, _, hopen₃, hbal₃⟩ := hr₂.withdraws hu₂
    (hseq.imp fun hlen => by
      rw [List.length_append, List.length_append, hlen₁, List.length_singleton]
      omega) hopen₂ .SOL
  have hl := (hl₁.trans hl₂).trans hl₃
  have hempty : ∀ c, e₃.ledger.balance a c = {} := by
    intro c
    rw [hbal₃]
    cases c with
    | USD => rw [if_neg nofun, hbal₂, if_pos rfl]
    | SOL => rw [if_pos rfl]
  have hnone : ∀ pair, ∀ o ∈ (e₃.book pair).orders, o.accountId ≠ a := by
    intro pair o ho
    have hcount := Finset.sum_eq_zero_iff.mp hopen₃ pair (Finset.mem_univ pair)
    simpa using List.countP_eq_zero.mp hcount o ho
  refine ⟨h₁ ++ [r₂] ++ [r₃], e₃, ?_, ?_, hl.calls, fun c => ?_, hempty, hnone, hl.others,
    fun pair => ?_⟩
  · rwa [← List.append_assoc, ← List.append_assoc]
  · rw [List.length_append, List.length_append, hlen₁]
    rfl
  · have hheld := hl.held c
    have hzero : e₃.held a c = 0 := by
      change (e₃.ledger.balance a c).available.toNat + (e₃.ledger.balance a c).reserved.toNat = 0
      rw [hempty]
      rfl
    rw [hzero, Nat.zero_add] at hheld
    exact hheld
  · have horders := hl.orders pair
    have hself : (e₃.book pair).ordersOfOthers a = (e₃.book pair).orders :=
      List.filter_eq_self.mpr fun o ho => by simpa using hnone pair o ho
    rwa [hself] at horders

/-- After the trading run the buyer leaves with 928 dollars, 11 of which its open
bid had reserved. -/
theorem funds_withdrawable_trading :
    ∃ h' e', Reaches .release .default
        ((finish .default (runCalls .release .default tradingCalls)).2 ++ h') e' ∧
      h'.length = 3 ∧ withdrawals h' .USD = 928 ∧ e'.ledger.balance 2 .USD = {} := by
  obtain ⟨h', e', hr, hlen, _, hall, hempty, _⟩ := funds_withdrawable
    (reaches_runCalls tradingCalls_returned) tradingCalls_net.now (.inr tradingCalls_net)
    (.inr (by decide +kernel)) 2 (.inl rfl)
  refine ⟨h', e', hr, ?_, ?_, hempty .USD⟩
  · rw [hlen]
    decide +kernel
  · rw [hall]
    decide +kernel

end MatchingEngine
