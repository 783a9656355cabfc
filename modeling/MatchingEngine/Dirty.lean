import MatchingEngine.Transition

/-!
# Dirty: what a command changes it marks, and what it marks it can report

Every ledger operation marks the entries it changes, and only keys that have
an entry (`Ledger.Tracked`), in either build and whatever the amounts are. So
the balances at the end of `apply` miss nothing and the lookups there find
their entry; between commands nothing is dirty (`apply_clean`).
-/

namespace MatchingEngine

open RustArith HashModel Bank

/-! ## Ledger operations -/

/-- What changed is marked, and what was marked has an entry. -/
structure Ledger.Tracked (l l' : Ledger) : Prop where
  has : ∀ key, l.Has key → l'.Has key
  grows : l.dirty ⊆ l'.dirty
  frame : ∀ a c, (a, c) ∉ l'.dirty → l'.balance a c = l.balance a c
  entry : ∀ key ∈ l'.dirty, key ∈ l.dirty ∨ l'.Has key

theorem Ledger.Tracked.refl (l : Ledger) : l.Tracked l where
  has _ h := h
  grows := Finset.Subset.refl _
  frame _ _ _ := rfl
  entry _ h := .inl h

theorem Ledger.Tracked.trans {l l' l'' : Ledger} (h : l.Tracked l') (h' : l'.Tracked l'') :
    l.Tracked l'' where
  has key hkey := h'.has key (h.has key hkey)
  grows := h.grows.trans h'.grows
  frame a c hno := (h'.frame a c hno).trans (h.frame a c fun hin => hno (h'.grows hin))
  entry key hkey := by
    rcases h'.entry key hkey with hkey | hkey
    · exact (h.entry key hkey).imp id (h'.has key)
    · exact .inr hkey

theorem Ledger.Quiet.tracked {l l' : Ledger} (h : l.Quiet l') : l.Tracked l' where
  has := h.has
  grows := h.dirty ▸ Finset.Subset.refl _
  frame a c _ := h.balance a c
  entry _ hkey := .inl (h.dirty ▸ hkey)

theorem Ledger.tracked_putMark (l : Ledger) (a : AccountId) (c : Currency) (bal : Balance) :
    l.Tracked ((l.put a c bal).mark a c) where
  has _ hkey := hkey.put a c bal
  grows := Finset.subset_insert _ _
  frame a' c' hno := by
    have hne : ¬ (a' = a ∧ c' = c) := by
      rintro ⟨rfl, rfl⟩
      exact hno (Finset.mem_insert_self _ _)
    rw [balance_mark, balance_put, if_neg hne]
  entry key hkey := by
    rcases Finset.mem_insert.mp hkey with rfl | hkey
    · exact .inr (has_put l a c bal)
    · exact .inl hkey

theorem Ledger.Tracked.dirtyHas {l l' : Ledger} (h : l.Tracked l') (hd : l.DirtyHas) :
    l'.DirtyHas := fun key hkey => (h.entry key hkey).elim (fun hin => h.has key (hd key hin)) id

section Operations

variable {b : Build} {l l' : Ledger} {a : AccountId} {c : Currency} {x : UInt64}
  {r : Except RejectReason Unit}

theorem reserve_tracked (h : l.reserve b a c x = .ok (l', r)) : l.Tracked l' := by
  rcases reserve_ok h with ⟨_, _, rfl⟩ | ⟨_, _, bal, rfl, _⟩
  · exact (Ledger.quiet_put_self ..).tracked
  · exact l.tracked_putMark a c bal

theorem release_tracked (h : l.release b a c x = .ok (l', r)) : l.Tracked l' := by
  rcases release_ok h with ⟨_, _, rfl⟩ | ⟨_, _, bal, rfl, _⟩
  · exact (Ledger.quiet_put_self ..).tracked
  · exact l.tracked_putMark a c bal

theorem withdraw_tracked (h : l.withdraw b a c x = .ok (l', r)) : l.Tracked l' := by
  rcases withdraw_ok h with ⟨_, _, rfl⟩ | ⟨_, _, bal, rfl, _⟩
  · exact (Ledger.quiet_put_self ..).tracked
  · exact l.tracked_putMark a c bal

theorem deposit_tracked {y : UInt64} (h : l.deposit b c a x = .ok (l', y)) : l.Tracked l' := by
  obtain ⟨l₁, h₁, rfl, _⟩ := deposit_ok h
  obtain ⟨bal, _, rfl⟩ := modify_ok.mp h₁
  exact l.tracked_putMark a c bal

/-- A half-step of a settlement touches one entry and marks nothing. -/
theorem modify_has {f : Balance → Exec Balance} (h : l.modify a c f = .ok l') :
    l'.dirty = l.dirty ∧ l'.Has (a, c) ∧ (∀ key, l.Has key → l'.Has key) ∧
      ∀ a' c', (a', c') ≠ (a, c) → l'.balance a' c' = l.balance a' c' := by
  obtain ⟨bal, _, rfl⟩ := modify_ok.mp h
  refine ⟨rfl, has_put .., fun _ hkey => hkey.put .., fun a' c' hne => ?_⟩
  rw [balance_put, if_neg fun heq => hne (Prod.ext heq.1 heq.2)]

theorem settle_tracked {pair : Pair} {t : Trade} (h : l.settle b pair t = .ok l') :
    l.Tracked l' := by
  unfold Ledger.settle at h
  obtain ⟨cost, _, h⟩ := bind_ok.mp h
  obtain ⟨l₄, hsteps, h⟩ := bind_ok.mp h
  cases h
  have hall : l₄.dirty = l.dirty ∧ (∀ key, l.Has key → l₄.Has key) ∧
      (l₄.Has (t.takerAccount, pair.quote) ∧ l₄.Has (t.takerAccount, pair.base) ∧
        l₄.Has (t.makerAccount, pair.quote) ∧ l₄.Has (t.makerAccount, pair.base)) ∧
      ∀ a c, (a, c) ≠ (t.takerAccount, pair.quote) → (a, c) ≠ (t.takerAccount, pair.base) →
        (a, c) ≠ (t.makerAccount, pair.quote) → (a, c) ≠ (t.makerAccount, pair.base) →
        l₄.balance a c = l.balance a c := by
    unfold Ledger.settleBalances at hsteps
    -- whichever side takes, the four entries are touched in the same order
    split at hsteps
    all_goals
      obtain ⟨l₁, h₁, hsteps⟩ := bind_ok.mp hsteps
      obtain ⟨l₂, h₂, hsteps⟩ := bind_ok.mp hsteps
      obtain ⟨l₃, h₃, h₄⟩ := bind_ok.mp hsteps
      obtain ⟨hd₁, hk₁, hm₁, hf₁⟩ := modify_has h₁
      obtain ⟨hd₂, hk₂, hm₂, hf₂⟩ := modify_has h₂
      obtain ⟨hd₃, hk₃, hm₃, hf₃⟩ := modify_has h₃
      obtain ⟨hd₄, hk₄, hm₄, hf₄⟩ := modify_has h₄
      refine ⟨hd₄.trans (hd₃.trans (hd₂.trans hd₁)),
        fun key hkey => hm₄ key (hm₃ key (hm₂ key (hm₁ key hkey))),
        ⟨hm₄ _ (hm₃ _ (hm₂ _ hk₁)), hm₄ _ (hm₃ _ hk₂), hm₄ _ hk₃, hk₄⟩,
        fun a c hne₁ hne₂ hne₃ hne₄ => ?_⟩
      rw [hf₄ a c hne₄, hf₃ a c hne₃, hf₂ a c hne₂, hf₁ a c hne₁]
  obtain ⟨hdirty, hmono, ⟨hk₁, hk₂, hk₃, hk₄⟩, hframe⟩ := hall
  have hmarks : ∀ key, key ∈ ((((l₄.mark t.takerAccount pair.quote).mark t.takerAccount
      pair.base).mark t.makerAccount pair.quote).mark t.makerAccount pair.base).dirty ↔
      key = (t.makerAccount, pair.base) ∨ key = (t.makerAccount, pair.quote) ∨
        key = (t.takerAccount, pair.base) ∨ key = (t.takerAccount, pair.quote) ∨
          key ∈ l.dirty := by
    intro key
    simp only [Ledger.mark, Finset.mem_insert, hdirty]
  constructor
  case has => exact hmono
  case grows => exact fun key hkey => (hmarks key).mpr (by simp [hkey])
  case frame =>
    intro a c hno
    rw [hmarks] at hno
    push Not at hno
    obtain ⟨hne₄, hne₃, hne₂, hne₁, _⟩ := hno
    exact hframe a c hne₁ hne₂ hne₃ hne₄
  case entry =>
    intro key hkey
    rcases (hmarks key).mp hkey with rfl | rfl | rfl | rfl | hkey
    · exact .inr hk₄
    · exact .inr hk₃
    · exact .inr hk₂
    · exact .inr hk₁
    · exact .inl hkey

theorem settleTrades_tracked {pair : Pair} {ts : List Trade} : ∀ {l l' : Ledger},
    settleTrades b pair ts l = .ok l' → l.Tracked l' := by
  induction ts with
  | nil => intro l l' h; cases h; exact .refl l
  | cons t ts ih =>
      intro l l' h
      obtain ⟨l₁, h₁, h⟩ := bind_ok.mp h
      exact (settle_tracked h₁).trans (ih h)

end Operations

/-! ## Commands -/

section Reported

variable {b : Build} {o : Drains} {e e' : Engine} {accountId : AccountId}

theorem PlaceTrace.tracked {req : OrderRequest} (t : PlaceTrace b o e accountId req) :
    e.ledger.Tracked t.refunded := by
  have hreserved : e.ledger.Tracked t.reserved := by
    have h := t.reserve
    rw [reserveOrder_eq] at h
    exact reserve_tracked h
  have hsold : t.settled.Tracked t.sold := by
    have h := t.sell
    unfold releaseMarketSell at h
    split at h
    · exact release_tracked h
    · obtain ⟨hl, _⟩ := Prod.mk.inj (Except.ok.inj h)
      exact hl ▸ .refl _
  have hrefunded : t.sold.Tracked t.refunded := by
    have h := t.refund
    unfold releaseSurplus at h
    split at h
    · obtain ⟨_, _, h⟩ := bind_ok.mp h
      obtain ⟨_, _, h⟩ := bind_ok.mp h
      split at h
      · exact release_tracked h
      · obtain ⟨hl, _⟩ := Prod.mk.inj (Except.ok.inj h)
        exact hl ▸ .refl _
    · obtain ⟨hl, _⟩ := Prod.mk.inj (Except.ok.inj h)
      exact hl ▸ .refl _
  exact ((hreserved.trans (settleTrades_tracked t.settle)).trans hsold).trans hrefunded

/-- **Whatever a command changed is dirty.** -/
theorem dispatch_tracked {command : Command} {response : CommandResponse}
    {events : List Event}
    (h : Engine.dispatch b o e accountId command = .ok (e', response, events)) :
    e.ledger.Tracked e'.ledger := by
  have h := dispatch_ok h
  cases command with
  | place req =>
      obtain ⟨r, hplace, _⟩ := h
      rcases placeOrder_ok hplace with ⟨_, l, _, rfl, hquiet⟩ | ⟨t, rfl, _⟩
      · exact hquiet.tracked
      · exact t.tracked
  | cancel req =>
      obtain ⟨r, hcancel, _⟩ := h
      rcases engineCancel_ok hcancel with ⟨_, rfl⟩ | ⟨t, _, rfl⟩
      · exact .refl _
      · exact release_tracked t.release
  | deposit req =>
      obtain ⟨r, hdeposit, _⟩ := h
      rcases engineDeposit_ok hdeposit with ⟨_, _, rfl⟩ | ⟨_, l, _, _, _, _, hl, _, rfl⟩
      · exact .refl _
      · exact deposit_tracked hl
  | withdraw req =>
      obtain ⟨l, r, hwithdraw, rfl, _⟩ := h
      exact withdraw_tracked hwithdraw
  | listPair pair =>
      rcases h.2 with ⟨_, rfl, _⟩ | ⟨_, rfl, _⟩
      · exact .refl _
      · exact .refl _
  | delistPair pair =>
      obtain ⟨_, rfl, _⟩ := h
      exact .refl _

/-- **Whatever a command dirtied has an entry.** -/
theorem dispatch_dirtyHas {command : Command} {response : CommandResponse}
    {events : List Event} (hd : e.ledger.DirtyHas)
    (h : Engine.dispatch b o e accountId command = .ok (e', response, events)) :
    e'.ledger.DirtyHas := (dispatch_tracked h).dirtyHas hd

/-- An entry can be reported. -/
theorem balanceEvent_eq {l : Ledger} {key : AccountId × Currency} (h : l.Has key) :
    ∃ event, balanceEvent l key = .ok event := by
  obtain ⟨balances, balance, hl, hb⟩ := h
  unfold balanceEvent
  rw [hl]
  dsimp only
  rw [hb]
  exact ⟨_, rfl⟩

/-- What is reported is the balance. -/
theorem balanceEvent_ok {l : Ledger} {key : AccountId × Currency} {event : Event}
    (h : balanceEvent l key = .ok event) :
    ∃ balance, l.balance key.1 key.2 = balance ∧
      event = .balanceChanged key.1 key.2 balance.available balance.reserved := by
  unfold balanceEvent at h
  split at h
  · cases h
  · rename_i balances hbalances
    split at h
    · cases h
    · rename_i balance hbalance
      cases h
      refine ⟨balance, balance_of_some ?_, rfl⟩
      rw [hbalances]
      exact hbalance

/-- Between commands nothing is dirty. -/
theorem apply_clean {clientOrderId : UInt64} {command : Command}
    {response : CommandResponse} {batch : Option EventBatch} (hd : e.ledger.dirty = ∅)
    (h : apply b o e accountId clientOrderId command = .ok (e', response, batch)) :
    e'.ledger.dirty = ∅ := by
  rcases apply_ok h with ⟨rfl, _⟩ | ⟨_, _, _, _, _, _, _, ⟨_, _, rfl⟩ | ⟨_, _, _, _, rfl⟩⟩
  · exact hd
  · rfl
  · rfl

theorem Reaches.clean {limits : Limits} {h : List Record} (hr : Reaches b limits h e) :
    e.ledger.dirty = ∅ :=
  hr.invariant (motive := fun _ e => e.ledger.dirty = ∅) rfl
    fun _ _ _ _ _ _ _ _ _ hd happly => apply_clean hd happly

theorem Reaches.dirtyHas {limits : Limits} {h : List Record} (hr : Reaches b limits h e) :
    e.ledger.DirtyHas := fun key hkey => by
  rw [hr.clean] at hkey
  exact absurd hkey (Finset.notMem_empty key)

end Reported

end MatchingEngine
