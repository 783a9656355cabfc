import MatchingEngine.Transition

/-!
# PriceBand: how wide the band of a limit order is

The band is a share of the last traded price, at least 1 wide. `price_band`
multiplies before it divides, and the multiplication saturates: from a product
of `2 ^ 64` on the band stays at the width it has there (`priceBand_iff`), so
it is the stated share exactly below that product (`band_exact_iff`).
-/

namespace MatchingEngine

open RustArith HashModel

/-- How far two prices are apart. -/
def priceDistance (price last : UInt64) : ℕ := ((price.toNat : ℤ) - last.toNat).natAbs

/-- The stated width: so many basis points of the last price, at least 1. -/
def bandWidth (last bps : UInt64) : ℕ := max 1 (last.toNat * bps.toNat / 10000)

/-- What is left of the greatest word when it is divided: no band is wider. -/
def widestBand : ℕ := (2 ^ 64 - 1) / 10000

/-- The width `price_band` uses. -/
theorem bandDelta_toNat (last bps : UInt64) :
    (max (saturatingMul last bps / 10000) 1).toNat = min (bandWidth last bps) widestBand := by
  have hdiv : (saturatingMul last bps / 10000).toNat
      = min (last.toNat * bps.toNat) (2 ^ 64 - 1) / 10000 := by
    rw [UInt64.toNat_div, saturatingMul_toNat]
    rfl
  have hmax : ∀ x : UInt64, (max x 1).toNat = max 1 x.toNat := by
    intro x
    have hone : (1 : UInt64).toNat = 1 := rfl
    rcases le_total x 1 with hle | hle
    · have hle' := UInt64.le_iff_toNat_le.mp hle
      rw [max_eq_right hle]
      omega
    · have hle' := UInt64.le_iff_toNat_le.mp hle
      rw [max_eq_left hle]
      omega
  rw [hmax, hdiv, bandWidth, widestBand]
  omega

/-- **The band, exactly**: a price is outside when it is further from the last
one than the narrower of the stated width and the widest band. -/
theorem priceBand_iff (last bps price : UInt64) :
    (price < (priceBand last bps).1 ∨ price > (priceBand last bps).2)
      ↔ min (bandWidth last bps) widestBand < priceDistance price last := by
  have hdelta := bandDelta_toNat last bps
  have hprice := toNat_lt price
  unfold priceBand priceDistance
  dsimp only
  rw [gt_iff_lt, UInt64.lt_iff_toNat_lt, UInt64.lt_iff_toNat_lt, saturatingSub_toNat,
    saturatingAdd_toNat, hdelta]
  omega

/-- **The band is the stated width** unless the product saturates and the price
lies between the two. -/
theorem priceBand_exact_iff (last bps price : UInt64) :
    ((price < (priceBand last bps).1 ∨ price > (priceBand last bps).2)
        ↔ bandWidth last bps < priceDistance price last)
      ↔ last.toNat * bps.toNat < 2 ^ 64 ∨ priceDistance price last ≤ widestBand ∨
        bandWidth last bps < priceDistance price last := by
  rw [priceBand_iff]
  have hwidest : last.toNat * bps.toNat < 2 ^ 64 → bandWidth last bps ≤ widestBand := by
    intro hfit
    have hdiv : last.toNat * bps.toNat / 10000 ≤ widestBand := Nat.div_le_div_right (by omega)
    exact max_le (by decide) hdiv
  constructor
  · intro h
    by_contra hno
    rw [not_or, not_or] at hno
    obtain ⟨_, hdist, hwidth⟩ := hno
    exact hwidth (h.mp (by omega))
  · rintro (hfit | hdist | hwidth)
    · rw [min_eq_left (hwidest hfit)]
    · omega
    · exact iff_of_true (by omega) hwidth

/-- What the band check of a limit order on a listed market decides. -/
theorem checkOrder_band {e : Engine} {accountId : AccountId} {req : OrderRequest}
    {book : OrderBook} {last bps : UInt64} (hvalid : req.pair.isValid = true)
    (hlisted : req.pair ∈ e.listedPairs) (hlimit : req.orderType = .limit)
    (hbook : e.books.lookup req.pair = some book) (hlast : book.lastTradePrice = some last)
    (hbps : e.limits.priceBandBps = some bps) :
    e.checkOrder accountId req = some .priceOutOfBand
      ↔ req.price < (priceBand last bps).1 ∨ req.price > (priceBand last bps).2 := by
  unfold Engine.checkOrder
  rw [if_neg (by simp [hvalid, hlisted]), hbook]
  simp only [hlimit, hbps, hlast]
  split
  · rename_i hout
    exact iff_of_true rfl (of_decide_eq_true hout)
  · rename_i hin
    refine iff_of_false ?_ fun hout => hin (decide_eq_true hout)
    -- the self-trade guard comes after, with a reason of its own
    split <;> simp

/-- An order is answered with `PriceOutOfBand` by the check alone. -/
theorem placeOrder_outOfBand {b : Build} {o : Drains} {e : Engine} {accountId : AccountId}
    {req : OrderRequest} :
    (∃ e', e.placeOrder b o accountId req = .ok (e', .error .priceOutOfBand))
      ↔ e.checkOrder accountId req = some .priceOutOfBand := by
  constructor
  · rintro ⟨e', h⟩
    rcases placeOrder_refused h with hcheck | habsurd | habsurd
    · exact hcheck
    · cases habsurd
    · cases habsurd
  · intro hcheck
    refine ⟨e, ?_⟩
    unfold Engine.placeOrder
    rw [hcheck]
    rfl

/-- **The band check of `place_order` is the stated rule** for an order of any
price, on a market with any last price and any configured width, if and only
if the product of the two is a word, or both widths decide the same. -/
theorem band_exact_iff {b : Build} {o : Drains} {e : Engine} {accountId : AccountId}
    {req : OrderRequest} {book : OrderBook} {last bps : UInt64}
    (hvalid : req.pair.isValid = true) (hlisted : req.pair ∈ e.listedPairs)
    (hlimit : req.orderType = .limit) (hbook : e.books.lookup req.pair = some book)
    (hlast : book.lastTradePrice = some last) (hbps : e.limits.priceBandBps = some bps) :
    ((∃ e', e.placeOrder b o accountId req = .ok (e', .error .priceOutOfBand))
        ↔ bandWidth last bps < priceDistance req.price last)
      ↔ last.toNat * bps.toNat < 2 ^ 64 ∨ priceDistance req.price last ≤ widestBand ∨
        bandWidth last bps < priceDistance req.price last := by
  rw [placeOrder_outOfBand, checkOrder_band hvalid hlisted hlimit hbook hlast hbps]
  exact priceBand_exact_iff last bps req.price

/-- The default guards without the ceiling on deposits. -/
def unceilinged : Limits where
  depositCeiling := noDepositCeiling
  priceBandBps := some 2000
  preventSelfTrade := true

/-- A market that traded at `price`. -/
def tradedAtCalls (price : UInt64) : List (AccountId × UInt64 × Command) :=
  let market : Pair := { base := .SOL, quote := .USD }
  [(9, 1, .listPair market),
    (1, 1, .deposit { amount := 1, currency := .SOL }),
    (2, 1, .deposit { amount := price, currency := .USD }),
    (1, 2, limitOrder market .ask price 1),
    (2, 2, limitOrder market .bid price 1)]

/-- The engine after that run, under the default band. -/
def tradedAt (price : UInt64) : Engine :=
  (finish unceilinged (runCalls .release unceilinged (tradedAtCalls price))).1

/-- An ask at `price`. -/
def askAt (price : UInt64) : OrderRequest where
  pair := { base := .SOL, quote := .USD }
  orderType := .limit
  side := .ask
  price := price
  size := 1

/-- A market that traded at 100 lets an ask at 120 through, and stops one at
121. -/
theorem band_exact_hundred :
    (∃ e', (tradedAt 100).placeOrder .release .sorted 3 (askAt 121)
        = .ok (e', .error .priceOutOfBand)) ↔ bandWidth 100 2000 < priceDistance 121 100 := by
  have hbook : (tradedAt 100).books.lookup (askAt 121).pair
      = some ((tradedAt 100).book (askAt 121).pair) := by decide +kernel
  exact (band_exact_iff (by decide) (by decide +kernel) rfl hbook (by decide +kernel)
    (by decide +kernel)).mpr (by decide)

/-- A market that traded at `2 ^ 60` stops an ask less than a fifth of a
percent below. -/
theorem band_narrowed :
    Reaches .release unceilinged
        (finish unceilinged (runCalls .release unceilinged
          (tradedAtCalls (UInt64.ofNat (2 ^ 60))))).2
        (tradedAt (UInt64.ofNat (2 ^ 60))) ∧
      ((tradedAt (UInt64.ofNat (2 ^ 60))).book (askAt 0).pair).lastTradePrice
        = some (UInt64.ofNat (2 ^ 60)) ∧
      (tradedAt (UInt64.ofNat (2 ^ 60))).limits.priceBandBps = some 2000 ∧
      ¬ ((∃ e', (tradedAt (UInt64.ofNat (2 ^ 60))).placeOrder .release .sorted 3
            (askAt (UInt64.ofNat (2 ^ 60 - 2 * 10 ^ 15))) = .ok (e', .error .priceOutOfBand))
          ↔ bandWidth (UInt64.ofNat (2 ^ 60)) 2000
            < priceDistance (UInt64.ofNat (2 ^ 60 - 2 * 10 ^ 15)) (UInt64.ofNat (2 ^ 60))) := by
  refine ⟨reaches_runCalls (by decide +kernel), by decide +kernel, by decide +kernel, ?_⟩
  intro hexact
  have hinside : ¬ bandWidth (UInt64.ofNat (2 ^ 60)) 2000
      < priceDistance (UInt64.ofNat (2 ^ 60 - 2 * 10 ^ 15)) (UInt64.ofNat (2 ^ 60)) := by
    decide
  refine hinside (hexact.mp (placeOrder_outOfBand.mpr ?_))
  decide +kernel

end MatchingEngine
